/-
  TON dictionaries: the off-chain serializer (settlement/cell.rs, `store_label` to
  `build_hashmap_root`) and the TL-B rules by which a contract reads the cell.

  `Encodes` relates a node to the entries below it in key order. Building gives a node that
  encodes the given entries whatever their order (`build_encodes`, `buildHashmapNode_perm`), and
  whoever reads a node finds exactly what it encodes (`lookup_encodes`, `traverse_encodes`).
-/
import Duckton.Lib.Prefix
import Duckton.Ton.Cell

namespace Duckton.Ton

open Prefix

/-! ## Writing -/

/-- The width of a label's length field, for labels of at most `maxN` bits. -/
def labelLenBits (maxN : Nat) : Nat :=
  if maxN = 0 then 0 else Nat.log2 maxN + 1

/-- `hml_short$0`: the length in unary. -/
def hmlShort (bits : List Bool) : List Bool :=
  false :: (List.replicate bits.length true ++ false :: bits)

/-- `hml_long$10`. -/
def hmlLong (bits : List Bool) (k : Nat) : List Bool :=
  [true, false] ++ Bits.ofNat k bits.length ++ bits

/-- `hml_same$11`: one repeated bit. -/
def hmlSame (b : Bool) (len k : Nat) : List Bool :=
  [true, true, b] ++ Bits.ofNat k len

/-- The shortest of the three labels; short wins a tie against long, long against same. -/
def storeLabel (bits : List Bool) (maxN : Nat) : List Bool :=
  let l := bits.length
  let k := labelLenBits maxN
  let shortLen := 2 * l + 2
  let longLen := 2 + k + l
  match bits with
  | b :: rest =>
    if rest.all (· == b) then
      let sameLen := 3 + k
      if shortLen ≤ longLen ∧ shortLen ≤ sameLen then hmlShort bits
      else if longLen ≤ sameLen then hmlLong bits k
      else hmlSame b l k
    else if shortLen ≤ longLen then hmlShort bits
    else hmlLong bits k
  | [] => if shortLen ≤ longLen then hmlShort bits else hmlLong bits k

/-- The longest prefix shared by all keys, found by shortening that of the first. -/
def commonPrefixLen : List (List Bool) → Nat
  | [] => 0
  | first :: rest => rest.foldl (fun l key => lcp (first.take l) key) first.length

/-- One entry is a leaf labelled with its whole key, several are a fork. `none` is the panic of an
    out-of-range index: no entry at all, or keys that do not split within their width. -/
def buildHashmapNode : (fuel : Nat) → List (List Bool × Cell) → (n : Nat) → Option Cell
  | 0, _, _ => none
  | _ + 1, [], _ => none
  | _ + 1, [(key, value)], n =>
    some ((Cell.empty.storeBits (storeLabel key n)).storeCellInline value)
  | fuel + 1, e :: e' :: es, n =>
    let l := commonPrefixLen ((e :: e' :: es).map Prod.fst)
    if l < n then do
      let left ← buildHashmapNode fuel (branch false l (e :: e' :: es)) (n - l - 1)
      let right ← buildHashmapNode fuel (branch true l (e :: e' :: es)) (n - l - 1)
      some (((Cell.empty.storeBits (storeLabel (e.1.take l) n)).storeRef left).storeRef right)
    else none

/-- `build_hashmap_root`, which insists on entries and on keys of `n` bits. -/
def buildHashmapRoot (n : Nat) (entries : List (List Bool × Cell)) : Option Cell :=
  if entries ≠ [] ∧ ∀ e ∈ entries, e.1.length = n then buildHashmapNode (n + 1) entries n else none

/-- A possibly empty dictionary: no root, or the root of its entries. -/
def buildDict (n : Nat) : List (List Bool × Cell) → Option (Option Cell)
  | [] => some none
  | e :: es => (buildHashmapRoot n (e :: es)).map some

/-- `HashmapE`: a `0` bit, or a `1` bit and the root. -/
def Cell.storeDictRoot (c : Cell) : Option Cell → Cell
  | none => c.storeUint 0 1
  | some root => (c.storeUint 1 1).storeRef root

/-- `store_dict`. -/
def Cell.storeDict (c : Cell) (n : Nat) (entries : List (List Bool × Cell)) : Option Cell :=
  (buildDict n entries).map c.storeDictRoot

/-! ## Reading -/

/-- A unary number: `1`s up to the first `0`. -/
def loadUnary : List Bool → Option (Nat × List Bool)
  | [] => none
  | false :: rest => some (0, rest)
  | true :: rest => (loadUnary rest).map fun r => (r.1 + 1, r.2)

/-- The first `l` bits, if there are that many. -/
def takeBits (l : Nat) (bs : List Bool) : Option (List Bool × List Bool) :=
  if l ≤ bs.length then some (bs.take l, bs.drop l) else none

/-- `HmLabel ~l n`: the label, of at most `n` bits, and what follows it. -/
def loadLabel (n : Nat) (bs : List Bool) : Option (List Bool × List Bool) := do
  let (label, rest) ← match bs with
    | false :: bs => do
      let (l, bs) ← loadUnary bs
      takeBits l bs
    | true :: false :: bs => do
      let (len, bs) ← takeBits (labelLenBits n) bs
      takeBits (Bits.toNat len) bs
    | true :: true :: b :: bs => do
      let (len, bs) ← takeBits (labelLenBits n) bs
      some (List.replicate (Bits.toNat len) b, bs)
    | _ => none
  if label.length ≤ n then some (label, rest) else none

/-- The value under `key` in a `Hashmap n` node; the outer `none` is a malformed node. -/
def lookup : (fuel : Nat) → Cell → (n : Nat) → (key : List Bool) → Option (Option Slice)
  | 0, _, _, _ => none
  | fuel + 1, c, n, key => do
    let (label, rest) ← loadLabel n c.bits
    if key.take label.length = label then
      if label.length = n then some (some ⟨rest, c.refs⟩)
      else match key.drop label.length, c.refs with
        | b :: key, left :: right :: _ =>
          lookup fuel (if b then right else left) (n - label.length - 1) key
        | _, _ => none
    else some none

/-- All entries of a `Hashmap n` node in key order. -/
def traverse : (fuel : Nat) → Cell → (n : Nat) → Option (List (List Bool × Slice))
  | 0, _, _ => none
  | fuel + 1, c, n => do
    let (label, rest) ← loadLabel n c.bits
    if label.length = n then some [(label, ⟨rest, c.refs⟩)]
    else match c.refs with
      | left :: right :: _ => do
        let ls ← traverse fuel left (n - label.length - 1)
        let rs ← traverse fuel right (n - label.length - 1)
        some (ls.map (fun e => (label ++ false :: e.1, e.2)) ++
          rs.map (fun e => (label ++ true :: e.1, e.2)))
      | _ => none

/-- `map.get`, on the root a dictionary was loaded with. -/
def dictGet (root : Option Cell) (n : Nat) (key : List Bool) : Option (Option Slice) :=
  match root with
  | none => some none
  | some c => lookup (n + 1) c n key

/-- The entries that `findFirst` and `iterateNext` visit. -/
def dictEntries (root : Option Cell) (n : Nat) : Option (List (List Bool × Slice)) :=
  match root with
  | none => some []
  | some c => traverse (n + 1) c n

/-! ## Labels -/

variable {n fuel : Nat} {bits key : List Bool} {root : Option Cell}

theorem lt_labelLenBits {l : Nat} (h : l ≤ n) : l < 2 ^ labelLenBits n := by
  unfold labelLenBits
  split
  · omega
  · exact lt_of_le_of_lt h Nat.lt_log2_self

theorem loadUnary_replicate (l : Nat) (rest : List Bool) :
    loadUnary (List.replicate l true ++ false :: rest) = some (l, rest) := by
  induction l with
  | zero => rfl
  | succ l ih =>
    rw [List.replicate_succ, List.cons_append, loadUnary, ih]
    rfl

theorem takeBits_append (bs rest : List Bool) :
    takeBits bs.length (bs ++ rest) = some (bs, rest) := by
  unfold takeBits
  rw [if_pos (by rw [List.length_append]; omega), List.take_left, List.drop_left]

theorem takeBits_ofNat (k v : Nat) (rest : List Bool) :
    takeBits k (Bits.ofNat k v ++ rest) = some (Bits.ofNat k v, rest) := by
  have h := takeBits_append (Bits.ofNat k v) rest
  rwa [Bits.length_ofNat] at h

theorem loadLabel_hmlShort (h : bits.length ≤ n) (rest : List Bool) :
    loadLabel n (hmlShort bits ++ rest) = some (bits, rest) := by
  unfold loadLabel hmlShort
  simp only [List.cons_append, List.append_assoc, loadUnary_replicate, takeBits_append,
    Option.bind_eq_bind, Option.bind_some, if_pos h]

theorem loadLabel_hmlLong (h : bits.length ≤ n) (rest : List Bool) :
    loadLabel n (hmlLong bits (labelLenBits n) ++ rest) = some (bits, rest) := by
  unfold loadLabel hmlLong
  simp only [List.cons_append, List.nil_append, List.append_assoc, takeBits_ofNat,
    Bits.toNat_ofNat_of_lt (lt_labelLenBits h), takeBits_append, Option.bind_eq_bind,
    Option.bind_some, if_pos h]

theorem loadLabel_hmlSame {l : Nat} (h : l ≤ n) (b : Bool) (rest : List Bool) :
    loadLabel n (hmlSame b l (labelLenBits n) ++ rest) = some (List.replicate l b, rest) := by
  unfold loadLabel hmlSame
  simp only [List.cons_append, List.nil_append, takeBits_ofNat,
    Bits.toNat_ofNat_of_lt (lt_labelLenBits h), Option.bind_eq_bind, Option.bind_some,
    List.length_replicate, if_pos h]

variable {rest label : List Bool} {c : Cell} {es es' : List (List Bool × Cell)}
  {e : List Bool × Cell}

theorem eq_replicate_of_all {b : Bool} (h : rest.all (· == b) = true) :
    b :: rest = List.replicate (b :: rest).length b :=
  List.eq_replicate_iff.mpr ⟨rfl, List.forall_mem_cons.mpr
    ⟨rfl, fun x hx => eq_of_beq (List.all_eq_true.mp h x hx)⟩⟩

/-- The encodings of a label of at most `n` bits: TL-B `HmLabel`. -/
inductive IsLabel (n : Nat) : List Bool → List Bool → Prop
  | short (bits : List Bool) : IsLabel n bits (hmlShort bits)
  | long (bits : List Bool) : IsLabel n bits (hmlLong bits (labelLenBits n))
  | same (b : Bool) (len : Nat) :
      IsLabel n (List.replicate len b) (hmlSame b len (labelLenBits n))

/-- The encoding is a shortest one of the label. -/
structure ShortestLabel (n : Nat) (label encoding : List Bool) : Prop where
  isLabel : IsLabel n label encoding
  shortest : ∀ other, IsLabel n label other → encoding.length ≤ other.length

theorem length_hmlShort (bits : List Bool) : (hmlShort bits).length = 2 * bits.length + 2 := by
  simp [hmlShort]
  omega

theorem length_hmlLong (bits : List Bool) (k : Nat) :
    (hmlLong bits k).length = 2 + k + bits.length := by
  simp [hmlLong]
  omega

theorem length_hmlSame (b : Bool) (len k : Nat) : (hmlSame b len k).length = 3 + k := by
  simp [hmlSame]
  omega

/-- What the encodings of a label measure; the third one needs equal bits. -/
theorem IsLabel.length_cases {encoding : List Bool} (h : IsLabel n label encoding) :
    encoding.length = 2 * label.length + 2 ∨
      encoding.length = 2 + labelLenBits n + label.length ∨
      (∃ b, label = List.replicate label.length b) ∧ encoding.length = 3 + labelLenBits n := by
  cases h with
  | short => exact .inl (length_hmlShort label)
  | long => exact .inr (.inl (length_hmlLong label _))
  | same b len => exact .inr (.inr ⟨⟨b, by rw [List.length_replicate]⟩, length_hmlSame b len _⟩)

theorem all_eq_of_replicate {b c : Bool} (h : b :: rest = List.replicate (b :: rest).length c) :
    rest.all (· == b) = true := by
  have hmem := (List.eq_replicate_iff.mp h).2
  rw [List.all_eq_true]
  intro x hx
  rw [hmem x (List.mem_cons_of_mem b hx), hmem b List.mem_cons_self]
  exact beq_self_eq_true c

/-- The stored label is never longer than another of its encodings. -/
theorem shortestLabel_storeLabel (label : List Bool) (n : Nat) :
    ShortestLabel n label (storeLabel label n) := by
  unfold storeLabel
  cases label with
  | nil =>
    dsimp only
    rw [if_pos (by simp)]
    refine ⟨.short [], fun other hother => ?_⟩
    have hlen := hother.length_cases
    rw [length_hmlShort]
    simp only [List.length_nil] at hlen ⊢
    omega
  | cons b rest =>
    dsimp only
    split_ifs with hall hshort hlong hshort
    · refine ⟨.short _, fun other hother => ?_⟩
      have hlen := hother.length_cases
      rw [length_hmlShort]
      omega
    · refine ⟨.long _, fun other hother => ?_⟩
      have hlen := hother.length_cases
      rw [length_hmlLong]
      omega
    · have hsame := eq_replicate_of_all hall
      refine ⟨?_, fun other hother => ?_⟩
      · have hlabel := IsLabel.same (n := n) b (b :: rest).length
        rwa [← hsame] at hlabel
      · have hlen := hother.length_cases
        rw [length_hmlSame]
        omega
    -- Without equal bits the third form is not available.
    · refine ⟨.short _, fun other hother => ?_⟩
      rw [length_hmlShort]
      rcases hother.length_cases with hlen | hlen | ⟨⟨c, hc⟩, _⟩
      · omega
      · omega
      · exact absurd (all_eq_of_replicate hc) hall
    · refine ⟨.long _, fun other hother => ?_⟩
      rw [length_hmlLong]
      rcases hother.length_cases with hlen | hlen | ⟨⟨c, hc⟩, _⟩
      · omega
      · omega
      · exact absurd (all_eq_of_replicate hc) hall

/-- Whichever form was chosen, the label is read back. -/
theorem loadLabel_storeLabel (h : bits.length ≤ n)
    (rest : List Bool) : loadLabel n (storeLabel bits n ++ rest) = some (bits, rest) := by
  have hlabel := (shortestLabel_storeLabel bits n).isLabel
  generalize storeLabel bits n = encoding at hlabel ⊢
  cases hlabel with
  | short => exact loadLabel_hmlShort h rest
  | long => exact loadLabel_hmlLong h rest
  | same b len => exact loadLabel_hmlSame (by rwa [List.length_replicate] at h) b rest

theorem loadLabel_length {bs : List Bool} (h : loadLabel n bs = some (label, rest)) :
    label.length ≤ n := by
  have hguard : ∀ {l : List Bool × List Bool},
      (if l.1.length ≤ n then some (l.1, l.2) else none) = some (label, rest) →
      label.length ≤ n := by
    intro l hl
    obtain ⟨hle, hl⟩ := Option.ite_none_right_eq_some.mp hl
    cases hl
    exact hle
  unfold loadLabel at h
  simp only [Option.bind_eq_bind] at h
  split at h
  case h_1 | h_2 =>
    obtain ⟨_, -, h⟩ := Option.bind_eq_some_iff.mp h
    obtain ⟨_, -, h⟩ := Option.bind_eq_some_iff.mp h
    exact hguard h
  case h_3 =>
    obtain ⟨_, -, h⟩ := Option.bind_eq_some_iff.mp h
    exact hguard h
  case h_4 => cases h

/-- Whatever the node is, a full traversal gives keys of its width, and none twice: the branches
    below a fork differ in the bit after the label. -/
theorem traverse_keyed {c : Cell} {es : List (List Bool × Slice)}
    (h : traverse fuel c n = some es) : Keyed n es := by
  induction fuel generalizing c n es with
  | zero => cases h
  | succ fuel ih =>
    rw [traverse] at h
    simp only [Option.bind_eq_bind, Option.bind_eq_some_iff] at h
    obtain ⟨⟨label, rest⟩, hlabel, h⟩ := h
    have hle := loadLabel_length hlabel
    split at h
    · rename_i hfull
      cases h
      exact ⟨List.forall_mem_singleton.mpr hfull, List.nodup_singleton label⟩
    · rename_i hfork
      split at h
      · rename_i left right _ _
        obtain ⟨ls, hls, rs, hrs, h⟩ := by
          simpa only [Option.bind_eq_bind, Option.bind_eq_some_iff] using h
        cases h
        obtain ⟨hlsLen, hlsNodup⟩ := ih hls
        obtain ⟨hrsLen, hrsNodup⟩ := ih hrs
        dsimp only at hle hfork hlsLen hrsLen
        have hbelow : ∀ (b : Bool) (es : List (List Bool × Slice)),
            (es.map fun e => (label ++ b :: e.1, e.2)).map Prod.fst =
              (es.map Prod.fst).map fun k => label ++ b :: k := by
          simp
        have hlen : ∀ (b : Bool) {es : List (List Bool × Slice)},
            (∀ e ∈ es, e.1.length = n - label.length - 1) →
            ∀ e ∈ es.map fun e => (label ++ b :: e.1, e.2), e.1.length = n := by
          intro b es hes
          rw [List.forall_mem_map]
          intro e he
          rw [List.length_append, List.length_cons, hes e he]
          omega
        have hinj : ∀ b : Bool, Function.Injective fun k : List Bool => label ++ b :: k := by
          intro b k k' hk
          exact List.tail_eq_of_cons_eq (List.append_cancel_left hk)
        refine ⟨List.forall_mem_append.mpr ⟨hlen false hlsLen, hlen true hrsLen⟩, ?_⟩
        rw [List.map_append, hbelow, hbelow, List.nodup_append]
        refine ⟨hlsNodup.map (hinj false), hrsNodup.map (hinj true), ?_⟩
        intro k hk k' hk' heq
        obtain ⟨k₁, -, rfl⟩ := List.mem_map.mp hk
        obtain ⟨k₂, -, rfl⟩ := List.mem_map.mp hk'
        cases List.head_eq_of_cons_eq (List.append_cancel_left heq)
      · cases h

theorem dictEntries_keyed {es : List (List Bool × Slice)} (h : dictEntries root n = some es) :
    Keyed n es := by
  cases root with
  | none =>
    cases h
    exact ⟨nofun, List.nodup_nil⟩
  | some c => exact traverse_keyed h

/-! ## Nodes and what they encode -/

/-- A node of width `n` with the entries below it, in key order. -/
inductive Encodes : Cell → Nat → List (List Bool × Cell) → Prop
  | leaf (key : List Bool) (value : Cell) :
      Encodes (.mk (storeLabel key key.length ++ value.bits) value.refs) key.length [(key, value)]
  | fork (p : List Bool) {left right : Cell} {m : Nat} {ls rs : List (List Bool × Cell)}
      (hl : Encodes left m ls) (hr : Encodes right m rs) :
      Encodes (.mk (storeLabel p (p.length + m + 1)) [left, right]) (p.length + m + 1)
        (ls.map (fun e => (p ++ false :: e.1, e.2)) ++ rs.map (fun e => (p ++ true :: e.1, e.2)))

theorem traverse_encodes (h : Encodes c n es) (hf : n < fuel) :
    traverse fuel c n = some (es.map fun e => (e.1, e.2.toSlice)) := by
  induction h generalizing fuel with
  | leaf key value =>
    obtain ⟨fuel, rfl⟩ : ∃ f, fuel = f + 1 := ⟨fuel - 1, by omega⟩
    unfold traverse
    simp only [Cell.bits_mk, Cell.refs_mk, loadLabel_storeLabel (Nat.le_refl _),
      Option.bind_eq_bind, Option.bind_some, if_true]
    rfl
  | fork p hl hr ihl ihr =>
    rename_i m ls rs
    obtain ⟨fuel, rfl⟩ : ∃ f, fuel = f + 1 := ⟨fuel - 1, by omega⟩
    have hlabel := loadLabel_storeLabel (show p.length ≤ p.length + m + 1 by omega) []
    rw [List.append_nil] at hlabel
    have hm : p.length + m + 1 - p.length - 1 = m := by omega
    have hne : p.length ≠ p.length + m + 1 := by omega
    unfold traverse
    simp only [Cell.bits_mk, Cell.refs_mk, hlabel, Option.bind_eq_bind, Option.bind_some,
      if_neg hne, hm, ihl (show m < fuel by omega), ihr (show m < fuel by omega),
      List.map_append, List.map_map]
    rfl

/-- The value stored under `key`. -/
def valueAt (es : List (List Bool × Cell)) (key : List Bool) : Option Slice :=
  (es.find? fun e => e.1 = key).map fun e => e.2.toSlice

theorem valueAt_append (es es' : List (List Bool × Cell)) (key : List Bool) :
    valueAt (es ++ es') key = (valueAt es key).or (valueAt es' key) := by
  unfold valueAt
  rw [List.find?_append]
  cases es.find? fun e => e.1 = key <;> rfl

theorem valueAt_below (p : List Bool) (b b' : Bool) (es : List (List Bool × Cell))
    (key : List Bool) :
    valueAt (es.map fun e => (p ++ b :: e.1, e.2)) (p ++ b' :: key) =
      if b = b' then valueAt es key else none := by
  unfold valueAt
  rw [List.find?_map]
  by_cases h : b = b'
  · subst h
    have hp : ((fun e : List Bool × Cell => decide (e.1 = p ++ b :: key)) ∘
        fun e : List Bool × Cell => (p ++ b :: e.1, e.2)) = fun e => decide (e.1 = key) := by
      funext e
      simp
    rw [hp, if_pos rfl, Option.map_map]
    rfl
  · have hp : ((fun e : List Bool × Cell => decide (e.1 = p ++ b' :: key)) ∘
        fun e : List Bool × Cell => (p ++ b :: e.1, e.2)) = fun _ => false := by
      funext e
      simp [h]
    rw [hp, if_neg h, List.find?_eq_none.mpr (by simp)]
    rfl

theorem valueAt_eq_none (h : ∀ e ∈ es, e.1 ≠ key) :
    valueAt es key = none := by
  unfold valueAt
  rw [List.find?_eq_none.mpr (by simpa using h)]
  rfl

theorem lookup_encodes (h : Encodes c n es) (hf : n < fuel) (hk : key.length = n) :
    lookup fuel c n key = some (valueAt es key) := by
  induction h generalizing fuel key with
  | leaf key' value =>
    obtain ⟨fuel, rfl⟩ : ∃ f, fuel = f + 1 := ⟨fuel - 1, by omega⟩
    have htake : key.take key'.length = key := List.take_of_length_le hk.le
    unfold lookup valueAt
    simp only [Cell.bits_mk, Cell.refs_mk, loadLabel_storeLabel (Nat.le_refl _),
      Option.bind_eq_bind, Option.bind_some, htake, List.find?_cons, List.find?_nil]
    by_cases heq : key = key'
    · rw [if_pos heq, if_true, decide_eq_true heq.symm]
      rfl
    · rw [if_neg heq, decide_eq_false (Ne.symm heq)]
      rfl
  | fork p hl hr ihl ihr =>
    rename_i left right m ls rs
    obtain ⟨fuel, rfl⟩ : ∃ f, fuel = f + 1 := ⟨fuel - 1, by omega⟩
    have hlabel := loadLabel_storeLabel (show p.length ≤ p.length + m + 1 by omega) []
    rw [List.append_nil] at hlabel
    have hm : p.length + m + 1 - p.length - 1 = m := by omega
    have hne : p.length ≠ p.length + m + 1 := by omega
    unfold lookup
    simp only [Cell.bits_mk, Cell.refs_mk, hlabel, Option.bind_eq_bind, Option.bind_some]
    by_cases hp : key.take p.length = p
    · -- the key goes on below the label
      obtain ⟨below, rfl⟩ : p <+: key := hp ▸ List.take_prefix _ _
      obtain ⟨b, key', rfl⟩ : ∃ b key', below = b :: key' :=
        List.exists_cons_of_length_eq_add_one (n := m) (by rw [List.length_append] at hk; omega)
      have hk' : key'.length = m := by simpa [Nat.add_assoc] using hk
      rw [if_pos hp, if_neg hne, List.drop_left, hm, valueAt_append, valueAt_below, valueAt_below]
      cases b with
      | false =>
        have hrec := ihl (show m < fuel by omega) hk'
        simpa using hrec
      | true =>
        have hrec := ihr (show m < fuel by omega) hk'
        simpa using hrec
    · rw [if_neg hp, valueAt_eq_none]
      intro e he
      rintro rfl
      refine hp ?_
      rcases List.mem_append.mp he with he | he
      all_goals
        obtain ⟨e', _, rfl⟩ := List.mem_map.mp he
        exact List.take_left

/-! ## Building -/

theorem commonPrefixLen_cons (first : List Bool) (rest : List (List Bool)) :
    commonPrefixLen (first :: rest) = minLcp first rest first.length := by
  rw [commonPrefixLen]
  generalize first.length = l
  induction rest generalizing l with
  | nil => rfl
  | cons k rest ih => rw [List.foldl_cons, lcp_take, ih, minLcp]

/-- A fork splits where the keys first differ. -/
theorem splits_commonPrefixLen {e' : List Bool × Cell} (h : Keyed n (e :: e' :: es)) :
    Splits ((e :: e' :: es).map Prod.fst) (commonPrefixLen ((e :: e' :: es).map Prod.fst)) := by
  have hlen : ∀ k ∈ (e :: e' :: es).map Prod.fst, k.length = n := by
    intro k hk
    obtain ⟨f, hf, rfl⟩ := List.mem_map.mp hk
    exact h.length f hf
  rw [List.map_cons, List.map_cons] at hlen ⊢
  rw [commonPrefixLen_cons]
  exact splits_minLcp hlen h.nodup

/-- Distinct keys of one width always give a node, and it encodes the entries. -/
theorem build_encodes (hne : es ≠ []) (h : Keyed n es) (hf : n < fuel) :
    ∃ c es', buildHashmapNode fuel es n = some c ∧ Encodes c n es' ∧ es'.Perm es := by
  induction fuel generalizing n es with
  | zero => omega
  | succ fuel ih =>
    match es, hne, h with
    | [(key, value)], _, h =>
      have hlen : key.length = n := h.length (key, value) List.mem_cons_self
      subst hlen
      exact ⟨_, _, rfl, Encodes.leaf key value, List.Perm.refl _⟩
    | e :: e' :: es, _, h =>
      have hs := splits_commonPrefixLen h
      generalize hldef : commonPrefixLen ((e :: e' :: es).map Prod.fst) = l at hs
      have hl : l < n := hs.lt_length h
      have hp : ∀ f ∈ e :: e' :: es, f.1.take l = e.1.take l := fun f hf' =>
        hs.common f.1 (List.mem_map_of_mem hf') e.1 (List.mem_map_of_mem List.mem_cons_self)
      have hplen : (e.1.take l).length = l := by
        rw [List.length_take, h.length e List.mem_cons_self]
        omega
      obtain ⟨left, ls, hleft, hls, hpl⟩ := ih (hs.branch_ne_nil false)
        (h.branch hl hs.common false) (show n - l - 1 < fuel by omega)
      obtain ⟨right, rs, hright, hrs, hpr⟩ := ih (hs.branch_ne_nil true)
        (h.branch hl hs.common true) (show n - l - 1 < fuel by omega)
      refine ⟨.mk (storeLabel (e.1.take l) n) [left, right], _, ?_, ?_,
        ((hpl.map _).append (hpr.map _)).trans (branches_perm h hl hs.common hp)⟩
      · rw [buildHashmapNode, hldef, if_pos hl, hleft, hright]
        rfl
      · have hfork := Encodes.fork (e.1.take l) hls hrs
        have hwidth : (e.1.take l).length + (n - l - 1) + 1 = n := by omega
        rw [hwidth] at hfork
        exact hfork

/-- The node does not depend on the order of the entries. -/
theorem buildHashmapNode_perm (h : Keyed n es) (hp : es.Perm es') :
    buildHashmapNode fuel es n = buildHashmapNode fuel es' n := by
  induction fuel generalizing n es es' with
  | zero => rfl
  | succ fuel ih =>
    match es, es', h, hp with
    | [], es', _, hp => rw [hp.nil_eq]
    | [e], es', _, hp => rw [List.perm_singleton.mp hp.symm]
    | _ :: _ :: _, [], _, hp => exact absurd hp.eq_nil (List.cons_ne_nil _ _)
    | _ :: _ :: _, [f], _, hp =>
      have hlen := hp.length_eq
      simp at hlen
    | e :: e' :: es, f :: f' :: fs, h, hp =>
      have hs := splits_commonPrefixLen h
      have hs' := splits_commonPrefixLen (h.perm hp)
      have hlen := hs.unique hs' fun k => (hp.map Prod.fst).mem_iff
      rw [buildHashmapNode, buildHashmapNode, ← hlen]
      generalize commonPrefixLen ((e :: e' :: es).map Prod.fst) = l at hs
      have hl : l < n := hs.lt_length h
      have htake : e.1.take l = f.1.take l :=
        hs.common e.1 (List.mem_map_of_mem List.mem_cons_self) f.1
          (List.mem_map_of_mem (hp.mem_iff.mpr List.mem_cons_self))
      rw [if_pos hl, if_pos hl, ih (h.branch hl hs.common false) (branch_perm hp),
        ih (h.branch hl hs.common true) (branch_perm hp), htake]

/-- Repeated keys never give a node: they share their whole width. -/
theorem keyed_of_buildHashmapNode (hlen : ∀ e ∈ es, e.1.length = n)
    (h : buildHashmapNode fuel es n = some c) : Keyed n es := by
  induction fuel generalizing n es c with
  | zero => cases h
  | succ fuel ih =>
    match es, hlen, h with
    | [], hlen, _ => exact ⟨hlen, List.nodup_nil⟩
    | [e], hlen, _ => exact ⟨hlen, List.nodup_singleton e.1⟩
    | e :: e' :: es, hlen, h =>
      rw [buildHashmapNode] at h
      generalize commonPrefixLen ((e :: e' :: es).map Prod.fst) = l at h
      split_ifs at h with hl
      have hbranch : ∀ b c', buildHashmapNode fuel (branch b l (e :: e' :: es)) (n - l - 1) =
          some c' → ((branch b l (e :: e' :: es)).map Prod.fst).Nodup := by
        intro b c' hc
        refine (ih (fun f hf => ?_) hc).nodup
        obtain ⟨g, hg, hdrop, _⟩ := mem_branch_iff.mp hf
        have hdlen := congrArg List.length hdrop
        rw [List.length_drop, hlen g hg, List.length_cons] at hdlen
        omega
      simp only [Option.bind_eq_bind, Option.bind_eq_some_iff] at h
      obtain ⟨left, hleft, right, hright, _⟩ := h
      refine Keyed.of_branches hlen hl fun b => ?_
      cases b with
      | false => exact hbranch false left hleft
      | true => exact hbranch true right hright

/-! ## Dictionaries -/

/-- What is known of a dictionary built from distinct keys of `n` bits. -/
structure Holds (root : Option Cell) (n : Nat) (es : List (List Bool × Cell)) : Prop where
  get : ∀ key, key.length = n → dictGet root n key = some (valueAt es key)
  entries : ∃ es' : List (List Bool × Cell), es'.Perm es ∧
    dictEntries root n = some (es'.map fun e => (e.1, e.2.toSlice))

theorem valueAt_isSome_iff :
    (valueAt es key).isSome ↔ key ∈ es.map Prod.fst := by
  unfold valueAt
  rw [Option.isSome_map, List.find?_isSome, List.mem_map]
  refine exists_congr fun e => and_congr_right fun _ => ?_
  exact decide_eq_true_iff

theorem valueAt_of_mem (h : Keyed n es) (he : e ∈ es) : valueAt es e.1 = some e.2.toSlice := by
  obtain ⟨s, hs⟩ := Option.isSome_iff_exists.mp
    (valueAt_isSome_iff.mpr (List.mem_map_of_mem (f := Prod.fst) he))
  obtain ⟨f, hfind, rfl⟩ := Option.map_eq_some_iff.mp hs
  have hkey : f.1 = e.1 := by simpa using List.find?_some hfind
  rw [hs, List.inj_on_of_nodup_map h.nodup (List.mem_of_find?_eq_some hfind) he hkey]

theorem valueAt_perm (h : Keyed n es) (hp : es'.Perm es) (key : List Bool) :
    valueAt es' key = valueAt es key := by
  by_cases hex : ∃ e ∈ es, e.1 = key
  · obtain ⟨e, he, rfl⟩ := hex
    rw [valueAt_of_mem h he, valueAt_of_mem (h.perm hp.symm) (hp.mem_iff.mpr he)]
  · push Not at hex
    rw [valueAt_eq_none hex, valueAt_eq_none fun e he => hex e (hp.mem_iff.mp he)]

theorem buildDict_holds (h : Keyed n es) :
    ∃ root, buildDict n es = some root ∧ Holds root n es := by
  cases es with
  | nil => exact ⟨none, rfl, ⟨fun key _ => rfl, [], List.Perm.refl _, rfl⟩⟩
  | cons e es =>
    obtain ⟨c, es', hbuild, henc, hperm⟩ :=
      build_encodes (List.cons_ne_nil e es) h (Nat.lt_succ_self n)
    refine ⟨some c, ?_, ⟨fun key hkey => ?_, es', hperm, ?_⟩⟩
    · rw [buildDict, buildHashmapRoot, if_pos ⟨List.cons_ne_nil e es, h.length⟩, hbuild]
      rfl
    · rw [dictGet, lookup_encodes henc (Nat.lt_succ_self n) hkey, valueAt_perm h hperm]
    · exact traverse_encodes henc (Nat.lt_succ_self n)

theorem keyed_of_buildDict (h : buildDict n es = some root) :
    Keyed n es := by
  cases es with
  | nil => exact ⟨nofun, List.nodup_nil⟩
  | cons e es =>
    rw [buildDict, buildHashmapRoot] at h
    split_ifs at h with hcond
    · obtain ⟨c, hc, _⟩ := Option.map_eq_some_iff.mp h
      exact keyed_of_buildHashmapNode hcond.2 hc
    · cases h

/-- Whatever was built is read back. -/
theorem holds_of_buildDict (h : buildDict n es = some root) :
    Holds root n es := by
  obtain ⟨root', hroot', hholds⟩ := buildDict_holds (keyed_of_buildDict h)
  rw [h, Option.some.injEq] at hroot'
  rw [hroot']
  exact hholds

theorem buildDict_perm (h : Keyed n es) (hp : es.Perm es') : buildDict n es = buildDict n es' := by
  cases es with
  | nil => rw [hp.nil_eq]
  | cons e es =>
    cases es' with
    | nil => exact absurd hp.eq_nil (List.cons_ne_nil e es)
    | cons e' es' =>
      have h' := h.perm hp
      rw [buildDict, buildDict, buildHashmapRoot, buildHashmapRoot,
        if_pos ⟨List.cons_ne_nil e es, h.length⟩, if_pos ⟨List.cons_ne_nil e' es', h'.length⟩,
        buildHashmapNode_perm h hp]

/-- A dictionary in which every key carries the same value is determined by its set of keys, and
    determines it. -/
theorem buildDict_const_eq_iff {v : Cell} {ks ks' : List (List Bool)}
    (h : Keyed n (ks.map fun k => (k, v))) (h' : Keyed n (ks'.map fun k => (k, v))) :
    buildDict n (ks.map fun k => (k, v)) = buildDict n (ks'.map fun k => (k, v)) ↔
      ∀ k, k ∈ ks ↔ k ∈ ks' := by
  have hfst : ∀ l : List (List Bool), (l.map fun k => (k, v)).map Prod.fst = l := by
    intro l
    rw [List.map_map]
    exact List.map_id _
  constructor
  · intro heq k
    obtain ⟨root, hroot, hholds⟩ := buildDict_holds h
    have hkeys : ∀ l : List (List Bool), Keyed n (l.map fun k => (k, v)) →
        Holds root n (l.map fun k => (k, v)) →
        (k ∈ l ↔ k.length = n ∧ ∃ s, dictGet root n k = some (some s)) := by
      intro l hl hh
      constructor
      · intro hk
        have hlen : k.length = n := hl.length (k, v) (List.mem_map_of_mem hk)
        refine ⟨hlen, ?_⟩
        have hsome := valueAt_isSome_iff.mpr (show k ∈ _ by rw [hfst]; exact hk)
        obtain ⟨s, hs⟩ := Option.isSome_iff_exists.mp hsome
        exact ⟨s, by rw [hh.get k hlen, hs]⟩
      · rintro ⟨hlen, s, hs⟩
        rw [hh.get k hlen, Option.some.injEq] at hs
        have hmem := valueAt_isSome_iff.mp (Option.isSome_iff_exists.mpr ⟨s, hs⟩)
        rwa [hfst] at hmem
    rw [hkeys ks h hholds, hkeys ks' h' (holds_of_buildDict (heq.symm.trans hroot))]
  · intro hmem
    refine buildDict_perm h (List.Perm.map _ ?_)
    have hnodup := h.nodup
    have hnodup' := h'.nodup
    rw [hfst] at hnodup hnodup'
    exact (List.perm_ext_iff_of_nodup hnodup hnodup').mpr hmem

theorem storeDict_eq_some_iff {c' : Cell} :
    c.storeDict n es = some c' ↔ ∃ root, buildDict n es = some root ∧ c.storeDictRoot root = c' :=
  Option.map_eq_some_iff

/-- A cell that holds nothing but a dictionary determines its root. -/
theorem storeDictRoot_empty_inj {root' : Option Cell} :
    Cell.empty.storeDictRoot root = Cell.empty.storeDictRoot root' ↔ root = root' := by
  refine ⟨fun h => ?_, fun h => congrArg _ h⟩
  cases root <;> cases root' <;> simp_all [Cell.storeDictRoot, Cell.storeRef, Cell.storeUint,
    Cell.storeBits, Cell.empty]

/-- What is stored for a dictionary: one bit, and the root if there is one. -/
theorem storeDictRoot_eq (c : Cell) (root : Option Cell) :
    c.storeDictRoot root = .mk (c.bits ++ [root.isSome]) (c.refs ++ root.toList) := by
  cases root with
  | none => simp [Cell.storeDictRoot, Cell.storeUint, Cell.storeBits, Bits.ofNat]
  | some d => simp [Cell.storeDictRoot, Cell.storeUint, Cell.storeBits, Cell.storeRef, Bits.ofNat]

theorem Slice.loadDict_append (root : Option Cell) (bits : List Bool) (refs : List Cell) :
    (⟨root.isSome :: bits, root.toList ++ refs⟩ : Slice).loadDict = some (root, ⟨bits, refs⟩) := by
  cases root <;> rfl

/-! ## Canonical roots -/

/-- Every edge of a `Hashmap n` node, down to the leaves, has a shortest label. -/
inductive Canonical : Cell → Nat → Prop
  | leaf {label encoding : List Bool} (hlabel : ShortestLabel label.length label encoding)
      (value : List Bool) (refs : List Cell) : Canonical (.mk (encoding ++ value) refs) label.length
  | fork {label encoding : List Bool} {left right : Cell} {m : Nat}
      (hlabel : ShortestLabel (label.length + m + 1) label encoding)
      (hleft : Canonical left m) (hright : Canonical right m) :
      Canonical (.mk encoding [left, right]) (label.length + m + 1)

theorem Encodes.canonical (h : Encodes c n es) : Canonical c n := by
  induction h with
  | leaf key value => exact .leaf (shortestLabel_storeLabel key _) value.bits value.refs
  | fork p _ _ ihl ihr => exact .fork (shortestLabel_storeLabel p _) ihl ihr

/-- Distinct keys of one width, at least one of them, always make a root; the order of the entries
    does not matter, every key of the width is looked up rightly, and all labels are shortest. -/
theorem hashmap_root_canonical (n : Nat) (es : List (List Bool × Cell)) (h : Keyed n es)
    (hne : es ≠ []) :
    ∃ c, buildHashmapRoot n es = some c ∧
      (∀ es', es.Perm es' → buildHashmapRoot n es' = some c) ∧
      (∀ e ∈ es, lookup (n + 1) c n e.1 = some (some e.2.toSlice)) ∧
      (∀ key, key.length = n → key ∉ es.map Prod.fst → lookup (n + 1) c n key = some none) ∧
      Canonical c n := by
  obtain ⟨c, es', hbuild, henc, hperm⟩ := build_encodes hne h (Nat.lt_succ_self n)
  have hget : ∀ key, key.length = n → lookup (n + 1) c n key = some (valueAt es key) := by
    intro key hkey
    rw [lookup_encodes henc (Nat.lt_succ_self n) hkey, valueAt_perm h hperm]
  refine ⟨c, ?_, ?_, ?_, ?_, henc.canonical⟩
  · rw [buildHashmapRoot, if_pos ⟨hne, h.length⟩, hbuild]
  · intro fs hp
    have hne' : fs ≠ [] := by
      rintro rfl
      exact hne hp.eq_nil
    rw [buildHashmapRoot, if_pos ⟨hne', (h.perm hp).length⟩, ← buildHashmapNode_perm h hp, hbuild]
  · intro e he
    rw [hget e.1 (h.length e he), valueAt_of_mem h he]
  · intro key hkey habsent
    rw [hget key hkey]
    refine congrArg some (Option.not_isSome_iff_eq_none.mp fun hsome => ?_)
    exact habsent (valueAt_isSome_iff.mp hsome)

/-- Two keys of two bits. -/
theorem two_keys_canonical :
    Keyed 2 [([true, false], Cell.empty), ([false, false], Cell.empty)] ∧
      ∃ c, buildHashmapRoot 2 [([true, false], Cell.empty), ([false, false], Cell.empty)] = some c ∧
        lookup 3 c 2 [true, false] = some (some Cell.empty.toSlice) ∧
        lookup 3 c 2 [true, true] = some none ∧ Canonical c 2 := by
  have hkeyed : Keyed 2 [([true, false], Cell.empty), ([false, false], Cell.empty)] :=
    ⟨by simp, by simp⟩
  obtain ⟨c, hc, _, hpresent, habsent, hcanonical⟩ := hashmap_root_canonical 2 _ hkeyed (by simp)
  exact ⟨hkeyed, c, hc, hpresent ([true, false], Cell.empty) (by simp),
    habsent [true, true] rfl (by simp), hcanonical⟩

/-- The assertion that there is an entry. -/
theorem empty_root_panics : Keyed 267 ([] : List (List Bool × Cell)) ∧
    buildHashmapRoot 267 [] = none :=
  ⟨⟨by simp, by simp⟩, rfl⟩

end Duckton.Ton
