/-
  Cells as the source stores them (settlement/cell.rs): the bits packed into bytes.

  `Cell` keeps a cell's bits as a list. Here the bytes are kept, with what is in the last of them
  behind the last bit: nothing in a cell from the builder, the completion bit in one read from
  a bag of cells. `unpack` forgets the difference, and so does the representation hash
  (`reprHash_unpack`).
-/
import Duckton.Lib.Rose
import Duckton.Ton.Cell

namespace Duckton.Ton

open Duckton.Proto

/-- What a `Cell` holds besides its references. -/
structure Packed where
  data : Bytes
  bitLen : Nat
  deriving DecidableEq, Repr

abbrev PackedCell := Rose Packed

namespace Packed

/-- The bits of whole bytes, most significant bit first. -/
def bitsOf (data : Bytes) : List Bool :=
  data.flatMap fun b => Bits.ofNat 8 b.toNat

def bits (p : Packed) : List Bool :=
  (bitsOf p.data).take p.bitLen

/-- `bytes[last] |= 1 << shift`. -/
def setInLast (data : Bytes) (shift : Nat) : Bytes :=
  data.modify (data.length - 1) (· ||| 1 <<< UInt8.ofNat shift)

/-- `augmented_data`: a `1` behind the last bit, if the bits do not fill their bytes. -/
def augmentedData (p : Packed) : Bytes :=
  let rem := p.bitLen % 8
  if rem = 0 then p.data else setInLast p.data (7 - rem)

/-- The bytes hold the bits and at most the completion bit besides. -/
structure Sound (p : Packed) : Prop where
  length : p.data.length = (p.bitLen + 7) / 8
  padding : ∀ last ∈ p.data.getLast?, ∀ i, i + p.bitLen % 8 < 7 → p.bitLen % 8 ≠ 0 →
    last.toNat.testBit i = false

/-! ## Bytes and bits -/

theorem bitsOf_append (data data' : Bytes) : bitsOf (data ++ data') = bitsOf data ++ bitsOf data' :=
  List.flatMap_append

variable (b : UInt8) (data : Bytes)

theorem bitsOf_singleton : bitsOf [b] = Bits.ofNat 8 b.toNat := by
  simp [bitsOf]

theorem length_bitsOf : (bitsOf data).length = data.length * 8 := by
  induction data with
  | nil => rfl
  | cons b data ih =>
    have hsplit : bitsOf (b :: data) = Bits.ofNat 8 b.toNat ++ bitsOf data := rfl
    rw [hsplit, List.length_append, Bits.length_ofNat, ih, List.length_cons]
    omega

theorem packBits_bitsOf : Cell.packBits data.length (bitsOf data) = data := by
  induction data with
  | nil => rfl
  | cons b data ih =>
    have hsplit : bitsOf (b :: data) = Bits.ofNat 8 b.toNat ++ bitsOf data := rfl
    have hlen : (Bits.ofNat 8 b.toNat).length = 8 := Bits.length_ofNat 8 _
    rw [hsplit, List.length_cons, Cell.packBits, List.take_left' hlen, List.drop_left' hlen, ih,
      Bits.toNat_ofNat_of_lt b.toNat_lt, UInt8.ofNat_toNat]

theorem setInLast_concat (init : Bytes) (last : UInt8) (shift : Nat) :
    setInLast (init ++ [last]) shift = init ++ [last ||| 1 <<< UInt8.ofNat shift] := by
  unfold setInLast
  rw [List.length_append, List.length_singleton, Nat.add_sub_cancel, List.modify_eq_set_getElem?]
  simp

theorem length_setInLast (shift : Nat) : (setInLast data shift).length = data.length := by
  rw [setInLast, List.length_modify]

theorem testBit_setBit {shift : Nat} (hshift : shift < 8) (i : Nat) :
    (b ||| 1 <<< UInt8.ofNat shift).toNat.testBit i =
      (b.toNat.testBit i || decide (i = shift)) := by
  have hpow : ∀ k < 8, (1 <<< UInt8.ofNat k : UInt8).toNat = 2 ^ k := by decide
  rw [UInt8.toNat_or, hpow shift hshift, Nat.testBit_or, Nat.testBit_two_pow]
  simp only [eq_comm]

theorem ofNat_setBit {pos : Nat} (hpos : pos < 8) :
    Bits.ofNat 8 (b ||| 1 <<< UInt8.ofNat (7 - pos)).toNat =
      (Bits.ofNat 8 b.toNat).take pos ++ true :: (Bits.ofNat 8 b.toNat).drop (pos + 1) := by
  have hset : (Bits.ofNat 8 b.toNat).set pos true =
      (Bits.ofNat 8 b.toNat).take pos ++ true :: (Bits.ofNat 8 b.toNat).drop (pos + 1) := by
    rw [List.set_eq_take_append_cons_drop, if_pos (by rwa [Bits.length_ofNat])]
  rw [← hset]
  refine List.ext_getElem (by rw [List.length_set, Bits.length_ofNat, Bits.length_ofNat]) ?_
  intro j hj _
  rw [Bits.length_ofNat] at hj
  apply Option.some.inj
  rw [← List.getElem?_eq_getElem, ← List.getElem?_eq_getElem, List.getElem?_set,
    Bits.getElem?_ofNat _ hj, Bits.getElem?_ofNat _ hj, testBit_setBit b (by omega)]
  by_cases heq : pos = j
  · rw [if_pos heq, if_pos (by rwa [Bits.length_ofNat]), decide_eq_true (by omega), Bool.or_true]
  · rw [if_neg heq, decide_eq_false (by omega), Bool.or_false]

/-- Setting the completion bit of a byte whose lower bits are zero. -/
theorem ofNat_completed {b : UInt8} {rem : Nat} (hrem : rem < 8)
    (hpad : ∀ i, i + rem < 7 → b.toNat.testBit i = false) :
    Bits.ofNat 8 (b ||| 1 <<< UInt8.ofNat (7 - rem)).toNat =
      (Bits.ofNat 8 b.toNat).take rem ++ true :: List.replicate (7 - rem) false := by
  rw [ofNat_setBit b hrem]
  congr 2
  rw [List.eq_replicate_iff, List.length_drop, Bits.length_ofNat]
  refine ⟨by omega, fun bit hbit => ?_⟩
  obtain ⟨j, hj, rfl⟩ := List.mem_iff_getElem.mp hbit
  rw [List.length_drop, Bits.length_ofNat] at hj
  apply Option.some.inj
  rw [← List.getElem?_eq_getElem, List.getElem?_drop, Bits.getElem?_ofNat _ (by omega),
    hpad _ (by omega)]

/-! ## The bits of a sound cell -/

variable {p q : Packed}

theorem Sound.length_bits (h : p.Sound) : p.bits.length = p.bitLen := by
  rw [bits, List.length_take, length_bitsOf, h.length]
  omega

/-- Bits that do not fill their bytes end inside a last byte. -/
theorem Sound.exists_last (h : p.Sound) (hrem : p.bitLen % 8 ≠ 0) :
    ∃ init last, p.data = init ++ [last] ∧ init.length = p.bitLen / 8 ∧
      ∀ i, i + p.bitLen % 8 < 7 → last.toNat.testBit i = false := by
  have hlen := h.length
  rcases List.eq_nil_or_concat p.data with hnil | ⟨init, last, hdata⟩
  · rw [hnil, List.length_nil] at hlen
    omega
  · rw [List.concat_eq_append] at hdata
    refine ⟨init, last, hdata, ?_, ?_⟩
    · rw [hdata, List.length_append, List.length_singleton] at hlen
      omega
    · intro i hi
      exact h.padding last (by rw [hdata]; simp) i hi hrem

theorem bits_eq {init : Bytes} {last : UInt8} (hdata : p.data = init ++ [last])
    (hinit : init.length = p.bitLen / 8) :
    p.bits = bitsOf init ++ (Bits.ofNat 8 last.toNat).take (p.bitLen % 8) := by
  have hlen : (bitsOf init).length = p.bitLen / 8 * 8 := by rw [length_bitsOf, hinit]
  rw [bits, hdata, bitsOf_append, bitsOf_singleton, List.take_append,
    List.take_of_length_le (by omega), hlen]
  congr 2
  omega

/-- The augmented bytes are the augmented bits, packed. -/
theorem Sound.bitsOf_augmentedData (h : p.Sound) :
    bitsOf p.augmentedData = Cell.augmented p.bits := by
  unfold augmentedData Cell.augmented
  rw [h.length_bits]
  by_cases hrem : p.bitLen % 8 = 0
  · have hlen := h.length
    rw [if_pos hrem, if_pos hrem, bits, List.take_of_length_le]
    rw [length_bitsOf]
    omega
  · obtain ⟨init, last, hdata, hinit, hpad⟩ := h.exists_last hrem
    rw [if_neg hrem, if_neg hrem, hdata, setInLast_concat, bitsOf_append, bitsOf_singleton,
      ofNat_completed (Nat.mod_lt _ (by decide)) hpad, bits_eq hdata hinit, List.append_assoc]

theorem length_augmentedData (p : Packed) : p.augmentedData.length = p.data.length := by
  unfold augmentedData
  dsimp only
  split
  · rfl
  · exact length_setInLast _ _

theorem Sound.augmentedData_eq (h : p.Sound) :
    p.augmentedData = Cell.packBits ((p.bits.length + 7) / 8) (Cell.augmented p.bits) := by
  rw [← h.bitsOf_augmentedData, h.length_bits, ← h.length, ← length_augmentedData, packBits_bitsOf]

/-! ## The completion bit set -/

/-- The cell that is read back from a bag. -/
def completed (p : Packed) : Packed :=
  ⟨p.augmentedData, p.bitLen⟩

/-- It depends on the bits alone. -/
theorem Sound.completed_eq (hp : p.Sound) (hq : q.Sound) (h : p.bits = q.bits) :
    p.completed = q.completed := by
  have hlen : p.bitLen = q.bitLen := by rw [← hp.length_bits, h, hq.length_bits]
  rw [completed, completed, hp.augmentedData_eq, hq.augmentedData_eq, h, hlen]

theorem Sound.bits_completed (h : p.Sound) : p.completed.bits = p.bits := by
  have htake : (Cell.augmented p.bits).take p.bits.length = p.bits := by
    unfold Cell.augmented
    dsimp only
    split
    · exact List.take_length
    · exact List.take_left
  rw [h.length_bits] at htake
  rw [bits, completed, h.bitsOf_augmentedData]
  exact htake

theorem Sound.completed (h : p.Sound) : p.completed.Sound := by
  refine ⟨(length_augmentedData p).trans h.length, ?_⟩
  intro last' hlast' i hi hrem
  obtain ⟨init, last, hdata, _, hpad⟩ := h.exists_last hrem
  have hrem' : ¬ p.bitLen % 8 = 0 := hrem
  have haug : p.augmentedData = init ++ [last ||| 1 <<< UInt8.ofNat (7 - p.bitLen % 8)] := by
    rw [augmentedData, if_neg hrem', hdata, setInLast_concat]
  have hi' : i + p.bitLen % 8 < 7 := hi
  change last' ∈ p.augmentedData.getLast? at hlast'
  rw [haug, List.getLast?_concat, Option.mem_some_iff] at hlast'
  rw [← hlast', testBit_setBit _ (by omega), hpad i hi', decide_eq_false (by omega)]
  rfl

/-! ## Building -/

/-- `push_bit`. -/
def pushBit (p : Packed) (bit : Bool) : Packed :=
  let pos := p.bitLen % 8
  let data := if pos = 0 then p.data ++ [0] else p.data
  ⟨if bit then setInLast data (7 - pos) else data, p.bitLen + 1⟩

/-- The bits pushed one by one onto an empty cell. -/
def ofBits (bs : List Bool) : Packed :=
  bs.foldl pushBit ⟨[], 0⟩

/-- What a builder holds: nothing behind the bits. -/
structure ZeroPadded (p : Packed) : Prop where
  length : p.data.length = (p.bitLen + 7) / 8
  padding : ∀ last ∈ p.data.getLast?, ∀ i, i + p.bitLen % 8 < 8 → p.bitLen % 8 ≠ 0 →
    last.toNat.testBit i = false

theorem ZeroPadded.sound (h : p.ZeroPadded) : p.Sound :=
  ⟨h.length, fun last hlast i hi => h.padding last hlast i (by omega)⟩

/-- The byte the next bit goes to, once there is one. -/
theorem ZeroPadded.exists_next (h : p.ZeroPadded) :
    ∃ init last, (if p.bitLen % 8 = 0 then p.data ++ [0] else p.data) = init ++ [last] ∧
      init.length = p.bitLen / 8 ∧
      p.bits = bitsOf init ++ (Bits.ofNat 8 last.toNat).take (p.bitLen % 8) ∧
      ∀ i, i + p.bitLen % 8 < 8 → last.toNat.testBit i = false := by
  have hlen := h.length
  by_cases hpos : p.bitLen % 8 = 0
  · refine ⟨p.data, 0, if_pos hpos, by omega, ?_, fun i _ => Nat.zero_testBit i⟩
    rw [hpos, List.take_zero, List.append_nil, bits, List.take_of_length_le]
    rw [length_bitsOf]
    omega
  · obtain ⟨init, last, hdata, hinit, _⟩ := h.sound.exists_last hpos
    refine ⟨init, last, (if_neg hpos).trans hdata, hinit, bits_eq hdata hinit, ?_⟩
    intro i hi
    exact h.padding last (by rw [hdata]; simp) i hi hpos

/-- One more bit of a byte whose next bit is zero. -/
theorem take_ofNat_pushed {b b' : UInt8} {pos : Nat} {bit : Bool} (hpos : pos < 8)
    (hzero : b.toNat.testBit (7 - pos) = false)
    (hb' : b' = if bit then b ||| 1 <<< UInt8.ofNat (7 - pos) else b) :
    (Bits.ofNat 8 b'.toNat).take (pos + 1) = (Bits.ofNat 8 b.toNat).take pos ++ [bit] := by
  have htake : ((Bits.ofNat 8 b.toNat).take pos).length = pos := by
    rw [List.length_take, Bits.length_ofNat]
    omega
  cases bit with
  | false =>
    rw [hb', if_neg Bool.false_ne_true, List.take_add_one, Bits.getElem?_ofNat _ hpos, hzero]
    rfl
  | true =>
    rw [hb', if_pos rfl, ofNat_setBit b hpos, List.take_append, htake, Nat.add_sub_cancel_left,
      List.take_of_length_le (by omega)]
    rfl

/-- A pushed bit comes last. -/
theorem ZeroPadded.pushBit (h : p.ZeroPadded) (bit : Bool) :
    (p.pushBit bit).ZeroPadded ∧ (p.pushBit bit).bits = p.bits ++ [bit] := by
  obtain ⟨init, last, hdata, hinit, hbits, hpad⟩ := h.exists_next
  obtain ⟨last', hlast'⟩ : ∃ b, b = if bit then last ||| 1 <<< UInt8.ofNat (7 - p.bitLen % 8)
      else last := ⟨_, rfl⟩
  have hpos : p.bitLen % 8 < 8 := Nat.mod_lt _ (by decide)
  have hpushed : p.pushBit bit = ⟨init ++ [last'], p.bitLen + 1⟩ := by
    unfold Packed.pushBit
    dsimp only
    rw [hdata, setInLast_concat, hlast']
    cases bit <;> rfl
  have hzero : last.toNat.testBit (7 - p.bitLen % 8) = false := hpad _ (by omega)
  rw [hpushed]
  refine ⟨⟨?_, ?_⟩, ?_⟩
  · rw [List.length_append, List.length_singleton, hinit]
    dsimp only
    omega
  · intro b hb i hi hrem
    dsimp only at hb hi hrem
    rw [List.getLast?_concat, Option.mem_some_iff] at hb
    subst hb
    cases bit with
    | false =>
      rw [hlast']
      exact hpad i (by omega)
    | true =>
      rw [hlast', if_pos rfl, testBit_setBit _ (by omega), hpad i (by omega),
        decide_eq_false (by omega)]
      rfl
  · have hlen : (bitsOf init).length = p.bitLen / 8 * 8 := by rw [length_bitsOf, hinit]
    have hrest : p.bitLen + 1 - p.bitLen / 8 * 8 = p.bitLen % 8 + 1 := by omega
    rw [hbits, List.append_assoc, ← take_ofNat_pushed hpos hzero hlast', bits]
    dsimp only
    rw [bitsOf_append, bitsOf_singleton, List.take_append, List.take_of_length_le (by omega), hlen,
      hrest]

/-- Every bit string is that of a built cell. -/
theorem ofBits_spec (bs : List Bool) : (ofBits bs).ZeroPadded ∧ (ofBits bs).bits = bs := by
  induction bs using List.reverseRecOn with
  | nil => exact ⟨⟨rfl, fun last hlast => by cases hlast⟩, rfl⟩
  | append_singleton bs b ih =>
    have hlast : ofBits (bs ++ [b]) = (ofBits bs).pushBit b := by
      rw [ofBits, List.foldl_append]
      rfl
    obtain ⟨hpadded, hbits⟩ := ih.1.pushBit b
    rw [hlast]
    exact ⟨hpadded, by rw [hbits, ih.2]⟩

end Packed

namespace PackedCell

open Packed

/-! ## Descriptors and hashes -/

/-- The two descriptor bytes of an ordinary, level-0 cell. -/
def descriptor (c : PackedCell) : UInt8 × UInt8 :=
  let full := c.label.bitLen / 8
  (UInt8.ofNat c.children.length,
    UInt8.ofNat (if c.label.bitLen % 8 = 0 then 2 * full else 2 * full + 1))

/-- `depth` in two big-endian bytes. -/
def depthBytes (c : PackedCell) : Bytes :=
  Cell.packBits 2 (Bits.ofNat 16 c.height)

mutual

/-- `repr_hash`. -/
def reprHash (sha256 : Bytes → BitVec 256) : PackedCell → BitVec 256
  | .node p cs =>
    sha256 ([(descriptor (.node p cs)).1, (descriptor (.node p cs)).2] ++ p.augmentedData ++
      cs.flatMap depthBytes ++ reprHashes sha256 cs)

def reprHashes (sha256 : Bytes → BitVec 256) : List PackedCell → Bytes
  | [] => []
  | c :: cs => Cell.hashBytes (reprHash sha256 c) ++ reprHashes sha256 cs

end

/-! ## The cell it stands for -/

mutual

def unpack : PackedCell → Cell
  | .node p cs => .mk p.bits (unpackAll cs)

def unpackAll : List PackedCell → List Cell
  | [] => []
  | c :: cs => unpack c :: unpackAll cs

end

theorem unpackAll_eq (cs : List PackedCell) : unpackAll cs = cs.map unpack := by
  induction cs with
  | nil => rfl
  | cons c cs ih => rw [unpackAll, ih, List.map_cons]

theorem unpack_node (p : Packed) (cs : List PackedCell) :
    unpack (.node p cs) = .mk p.bits (cs.map unpack) := by
  rw [unpack, unpackAll_eq]

/-- Every cell of the tree holds its bits properly. -/
def Sound (c : PackedCell) : Prop :=
  ∀ d ∈ c.subtrees, d.label.Sound

variable {cs : List PackedCell} {c : PackedCell}

theorem sound_node {p : Packed} :
    Sound (.node p cs) ↔ p.Sound ∧ ∀ c ∈ cs, Sound c := by
  constructor
  · intro h
    refine ⟨h _ (Rose.self_mem_subtrees _), ?_⟩
    intro c hc d hd
    exact h d (Rose.mem_subtrees_node.mpr (.inr ⟨c, hc, hd⟩))
  · rintro ⟨hp, hcs⟩ d hd
    rcases Rose.mem_subtrees_node.mp hd with rfl | ⟨c, hc, hd⟩
    · exact hp
    · exact hcs c hc d hd

theorem depthRefs_unpack (h : ∀ c ∈ cs, (unpack c).depth = c.height) :
    Cell.depthRefs (cs.map unpack) = Rose.heights cs := by
  induction cs with
  | nil => rfl
  | cons c cs ih =>
    rw [List.map_cons, Cell.depthRefs, Rose.heights, h c List.mem_cons_self,
      ih fun d hd => h d (List.mem_cons_of_mem _ hd)]

theorem depth_unpack (c : PackedCell) : (unpack c).depth = c.height := by
  induction c using Rose.ind with
  | h p cs ih =>
    rw [unpack_node, Cell.depth, depthRefs_unpack ih]
    rfl

theorem reprHashes_unpack {sha256 : Bytes → BitVec 256} (h : ∀ c ∈ cs, reprHash sha256 c =
    (unpack c).reprHash sha256) :
    reprHashes sha256 cs = Cell.reprHashes sha256 (cs.map unpack) := by
  induction cs with
  | nil => rfl
  | cons c cs ih =>
    rw [List.map_cons, reprHashes, Cell.reprHashes, h c List.mem_cons_self,
      ih fun d hd => h d (List.mem_cons_of_mem _ hd)]

/-- The hash of a packed cell is that of the cell it stands for. -/
theorem reprHash_unpack (sha256 : Bytes → BitVec 256) (h : Sound c) :
    reprHash sha256 c = (unpack c).reprHash sha256 := by
  induction c using Rose.ind with
  | h p cs ih =>
    obtain ⟨hp, hcs⟩ := sound_node.mp h
    have hdepths : cs.flatMap depthBytes = (cs.map unpack).flatMap Cell.depthBytes := by
      rw [List.flatMap_map]
      refine List.flatMap_congr fun c _ => ?_
      rw [depthBytes, Cell.depthBytes, depth_unpack]
    rw [unpack_node, reprHash, Cell.reprHash, reprHashes_unpack fun c hc => ih c hc (hcs c hc),
      hdepths, hp.augmentedData_eq, Cell.augmentedData, Cell.descriptor]
    simp only [descriptor, Rose.label_node, Rose.children_node, Cell.bits_mk, Cell.refs_mk,
      List.length_map, hp.length_bits]
    rfl

/-! ## Completion bits set throughout -/

theorem unpack_completed (h : Sound c) : unpack (c.map completed) = unpack c := by
  induction c using Rose.ind with
  | h p cs ih =>
    obtain ⟨hp, hcs⟩ := sound_node.mp h
    have hchildren : (cs.map (Rose.map completed)).map unpack = cs.map unpack := by
      rw [List.map_map]
      exact List.map_congr_left fun c hc => ih c hc (hcs c hc)
    rw [Rose.map_node, unpack_node, unpack_node, hp.bits_completed, hchildren]

theorem Sound.map_completed (h : Sound c) : Sound (c.map completed) := by
  induction c using Rose.ind with
  | h p cs ih =>
    obtain ⟨hp, hcs⟩ := sound_node.mp h
    rw [Rose.map_node, sound_node]
    refine ⟨hp.completed, ?_⟩
    intro d hd
    obtain ⟨c, hc, rfl⟩ := List.mem_map.mp hd
    exact ih c hc (hcs c hc)

/-- Cells that stand for the same cell differ in their completion bits at most. -/
theorem map_completed_eq {d : PackedCell} (hc : Sound c) (hd : Sound d)
    (h : unpack c = unpack d) : c.map completed = d.map completed := by
  induction c using Rose.ind generalizing d with
  | h p cs ih =>
    cases d with
    | node q ds =>
      obtain ⟨hp, hcs⟩ := sound_node.mp hc
      obtain ⟨hq, hds⟩ := sound_node.mp hd
      rw [unpack_node, unpack_node, Cell.mk.injEq] at h
      obtain ⟨hbits, hrefs⟩ := h
      have hlen : cs.length = ds.length := by simpa using congrArg List.length hrefs
      have hchildren : cs.map (Rose.map completed) = ds.map (Rose.map completed) := by
        refine List.ext_getElem (by rw [List.length_map, List.length_map, hlen]) ?_
        intro i hi hi'
        rw [List.length_map] at hi hi'
        have hsame : unpack cs[i] = unpack ds[i] := by
          have hget := congrArg (·[i]?) hrefs
          simp only [List.getElem?_map, List.getElem?_eq_getElem hi, List.getElem?_eq_getElem hi',
            Option.map_some, Option.some.injEq] at hget
          exact hget
        rw [List.getElem_map, List.getElem_map]
        exact ih cs[i] (List.getElem_mem hi) (hcs _ (List.getElem_mem hi))
          (hds _ (List.getElem_mem hi')) hsame
      rw [Rose.map_node, Rose.map_node, hp.completed_eq hq hbits, hchildren]

end PackedCell

end Duckton.Ton
