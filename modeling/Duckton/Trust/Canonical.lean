/-
  Canonical result hashing and the quorum tally (trust/canonical.rs).

  BLAKE3 is a parameter: a function from byte strings to byte strings of which nothing is
  assumed here. The tally of committed hashes is modelled as the source computes it, with the
  sort that makes it deterministic; `evaluateQuorum_agreedHash_iff` and `evaluateQuorum_split_iff`
  then say what it decides in terms of how often each hash occurs.
-/
import Mathlib.Data.Finset.Card
import Mathlib.Data.List.Sort
import Mathlib.Data.Prod.Lex
import Mathlib.Data.String.Basic
import Duckton.Proto.Value

namespace Duckton.Trust

open Duckton.Proto

/-! ## The canonical hash -/

/-- `n` as eight little-endian bytes. -/
def u64LeBytes (n : Nat) : Bytes :=
  (List.range 8).map fun i => UInt8.ofNat (n / 256 ^ i)

def utf8 (s : String) : Bytes :=
  s.toUTF8.data.toList

def domain : Bytes :=
  utf8 "duckdb-p2p-result-v1"

/-- Both zeros and all NaNs are each mapped to one bit pattern. -/
def canonicalF64Bits (f : F64) : Nat :=
  if f.isNaN then 0x7ff8000000000000
  else if f.isZero then 0
  else f.bits.toNat

def encodeValue (v : Value) : Bytes :=
  v.typeTag :: match v with
    | .null => []
    | .bool b => [if b then 1 else 0]
    | .int i => u64LeBytes i.toBitVec.toNat
    | .float f => u64LeBytes (canonicalF64Bits f)
    | .text s => u64LeBytes (utf8 s).length ++ utf8 s
    | .blob b => u64LeBytes b.length ++ b

def encodeRow (row : List Value) : Bytes :=
  u64LeBytes row.length ++ row.flatMap encodeValue

def lengthPrefixed (bytes : Bytes) : Bytes :=
  u64LeBytes bytes.length ++ bytes

/-- The order in which encoded rows are sorted: byte by byte, a proper start first. -/
def bytesLe : Bytes → Bytes → Bool
  | [], _ => true
  | _ :: _, [] => false
  | a :: as, b :: bs => a < b || (a == b && bytesLe as bs)

/-- The bytes that `canonical_hash` feeds to the hasher: the schema in column order, then the
    encoded rows in sorted order. -/
def canonicalPreimage (rs : ResultSet) : Bytes :=
  let encodedRows := (rs.rows.map encodeRow).insertionSort (bytesLe · ·)
  domain ++ u64LeBytes rs.columns.length ++ rs.columns.flatMap (fun c => lengthPrefixed (utf8 c)) ++
    u64LeBytes encodedRows.length ++ encodedRows.flatMap lengthPrefixed

def hexDigit (n : Nat) : Char :=
  if n < 10 then Char.ofNat (48 + n) else Char.ofNat (87 + n)

/-- `hex::encode`. -/
def hexEncode (bytes : Bytes) : String :=
  String.ofList (bytes.flatMap fun b => [hexDigit (b.toNat / 16), hexDigit (b.toNat % 16)])

def canonicalHash (blake3 : Bytes → Bytes) (rs : ResultSet) : String :=
  hexEncode (blake3 (canonicalPreimage rs))

/-! ## The quorum tally -/

structure QuorumOutcome where
  agreedHash : Option String
  agreement : Nat
  quorum : Nat
  split : Bool
  deriving DecidableEq, Repr

def QuorumOutcome.reached (o : QuorumOutcome) : Bool :=
  o.agreedHash.isSome

/-- Highest count first, ties by smallest hash. -/
def tallyLe (a b : String × Nat) : Prop :=
  b.2 < a.2 ∨ (a.2 = b.2 ∧ a.1 ≤ b.1)

instance : DecidableRel tallyLe :=
  fun a b => inferInstanceAs (Decidable (b.2 < a.2 ∨ (a.2 = b.2 ∧ a.1 ≤ b.1)))

/-- The distinct hashes with their counts, sorted. -/
def tally (hashes : List String) : List (String × Nat) :=
  (hashes.dedup.map fun h => (h, hashes.count h)).insertionSort tallyLe

def evaluateQuorum (hashes : List String) (quorum : Nat) : QuorumOutcome :=
  let entries := tally hashes
  let meeting := (entries.filter fun e => quorum ≤ e.2).length
  let bestCount := (entries.head?.map Prod.snd).getD 0
  if 1 < meeting then
    { agreedHash := none, agreement := bestCount, quorum := quorum, split := true }
  else if meeting = 1 then
    { agreedHash := entries.head?.map Prod.fst, agreement := bestCount, quorum := quorum
      split := false }
  else
    { agreedHash := none, agreement := bestCount, quorum := quorum, split := false }

structure CommitKey where
  inputFingerprint : String
  resultHash : String
  deriving DecidableEq, Repr

structure FingerprintQuorumOutcome where
  pinned : QuorumOutcome
  drifted : Nat
  deriving DecidableEq, Repr

/-- A commit that reports a non-empty fingerprint other than the pinned one. -/
def CommitKey.drifts (pinned : Option String) (c : CommitKey) : Bool :=
  match pinned with
  | some p => c.inputFingerprint != "" && c.inputFingerprint != p
  | none => false

def evaluateQuorumOnCommits (commits : List CommitKey) (pinned : Option String) (quorum : Nat) :
    FingerprintQuorumOutcome :=
  let onPinned := (commits.filter fun c => !c.drifts pinned).map CommitKey.resultHash
  { pinned := evaluateQuorum onPinned quorum
    drifted := (commits.filter fun c => c.drifts pinned).length }

/-! ## What the tally decides -/

/-- `h` was committed at least `quorum` times. -/
def Reaches (hashes : List String) (quorum : Nat) (h : String) : Prop :=
  quorum ≤ hashes.count h

instance (hashes : List String) (quorum : Nat) : DecidablePred (Reaches hashes quorum) :=
  fun h => inferInstanceAs (Decidable (quorum ≤ hashes.count h))

variable {hashes : List String} {quorum : Nat} {h : String} {e : String × Nat}

theorem mem_of_reaches (hq : 1 ≤ quorum)
    (hr : Reaches hashes quorum h) : h ∈ hashes := by
  have hpos : 0 < hashes.count h := lt_of_lt_of_le hq hr
  exact List.count_pos_iff.mp hpos

theorem tallyLe_iff {a b : String × Nat} :
    tallyLe a b ↔ toLex (OrderDual.toDual a.2, a.1) ≤ toLex (OrderDual.toDual b.2, b.1) := by
  rw [Prod.Lex.toLex_le_toLex]
  rfl

instance : Std.Total tallyLe where
  total a b := by simpa only [tallyLe_iff] using le_total _ _

instance : IsTrans (String × Nat) tallyLe where
  trans a b c := by simpa only [tallyLe_iff] using le_trans

instance : Std.Antisymm tallyLe where
  antisymm a b hab hba := by
    rw [tallyLe_iff] at hab hba
    have heq := Prod.mk.inj (toLex.injective (le_antisymm hab hba))
    exact Prod.ext heq.2 heq.1

theorem mem_tally :
    e ∈ tally hashes ↔ e.1 ∈ hashes ∧ e.2 = hashes.count e.1 := by
  unfold tally
  rw [List.mem_insertionSort, List.mem_map]
  constructor
  · rintro ⟨h, hh, rfl⟩
    exact ⟨List.mem_dedup.mp hh, rfl⟩
  · rintro ⟨hmem, hcount⟩
    exact ⟨e.1, List.mem_dedup.mpr hmem, by rw [← hcount]⟩

/-- The first entry of the tally has the largest count. -/
theorem tally_head_max (he : (tally hashes).head? = some e) (h : String) :
    hashes.count h ≤ e.2 := by
  by_cases hmem : h ∈ hashes
  · have hentry : (h, hashes.count h) ∈ tally hashes := mem_tally.mpr ⟨hmem, rfl⟩
    have hsorted : (tally hashes).Pairwise tallyLe := List.pairwise_insertionSort tallyLe _
    cases htally : tally hashes with
    | nil => rw [htally] at he; cases he
    | cons first rest =>
      rw [htally] at he hentry hsorted
      cases he
      rcases List.mem_cons.mp hentry with heq | hrest
      · rw [← heq]
      · have hle := (List.pairwise_cons.mp hsorted).1 _ hrest
        unfold tallyLe at hle
        omega
  · rw [List.count_eq_zero_of_not_mem hmem]
    exact Nat.zero_le _

/-- The distinct hashes that reach the quorum. -/
def reaching (hashes : List String) (quorum : Nat) : List String :=
  hashes.dedup.filter (Reaches hashes quorum)

/-- The number of entries that meet the quorum is the number of distinct hashes that reach it. -/
theorem meeting_eq (hashes : List String) (quorum : Nat) :
    ((tally hashes).filter fun e => quorum ≤ e.2).length =
      (reaching hashes quorum).length := by
  have hperm : (tally hashes).Perm (hashes.dedup.map fun h => (h, hashes.count h)) :=
    List.perm_insertionSort tallyLe _
  rw [(hperm.filter _).length_eq, List.filter_map, List.length_map]
  rfl

theorem nodup_reaching (hashes : List String) (quorum : Nat) : (reaching hashes quorum).Nodup :=
  (List.nodup_dedup hashes).filter _

theorem mem_reaching (hq : 1 ≤ quorum) :
    h ∈ reaching hashes quorum ↔ Reaches hashes quorum h := by
  unfold reaching
  rw [List.mem_filter, decide_eq_true_iff]
  exact ⟨fun hr => hr.2, fun hr => ⟨List.mem_dedup.mpr (mem_of_reaches hq hr), hr⟩⟩

/-- The first entry of the tally reaches the quorum as soon as any hash does. -/
theorem tally_head_reaches (he : (tally hashes).head? = some e) (hr : Reaches hashes quorum h) :
    Reaches hashes quorum e.1 := by
  have hmem : e ∈ tally hashes := List.mem_of_mem_head? he
  unfold Reaches
  rw [← (mem_tally.mp hmem).2]
  exact le_trans hr (tally_head_max he h)

theorem reaching_eq_singleton_iff (hq : 1 ≤ quorum) :
    reaching hashes quorum = [h] ↔
      Reaches hashes quorum h ∧ ∀ h', Reaches hashes quorum h' → h' = h := by
  constructor
  · intro hone
    refine ⟨(mem_reaching hq).mp (hone ▸ List.mem_singleton_self h), fun h' hr' => ?_⟩
    exact List.mem_singleton.mp (hone ▸ (mem_reaching hq).mpr hr')
  · rintro ⟨hr, huniq⟩
    refine List.perm_singleton.mp ?_
    refine (List.perm_ext_iff_of_nodup (nodup_reaching _ _) (List.nodup_singleton h)).mpr ?_
    intro h'
    rw [mem_reaching hq, List.mem_singleton]
    exact ⟨huniq h', fun heq => heq ▸ hr⟩

/-- `agreed_hash` is the one hash that reaches the quorum, if there is exactly one. -/
theorem evaluateQuorum_agreedHash_iff (hq : 1 ≤ quorum) :
    (evaluateQuorum hashes quorum).agreedHash = some h ↔
      Reaches hashes quorum h ∧ ∀ h', Reaches hashes quorum h' → h' = h := by
  rw [← reaching_eq_singleton_iff hq]
  simp only [evaluateQuorum, meeting_eq]
  constructor
  · intro heq
    split at heq
    · cases heq
    · split at heq
      · rename_i hone
        obtain ⟨a, ha⟩ := List.length_eq_one_iff.mp hone
        obtain ⟨e, he, rfl⟩ := Option.map_eq_some_iff.mp heq
        have hra : Reaches hashes quorum a :=
          (mem_reaching hq).mp (ha ▸ List.mem_singleton_self a)
        have hre : e.1 ∈ reaching hashes quorum :=
          (mem_reaching hq).mpr (tally_head_reaches he hra)
        rw [ha] at hre ⊢
        rw [List.mem_singleton.mp hre]
      · cases heq
  · intro hone
    have hr := ((reaching_eq_singleton_iff hq).mp hone).1
    rw [hone, List.length_singleton, if_neg (by omega), if_pos rfl]
    -- the tally is not empty, and its first entry reaches the quorum
    cases he : (tally hashes).head? with
    | none =>
      have hentry : (h, hashes.count h) ∈ tally hashes := mem_tally.mpr ⟨mem_of_reaches hq hr, rfl⟩
      rw [List.head?_eq_none_iff.mp he] at hentry
      cases hentry
    | some e =>
      have hre : e.1 ∈ reaching hashes quorum :=
        (mem_reaching hq).mpr (tally_head_reaches he hr)
      rw [hone] at hre
      exact congrArg some (List.mem_singleton.mp hre)

/-- `split` says that two different hashes reach the quorum. -/
theorem evaluateQuorum_split_iff (hq : 1 ≤ quorum) :
    (evaluateQuorum hashes quorum).split = true ↔
      ∃ h h', h ≠ h' ∧ Reaches hashes quorum h ∧ Reaches hashes quorum h' := by
  have hsplit : (evaluateQuorum hashes quorum).split = true ↔
      1 < (reaching hashes quorum).length := by
    simp only [evaluateQuorum, meeting_eq]
    split
    · rename_i h
      exact ⟨fun _ => h, fun _ => rfl⟩
    · rename_i h
      split <;> exact ⟨nofun, fun hf => absurd hf h⟩
  rw [hsplit, ← List.toFinset_card_of_nodup (nodup_reaching hashes quorum), Finset.one_lt_card]
  simp only [List.mem_toFinset, mem_reaching hq]
  constructor
  · rintro ⟨h, hr, h', hr', hne⟩
    exact ⟨h, h', hne, hr, hr'⟩
  · rintro ⟨h, h', hne, hr, hr'⟩
    exact ⟨h, hr, h', hr', hne⟩

/-! ## The order of the commits -/

/-- Sorting forgets the order and nothing else. -/
theorem insertionSort_eq_iff {α : Type} {r : α → α → Prop} [DecidableRel r] [Std.Total r]
    [IsTrans α r] [Std.Antisymm r] {l l' : List α} :
    l.insertionSort r = l'.insertionSort r ↔ l.Perm l' := by
  constructor
  · intro h
    have hperm := List.perm_insertionSort r l
    rw [h] at hperm
    exact hperm.symm.trans (List.perm_insertionSort r l')
  · intro h
    refine List.Perm.eq_of_pairwise' (r := r) (List.pairwise_insertionSort _ _)
      (List.pairwise_insertionSort _ _) ?_
    exact (List.perm_insertionSort _ _).trans (h.trans (List.perm_insertionSort _ _).symm)

/-- The sort makes the listing of the hash map irrelevant. -/
theorem insertionSort_eq_tally {listing : List (String × Nat)}
    (h : listing.Perm (hashes.dedup.map fun h => (h, hashes.count h))) :
    listing.insertionSort tallyLe = tally hashes :=
  insertionSort_eq_iff.mpr h

theorem tally_perm {hashes' : List String} (h : hashes'.Perm hashes) :
    tally hashes' = tally hashes := by
  refine insertionSort_eq_tally ?_
  have hcounts : (fun x => (x, hashes'.count x)) = fun x => (x, hashes.count x) := by
    funext x
    rw [h.count_eq]
  rw [hcounts]
  exact (h.dedup).map _

theorem evaluateQuorum_perm {hashes' : List String} (h : hashes'.Perm hashes)
    (quorum : Nat) : evaluateQuorum hashes' quorum = evaluateQuorum hashes quorum := by
  unfold evaluateQuorum
  rw [tally_perm h]

theorem evaluateQuorum_agreement (hashes : List String) (quorum : Nat) :
    (evaluateQuorum hashes quorum).agreement = ((tally hashes).head?.map Prod.snd).getD 0 := by
  simp only [evaluateQuorum]
  split
  · rfl
  · split <;> rfl

/-- `agreement` is the largest number of commits to one hash. -/
theorem evaluateQuorum_agreement_max (hashes : List String) (quorum : Nat) :
    (∀ h, hashes.count h ≤ (evaluateQuorum hashes quorum).agreement) ∧
      ∃ h, hashes.count h = (evaluateQuorum hashes quorum).agreement := by
  rw [evaluateQuorum_agreement]
  cases he : (tally hashes).head? with
  | some e =>
    have hmem := mem_tally.mp (List.mem_of_mem_head? he)
    exact ⟨tally_head_max he, e.1, hmem.2.symm⟩
  | none =>
    have hnone : ∀ h, hashes.count h = 0 := by
      intro h
      refine List.count_eq_zero_of_not_mem fun hmem => ?_
      have hentry : (h, hashes.count h) ∈ tally hashes := mem_tally.mpr ⟨hmem, rfl⟩
      rw [List.head?_eq_none_iff.mp he] at hentry
      cases hentry
    exact ⟨fun h => (hnone h).le, "", hnone ""⟩

/-- A commit made on the pinned snapshot, or by a worker that does not say which it read. -/
def CommitKey.onPin (pin : String) (c : CommitKey) : Prop :=
  c.inputFingerprint = "" ∨ c.inputFingerprint = pin

instance (pin : String) : DecidablePred (CommitKey.onPin pin) :=
  fun c => inferInstanceAs (Decidable (c.inputFingerprint = "" ∨ c.inputFingerprint = pin))

theorem CommitKey.drifts_some (pin : String) (c : CommitKey) :
    c.drifts (some pin) = !decide (c.onPin pin) := by
  rw [Bool.eq_iff_iff, Bool.not_eq_true', decide_eq_false_iff_not]
  simp [CommitKey.drifts, CommitKey.onPin]

/-- What the two tallies compute: a function of how often each hash was committed, and on commits
    with fingerprints the same function of those that count for the pin. -/
theorem evaluateQuorum_spec (hashes : List String) {quorum : Nat} (hq : 1 ≤ quorum) :
    (∀ listing : List (String × Nat), listing.Perm (hashes.dedup.map fun h => (h, hashes.count h)) →
        listing.insertionSort tallyLe = tally hashes) ∧
      (∀ hashes', hashes'.Perm hashes →
        evaluateQuorum hashes' quorum = evaluateQuorum hashes quorum) ∧
      (∀ h, (evaluateQuorum hashes quorum).agreedHash = some h ↔
        quorum ≤ hashes.count h ∧ ∀ h', quorum ≤ hashes.count h' → h' = h) ∧
      ((evaluateQuorum hashes quorum).split = true ↔
        ∃ h h', h ≠ h' ∧ quorum ≤ hashes.count h ∧ quorum ≤ hashes.count h') ∧
      ((∀ h, hashes.count h ≤ (evaluateQuorum hashes quorum).agreement) ∧
        ∃ h, hashes.count h = (evaluateQuorum hashes quorum).agreement) ∧
      (∀ commits pin, evaluateQuorumOnCommits commits (some pin) quorum =
        { pinned := evaluateQuorum ((commits.filter fun c => c.onPin pin).map (·.resultHash)) quorum
          drifted := (commits.filter fun c => ¬ c.onPin pin).length }) ∧
      ∀ commits, evaluateQuorumOnCommits commits none quorum =
        { pinned := evaluateQuorum (commits.map (·.resultHash)) quorum, drifted := 0 } :=
  ⟨fun _ h => insertionSort_eq_tally h, fun _ h => evaluateQuorum_perm h quorum,
    fun _ => evaluateQuorum_agreedHash_iff hq, evaluateQuorum_split_iff hq,
    evaluateQuorum_agreement_max hashes quorum,
    fun commits pin => by
      simp only [evaluateQuorumOnCommits, CommitKey.drifts_some, Bool.not_not, decide_not],
    fun commits => by simp [evaluateQuorumOnCommits, CommitKey.drifts]⟩

/-- Two of three workers commit to one hash, with a quorum of two. -/
theorem evaluateQuorum_spec_majority :
    (evaluateQuorum ["a", "b", "a"] 2).agreedHash = some "a" ∧
      evaluateQuorum ["b", "a", "a"] 2 = evaluateQuorum ["a", "b", "a"] 2 := by
  obtain ⟨-, hperm, hagreed, -⟩ := evaluateQuorum_spec ["a", "b", "a"] (by decide : 1 ≤ 2)
  refine ⟨(hagreed "a").mpr ⟨by decide, fun h' hreach => ?_⟩, hperm _ (List.Perm.swap _ _ _)⟩
  by_contra hne
  have hb : (["a", "b", "a"] : List String).count h' ≤ 1 := by
    simp only [List.count_cons, List.count_nil, beq_iff_eq]
    rw [if_neg (fun h => hne h.symm)]
    split <;> omega
  omega

end Duckton.Trust
