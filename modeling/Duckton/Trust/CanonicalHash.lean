/-
  Which result sets have the same canonical hash (trust/canonical.rs, canonical_hash).

  The hashed bytes are a nest of counted and length-prefixed encodings, and sorting the encoded
  rows forgets their order and nothing else. `canonicalPreimage_eq_iff` says so: two result sets
  are hashed from the same bytes exactly if they have the same columns and, up to the order of the
  rows and the two float normalizations, the same rows. Nothing is assumed of BLAKE3 there;
  for the hashes themselves it must not collide on the two byte strings in question.
-/
import Duckton.Lib.Codec
import Duckton.Trust.Attestation

namespace Duckton.Trust

open Duckton.Proto
open Codec (Delimited)

/-! ## Equal answers -/

/-- Equal after the float normalization: the zeros are one number, and so are the NaNs. -/
def F64Same (a b : F64) : Prop :=
  a = b ∨ (a.isNaN = true ∧ b.isNaN = true) ∨ (a.isZero = true ∧ b.isZero = true)

def ValueSame : Value → Value → Prop
  | .float a, .float b => F64Same a b
  | v, w => v = w

/-- The same columns in order, and the same rows in some order. -/
def SameAnswer (a b : ResultSet) : Prop :=
  a.columns = b.columns ∧
    ∃ rows : List (List Value), rows.Perm b.rows ∧
      List.Forall₂ (List.Forall₂ ValueSame) a.rows rows

/-! ## Result sets as the program holds them -/

def ValueFits : Value → Prop
  | .text s => (utf8 s).length < 2 ^ 64
  | .blob b => b.length < 2 ^ 64
  | _ => True

/-- Vectors and strings have a length that a `u64` holds. The encoded rows are vectors too. -/
structure Held (rs : ResultSet) : Prop where
  columns : rs.columns.length < 2 ^ 64
  names : ∀ c ∈ rs.columns, (utf8 c).length < 2 ^ 64
  rows : rs.rows.length < 2 ^ 64
  cells : ∀ row ∈ rs.rows, row.length < 2 ^ 64
  values : ∀ row ∈ rs.rows, ∀ v ∈ row, ValueFits v
  encoded : ∀ row ∈ rs.rows, (encodeRow row).length < 2 ^ 64

/-- A result set in memory. -/
abbrev HeldResultSet := { rs : ResultSet // Held rs }

/-! ## Values and rows -/

theorem u64LeBytes_eq_toLe (n : Nat) : u64LeBytes n = Octets.toLe 8 n := by
  have hbyte : ∀ m : Nat, UInt8.ofNat (m % 256) = UInt8.ofNat m := fun m => by
    rw [← UInt8.toNat_inj, UInt8.toNat_ofNat', UInt8.toNat_ofNat', Nat.mod_mod]
  simp [u64LeBytes, Octets.toLe, List.range_succ, Nat.div_div_eq_div_mul, hbyte]

theorem delimited_u64LeBytes : Delimited (· = ·) (· < 2 ^ 64) u64LeBytes := by
  intro n m rest rest' hn hm h
  rw [u64LeBytes_eq_toLe, u64LeBytes_eq_toLe] at h
  exact Octets.toLe_append_inj hn hm h

theorem delimited_lengthPrefixed :
    Delimited (· = ·) (fun bytes : Bytes => bytes.length < 2 ^ 64) lengthPrefixed := by
  intro a b rest rest' ha hb h
  obtain ⟨hlen, h⟩ := delimited_u64LeBytes _ _ _ _ ha hb h
  exact List.append_inj h hlen

theorem canonicalF64Bits_lt (f : F64) : canonicalF64Bits f < 2 ^ 64 := by
  unfold canonicalF64Bits
  split
  · decide
  · split <;> omega

/-- The three ranges of the normalization do not meet. -/
theorem canonicalF64Bits_cases (f : F64) :
    (f.isNaN = true ∧ f.isZero = false ∧ canonicalF64Bits f = 0x7ff8000000000000) ∨
      (f.isNaN = false ∧ f.isZero = true ∧ canonicalF64Bits f = 0) ∨
      (f.isNaN = false ∧ f.isZero = false ∧ canonicalF64Bits f = f.bits.toNat ∧
        f.bits.toNat ≠ 0x7ff8000000000000 ∧ f.bits.toNat ≠ 0) := by
  cases hnan : f.isNaN with
  | true =>
    have hmagnitude : F64.infinityMagnitude < f.magnitude := of_decide_eq_true hnan
    have hzero : f.isZero = false := decide_eq_false (Nat.ne_zero_of_lt hmagnitude)
    exact .inl ⟨rfl, hzero, if_pos hnan⟩
  | false =>
    have hmagnitude : ¬ F64.infinityMagnitude < f.magnitude := of_decide_eq_false hnan
    cases hzero : f.isZero with
    | true => exact .inr (.inl ⟨rfl, rfl, by rw [canonicalF64Bits, hnan, hzero]; rfl⟩)
    | false =>
      have hne : f.magnitude ≠ 0 := of_decide_eq_false hzero
      refine .inr (.inr ⟨rfl, rfl, by rw [canonicalF64Bits, hnan, hzero]; rfl, ?_, ?_⟩)
      · intro hbits
        rw [F64.magnitude, hbits] at hmagnitude
        exact hmagnitude (by decide)
      · intro hbits
        rw [F64.magnitude, hbits] at hne
        exact hne (by decide)

theorem F64.bits_toNat_inj {a b : F64} : a.bits.toNat = b.bits.toNat ↔ a = b := by
  rw [BitVec.toNat_inj]
  exact ⟨fun h => by cases a; cases b; cases h; rfl, congrArg _⟩

theorem canonicalF64Bits_eq_iff (a b : F64) :
    canonicalF64Bits a = canonicalF64Bits b ↔ F64Same a b := by
  have hinj : a.bits.toNat = b.bits.toNat ↔ a = b := F64.bits_toNat_inj
  have ha := canonicalF64Bits_cases a
  have hb := canonicalF64Bits_cases b
  unfold F64Same
  grind

theorem encodeValue_of_same {v w : Value} (h : ValueSame v w) : encodeValue v = encodeValue w := by
  cases v <;> cases w <;> try exact congrArg encodeValue h
  case float.float a b =>
    simp only [encodeValue, Value.typeTag, (canonicalF64Bits_eq_iff a b).mpr h]

theorem delimited_encodeValue : Delimited ValueSame ValueFits encodeValue := by
  intro v w rest rest' hv hw h
  have htag : v.typeTag = w.typeTag := (List.cons.inj h).1
  cases v <;> cases w <;> try (simp [Value.typeTag] at htag; done)
  case null.null => exact ⟨rfl, (List.cons.inj h).2⟩
  case bool.bool b c =>
    obtain ⟨hbit, hrest⟩ := List.cons.inj (List.cons.inj h).2
    refine ⟨congrArg Value.bool ?_, hrest⟩
    revert hbit
    cases b <;> cases c <;> decide
  case int.int i j =>
    obtain ⟨hnumber, hrest⟩ := delimited_u64LeBytes _ _ _ _ i.toBitVec.isLt j.toBitVec.isLt
      (List.cons.inj h).2
    exact ⟨congrArg Value.int (Int64.toBitVec_inj.mp (BitVec.eq_of_toNat_eq hnumber)), hrest⟩
  case float.float a b =>
    obtain ⟨hbits, hrest⟩ := delimited_u64LeBytes _ _ _ _ (canonicalF64Bits_lt a)
      (canonicalF64Bits_lt b) (List.cons.inj h).2
    exact ⟨(canonicalF64Bits_eq_iff a b).mp hbits, hrest⟩
  case text.text s t =>
    obtain ⟨hbytes, hrest⟩ := delimited_lengthPrefixed _ _ _ _ hv hw (List.cons.inj h).2
    exact ⟨congrArg Value.text (utf8_inj hbytes), hrest⟩
  case blob.blob b c =>
    obtain ⟨hbytes, hrest⟩ := delimited_lengthPrefixed _ _ _ _ hv hw (List.cons.inj h).2
    exact ⟨congrArg Value.blob hbytes, hrest⟩

theorem map_eq_of_forall₂ {α β : Type} {f : α → β} {as bs : List α}
    (h : List.Forall₂ (fun a b => f a = f b) as bs) : as.map f = bs.map f :=
  List.forall₂_eq_eq_eq ▸ List.forall₂_map_left_iff.mpr (List.forall₂_map_right_iff.mpr h)

theorem encodeRow_of_same {row row' : List Value} (h : List.Forall₂ ValueSame row row') :
    encodeRow row = encodeRow row' := by
  have hcells : row.map encodeValue = row'.map encodeValue :=
    map_eq_of_forall₂ (h.imp fun _ _ => encodeValue_of_same)
  rw [encodeRow, encodeRow, h.length_eq, List.flatMap_def, List.flatMap_def, hcells]

def RowFits (row : List Value) : Prop :=
  row.length < 2 ^ 64 ∧ ∀ v ∈ row, ValueFits v

theorem delimited_encodeRow : Delimited (List.Forall₂ ValueSame) RowFits encodeRow :=
  delimited_encodeValue.counted delimited_u64LeBytes

theorem Held.rowFits {rs : ResultSet} (h : Held rs) : ∀ row ∈ rs.rows, RowFits row :=
  fun row hrow => ⟨h.cells row hrow, h.values row hrow⟩

/-! ## Sorted rows -/

theorem bytesLe_iff {a b : Bytes} : bytesLe a b = true ↔ a ≤ b := by
  induction a generalizing b with
  | nil => simp [bytesLe]
  | cons x a ih =>
    cases b with
    | nil => simp [bytesLe]
    | cons y b =>
      rw [List.cons_le_cons_iff]
      simp [bytesLe, ih]

instance : Std.Total fun a b => bytesLe a b = true where
  total a b := by simpa only [bytesLe_iff] using List.le_total a b

instance : IsTrans Bytes fun a b => bytesLe a b = true where
  trans a b c := by simpa only [bytesLe_iff] using List.le_trans

instance : Std.Antisymm fun a b => bytesLe a b = true where
  antisymm a b := by simpa only [bytesLe_iff] using List.le_antisymm

/-- The encoded rows are the same up to order exactly if the rows are. -/
theorem perm_map_encodeRow_iff {rows rows' : List (List Value)} (hfits : ∀ row ∈ rows, RowFits row)
    (hfits' : ∀ row ∈ rows', RowFits row) :
    (rows.map encodeRow).Perm (rows'.map encodeRow) ↔
      ∃ listed : List (List Value), listed.Perm rows' ∧
        List.Forall₂ (List.Forall₂ ValueSame) rows listed := by
  constructor
  · intro hperm
    have hcodes : List.Forall₂ (fun code row => code = encodeRow row) (rows'.map encodeRow) rows' :=
      List.forall₂_map_left_iff.mpr (List.forall₂_same.mpr fun _ _ => rfl)
    obtain ⟨listed, hlisted, hperm'⟩ := List.perm_comp_forall₂ hperm hcodes
    refine ⟨listed, hperm', ?_⟩
    have hrows := (List.forall₂_and_left _ _).mpr ⟨hfits, List.forall₂_map_left_iff.mp hlisted⟩
    have hboth := (List.forall₂_and_left _ _).mpr
      ⟨fun row hrow => hfits' row (hperm'.mem_iff.mp hrow), hrows.flip⟩
    exact hboth.flip.imp fun row row' h => delimited_encodeRow.of_eq h.2.1 h.1 h.2.2
  · rintro ⟨listed, hperm, hsame⟩
    have hcodes : rows.map encodeRow = listed.map encodeRow :=
      map_eq_of_forall₂ (hsame.imp fun _ _ => encodeRow_of_same)
    rw [hcodes]
    exact hperm.map _

/-! ## The hashed bytes -/

theorem delimited_columns : Delimited (· = ·)
    (fun columns : List String => columns.length < 2 ^ 64 ∧ ∀ c ∈ columns, (utf8 c).length < 2 ^ 64)
    (fun columns => u64LeBytes columns.length ++
      columns.flatMap fun c => lengthPrefixed (utf8 c)) := by
  have hname : Delimited (· = ·) (fun c => (utf8 c).length < 2 ^ 64)
      (fun c => lengthPrefixed (utf8 c)) := by
    intro c c' rest rest' hc hc' h
    exact (delimited_lengthPrefixed _ _ _ _ hc hc' h).imp_left utf8_inj
  intro a b rest rest' ha hb h
  exact (hname.counted delimited_u64LeBytes a b rest rest' ha hb h).imp_left
    (List.forall₂_eq_eq_eq ▸ ·)

theorem delimited_rows : Delimited (· = ·)
    (fun rows : List Bytes => rows.length < 2 ^ 64 ∧ ∀ row ∈ rows, row.length < 2 ^ 64)
    (fun rows => u64LeBytes rows.length ++ rows.flatMap lengthPrefixed) := by
  intro a b rest rest' ha hb h
  exact (delimited_lengthPrefixed.counted delimited_u64LeBytes a b rest rest' ha hb h).imp_left
    (List.forall₂_eq_eq_eq ▸ ·)

/-- The encoded rows in the order in which they are hashed. -/
def sortedRows (rs : ResultSet) : List Bytes :=
  (rs.rows.map encodeRow).insertionSort (bytesLe · ·)

theorem canonicalPreimage_eq (rs : ResultSet) :
    canonicalPreimage rs = domain ++
      ((u64LeBytes rs.columns.length ++ rs.columns.flatMap fun c => lengthPrefixed (utf8 c)) ++
        (u64LeBytes (sortedRows rs).length ++ (sortedRows rs).flatMap lengthPrefixed)) := by
  simp only [canonicalPreimage, sortedRows, List.append_assoc]

theorem sortedRows_fit {rs : ResultSet} (h : Held rs) :
    (sortedRows rs).length < 2 ^ 64 ∧ ∀ row ∈ sortedRows rs, row.length < 2 ^ 64 := by
  unfold sortedRows
  refine ⟨by rw [List.length_insertionSort, List.length_map]; exact h.rows, ?_⟩
  intro code hcode
  obtain ⟨row, hrow, rfl⟩ := List.mem_map.mp (List.mem_insertionSort _ |>.mp hcode)
  exact h.encoded row hrow

/-- The hashed bytes determine the answer, and nothing but the answer determines them. -/
theorem canonicalPreimage_eq_iff {a b : ResultSet} (ha : Held a) (hb : Held b) :
    canonicalPreimage a = canonicalPreimage b ↔ SameAnswer a b := by
  unfold SameAnswer
  rw [← perm_map_encodeRow_iff ha.rowFits hb.rowFits,
    ← insertionSort_eq_iff (r := fun a b => bytesLe a b = true)]
  constructor
  · intro h
    rw [canonicalPreimage_eq, canonicalPreimage_eq] at h
    obtain ⟨hcolumns, h⟩ := delimited_columns _ _ _ _ ⟨ha.columns, ha.names⟩
      ⟨hb.columns, hb.names⟩ (List.append_cancel_left h)
    exact ⟨hcolumns, delimited_rows.of_eq (sortedRows_fit ha) (sortedRows_fit hb) h⟩
  · rintro ⟨hcolumns, hrows⟩
    have hsorted : sortedRows a = sortedRows b := hrows
    rw [canonicalPreimage_eq, canonicalPreimage_eq, hcolumns, hsorted]

theorem hexEncode_inj {a b : Bytes} (h : hexEncode a = hexEncode b) : a = b := by
  have hdecoded := congrArg hexDecode h
  rwa [hexDecode_hexEncode, hexDecode_hexEncode, Option.some_inj] at hdecoded

/-- Two result sets are hashed from the same bytes exactly if they are the same answer. If BLAKE3
    does not collide on the bytes of the two, their hashes agree exactly then too. -/
theorem canonicalHash_identifies (a b : HeldResultSet) :
    (canonicalPreimage a.val = canonicalPreimage b.val ↔ SameAnswer a.val b.val) ∧
      ∀ blake3 : Bytes → Bytes,
        (blake3 (canonicalPreimage a.val) = blake3 (canonicalPreimage b.val) →
          canonicalPreimage a.val = canonicalPreimage b.val) →
        (canonicalHash blake3 a.val = canonicalHash blake3 b.val ↔ SameAnswer a.val b.val) := by
  have hbytes := canonicalPreimage_eq_iff a.property b.property
  refine ⟨hbytes, fun blake3 hideal => ?_⟩
  rw [← hbytes]
  constructor
  · exact fun h => hideal (hexEncode_inj h)
  · intro h
    rw [canonicalHash, canonicalHash, h]

/-- One column of floats. -/
def floatColumn (fs : List F64) : ResultSet :=
  { columns := ["x"], rows := fs.map fun f => [.float f] }

theorem floatColumn_held (fs : List F64) (h : fs.length < 2 ^ 64) : Held (floatColumn fs) where
  columns := by simp [floatColumn]
  names := by simp [floatColumn]; decide
  rows := by simpa [floatColumn] using h
  cells := by simp [floatColumn]
  values := by simp [floatColumn, ValueFits]
  encoded := by simp [floatColumn, encodeRow, encodeValue, u64LeBytes]

/-- The other order, the other zero and another NaN give the same hash; no row at all does not. -/
theorem canonicalHash_identifies_floats :
    canonicalHash id (floatColumn [⟨0⟩, ⟨0x7ff8000000000001⟩]) =
        canonicalHash id (floatColumn [⟨0xfff8000000000000⟩, ⟨0x8000000000000000⟩]) ∧
      canonicalHash id (floatColumn [⟨0⟩, ⟨0x7ff8000000000001⟩]) ≠
        canonicalHash id (floatColumn []) := by
  have hfirst := floatColumn_held [⟨0⟩, ⟨0x7ff8000000000001⟩] (by decide)
  have hsecond := floatColumn_held [⟨0xfff8000000000000⟩, ⟨0x8000000000000000⟩] (by decide)
  have hempty := floatColumn_held [] (by decide)
  constructor
  · refine ((canonicalHash_identifies ⟨_, hfirst⟩ ⟨_, hsecond⟩).2 id fun h => h).mpr ⟨rfl, ?_⟩
    refine ⟨[[.float ⟨0x8000000000000000⟩], [.float ⟨0xfff8000000000000⟩]], List.Perm.swap _ _ _, ?_⟩
    have hzeros : ValueSame (.float ⟨0⟩) (.float ⟨0x8000000000000000⟩) :=
      .inr (.inr ⟨by decide, by decide⟩)
    have hnans : ValueSame (.float ⟨0x7ff8000000000001⟩) (.float ⟨0xfff8000000000000⟩) :=
      .inr (.inl ⟨by decide, by decide⟩)
    exact .cons (.cons hzeros .nil) (.cons (.cons hnans .nil) .nil)
  · intro heq
    obtain ⟨-, listed, hperm, hsame⟩ :=
      ((canonicalHash_identifies ⟨_, hfirst⟩ ⟨_, hempty⟩).2 id fun h => h).mp heq
    rw [List.perm_nil.mp hperm] at hsame
    cases hsame

end Duckton.Trust
