/-
  The rows of `p2p_query` (extension/lib.rs: `value_to_string`, `QueryVTab`).

  DuckDB calls `func` until it reports a chunk without rows. A cell is handed over as a C string,
  so a text with a NUL in it stops the scan, and a blob goes through `from_utf8_lossy`, which
  writes U+FFFD for what is not UTF-8. `delivered_iff` says which results arrive whole.

  How a float is written is the standard library's: `FloatText` has what is used of it.
-/
import Duckton.Lib.Fallible
import Duckton.Lib.Text
import Duckton.Proto.Value

namespace Duckton.Extension

open Duckton.Proto

/-- `f64::to_string`. A text is read back as the number it was written for. -/
structure FloatText where
  toText : F64 → List Char
  same : ∀ {a b}, toText a = toText b → a = b ∨ (a.isNaN = true ∧ b.isNaN = true)
  no_nul : ∀ a, '\x00' ∉ toText a

/-- `CString::new` fails at the first NUL. -/
structure NulError where
  position : Nat
  bytes : Bytes
  deriving DecidableEq, Repr

def cstringNew (s : List Char) : Except NulError (List Char) :=
  if '\x00' ∈ s then
    .error ⟨(Text.toUtf8 (s.takeWhile (· ≠ '\x00'))).length, Text.toUtf8 s⟩
  else .ok s

/-! ## The table function -/

/-- `VECTOR_SIZE` -/
def vectorSize : Nat :=
  2048

structure QueryBind where
  columns : List String
  rows : List (List Value)

/-- `bind`, once the query has returned. -/
def QueryBind.ofResult (rs : ResultSet) : QueryBind where
  columns := if rs.columns.isEmpty then ["result"] else rs.columns
  rows := rs.rows

/-- The flat vectors of a chunk, column by column; a cell that is set to NULL has no text. -/
structure DataChunk where
  vectors : List (List (Option (List Char)))
  len : Nat
  deriving DecidableEq, Repr

def DataChunk.rows (c : DataChunk) : List (List (Option (List Char))) :=
  (List.range c.len).map fun i => c.vectors.map fun vector => vector[i]?.getD none

variable (floats : FloatText)

def valueToString : Value → Option (List Char)
  | .null => none
  | .bool b => some (toString b).toList
  | .int i => some (Text.ofInt i.toInt)
  | .float f => some (floats.toText f)
  | .text s => some s.toList
  | .blob b => some (Text.fromUtf8Lossy b)

/-- What `func` puts into a vector for a cell of the row. -/
def insertCell : Option Value → Except NulError (Option (List Char))
  | some .null => .ok none
  | none => .ok none
  | some other =>
    match valueToString floats other with
    | some s => (cstringNew s).map some
    | none => .ok none

/-- A call at `cursor`: the chunk, and where the next call goes on. -/
def QueryBind.func (bind : QueryBind) (cursor : Nat) : Except NulError (DataChunk × Nat) :=
  if bind.rows.length ≤ cursor then .ok (⟨[], 0⟩, cursor)
  else do
    let n := min (bind.rows.length - cursor) vectorSize
    let vectors ← (List.range bind.columns.length).mapM fun col =>
      ((bind.rows.drop cursor).take n).mapM fun row => insertCell floats row[col]?
    .ok (⟨vectors, n⟩, cursor + n)

/-- The chunks of the calls from `cursor` on, up to the first one without rows. -/
inductive QueryBind.Scanned (bind : QueryBind) : Nat → List DataChunk → Prop
  | done {cursor next : Nat} {chunk : DataChunk} (h : bind.func floats cursor = .ok (chunk, next))
      (hlen : chunk.len = 0) : Scanned bind cursor []
  | more {cursor next : Nat} {chunk : DataChunk} {chunks : List DataChunk}
      (h : bind.func floats cursor = .ok (chunk, next)) (hlen : chunk.len ≠ 0)
      (hrest : Scanned bind next chunks) : Scanned bind cursor (chunk :: chunks)

/-! ## What is to arrive -/

/-- The same value: all NaNs are one. -/
def SameValue : Value → Value → Prop
  | .float a, .float b => a = b ∨ (a.isNaN = true ∧ b.isNaN = true)
  | v, w => v = w

/-- A cell arrives as the text of its value: NULL for Null only, and otherwise one that no other
    value of its kind has. -/
@[mk_iff]
structure Shown (v : Value) (cell : Option (List Char)) : Prop where
  printed : cell = valueToString floats v
  null : cell = none ↔ v = .null
  recovered : ∀ w, w.typeTag = v.typeTag → valueToString floats w = cell → SameValue w v

/-- The scan ends, and its chunks are the rows of the result. -/
def Delivered (rs : ResultSet) : Prop :=
  ∃ chunks, (QueryBind.ofResult rs).Scanned floats 0 chunks ∧
    (∀ chunk ∈ chunks, chunk.len ≤ vectorSize) ∧
    List.Forall₂ (List.Forall₂ (Shown floats)) rs.rows (chunks.flatMap DataChunk.rows)

variable {floats}

/-! ## The cells of a chunk -/

/-- The text of a cell, where the row has it. -/
def shownAt (floats : FloatText) (row : List Value) (col : Nat) : Option (List Char) :=
  row[col]?.bind (valueToString floats)

/-- No NUL in the text of a cell. -/
def Clean (cell : Option (List Char)) : Prop :=
  ∀ s ∈ cell, '\x00' ∉ s

theorem insertCell_eq_ok (row : List Value) (col : Nat) (cell : Option (List Char)) :
    insertCell floats row[col]? = .ok cell ↔
      Clean (shownAt floats row col) ∧ shownAt floats row col = cell := by
  have hstring : ∀ s, (cstringNew s).map some = .ok cell ↔ '\x00' ∉ s ∧ some s = cell := by
    intro s
    unfold cstringNew
    split <;> simp_all [Except.map]
  unfold shownAt
  rcases row[col]? with _ | (_ | _ | _ | _ | _ | _) <;>
    simp [insertCell, valueToString, hstring, Clean]

/-- Read row by row, the vectors are the rows. -/
theorem rows_chunk {window : List (List Value)} {width : Nat} :
    DataChunk.rows ⟨(List.range width).map fun col => window.map (shownAt floats · col),
      window.length⟩ = window.map fun row => (List.range width).map (shownAt floats row) := by
  refine List.ext_getElem (by simp [DataChunk.rows]) fun i hi hi' => ?_
  rw [List.length_map] at hi'
  simp [DataChunk.rows, List.getElem?_eq_getElem hi']

/-! ## A scan -/

variable {bind : QueryBind} {cursor : Nat} {chunks : List DataChunk}

/-- The texts of a row under the columns of the table. -/
def QueryBind.shown (floats : FloatText) (bind : QueryBind) (row : List Value) :
    List (Option (List Char)) :=
  (List.range bind.columns.length).map (shownAt floats row)

/-- The rows can be written. -/
def QueryBind.Writable (floats : FloatText) (bind : QueryBind) (rows : List (List Value)) : Prop :=
  ∀ col ∈ List.range bind.columns.length, ∀ row ∈ rows, Clean (shownAt floats row col)

/-- The rows that a call writes. -/
def QueryBind.window (bind : QueryBind) (cursor : Nat) : List (List Value) :=
  (bind.rows.drop cursor).take (min (bind.rows.length - cursor) vectorSize)

@[simp] theorem length_window :
    (bind.window cursor).length = min (bind.rows.length - cursor) vectorSize := by
  simp [QueryBind.window]

theorem window_append_drop :
    bind.window cursor ++ bind.rows.drop (cursor + (bind.window cursor).length) =
      bind.rows.drop cursor := by
  rw [length_window, ← List.drop_drop]
  exact List.take_append_drop _ _

theorem writable_append {rows rows' : List (List Value)} :
    bind.Writable floats (rows ++ rows') ↔
      bind.Writable floats rows ∧ bind.Writable floats rows' := by
  simp only [QueryBind.Writable, List.forall_mem_append, forall_and]

/-- A call succeeds if it can write its rows. -/
theorem func_eq_ok {r : DataChunk × Nat} (hcursor : cursor < bind.rows.length) :
    bind.func floats cursor = .ok r ↔ bind.Writable floats (bind.window cursor) ∧
      (⟨(List.range bind.columns.length).map fun col =>
          (bind.window cursor).map (shownAt floats · col), (bind.window cursor).length⟩,
        cursor + (bind.window cursor).length) = r := by
  unfold QueryBind.func
  rw [if_neg (by omega), Fallible.bind_eq_ok]
  simp only [Fallible.mapM_eq_ok_map fun col vector =>
    Fallible.mapM_eq_ok_map fun row cell => insertCell_eq_ok row col cell]
  simp [QueryBind.Writable, QueryBind.window]

theorem func_end (hcursor : bind.rows.length ≤ cursor) :
    bind.func floats cursor = .ok (⟨[], 0⟩, cursor) :=
  if_pos hcursor

/-- What a scan has written. -/
theorem scanned_spec (h : bind.Scanned floats cursor chunks) :
    bind.Writable floats (bind.rows.drop cursor) ∧
      chunks.flatMap DataChunk.rows = (bind.rows.drop cursor).map (bind.shown floats) ∧
      ∀ chunk ∈ chunks, chunk.len ≤ vectorSize := by
  induction h with
  | @done cursor next chunk h hlen =>
    rcases Nat.lt_or_ge cursor bind.rows.length with hcursor | hcursor
    · obtain ⟨-, hr⟩ := (func_eq_ok hcursor).mp h
      cases hr
      simp only [length_window, vectorSize] at hlen
      omega
    · rw [List.drop_eq_nil_of_le hcursor]
      exact ⟨nofun, rfl, nofun⟩
  | @more cursor next chunk chunks h hlen hrest ih =>
    rcases Nat.lt_or_ge cursor bind.rows.length with hcursor | hcursor
    · obtain ⟨hwritable, hr⟩ := (func_eq_ok hcursor).mp h
      cases hr
      obtain ⟨hrest, hrows, hsmall⟩ := ih
      rw [← window_append_drop, writable_append, List.flatMap_cons, rows_chunk, hrows,
        List.map_append]
      have hlen' : (bind.window cursor).length ≤ vectorSize :=
        length_window.trans_le (Nat.min_le_right _ _)
      exact ⟨⟨hwritable, hrest⟩, rfl, List.forall_mem_cons.mpr ⟨hlen', hsmall⟩⟩
    · rw [func_end hcursor] at h
      cases h
      exact absurd rfl hlen

/-- A scan of rows that can be written ends. -/
theorem exists_scanned (h : bind.Writable floats (bind.rows.drop cursor)) :
    ∃ chunks, bind.Scanned floats cursor chunks := by
  induction hn : bind.rows.length - cursor using Nat.strong_induction_on generalizing cursor with
  | _ n ih =>
    rcases Nat.lt_or_ge cursor bind.rows.length with hcursor | hcursor
    · rw [← window_append_drop, writable_append] at h
      have hlen : 0 < (bind.window cursor).length := by
        rw [length_window, vectorSize]
        omega
      obtain ⟨chunks, hchunks⟩ := ih _ (by omega) h.2 rfl
      exact ⟨_, .more ((func_eq_ok hcursor).mpr ⟨h.1, rfl⟩) hlen.ne' hchunks⟩
    · exact ⟨[], .done (func_end hcursor) rfl⟩

/-- A result is delivered if its rows can be written and every cell is known from its text. -/
theorem delivered_iff_rows {rs : ResultSet} :
    Delivered floats rs ↔ (QueryBind.ofResult rs).Writable floats rs.rows ∧
      List.Forall₂ (List.Forall₂ (Shown floats)) rs.rows
        (rs.rows.map ((QueryBind.ofResult rs).shown floats)) := by
  constructor
  · rintro ⟨chunks, hscanned, -, hshown⟩
    obtain ⟨hwritable, hrows, -⟩ := scanned_spec hscanned
    rw [hrows] at hshown
    exact ⟨hwritable, hshown⟩
  · rintro ⟨hwritable, hshown⟩
    obtain ⟨chunks, hscanned⟩ := @exists_scanned floats (.ofResult rs) 0 hwritable
    obtain ⟨-, hrows, hsmall⟩ := scanned_spec hscanned
    exact ⟨chunks, hscanned, hsmall, by rw [hrows]; exact hshown⟩

/-! ## Which results arrive -/

/-- No text has a NUL, and a blob is the UTF-8 of a text without NUL and U+FFFD. -/
def Printable : Value → Prop
  | .text s => '\x00' ∉ s.toList
  | .blob b => ∃ text, b = Text.toUtf8 text ∧ '\x00' ∉ text ∧ '\uFFFD' ∉ text
  | _ => True

theorem forall_value {P : Value → Prop} : (∀ v, P v) ↔ P .null ∧ (∀ b, P (.bool b)) ∧
    (∀ i, P (.int i)) ∧ (∀ f, P (.float f)) ∧ (∀ s, P (.text s)) ∧ ∀ b, P (.blob b) := by
  refine ⟨fun h => ⟨h _, fun _ => h _, fun _ => h _, fun _ => h _, fun _ => h _, fun _ => h _⟩, ?_⟩
  rintro ⟨_, _, _, _, _, _⟩ (_ | _ | _ | _ | _ | _) <;> apply_assumption

/-- The values that get through are the printable ones. -/
theorem printable_iff (v : Value) :
    Clean (valueToString floats v) ∧ Shown floats v (valueToString floats v) ↔ Printable v := by
  have hbool : ∀ b c : Bool, (toString b).toList = (toString c).toList ↔ b = c := by decide
  have hnul : ∀ b : Bool, '\x00' ∉ (toString b).toList := by decide
  -- only values of the same kind are compared
  rw [shown_iff, forall_value]
  cases v with
  | null => simp [valueToString, Clean, Printable, Value.typeTag, SameValue]
  | bool b => simp [valueToString, Clean, Printable, Value.typeTag, SameValue, hbool, hnul]
  | int i =>
    simp [valueToString, Clean, Printable, Value.typeTag, SameValue, Text.nul_not_mem_ofInt,
      Text.ofInt_inj, Int64.toInt_inj]
  | float f =>
    simp only [valueToString, Clean, Printable, Value.typeTag, SameValue]
    simpa [floats.no_nul] using fun _ => floats.same
  | text s => simp [valueToString, Clean, Printable, Value.typeTag, SameValue, String.toList_inj]
  | blob b =>
    have hblob := @Text.fromUtf8Lossy_determines b
    simp [valueToString, Clean, Printable, Value.typeTag, SameValue, hblob]
    constructor
    · exact fun h => ⟨_, (Text.toUtf8_fromUtf8Lossy b h.2).symm, h⟩
    · rintro ⟨text, rfl, h⟩
      rwa [Text.fromUtf8Lossy_toUtf8]

/-- A result arrives whole if and only if its cells are printable and its rows have a column to
    stand in: under the column that `bind` makes up, an empty row would come out as a NULL. -/
theorem delivered_iff (floats : FloatText) {rs : ResultSet}
    (hrows : ∀ row ∈ rs.rows, row.length = rs.columns.length) :
    Delivered floats rs ↔
      (rs.columns = [] → rs.rows = []) ∧ ∀ row ∈ rs.rows, ∀ v ∈ row, Printable v := by
  rw [delivered_iff_rows, List.forall₂_map_right_iff, List.forall₂_same]
  by_cases hcolumns : rs.columns = []
  · have hempty : ∀ row ∈ rs.rows, row = [] := by simpa [hcolumns] using hrows
    constructor
    · rintro ⟨-, h⟩
      have hnone : rs.rows = [] := List.eq_nil_iff_forall_not_mem.mpr fun row hrow => by
        simpa [hempty row hrow, QueryBind.shown, QueryBind.ofResult, hcolumns] using h row hrow
      simp [hnone]
    · rintro ⟨hnone, -⟩
      simp [hnone hcolumns, QueryBind.Writable]
  · unfold QueryBind.Writable
    rw [and_iff_right fun h => absurd h hcolumns, forall₂_comm, ← forall₂_and]
    refine forall₂_congr fun row hrow => ?_
    have hshown : (QueryBind.ofResult rs).shown floats row = row.map (valueToString floats) := by
      refine List.ext_getElem ?_ ?_
      · simp [QueryBind.shown, QueryBind.ofResult, hcolumns, hrows row hrow]
      · simp +contextual [QueryBind.shown, shownAt]
    rw [← List.forall_mem_map, ← QueryBind.shown, hshown, List.forall_mem_map,
      List.forall₂_map_right_iff, List.forall₂_same, ← forall₂_and]
    exact forall₂_congr fun v _ => printable_iff v

/-- A stand-in for the standard library: the bit pattern as a number. -/
def bitsText : FloatText where
  toText f := (toString f.bits.toNat).toList
  same {a b} h := .inl (by
    cases a
    cases b
    exact congrArg F64.mk (BitVec.eq_of_toNat_eq (Text.toString_inj h)))
  no_nul _ h := absurd (Text.isDigit_of_mem_toString h) (by decide)

theorem delivered_greeting :
    Delivered bitsText ⟨["t", "b"], [[.text "hi", .blob [104, 105]], [.null, .int 7]]⟩ := by
  refine (delivered_iff bitsText (by decide)).mpr ⟨nofun, ?_⟩
  simpa [Printable] using ⟨['h', 'i'], by decide⟩

/-- A text with a NUL stops the scan. -/
theorem nul_not_delivered :
    (QueryBind.ofResult ⟨["t"], [[.text "a\x00b"]]⟩).func bitsText 0 = .error ⟨1, [97, 0, 98]⟩ ∧
      ¬ Delivered bitsText ⟨["t"], [[.text "a\x00b"]]⟩ := by
  have hfails : (QueryBind.ofResult ⟨["t"], [[.text "a\x00b"]]⟩).func bitsText 0 =
      .error ⟨1, [97, 0, 98]⟩ := by decide
  refine ⟨hfails, ?_⟩
  rintro ⟨chunks, hscanned, -⟩
  cases hscanned with
  | done h | more h =>
    rw [hfails] at h
    cases h

end Duckton.Extension
