/-
  Results as JSON: `to_bytes` and `from_bytes` (proto/lib.rs) at the derived encodings of `Value`
  and `ResultSet` (proto/value.rs).

  A document is a tree. A number in it is a 64-bit integer or a finite float, as in serde_json; a
  float that is not finite has no number and is written as `null`. Text is left to serde_json:
  printing a tree and parsing a text are parameters, and what is asked of them is that a printed
  document is read back (`Serde.Reads`).

  `ResultSet.fromJson_toJson` says what becomes of every result set on the way through a tree.
-/
import Mathlib.Algebra.Group.Int.Defs
import Duckton.Proto.Value

namespace Duckton.Proto

/-! ## Documents -/

inductive Number where
  | posInt (n : Nat) (fits : n < 2 ^ 64)
  | negInt (i : Int) (fits : -2 ^ 63 ≤ i ∧ i < 0)
  | float (f : F64) (finite : f.isFinite = true)

namespace Number

def ofInt64 (i : Int64) : Number :=
  if h : 0 ≤ i.toInt then .posInt i.toInt.toNat (by have := i.toInt_lt; omega)
  else .negInt i.toInt ⟨i.le_toInt, by omega⟩

def ofUInt8 (b : UInt8) : Number :=
  .posInt b.toNat (by have := b.toNat_lt; omega)

def ofUInt32 (n : UInt32) : Number :=
  .posInt n.toNat (by have := n.toNat_lt; omega)

def ofUInt64 (n : UInt64) : Number :=
  .posInt n.toNat n.toNat_lt

def toInt64? : Number → Option Int64
  | .posInt n _ => if n < 2 ^ 63 then some (Int64.ofInt n) else none
  | .negInt i _ => some (Int64.ofInt i)
  | .float _ _ => none

/-- An unsigned integer of `w` bits. -/
def toUnsigned? (w : Nat) : Number → Option Nat
  | .posInt n _ => if n < 2 ^ w then some n else none
  | _ => none

theorem toInt64?_ofInt64 (i : Int64) : (ofInt64 i).toInt64? = some i := by
  have hlt := i.toInt_lt
  unfold ofInt64
  split
  · rename_i hpos
    have hback : ((i.toInt.toNat : Nat) : Int) = i.toInt := by omega
    have hfits : i.toInt.toNat < 2 ^ 63 := by omega
    rw [toInt64?, if_pos hfits, hback, Int64.ofInt_toInt]
  · rw [toInt64?, Int64.ofInt_toInt]

theorem toUnsigned?_ofUInt8 (b : UInt8) : (ofUInt8 b).toUnsigned? 8 = some b.toNat := by
  rw [ofUInt8, toUnsigned?, if_pos b.toNat_lt]

end Number

inductive Json where
  | null
  | bool (b : Bool)
  | num (n : Number)
  | str (s : String)
  | arr (elements : List Json)
  | obj (entries : List (String × Json))

/-- serde_json, as far as it is not derived code: the text of a tree, the tree of a text, and how
    an integer is read as a float. -/
structure Serde where
  print : Json → Bytes
  parse : Bytes → Option Json
  ofInt : Int → F64

/-- The printed document is read back, and no shorter start of it is a document. -/
structure Serde.Reads (serde : Serde) (doc : Json) : Prop where
  whole : serde.parse (serde.print doc) = some doc
  start : ∀ n < (serde.print doc).length, serde.parse ((serde.print doc).take n) = none

/-! ## Derived encodings -/

/-- An enum variant with a payload. -/
def tagged (tag : String) (payload : Json) : Json :=
  .obj [(tag, payload)]

/-- A float that is not finite is written as `null`. -/
def F64.toJson (f : F64) : Json :=
  if h : f.isFinite = true then .num (.float f h) else .null

def Value.toJson : Value → Json
  | .null => .str "Null"
  | .bool b => tagged "Bool" (.bool b)
  | .int i => tagged "Int" (.num (.ofInt64 i))
  | .float f => tagged "Float" f.toJson
  | .text s => tagged "Text" (.str s)
  | .blob b => tagged "Blob" (.arr (b.map fun x => .num (.ofUInt8 x)))

variable (ofInt : Int → F64) (rs : ResultSet)

def ResultSet.toJson : Json :=
  .obj [("columns", .arr (rs.columns.map .str)),
    ("rows", .arr (rs.rows.map fun row => .arr (row.map Value.toJson)))]

/-! ## Derived decodings -/

namespace Json

/-- The field must be there once. Fields of other names are skipped. -/
def required (key : String) (entries : List (String × Json)) : Option Json :=
  match entries.filter fun e => e.1 = key with
  | [e] => some e.2
  | _ => none

/-- A field of type `Option` may be left out. -/
def optional (key : String) (entries : List (String × Json)) : Option Json :=
  match entries.filter fun e => e.1 = key with
  | [] => some .null
  | [e] => some e.2
  | _ => none

def toVec (decode : Json → Option α) : Json → Option (List α)
  | .arr elements => elements.mapM decode
  | _ => none

def toOption (decode : Json → Option α) : Json → Option (Option α)
  | .null => some none
  | doc => (decode doc).map some

def toStr : Json → Option String
  | .str s => some s
  | _ => none

def toByte : Json → Option UInt8
  | .num n => (n.toUnsigned? 8).map UInt8.ofNat
  | _ => none

def toU32 : Json → Option UInt32
  | .num n => (n.toUnsigned? 32).map UInt32.ofNat
  | _ => none

def toU64 : Json → Option UInt64
  | .num n => (n.toUnsigned? 64).map UInt64.ofNat
  | _ => none

/-- Integers are accepted for floats, `null` is not. -/
def toF64 : Json → Option F64
  | .num (.posInt n _) => some (ofInt n)
  | .num (.negInt i _) => some (ofInt i)
  | .num (.float f _) => some f
  | _ => none

end Json

def Value.fromJson : Json → Option Value
  | .str "Null" => some .null
  | .obj [("Null", .null)] => some .null
  | .obj [("Bool", .bool b)] => some (.bool b)
  | .obj [("Int", .num n)] => n.toInt64?.map .int
  | .obj [("Float", doc)] => (doc.toF64 ofInt).map .float
  | .obj [("Text", doc)] => doc.toStr.map .text
  | .obj [("Blob", doc)] => (doc.toVec Json.toByte).map .blob
  | _ => none

def ResultSet.fromFields (columns rows : Json) : Option ResultSet :=
  (columns.toVec Json.toStr).bind fun columns =>
    (rows.toVec (Json.toVec (Value.fromJson ofInt))).map fun rows => ⟨columns, rows⟩

/-- A struct may also come as the sequence of its fields. -/
def ResultSet.fromJson : Json → Option ResultSet
  | .obj entries =>
    (Json.required "columns" entries).bind fun columns =>
      (Json.required "rows" entries).bind fun rows => fromFields ofInt columns rows
  | .arr [columns, rows] => fromFields ofInt columns rows
  | _ => none

/-! ## The bytes -/

namespace Serde

/-- `p2p_proto::to_bytes` -/
def toBytes (serde : Serde) (rs : ResultSet) : Bytes :=
  serde.print rs.toJson

/-- `p2p_proto::from_bytes` -/
def fromBytes (serde : Serde) (bytes : Bytes) : Option ResultSet :=
  (serde.parse bytes).bind (ResultSet.fromJson serde.ofInt)

end Serde

/-! ## What is read back -/

def Value.isFinite : Value → Bool
  | .float f => f.isFinite
  | _ => true

/-- No cell is a NaN or an infinity. -/
def ResultSet.isFinite : Bool :=
  rs.rows.all fun row => row.all Value.isFinite

/-- A list is read back if each of its elements is. -/
theorem mapM_map {α : Type} (encode : α → Json) (decode : Json → Option α) (ok : α → Bool)
    (h : ∀ a, decode (encode a) = if ok a then some a else none) (l : List α) :
    (l.map encode).mapM decode = if l.all ok then some l else none := by
  induction l with
  | nil => rfl
  | cons a l ih =>
    rw [List.map_cons, List.mapM_cons, h, ih, List.all_cons]
    cases ok a with
    | false => rfl
    | true =>
      cases l.all ok with
      | false | true => rfl

theorem F64.toF64_toJson (f : F64) :
    f.toJson.toF64 ofInt = if f.isFinite then some f else none := by
  unfold F64.toJson
  by_cases hfinite : f.isFinite = true
  · rw [dif_pos hfinite, if_pos hfinite]
    rfl
  · rw [dif_neg hfinite, if_neg hfinite]
    rfl

theorem toByte_ofUInt8 (b : UInt8) : (Json.num (.ofUInt8 b)).toByte = some b := by
  rw [Json.toByte, Number.toUnsigned?_ofUInt8, Option.map_some, UInt8.ofNat_toNat]

theorem toU32_ofUInt32 (n : UInt32) : (Json.num (.ofUInt32 n)).toU32 = some n := by
  rw [Json.toU32, Number.ofUInt32, Number.toUnsigned?, if_pos n.toNat_lt, Option.map_some,
    UInt32.ofNat_toNat]

theorem toU64_ofUInt64 (n : UInt64) : (Json.num (.ofUInt64 n)).toU64 = some n := by
  rw [Json.toU64, Number.ofUInt64, Number.toUnsigned?, if_pos n.toNat_lt, Option.map_some,
    UInt64.ofNat_toNat]

/-- One case for each kind of cell: only a float can be lost, and only one that is not finite. -/
theorem Value.fromJson_toJson (v : Value) :
    Value.fromJson ofInt v.toJson = if v.isFinite then some v else none := by
  cases v with
  | null | bool b | text s => rfl
  | int i =>
    show (Number.ofInt64 i).toInt64?.map Value.int = some (.int i)
    rw [Number.toInt64?_ofInt64]
    rfl
  | float f =>
    show (f.toJson.toF64 ofInt).map Value.float = if f.isFinite then some (.float f) else none
    rw [F64.toF64_toJson]
    cases f.isFinite with
    | true | false => rfl
  | blob b =>
    have hbytes : (b.map fun x => Json.num (.ofUInt8 x)).mapM Json.toByte = some b := by
      rw [mapM_map (fun x => Json.num (.ofUInt8 x)) Json.toByte (fun _ => true) toByte_ofUInt8]
      simp
    show ((b.map fun x => Json.num (.ofUInt8 x)).mapM Json.toByte).map Value.blob = some (.blob b)
    rw [hbytes]
    rfl

theorem ResultSet.fromJson_toJson :
    ResultSet.fromJson ofInt rs.toJson = if rs.isFinite then some rs else none := by
  have hcolumns : (rs.columns.map Json.str).mapM Json.toStr = some rs.columns := by
    rw [mapM_map Json.str Json.toStr (fun _ => true) fun _ => rfl]
    simp
  have hrow : ∀ row : List Value,
      Json.toVec (Value.fromJson ofInt) (.arr (row.map Value.toJson)) =
        if row.all Value.isFinite then some row else none :=
    mapM_map _ _ Value.isFinite (Value.fromJson_toJson ofInt)
  have hrows : (rs.rows.map fun row => Json.arr (row.map Value.toJson)).mapM
      (Json.toVec (Value.fromJson ofInt)) = if rs.isFinite then some rs.rows else none :=
    mapM_map _ _ (fun row => row.all Value.isFinite) hrow rs.rows
  show ((rs.columns.map Json.str).mapM Json.toStr).bind (fun columns =>
    ((rs.rows.map fun row => Json.arr (row.map Value.toJson)).mapM
      (Json.toVec (Value.fromJson ofInt))).map fun rows => ResultSet.mk columns rows) = _
  rw [hcolumns, hrows]
  cases rs.isFinite with
  | true | false => rfl

/-- A result set comes back from its bytes unchanged, or not at all. -/
theorem Serde.fromBytes_toBytes {serde : Serde} {rs : ResultSet} (h : serde.Reads rs.toJson) :
    serde.fromBytes (serde.toBytes rs) = if rs.isFinite then some rs else none := by
  unfold Serde.fromBytes Serde.toBytes
  rw [h.whole, Option.bind_some, ResultSet.fromJson_toJson]

end Duckton.Proto
