/-
  The format `from_boc` reads.

  A `Bag` is what stands in such a text, field by field: the header, the records with their two
  descriptors, and what follows them. `Fits` says that the sizes agree, `Accepted` adds the reader's
  checks of the references. A text is that of one bag at most (`Bag.encode_inj`).
-/
import Duckton.Lib.Codec
import Duckton.Ton.Boc

namespace Duckton.Ton.Boc

open Duckton.Proto RefTable
open Octets (toBe)
open Codec (Delimited)

/-! ## Records -/

/-- One serialized cell. -/
structure Record where
  d1 : UInt8
  d2 : UInt8
  data : Bytes
  refs : List Nat
  deriving DecidableEq, Repr

section

variable (refSize : Nat) (r : Record)

namespace Record

/-- The descriptors, the body and the reference indices. -/
def encode : Bytes :=
  [r.d1, r.d2] ++ r.data ++ r.refs.flatMap (toBe refSize)

/-- The sizes that the descriptors announce. -/
structure Fits : Prop where
  data : r.data.length = (r.d2.toNat + 1) / 2
  count : r.refs.length = (r.d1 &&& 7).toNat
  refs : ∀ i ∈ r.refs, i < 256 ^ refSize

def bitLen : Nat :=
  if r.d2 &&& 1 = 1 then
    (r.data.length - 1) * 8 +
      match completionBit (r.data.getLastD 0) with
      | some i => 7 - i
      | none => 0
  else r.data.length * 8

/-- What the reader keeps of it. -/
def row : Packed × List Nat :=
  (⟨r.data, r.bitLen⟩, r.refs)

end Record

theorem length_flatMap_toBe (refs : List Nat) :
    (refs.flatMap (toBe refSize)).length = refs.length * refSize := by
  induction refs with
  | nil => simp
  | cons r rs ih =>
    rw [List.flatMap_cons, List.length_append, Octets.length_toBe, ih, List.length_cons]
    ring

theorem Record.length_encode :
    (r.encode refSize).length = 2 + r.data.length + r.refs.length * refSize := by
  rw [encode, List.length_append, List.length_append, length_flatMap_toBe]
  rfl

theorem odd_iff (d2 : UInt8) : d2 &&& 1 = 1 ↔ d2.toNat % 2 = 1 := by
  rw [← UInt8.toNat_inj, UInt8.toNat_and]
  show d2.toNat &&& 1 = 1 ↔ _
  rw [Nat.and_one_is_mod]

theorem and_bit_ne_zero (b : UInt8) {i : Nat} (hi : i < 8) :
    b &&& 1 <<< UInt8.ofNat i ≠ 0 ↔ b.toNat.testBit i = true := by
  have hpow : ∀ k < 8, (1 <<< UInt8.ofNat k : UInt8).toNat = 2 ^ k := by decide
  rw [ne_eq, ← UInt8.toNat_inj, UInt8.toNat_and, hpow i hi, Nat.and_two_pow]
  show ¬ (b.toNat.testBit i).toNat * 2 ^ i = 0 ↔ _
  cases b.toNat.testBit i with
  | false | true => simp

theorem completionBit_eq_some {b : UInt8} {i : Nat} :
    completionBit b = some i ↔
      i < 8 ∧ b.toNat.testBit i = true ∧ ∀ j < i, b.toNat.testBit j = false := by
  unfold completionBit
  rw [List.find?_range_eq_some]
  simp only [List.mem_range, decide_eq_true_eq]
  constructor
  · rintro ⟨hbit, hlt, hlow⟩
    refine ⟨hlt, (and_bit_ne_zero b hlt).mp hbit, ?_⟩
    intro j hj
    have hzero := hlow j hj
    rw [Bool.not_eq_true', decide_eq_false_iff_not, and_bit_ne_zero b (by omega)] at hzero
    exact Bool.eq_false_iff.mpr hzero
  · rintro ⟨hlt, hbit, hlow⟩
    refine ⟨(and_bit_ne_zero b hlt).mpr hbit, hlt, ?_⟩
    intro j hj
    rw [Bool.not_eq_true', decide_eq_false_iff_not, and_bit_ne_zero b (by omega)]
    exact Bool.eq_false_iff.mp (hlow j hj)

theorem completionBit_lt {last : UInt8} {i : Nat} (h : completionBit last = some i) : i < 8 :=
  List.mem_range.mp (List.mem_of_find?_eq_some h)

/-! ## The list of records -/

def encodeAll (records : List Record) : Bytes :=
  records.flatMap (Record.encode refSize)

theorem encodeAll_cons (rs : List Record) :
    encodeAll refSize (r :: rs) = r.encode refSize ++ encodeAll refSize rs :=
  List.flatMap_cons

end

/-- Every body ends before `bodyEnd`, the records standing one behind the other from `p` on. -/
def BodiesEndBy (bodyEnd refSize p : Nat) (records : List Record) : Prop :=
  ∀ i r, records[i]? = some r →
    p + (encodeAll refSize (records.take i)).length + 2 + r.data.length ≤ bodyEnd

theorem bodiesEndBy_nil (bodyEnd refSize p : Nat) : BodiesEndBy bodyEnd refSize p [] := by
  intro i r h
  simp at h

theorem bodiesEndBy_cons {bodyEnd refSize p : Nat} {r : Record} {rs : List Record} :
    BodiesEndBy bodyEnd refSize p (r :: rs) ↔ p + 2 + r.data.length ≤ bodyEnd ∧
      BodiesEndBy bodyEnd refSize (p + (r.encode refSize).length) rs := by
  constructor
  · intro h
    refine ⟨h 0 r rfl, ?_⟩
    intro i r' hr'
    have hnext := h (i + 1) r' hr'
    rw [List.take_succ_cons, encodeAll_cons, List.length_append] at hnext
    omega
  · rintro ⟨hfirst, hrest⟩ i r' hr'
    cases i with
    | zero =>
      rw [List.getElem?_cons_zero, Option.some.injEq] at hr'
      exact hr' ▸ hfirst
    | succ i =>
      have hnext := hrest i r' hr'
      rw [List.take_succ_cons, encodeAll_cons, List.length_append]
      omega

/-- Records that end by `bodyEnd` as a whole. -/
theorem bodiesEndBy_of_le {bodyEnd refSize p : Nat} {records : List Record}
    (h : p + (encodeAll refSize records).length ≤ bodyEnd) :
    BodiesEndBy bodyEnd refSize p records := by
  induction records generalizing p with
  | nil => exact bodiesEndBy_nil _ _ _
  | cons r rs ih =>
    rw [encodeAll_cons, List.length_append] at h
    have hlen := r.length_encode refSize
    exact bodiesEndBy_cons.mpr ⟨by omega, ih (by omega)⟩

/-! ## The header -/

def headerBytes (flags offBytes : UInt8) (count roots absent tot root : Nat) : Bytes :=
  let refSize := (flags &&& 7).toNat
  magic ++ ([flags] ++ ([offBytes] ++ (toBe refSize count ++ (toBe refSize roots ++
    (toBe refSize absent ++ (toBe offBytes.toNat tot ++ toBe refSize root))))))

theorem low_bits_le (flags : UInt8) : (flags &&& 7).toNat ≤ 7 := by
  exact Nat.and_le_right

theorem length_headerBytes (flags offBytes : UInt8) (count roots absent tot root : Nat) :
    6 ≤ (headerBytes flags offBytes count roots absent tot root).length := by
  have hmagic : magic.length = 4 := rfl
  simp only [headerBytes, List.length_append, List.length_singleton]
  omega

/-! ## Bags -/

/-- What stands in a text, field by field. -/
structure Bag where
  flags : UInt8
  offBytes : UInt8
  roots : Nat
  absent : Nat
  tot : Nat
  root : Nat
  index : Bytes
  records : List Record
  rest : Bytes
  deriving DecidableEq, Repr

namespace Bag

variable (b : Bag)

def refSize : Nat :=
  (b.flags &&& 7).toNat

def hasIdx : Bool :=
  b.flags &&& 0x80 ≠ 0

def hasCrc : Bool :=
  b.flags &&& 0x40 ≠ 0

def header : Bytes :=
  headerBytes b.flags b.offBytes b.records.length b.roots b.absent b.tot b.root

def encode : Bytes :=
  b.header ++ b.index ++ encodeAll b.refSize b.records ++ b.rest

/-- The section with the cells goes from here … -/
def sectionStart : Nat :=
  b.header.length + b.index.length

/-- … to here: a checksum is not part of it. -/
def bodyEnd : Nat :=
  if b.hasCrc then b.encode.length - 4 else b.encode.length

def recordStart (i : Nat) : Nat :=
  b.sectionStart + (encodeAll b.refSize (b.records.take i)).length

def recordEnd (i : Nat) : Nat :=
  b.sectionStart + (encodeAll b.refSize (b.records.take (i + 1))).length

/-- What the reader keeps of the header. -/
def toHeader : Header :=
  ⟨b.hasIdx, b.hasCrc, b.refSize, b.offBytes.toNat, b.records.length, b.root⟩

/-- The reader's table. -/
def table : Table Packed :=
  b.records.map Record.row

/-- The fields have the sizes that the header announces, and a checksum is right. -/
structure Fits (b : Bag) : Prop where
  refSize_pos : b.refSize ≠ 0
  offBytes_le : b.offBytes.toNat ≤ 8
  count_pos : 0 < b.records.length
  count_le : b.records.length ≤ maxBocCells
  count_lt : b.records.length < 256 ^ b.refSize
  roots_lt : b.roots < 256 ^ b.refSize
  absent_lt : b.absent < 256 ^ b.refSize
  tot_lt : b.tot < 256 ^ b.offBytes.toNat
  root_lt : b.root < b.records.length
  index_length : b.index.length = if b.hasIdx then b.records.length * b.offBytes.toNat else 0
  records : ∀ r ∈ b.records, r.Fits b.refSize
  bodies : BodiesEndBy b.bodyEnd b.refSize b.sectionStart b.records
  intact : b.hasCrc = true →
    (crc32c (b.encode.take b.bodyEnd)).toNat = Octets.ofLe (b.encode.drop b.bodyEnd)

/-- The texts the reader takes, and what it checks of their references. -/
structure Accepted (b : Bag) (bytes : Bytes) : Prop where
  encode_eq : b.encode = bytes
  fits : b.Fits
  forward : Forward b.table
  shallow : ∀ i c, Unfolds b.table i c → c.height ≤ maxCellDepth

end Bag

theorem Bag.length_table (bag : Bag) : bag.table.length = bag.records.length :=
  List.length_map _

theorem Bag.length_encode (b : Bag) : b.encode.length =
    b.sectionStart + (encodeAll b.refSize b.records).length + b.rest.length := by
  simp only [encode, sectionStart, List.length_append]

/-- The bodies end where they should if the checksum comes behind the records. -/
theorem Bag.bodies_of_rest {b : Bag} (h : b.hasCrc = true → 4 ≤ b.rest.length) :
    BodiesEndBy b.bodyEnd b.refSize b.sectionStart b.records := by
  apply bodiesEndBy_of_le
  have hlen := b.length_encode
  unfold bodyEnd
  split
  · rename_i hcrc
    have := h hcrc
    omega
  · omega

/-! ## A text has one bag -/

theorem delimited_toBe (k : Nat) : Delimited (· = ·) (· < 256 ^ k) (toBe k) :=
  fun _ _ _ _ hn hm h => Octets.toBe_append_inj hn hm h

theorem delimited_encode (refSize : Nat) :
    Delimited (· = ·) (Record.Fits refSize) (Record.encode refSize) := by
  rintro ⟨d1, d2, data, refs⟩ ⟨d1', d2', data', refs'⟩ rest rest' hr hr' h
  simp only [Record.encode, List.append_assoc, List.cons_append, List.nil_append,
    List.cons.injEq] at h
  obtain ⟨rfl, rfl, hbody⟩ := h
  obtain ⟨rfl, htail⟩ := List.append_inj hbody (hr.data.trans hr'.data.symm)
  obtain ⟨rfl, hrest⟩ := (delimited_toBe refSize).list hr.refs hr'.refs
    (hr.count.trans hr'.count.symm) htail
  exact ⟨rfl, hrest⟩

theorem Bag.encode_inj {b b' : Bag} (hb : b.Fits) (hb' : b'.Fits) (h : b.encode = b'.encode) :
    b = b' := by
  obtain ⟨flags, offBytes, roots, absent, tot, root, index, records, rest⟩ := b
  obtain ⟨flags', offBytes', roots', absent', tot', root', index', records', rest'⟩ := b'
  simp only [encode, header, headerBytes, List.append_assoc, List.append_cancel_left_eq,
    List.cons_append, List.nil_append, List.cons.injEq] at h
  obtain ⟨rfl, rfl, h⟩ := h
  obtain ⟨hcount, h⟩ := Octets.toBe_append_inj hb.count_lt hb'.count_lt h
  obtain ⟨rfl, h⟩ := Octets.toBe_append_inj hb.roots_lt hb'.roots_lt h
  obtain ⟨rfl, h⟩ := Octets.toBe_append_inj hb.absent_lt hb'.absent_lt h
  obtain ⟨rfl, h⟩ := Octets.toBe_append_inj hb.tot_lt hb'.tot_lt h
  obtain ⟨rfl, h⟩ := Octets.toBe_append_inj (hb.root_lt.trans hb.count_lt)
    (hb'.root_lt.trans hb'.count_lt) h
  have hindex : index.length = index'.length := by
    have hlen := hb.index_length
    have hlen' := hb'.index_length
    rw [hlen, hlen', hcount]
    rfl
  obtain ⟨rfl, h⟩ := List.append_inj h hindex
  obtain ⟨rfl, rfl⟩ := (delimited_encode _).list hb.records hb'.records hcount h
  rfl

end Duckton.Ton.Boc
