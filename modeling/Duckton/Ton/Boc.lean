/-
  Bags of cells: `to_boc` and `from_boc` of settlement/cell.rs.

  `toBoc` lists the distinct cells of a tree, parents before children, and writes them with the
  indices of their references. `fromBoc` reads such a text back. Lengths and positions are naturals;
  the reader's arithmetic, indexing and slicing are checked as the source's are, and an operation
  that would panic there ends in `panic` here.
-/
import Duckton.Lib.Checked
import Duckton.Lib.RefTable
import Duckton.Ton.PackedCell

namespace Duckton.Ton

open Duckton.Proto Checked

namespace Boc

/-! ## Numbers and checksums -/

def magic : Bytes := [0xb5, 0xee, 0x9c, 0x72]

def maxBocCells : Nat := 65536

def maxCellDepth : Nat := 1024

/-- How many bytes a number takes. -/
def bytesFor (v : Nat) : Nat :=
  if h : v = 0 then 0 else bytesFor (v / 256) + 1
termination_by v
decreasing_by omega

/-- A number in exactly `n` big-endian bytes. -/
def beBytes (v n : Nat) : Bytes :=
  Octets.toBe n v

/-- One bit of CRC32C, reflected. -/
def crcBit (crc : UInt32) : UInt32 :=
  if crc &&& 1 ≠ 0 then (crc >>> 1) ^^^ 0x82F63B78 else crc >>> 1

def crcByte (crc : UInt32) (b : UInt8) : UInt32 :=
  (List.range 8).foldl (fun crc _ => crcBit crc) (crc ^^^ b.toUInt32)

def crc32c (data : Bytes) : UInt32 :=
  ~~~ data.foldl crcByte 0xFFFFFFFF

/-! ## Writing -/

section Writing

variable (sha256 : Bytes → BitVec 256)

/-- `topological_order`: the distinct cells, and for each the places of its references. -/
def topologicalOrder (c : PackedCell) : Except Halt (List PackedCell × List (List Nat)) := do
  let order := (Rose.visit (PackedCell.reprHash sha256) c ([], [])).1.reverse
  let index := RefTable.numbering (order.map (PackedCell.reprHash sha256))
  let refIndices ← order.mapM fun c => c.children.mapM fun r =>
    orPanic (index (PackedCell.reprHash sha256 r))
  .ok (order, refIndices)

def serializedLen (c : PackedCell) (refSize : Nat) : Nat :=
  2 + c.label.augmentedData.length + c.children.length * refSize

def writeCell (refSize : Nat) (c : PackedCell) (refs : List Nat) : Bytes :=
  [(PackedCell.descriptor c).1, (PackedCell.descriptor c).2] ++ c.label.augmentedData ++
    refs.flatMap fun r => beBytes r refSize

/-- `to_boc` up to the checksum. -/
def writeBody (cells : List PackedCell) (refIndices : List (List Nat)) : Bytes :=
  let cellCount := cells.length
  let refSize := max (bytesFor cellCount) 1
  let totSize := (cells.map fun c => serializedLen c refSize).sum
  let offBytes := max (bytesFor totSize) 1
  magic ++ [0x40 ||| (UInt8.ofNat refSize &&& 7), UInt8.ofNat offBytes] ++
    beBytes cellCount refSize ++ beBytes 1 refSize ++ beBytes 0 refSize ++
    beBytes totSize offBytes ++ beBytes 0 refSize ++
    (List.zipWith (writeCell refSize) cells refIndices).flatten

def toBoc (c : PackedCell) : Except Halt Bytes := do
  let (cells, refIndices) ← topologicalOrder sha256 c
  let out := writeBody cells refIndices
  .ok (out ++ Octets.toLe 4 (crc32c out).toNat)

end Writing

/-! ## Reading -/

def shiftIn (v : UInt64) (b : UInt8) : UInt64 :=
  v <<< 8 ||| b.toUInt64

/-- The closure `read`: a big-endian number at `p`, and the position behind it. -/
def read (buf : Bytes) (p n : Nat) : Except Halt (Nat × Nat) := do
  rejectIf (n > 8)
  let stop ← add p n
  rejectIf (stop > buf.length)
  let part ← slice buf p stop
  .ok ((part.foldl shiftIn 0).toNat, stop)

structure Header where
  hasIdx : Bool
  hasCrc : Bool
  refSize : Nat
  offBytes : Nat
  cellCount : Nat
  rootIdx : Nat
  deriving DecidableEq, Repr

/-- The numbers of roots, absent cells and data bytes are read and not used. -/
def readHeader (bytes : Bytes) : Except Halt (Header × Nat) := do
  rejectIf (bytes.length < 6)
  let start ← slice bytes 0 4
  rejectIf (start ≠ magic)
  let flags ← index bytes 4
  let refSize := (flags &&& 7).toNat
  rejectIf (refSize = 0 ∨ refSize > 8)
  let offBytes ← index bytes 5
  let (cellCount, p) ← read bytes 6 refSize
  rejectIf (cellCount = 0 ∨ cellCount > maxBocCells)
  let (_, p) ← read bytes p refSize
  let (_, p) ← read bytes p refSize
  let (_, p) ← read bytes p offBytes.toNat
  let (rootIdx, p) ← read bytes p refSize
  rejectIf (rootIdx ≥ cellCount)
  .ok (⟨flags &&& 0x80 ≠ 0, flags &&& 0x40 ≠ 0, refSize, offBytes.toNat, cellCount, rootIdx⟩, p)

def skipIndex (h : Header) (p : Nat) : Except Halt Nat :=
  if h.hasIdx then do
    let table ← orNothing (checkedMul h.cellCount h.offBytes)
    orNothing (checkedAdd p table)
  else .ok p

/-- Where the cells end; a checksum behind them must be right. -/
def checkedBodyEnd (h : Header) (bytes : Bytes) : Except Halt Nat :=
  if h.hasCrc then do
    let bodyEnd ← orNothing (checkedSub bytes.length 4)
    let stop ← add bodyEnd 4
    let want ← slice bytes bodyEnd stop
    let body ← slice bytes 0 bodyEnd
    rejectIf ((crc32c body).toNat ≠ Octets.ofLe want)
    .ok bodyEnd
  else .ok bytes.length

/-- The lowest set bit of a byte. -/
def completionBit (last : UInt8) : Option Nat :=
  (List.range 8).find? fun i => last &&& 1 <<< UInt8.ofNat i ≠ 0

/-- The number of bits before the completion bit. -/
def readBitLen (d2 : UInt8) (data : Bytes) : Except Halt Nat :=
  let dataBytes := (d2.toNat + 1) / 2
  if d2 &&& 1 = 1 then do
    rejectIf (dataBytes = 0)
    let full ← sub dataBytes 1
    let last ← index data full
    let bits ← mul full 8
    match completionBit last with
    | some i => add bits (7 - i)
    | none => .ok bits
  else mul dataBytes 8

def readRefs (bytes : Bytes) (refSize : Nat) : (n p : Nat) → Except Halt (List Nat × Nat)
  | 0, p => .ok ([], p)
  | n + 1, p => do
    let (r, p) ← read bytes p refSize
    let (rs, p) ← readRefs bytes refSize n p
    .ok (r :: rs, p)

/-- A cell and the indices of its references. Of the first descriptor only the low three bits are
    looked at. -/
def readRecord (bytes : Bytes) (bodyEnd refSize p : Nat) :
    Except Halt ((Packed × List Nat) × Nat) := do
  let body ← add p 2
  rejectIf (body > bodyEnd)
  let d1 ← index bytes p
  let second ← add p 1
  let d2 ← index bytes second
  let dataEnd ← add body ((d2.toNat + 1) / 2)
  rejectIf (dataEnd > bodyEnd)
  let data ← slice bytes body dataEnd
  let bitLen ← readBitLen d2 data
  let (refs, p) ← readRefs bytes refSize (d1 &&& 7).toNat dataEnd
  .ok ((⟨data, bitLen⟩, refs), p)

def readRecords (bytes : Bytes) (bodyEnd refSize : Nat) :
    (n p : Nat) → Except Halt (RefTable.Table Packed)
  | 0, _ => .ok []
  | n + 1, p => do
    let (row, p) ← readRecord bytes bodyEnd refSize p
    let rows ← readRecords bytes bodyEnd refSize n p
    .ok (row :: rows)

/-- `from_boc` up to the rebuilding. -/
def readRaw (bytes : Bytes) : Except Halt (Header × RefTable.Table Packed) := do
  let (h, p) ← readHeader bytes
  let p ← skipIndex h p
  let bodyEnd ← checkedBodyEnd h bytes
  let raw ← readRecords bytes bodyEnd h.refSize h.cellCount p
  .ok (h, raw)

/-! ## Rebuilding -/

/-- The vectors `built` and `depths`. -/
structure Built where
  cells : List (Option PackedCell)
  depths : List Nat

/-- The children of cell `i` and the greatest of their depths. -/
def childCells (cellCount i : Nat) (b : Built) :
    List Nat → List PackedCell × Nat → Except Halt (List PackedCell × Nat)
  | [], acc => .ok acc
  | r :: rs, (cells, maxChildDepth) => do
    rejectIf (r ≤ i ∨ r ≥ cellCount)
    let depth ← index b.depths r
    let slot ← index b.cells r
    let cell ← orNothing slot
    childCells cellCount i b rs (cells ++ [cell], max maxChildDepth depth)

/-- One more than the deepest child, by `checked_add` on sixteen bits. -/
def cellDepth (refs : List Nat) (maxChildDepth : Nat) : Option Nat :=
  if refs.isEmpty then some 0
  else if maxChildDepth + 1 < 65536 then some (maxChildDepth + 1)
  else none

def rebuildCell (raw : RefTable.Table Packed) (cellCount : Nat) (b : Built) (i : Nat) :
    Except Halt Built := do
  let (label, refs) ← index raw i
  let (cells, maxChildDepth) ← childCells cellCount i b refs ([], 0)
  let depth ← orNothing (cellDepth refs maxChildDepth)
  rejectIf (depth > maxCellDepth)
  let depths ← update b.depths i depth
  let built ← update b.cells i (some (.node label cells))
  .ok ⟨built, depths⟩

/-- The cells before `i`, the last of them first. -/
def rebuild (raw : RefTable.Table Packed) (cellCount : Nat) : (i : Nat) → Built → Except Halt Built
  | 0, b => .ok b
  | i + 1, b => do
    let b ← rebuildCell raw cellCount b i
    rebuild raw cellCount i b

def fromBoc (bytes : Bytes) : Except Halt PackedCell := do
  let (h, raw) ← readRaw bytes
  let built ← rebuild raw h.cellCount h.cellCount
    ⟨List.replicate h.cellCount none, List.replicate h.cellCount 0⟩
  let root ← index built.cells h.rootIdx
  orNothing root

end Boc

end Duckton.Ton
