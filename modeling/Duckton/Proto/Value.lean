/-
  The portable result model (proto/value.rs) and the floats in it.

  A 64-bit float is its bit pattern. Only what the code asks of a float is defined: the NaN,
  finiteness and zero tests and the partial order, all read off the sign bit and the magnitude.
  Arithmetic on floats is not defined here.
-/
import Mathlib.Algebra.Group.Nat.Defs
import Mathlib.Logic.Basic

namespace Duckton.Proto

abbrev Bytes := List UInt8

/-- An IEEE-754 double. -/
structure F64 where
  bits : BitVec 64
  deriving DecidableEq, Repr

namespace F64

/-- The bits below the sign. -/
def magnitude (x : F64) : Nat :=
  x.bits.toNat % 2 ^ 63

/-- The magnitude of the infinities: all exponent bits, no mantissa bit. -/
def infinityMagnitude : Nat :=
  0x7ff0000000000000

def isNaN (x : F64) : Bool :=
  infinityMagnitude < x.magnitude

def isFinite (x : F64) : Bool :=
  x.magnitude < infinityMagnitude

def isZero (x : F64) : Bool :=
  x.magnitude = 0

/-- Where `x` lies on the number line; both zeros lie at 0. -/
def key (x : F64) : Int :=
  if x.bits.msb then -(x.magnitude : Int) else x.magnitude

/-- `x < y`, false as soon as one of them is a NaN. -/
def lt (x y : F64) : Bool :=
  !x.isNaN && !y.isNaN && x.key < y.key

def partialCmp (x y : F64) : Option Ordering :=
  if x.isNaN || y.isNaN then none else some (compare x.key y.key)

def zero : F64 :=
  ⟨0⟩

def one : F64 :=
  ⟨0x3ff0000000000000⟩

end F64

/-- A single SQL cell. -/
inductive Value where
  | null
  | bool (b : Bool)
  | int (i : Int64)
  | float (f : F64)
  | text (s : String)
  | blob (b : Bytes)
  deriving DecidableEq

def Value.typeTag : Value → UInt8
  | .null => 0
  | .bool _ => 1
  | .int _ => 2
  | .float _ => 3
  | .text _ => 4
  | .blob _ => 5

/-- Column names and rows. The rows need not be as long as the column list. -/
structure ResultSet where
  columns : List String
  rows : List (List Value)
  deriving DecidableEq

end Duckton.Proto
