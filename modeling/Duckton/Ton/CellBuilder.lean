/-
  The cell builder of settlement/cell.rs, on the bytes it works with: it pushes single bits into the
  last byte of a cell and collects references.
-/
import Duckton.Ton.PackedCell

namespace Duckton.Ton

structure CellBuilder where
  packed : Packed
  refs : List PackedCell

namespace CellBuilder

def new : CellBuilder :=
  ⟨⟨[], 0⟩, []⟩

def pushBit (cb : CellBuilder) (bit : Bool) : CellBuilder :=
  { cb with packed := cb.packed.pushBit bit }

/-- The low `nbits` of `value`, most significant bit first. -/
def storeUint (cb : CellBuilder) (value nbits : Nat) : CellBuilder :=
  (List.range nbits).reverse.foldl (fun cb i => cb.pushBit ((value >>> i) &&& 1 == 1)) cb

def storeRef (cb : CellBuilder) (cell : PackedCell) : CellBuilder :=
  { cb with refs := cb.refs ++ [cell] }

def build (cb : CellBuilder) : PackedCell :=
  .node cb.packed cb.refs

end CellBuilder

end Duckton.Ton
