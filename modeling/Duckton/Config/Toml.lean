/-
  TOML values as the `toml` crate has them, and the two operations the settings need: a value put
  at a dotted path, and one table laid over another.

  Floats are of any type `F`. A table keeps the order in which its keys were first put in.
-/
import Duckton.Lib.Text

namespace Duckton.Config

inductive Value (F : Type) where
  | string (s : String)
  | integer (i : Int)
  | float (x : F)
  | boolean (b : Bool)
  | datetime (text : String)
  | array (vs : List (Value F))
  | table (entries : List (String × Value F))

abbrev Table (F : Type) := List (String × Value F)

variable {F : Type}

namespace Table

def get (t : Table F) (key : String) : Option (Value F) :=
  List.lookup key t

def insert (key : String) (v : Value F) : Table F → Table F
  | [] => [(key, v)]
  | (k, w) :: t => if k = key then (k, v) :: t else (k, w) :: insert key v t

/-- The table under `key`; anything else there is dropped for an empty one. -/
def child (t : Table F) (key : String) : Table F :=
  match t.get key with
  | some (.table entries) => entries
  | _ => []

end Table

/-- `set_path_inner` -/
def setPathInner (t : Table F) : List String → Value F → Table F
  | [], _ => t
  | [head], v => t.insert head v
  | head :: rest, v => t.insert head (.table (setPathInner (t.child head) rest v))

/-- The parts of a dotted path, empty ones skipped. -/
def pathParts (dotted : String) : List String :=
  ((Text.split (· == '.') dotted.toList).filter fun p => !p.isEmpty).map String.ofList

/-- `set_path` -/
def setPath (t : Table F) (dotted : String) (v : Value F) : Table F :=
  setPathInner t (pathParts dotted) v

mutual

/-- `deep_merge`: tables are merged key by key, anything else is replaced. -/
def deepMerge : Value F → Value F → Value F
  | .table base, .table overlay => .table (mergeEntries base overlay)
  | _, overlay => overlay

/-- The loop of `deep_merge` over the entries of the overlay. -/
def mergeEntries (base : Table F) : List (String × Value F) → Table F
  | [] => base
  | (key, v) :: overlay =>
    mergeEntries
      (match base.get key, v with
        | some (.table entries), .table _ => base.insert key (deepMerge (.table entries) v)
        | _, _ => base.insert key v)
      overlay

end

end Duckton.Config
