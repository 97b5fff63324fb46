/-
  Sums over the entries of a finite map.

  A map is Mathlib's association list with distinct keys, so each key counts once. Writing a key
  takes its old weight out of the sum and puts the new one in.
-/
import Mathlib.Algebra.BigOperators.Group.List.Basic
import Mathlib.Algebra.Ring.Nat
import Mathlib.Data.List.AList

namespace Tally

variable {α β : Type}

variable (w : β → Nat)

/-- The sum of `w` over the values of the map. -/
def tally (m : AList fun _ : α => β) : Nat :=
  (m.entries.map fun e => w e.2).sum

/-- What `w` makes of the entry of a key, zero if it has none. -/
def weight : Option β → Nat
  | none => 0
  | some b => w b

@[simp] theorem weight_none : weight w none = 0 := rfl

@[simp] theorem weight_some (b : β) : weight w (some b) = w b := rfl

@[simp] theorem tally_empty : tally w (∅ : AList fun _ : α => β) = 0 := rfl

variable [DecidableEq α]

theorem lookup_insert_ite (m : AList fun _ : α => β) (a : α) (b : β) (k : α) :
    (m.insert a b).lookup k = if k = a then some b else m.lookup k := by
  by_cases h : k = a
  · subst h
    simp
  · rw [if_neg h, AList.lookup_insert_ne h]

theorem sum_kerase (a : α) (es : List (Sigma fun _ : α => β)) :
    ((es.kerase a).map fun e => w e.2).sum + weight w (es.dlookup a) =
      (es.map fun e => w e.2).sum := by
  induction es with
  | nil => rfl
  | cons e es ih =>
    obtain ⟨k, b⟩ := e
    by_cases h : a = k
    · subst h
      simp [Nat.add_comm]
    · rw [List.kerase_cons_ne h, List.dlookup_cons_ne _ _ h]
      simp only [List.map_cons, List.sum_cons]
      omega

theorem tally_erase (a : α) (m : AList fun _ : α => β) :
    tally w (m.erase a) + weight w (m.lookup a) = tally w m :=
  sum_kerase w a m.entries

theorem tally_insert (a : α) (b : β) (m : AList fun _ : α => β) :
    tally w (m.insert a b) + weight w (m.lookup a) = tally w m + w b := by
  have hinsert : tally w (m.insert a b) = w b + tally w (m.erase a) := rfl
  have herase := tally_erase w a m
  omega

end Tally
