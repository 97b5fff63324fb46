/-
  A pull ledger: a finite map from keys to owed amounts.

  The map is Mathlib's association list with distinct keys, so an entry is never counted twice
  in the total. `credit` adds to what a key is owed, `remove` forgets the key; the two total
  lemmas are all that accounting arguments need.
-/
import Duckton.Lib.Tally

/-- Amounts owed, by key. -/
def Ledger (α : Type) : Type :=
  AList fun _ : α => Nat

namespace Ledger

variable {α : Type} [DecidableEq α]

instance : DecidableEq (Ledger α) :=
  inferInstanceAs (DecidableEq (AList fun _ : α => Nat))

def empty : Ledger α :=
  (∅ : AList fun _ : α => Nat)

variable (l : Ledger α) (a : α)

def get : Option Nat :=
  AList.lookup a l

def set (n : Nat) : Ledger α :=
  AList.insert a n l

def remove : Ledger α :=
  AList.erase a l

/-- What `a` is owed, zero if it has no entry. -/
def owed : Nat :=
  (l.get a).getD 0

/-- Add `n` to what `a` is owed. -/
def credit (n : Nat) : Ledger α :=
  l.set a (l.owed a + n)

/-- The sum of all entries. -/
def total : Nat :=
  (AList.entries l).map Sigma.snd |>.sum

theorem weight_id (o : Option Nat) : Tally.weight (fun n => n) o = o.getD 0 := by
  cases o <;> rfl

/-- Removing a key takes exactly what it was owed out of the total. -/
theorem total_remove : (l.remove a).total + l.owed a = l.total := by
  have herase := Tally.tally_erase (fun n => n) a l
  rwa [weight_id] at herase

variable (n : Nat)

theorem total_set : (l.set a n).total + l.owed a = l.total + n := by
  have hset : (l.set a n).total = n + (l.remove a).total := rfl
  have hremove := l.total_remove a
  omega

@[simp] theorem total_credit : (l.credit a n).total = l.total + n := by
  have h := l.total_set a (l.owed a + n)
  unfold credit
  omega

theorem owed_le_total : l.owed a ≤ l.total := by
  have h := l.total_remove a
  omega

theorem get_set_self : (l.set a n).get a = some n :=
  AList.lookup_insert l

theorem get_set_of_ne {a b : α} (n : Nat) (h : b ≠ a) :
    (l.set a n).get b = l.get b :=
  AList.lookup_insert_ne h

theorem get_remove_self : (l.remove a).get a = none :=
  AList.lookup_erase a l

theorem get_remove_of_ne {a b : α} (h : b ≠ a) : (l.remove a).get b = l.get b :=
  AList.lookup_erase_ne h

theorem owed_credit (b : α) : (l.credit a n).owed b = l.owed b + if a = b then n else 0 := by
  unfold credit
  by_cases h : a = b
  · subst h
    rw [owed, get_set_self, if_pos rfl, Option.getD_some]
  · rw [owed, get_set_of_ne l _ (Ne.symm h), if_neg h, Nat.add_zero, owed]

theorem owed_remove (a b : α) :
    (l.remove a).owed b = if a = b then 0 else l.owed b := by
  by_cases h : a = b
  · subst h
    rw [owed, get_remove_self, if_pos rfl, Option.getD_none]
  · rw [owed, get_remove_of_ne l (Ne.symm h), if_neg h, owed]

theorem owed_of_get {l : Ledger α} {a : α} {n : Nat} (h : l.get a = some n) : l.owed a = n := by
  simp [owed, h]

end Ledger
