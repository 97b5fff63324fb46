/-
  Intervals that cover a range of positions.

  An interval is its start and its length. Counting the covered positions in two ways gives
  `covered_once`: intervals inside a range that reach every position and are together no longer
  than the range reach every position exactly once.
-/
import Mathlib.Algebra.BigOperators.Ring.Finset
import Mathlib.Algebra.Order.BigOperators.Group.Finset
import Mathlib.Order.Interval.Finset.Nat

namespace Cover

open Finset (range)

/-- Position `i` lies in the interval. -/
def reaches (i : Nat) (iv : Nat × Nat) : Bool :=
  decide (iv.1 ≤ i ∧ i < iv.1 + iv.2)

variable {iv : Nat × Nat} {n : Nat} {ivs : List (Nat × Nat)}

theorem reaches_iff {i : Nat} :
    reaches i iv = true ↔ iv.1 ≤ i ∧ i < iv.1 + iv.2 :=
  decide_eq_true_iff

/-- An interval inside the range covers as many positions as it is long. -/
theorem sum_reaches (h : iv.1 + iv.2 ≤ n) :
    ∑ i ∈ range n, (if reaches i iv = true then 1 else 0) = iv.2 := by
  have hfilter : (range n).filter (fun i => reaches i iv = true) = Finset.Ico iv.1 (iv.1 + iv.2) := by
    ext i
    rw [Finset.mem_filter, Finset.mem_range, Finset.mem_Ico, reaches_iff]
    constructor
    · exact fun hi => hi.2
    · exact fun hi => ⟨by omega, hi⟩
  rw [← Finset.card_filter, hfilter, Nat.card_Ico, Nat.add_sub_cancel_left]

/-- Position by position, or interval by interval. -/
theorem sum_countP_reaches (h : ∀ iv ∈ ivs, iv.1 + iv.2 ≤ n) :
    ∑ i ∈ range n, ivs.countP (reaches i) = (ivs.map Prod.snd).sum := by
  induction ivs with
  | nil => simp
  | cons iv ivs ih =>
    have hrest := ih fun iv' hiv' => h iv' (List.mem_cons_of_mem _ hiv')
    simp only [List.countP_cons]
    rw [Finset.sum_add_distrib, hrest, sum_reaches (h iv List.mem_cons_self), List.map_cons,
      List.sum_cons, Nat.add_comm]

theorem covered_once (hin : ∀ iv ∈ ivs, iv.1 + iv.2 ≤ n) (hlong : (ivs.map Prod.snd).sum ≤ n)
    (hcover : ∀ i < n, ∃ iv ∈ ivs, reaches i iv = true) {i : Nat} (hi : i < n) :
    ivs.countP (reaches i) = 1 := by
  have hpos : ∀ j ∈ range n, 1 ≤ ivs.countP (reaches j) := by
    intro j hj
    exact List.countP_pos_iff.mpr (hcover j (Finset.mem_range.mp hj))
  by_contra hne
  have hone := hpos i (Finset.mem_range.mpr hi)
  -- one position counted twice makes the count larger than the range
  have hlt : ∑ _j ∈ range n, 1 < ∑ j ∈ range n, ivs.countP (reaches j) :=
    Finset.sum_lt_sum hpos ⟨i, Finset.mem_range.mpr hi, by omega⟩
  rw [sum_countP_reaches hin, ← Finset.card_eq_sum_ones, Finset.card_range] at hlt
  omega

end Cover
