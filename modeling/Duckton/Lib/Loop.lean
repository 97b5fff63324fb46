/-
  Loops fed by an endless sequence of inputs.

  `next s i` is one pass of the loop: the state it goes round again with, or `none` when the loop
  is left in this pass. Nothing bounds the number of passes from outside, so whether the loop is
  left at all is a question about the inputs. The rule below answers it for a loop with a measure
  that some passes lower and the others, the idle ones, leave alone.
-/
import Mathlib.Data.List.Basic

namespace Loop

variable {σ ι : Type}

/-- The state after the given passes, unless one of them left the loop. -/
def after (next : σ → ι → Option σ) (s : σ) (is : List ι) : Option σ :=
  is.foldlM next s

/-- The first `n` inputs. -/
def upTo (inputs : Nat → ι) (n : Nat) : List ι :=
  (List.range n).map inputs

variable {next : σ → ι → Option σ} {inputs : Nat → ι} {s t : σ} {n : Nat}

@[simp] theorem upTo_zero : upTo inputs 0 = [] := rfl

theorem upTo_succ : upTo inputs (n + 1) = upTo inputs n ++ [inputs n] := by
  simp [upTo, List.range_succ]

theorem exists_upTo_eq (inputs : Nat → ι) {m : Nat} (h : n < m) :
    ∃ rest, upTo inputs m = upTo inputs n ++ inputs n :: rest := by
  induction m with
  | zero => omega
  | succ m ih =>
    by_cases hnm : n < m
    · obtain ⟨rest, hrest⟩ := ih hnm
      exact ⟨rest ++ [inputs m], by simp [upTo_succ, hrest]⟩
    · have heq : n = m := by omega
      exact ⟨[], by rw [heq, upTo_succ]⟩

@[simp] theorem after_nil : after next s [] = some s := rfl

theorem after_cons (i : ι) (is : List ι) :
    after next s (i :: is) = (next s i).bind fun t => after next t is := by
  simp [after]

theorem after_append (is js : List ι) :
    after next s (is ++ js) = (after next s is).bind fun t => after next t js := by
  simp [after]

theorem after_upTo_succ :
    after next s (upTo inputs (n + 1)) =
      (after next s (upTo inputs n)).bind fun t => next t (inputs n) := by
  simp [upTo_succ, after_append, after_cons]

/-- The loop is left once. -/
theorem after_upTo_none {m : Nat} (h : after next s (upTo inputs n) = none) (hle : n ≤ m) :
    after next s (upTo inputs m) = none := by
  obtain ⟨d, rfl⟩ := Nat.exists_eq_add_of_le hle
  clear hle
  induction d with
  | zero => exact h
  | succ d ih => rw [← Nat.add_assoc, after_upTo_succ, ih, Option.bind_none]

/-- Every pass before a reached one was reached. -/
theorem exists_before {m : Nat} (h : after next s (upTo inputs m) = some t) (hle : n ≤ m) :
    ∃ u, after next s (upTo inputs n) = some u := by
  cases hn : after next s (upTo inputs n) with
  | some u => exact ⟨u, rfl⟩
  | none =>
    rw [after_upTo_none hn hle] at h
    cases h

/-- A loop that is left is left in some pass. -/
theorem exists_last (h : after next s (upTo inputs n) = none) :
    ∃ m < n, ∃ t, after next s (upTo inputs m) = some t ∧ next t (inputs m) = none := by
  induction n with
  | zero => cases h
  | succ n ih =>
    cases hn : after next s (upTo inputs n) with
    | none =>
      obtain ⟨m, hm, hlast⟩ := ih hn
      exact ⟨m, by omega, hlast⟩
    | some t =>
      rw [after_upTo_succ, hn] at h
      exact ⟨n, by omega, t, hn, h⟩

/-- From pass `k` on, a measure that every pass lowers is used up. -/
theorem exists_none_of_measure (μ : σ → Nat) {k : Nat}
    (hlower : ∀ n, k ≤ n → ∀ t u, after next s (upTo inputs n) = some t →
      next t (inputs n) = some u → μ u < μ t) :
    ∃ n, after next s (upTo inputs n) = none := by
  by_contra hnever
  push Not at hnever
  obtain ⟨u, hu⟩ := Option.ne_none_iff_exists'.mp (hnever k)
  have hused : ∀ j, ∃ t, after next s (upTo inputs (k + j)) = some t ∧ μ t + j ≤ μ u := by
    intro j
    induction j with
    | zero => exact ⟨u, hu, Nat.le_refl _⟩
    | succ j ih =>
      obtain ⟨t, ht, hle⟩ := ih
      obtain ⟨v, hv⟩ := Option.ne_none_iff_exists'.mp (hnever (k + j + 1))
      have hpass : next t (inputs (k + j)) = some v := by
        rw [after_upTo_succ, ht] at hv
        exact hv
      have hlt := hlower (k + j) (Nat.le_add_right k j) t v ht hpass
      exact ⟨v, hv, by omega⟩
  obtain ⟨t, _, hle⟩ := hused (μ u + 1)
  omega

/-- A loop whose passes are idle or lower a measure is left exactly when it runs out of idle
    passes. -/
theorem left_iff_idle_stops (μ : σ → Nat) (idle : σ → ι → Prop)
    (hlower : ∀ n t u, after next s (upTo inputs n) = some t → ¬ idle t (inputs n) →
      next t (inputs n) = some u → μ u < μ t) :
    (∃ n, after next s (upTo inputs n) = none) ↔
      ∃ k, ∀ n, k ≤ n → ∀ t, after next s (upTo inputs n) = some t → ¬ idle t (inputs n) := by
  constructor
  · rintro ⟨k, hk⟩
    refine ⟨k, fun n hn t ht => ?_⟩
    rw [after_upTo_none hk hn] at ht
    cases ht
  · rintro ⟨k, hk⟩
    exact exists_none_of_measure μ fun n hn t u ht hu => hlower n t u ht (hk n hn t ht) hu

end Loop
