/-
  Append-only histories.

  A system may keep a log of what happened, the latest entry last. `Justified P log` says that every
  entry stands in relation `P` to the entries before it; appending an entry needs no look at the
  later ones.
-/
import Mathlib.Data.List.Induction

namespace History

variable {α : Type}

def Justified (P : List α → α → Prop) (log : List α) : Prop :=
  ∀ earlier a later, log = earlier ++ a :: later → P earlier a

variable {P : List α → α → Prop}

theorem justified_nil : Justified P [] := by
  intro earlier a later h
  exact absurd h.symm (by simp)

theorem Justified.concat {log : List α} {a : α} (hlog : Justified P log) (ha : P log a) :
    Justified P (log ++ [a]) := by
  intro earlier b later h
  rcases List.eq_nil_or_concat later with rfl | ⟨later', c, rfl⟩
  · obtain ⟨rfl, hab⟩ := List.append_inj' h rfl
    cases hab
    exact ha
  · rw [List.concat_eq_append, ← List.cons_append, ← List.append_assoc] at h
    obtain ⟨hlog', -⟩ := List.append_inj' h rfl
    exact hlog earlier b later' hlog'

theorem Justified.of_concat {log : List α} {a : α} (h : Justified P (log ++ [a])) :
    Justified P log ∧ P log a := by
  refine ⟨fun earlier b later heq => h earlier b (later ++ [a]) ?_, h log a [] rfl⟩
  rw [heq, List.append_assoc]
  rfl

/-- What may only happen if it never happened before happens at most once. -/
theorem Justified.countP_le_one {q : α → Bool} {log : List α} (h : Justified P log)
    (hP : ∀ earlier a, P earlier a → q a = true → ∀ e ∈ earlier, q e = false) :
    log.countP q ≤ 1 := by
  induction log using List.reverseRecOn with
  | nil => exact Nat.zero_le 1
  | append_singleton log a ih =>
    obtain ⟨hlog, ha⟩ := h.of_concat
    rw [List.countP_append, List.countP_singleton]
    by_cases hq : q a = true
    · have hnone : log.countP q = 0 := by
        rw [List.countP_eq_zero]
        intro e he
        rw [hP log a ha hq e he]
        exact Bool.false_ne_true
      have hone : log.countP q + (if q a = true then 1 else 0) = 0 + 1 := by
        rw [hnone, if_pos hq]
      exact Nat.le_of_eq hone
    · rw [if_neg hq]
      exact ih hlog

end History
