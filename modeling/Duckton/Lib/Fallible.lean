/-
  Computations that may fail, written with `Except`.

  The lemmas take a successful computation apart, one bind and one check at a time, so that a proof
  about a result never unfolds the error paths.
-/
import Mathlib.Data.List.Forall2

namespace Fallible

variable {ε α β : Type}

@[simp] theorem ok_bind (a : α) (f : α → Except ε β) : (Except.ok a >>= f) = f a := rfl

variable {f : α → Except ε β} {p : Prop} {e : ε}

theorem bind_eq_ok {x : Except ε α} {r : β} :
    (x >>= f) = .ok r ↔ ∃ a, x = .ok a ∧ f a = .ok r := by
  cases x with
  | error e => exact ⟨nofun, fun ⟨_, h, _⟩ => (nomatch h)⟩
  | ok a =>
    constructor
    · exact fun h => ⟨a, rfl, h⟩
    · rintro ⟨_, ⟨⟩, h⟩
      exact h

theorem map_eq_ok {g : α → β} {x : Except ε α} {r : β} :
    x.map g = .ok r ↔ ∃ a, x = .ok a ∧ g a = r := by
  cases x <;> simp [Except.map]

/-- A check that stops with an error. -/
theorem check_eq_ok [Decidable p] {x : Except ε α} {r : α} :
    (if p then .error e else x) = .ok r ↔ ¬ p ∧ x = .ok r := by
  by_cases hp : p
  · rw [if_pos hp]
    exact ⟨nofun, fun h => absurd hp h.1⟩
  · rw [if_neg hp]
    exact ⟨fun h => ⟨hp, h⟩, fun h => h.2⟩

/-- A check that has to hold. -/
def ensure (p : Prop) [Decidable p] (e : ε) : Except ε Unit :=
  if p then .ok () else .error e

theorem ensure_eq_ok [Decidable p] : ensure p e = .ok () ↔ p := by
  unfold ensure
  split
  · next hp => exact iff_of_true rfl hp
  · next hp =>
    refine iff_of_false ?_ hp
    rintro ⟨⟩

theorem ensure_bind_eq_ok [Decidable p] {rest : Unit → Except ε α} {r : α} :
    (ensure p e >>= rest) = .ok r ↔ p ∧ rest () = .ok r := by
  rw [bind_eq_ok]
  constructor
  · rintro ⟨⟨⟩, hp, hrest⟩
    exact ⟨ensure_eq_ok.mp hp, hrest⟩
  · rintro ⟨hp, hrest⟩
    exact ⟨(), ensure_eq_ok.mpr hp, hrest⟩

/-- A loop that collects results. -/
theorem mapM_eq_ok {xs : List α} {ys : List β} :
    xs.mapM f = .ok ys ↔ List.Forall₂ (fun x y => f x = .ok y) xs ys := by
  induction xs generalizing ys with
  | nil =>
    rw [List.mapM_nil, List.forall₂_nil_left_iff]
    show Except.ok [] = .ok ys ↔ _
    rw [Except.ok.injEq]
    exact eq_comm
  | cons x xs ih =>
    rw [List.mapM_cons, bind_eq_ok, List.forall₂_cons_left_iff]
    constructor
    · rintro ⟨y, hy, h⟩
      obtain ⟨rest, hrest, hret⟩ := bind_eq_ok.mp h
      exact ⟨y, rest, hy, ih.mp hrest, (Except.ok.inj hret).symm⟩
    · rintro ⟨y, rest, hy, hrest, rfl⟩
      exact ⟨y, hy, bind_eq_ok.mpr ⟨rest, ih.mpr hrest, rfl⟩⟩

/-- A loop whose steps succeed under a condition, with known results. -/
theorem mapM_eq_ok_map {P : α → Prop} {g : α → β} (h : ∀ x y, f x = .ok y ↔ P x ∧ g x = y)
    {xs : List α} {ys : List β} : xs.mapM f = .ok ys ↔ (∀ x ∈ xs, P x) ∧ xs.map g = ys := by
  simp only [mapM_eq_ok, h]
  rw [List.forall₂_and_left, ← List.forall₂_map_left_iff, List.forall₂_eq_eq_eq]

/-- The error of a loop is the error of one of its steps. -/
theorem mapM_error {xs : List α} (h : xs.mapM f = .error e) :
    ∃ x ∈ xs, f x = .error e := by
  induction xs with
  | nil => cases h
  | cons x xs ih =>
    rw [List.mapM_cons] at h
    cases hx : f x with
    | error e' =>
      rw [hx] at h
      cases h
      exact ⟨x, List.mem_cons_self, hx⟩
    | ok y =>
      cases hxs : xs.mapM f with
      | error e' =>
        rw [hx, hxs] at h
        cases h
        obtain ⟨x', hx', hfx'⟩ := ih hxs
        exact ⟨x', List.mem_cons_of_mem _ hx', hfx'⟩
      | ok ys =>
        rw [hx, hxs] at h
        cases h

end Fallible
