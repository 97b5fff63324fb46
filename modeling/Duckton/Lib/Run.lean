/-
  Runs of a deterministic step function.

  A state machine here is a function `step : σ → ε → σ`: an event that is not accepted leaves
  the state as it is. A run is a list of events. `Always P` says that `P` holds in every state
  the run passes through; `Guarded G` says that every event of the run meets `G` in the state
  it is taken in. The rules below turn a statement about one step into one about all runs.
-/
import Mathlib.Logic.Basic

namespace Run

variable {σ ε : Type}

/-- The state after the events `es`. -/
def final (step : σ → ε → σ) (s : σ) (es : List ε) : σ :=
  es.foldl step s

/-- `P` holds in every state of the run, the first and the last included. -/
def Always (step : σ → ε → σ) (P : σ → Prop) : σ → List ε → Prop
  | s, [] => P s
  | s, e :: es => P s ∧ Always step P (step s e) es

/-- Every event of the run meets `G` in the state in which it happens. -/
def Guarded (step : σ → ε → σ) (G : σ → ε → Prop) : σ → List ε → Prop
  | _, [] => True
  | s, e :: es => G s e ∧ Guarded step G (step s e) es

variable {step : σ → ε → σ} {P Q : σ → Prop} {G : σ → ε → Prop}

variable {s : σ} {es : List ε}

theorem Always.head (h : Always step P s es) : P s := by
  cases es with
  | nil => exact h
  | cons e es => exact h.1

theorem Always.last (h : Always step P s es) : P (final step s es) := by
  induction es generalizing s with
  | nil => exact h
  | cons e es ih => exact ih h.2

theorem Always.mono (hPQ : ∀ s, P s → Q s) (h : Always step P s es) : Always step Q s es := by
  induction es generalizing s with
  | nil => exact hPQ s h
  | cons e es ih => exact ⟨hPQ s h.1, ih h.2⟩

theorem Always.and (hP : Always step P s es) (hQ : Always step Q s es) :
    Always step (fun s => P s ∧ Q s) s es := by
  induction es generalizing s with
  | nil => exact ⟨hP, hQ⟩
  | cons e es ih => exact ⟨⟨hP.1, hQ.1⟩, ih hP.2 hQ.2⟩

theorem final_cons (s : σ) (e : ε) (es : List ε) :
    final step s (e :: es) = final step (step s e) es :=
  rfl

theorem final_append (s : σ) (es es' : List ε) :
    final step s (es ++ es') = final step (final step s es) es' :=
  List.foldl_append

theorem always_append {es' : List ε} :
    Always step P s (es ++ es') ↔ Always step P s es ∧ Always step P (final step s es) es' := by
  induction es generalizing s with
  | nil => exact ⟨fun h => ⟨h.head, h⟩, fun h => h.2⟩
  | cons e es ih =>
    show P s ∧ Always step P (step s e) (es ++ es') ↔ (P s ∧ Always step P (step s e) es) ∧ _
    rw [ih, and_assoc]
    rfl

theorem guarded_append {es' : List ε} :
    Guarded step G s (es ++ es') ↔ Guarded step G s es ∧ Guarded step G (final step s es) es' := by
  induction es generalizing s with
  | nil => exact ⟨fun h => ⟨trivial, h⟩, fun h => h.2⟩
  | cons e es ih =>
    show G s e ∧ Guarded step G (step s e) (es ++ es') ↔ (G s e ∧ Guarded step G (step s e) es) ∧ _
    rw [ih, and_assoc]
    rfl

/-- Every event of a run, with what happened before it. -/
theorem guarded_iff_split :
    Guarded step G s es ↔
      ∀ before e after, es = before ++ e :: after → G (final step s before) e := by
  constructor
  · rintro h before e after rfl
    exact (guarded_append.mp h).2.1
  · intro h
    induction es generalizing s with
    | nil => trivial
    | cons e es ih =>
      refine ⟨h [] e es rfl, ih fun before e' after hsplit => ?_⟩
      exact h (e :: before) e' after (congrArg (e :: ·) hsplit)

/-- A relation that every step extends on the left holds from each state of a run to its last. -/
theorem always_before {R : σ → σ → Prop} (hrefl : ∀ s, R s s)
    (hstep : ∀ s e t, R (step s e) t → R s t) (s : σ) (es : List ε) :
    Always step (fun t => R t (final step s es)) s es := by
  have hfirst : ∀ es s, R s (final step s es) := by
    intro es
    induction es with
    | nil => exact hrefl
    | cons e es ih => exact fun s => hstep s e _ (ih (step s e))
  induction es generalizing s with
  | nil => exact hrefl s
  | cons e es ih => exact ⟨hfirst (e :: es) s, ih (step s e)⟩

/-- What holds at the end of a run but not at its start begins to hold with one of its events. -/
theorem exists_origin (hs : ¬ P s) (hfinal : P (final step s es)) :
    ∃ before e after, es = before ++ e :: after ∧ ¬ P (final step s before) ∧
      P (step (final step s before) e) := by
  induction es generalizing s with
  | nil => exact absurd hfinal hs
  | cons e es ih =>
    by_cases hnext : P (step s e)
    · exact ⟨[], e, es, rfl, hs, hnext⟩
    · obtain ⟨before, e', after, hes, hbefore, horigin⟩ := ih hnext hfinal
      exact ⟨e :: before, e', after, congrArg (e :: ·) hes, hbefore, horigin⟩

/-- Events that meet `G` in any state do so in the run. -/
theorem guarded_of_forall (h : ∀ e ∈ es, ∀ s, G s e) (s : σ) :
    Guarded step G s es := by
  induction es generalizing s with
  | nil => trivial
  | cons e es ih =>
    refine ⟨h e List.mem_cons_self s, ih ?_ (step s e)⟩
    exact fun e' he' => h e' (List.mem_cons_of_mem e he')

/-- Events that meet `G` in the states that a run passes through do so in the run. -/
theorem guarded_of_always (h : ∀ s e, P s → G s e) (hs : Always step P s es) :
    Guarded step G s es := by
  induction es generalizing s with
  | nil => trivial
  | cons e es ih => exact ⟨h s e hs.1, ih hs.2⟩

/-- The invariant rule: what every step keeps holds in every state. -/
theorem always_of_invariant (hstep : ∀ s e, P s → P (step s e)) (hs : P s)
    (es : List ε) : Always step P s es := by
  induction es generalizing s with
  | nil => exact hs
  | cons e es ih => exact ⟨hs, ih (hstep s e hs)⟩

/-- The invariant rule under a guard. -/
theorem always_of_guarded (hstep : ∀ s e, P s → G s e → P (step s e)) (hs : P s)
    (h : Guarded step G s es) : Always step P s es := by
  induction es generalizing s with
  | nil => exact hs
  | cons e es ih => exact ⟨hs, ih (hstep s e hs h.1) h.2⟩

/-- The exact rule: if a step from a `P`-state ends in a `P`-state just when it meets `G`, then
    the whole run stays in `P` just when every one of its steps meets `G`. -/
theorem always_iff_guarded (hstep : ∀ s e, P s → (P (step s e) ↔ G s e)) (hs : P s)
    (es : List ε) : Always step P s es ↔ Guarded step G s es := by
  induction es generalizing s with
  | nil => exact ⟨fun _ => trivial, fun _ => hs⟩
  | cons e es ih =>
    constructor
    · rintro ⟨_, hrest⟩
      have hnext : P (step s e) := hrest.head
      exact ⟨(hstep s e hs).mp hnext, (ih hnext).mp hrest⟩
    · rintro ⟨hg, hrest⟩
      have hnext : P (step s e) := (hstep s e hs).mpr hg
      exact ⟨hs, (ih hnext).mpr hrest⟩

end Run
