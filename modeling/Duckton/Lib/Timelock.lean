/-
  Timelocked replacement of a system's code.

  An authority announces the fingerprint of the next code and, once a delay has passed, may apply
  code with that fingerprint; it may also withdraw the announcement. The system keeps the announced
  fingerprint and the time of the announcement, with a value that stands for "nothing announced".

  `Sound` says that every single event keeps to this. The rule `Sound.governed` turns it into the
  statement about runs: behind every application stands, as the latest operation before it, the
  announcement of the very code by the authority, one delay earlier.
-/
import Mathlib.Data.List.Induction
import Duckton.Lib.Run

namespace Timelock

variable {σ ε κ η α : Type}

inductive Op (κ η : Type) where
  | announce (fingerprint : η) (time : Nat)
  | apply (code : κ) (time : Nat)
  | cancel

/-- What a state has to do with replacements: how many there were, what is announced since when,
    and the code in force. -/
structure Slot (κ η : Type) where
  version : Nat
  pending : η
  pendingAt : Nat
  code : κ

/-- A system with the operation each of its events performs, if it performs one. -/
structure System (σ ε κ η α : Type) where
  step : σ → ε → σ
  slot : σ → Slot κ η
  op : σ → ε → Option (Op κ η)
  sender : ε → Option α
  authority : σ → α
  delay : σ → Nat
  fingerprint : κ → η
  nothing : η

/-- What an operation may do to the slot. -/
inductive Move (fingerprint : κ → η) (nothing : η) (delay : Nat) (u : Slot κ η) :
    Option (Op κ η) → Slot κ η → Prop
  | kept : Move fingerprint nothing delay u none u
  | announced (h : η) (t : Nat) : Move fingerprint nothing delay u (some (.announce h t))
      { u with pending := h, pendingAt := t }
  | applied (c : κ) (t : Nat) (hpending : u.pending ≠ nothing) (hcode : fingerprint c = u.pending)
      (hready : u.pendingAt + delay ≤ t) : Move fingerprint nothing delay u (some (.apply c t))
      ⟨u.version + 1, nothing, 0, c⟩
  | cancelled : Move fingerprint nothing delay u (some .cancel)
      { u with pending := nothing, pendingAt := 0 }

section

variable {fingerprint : κ → η} {nothing : η} {delay : Nat} {u : Slot κ η}

/-- An application whose version number was computed elsewhere. -/
theorem Move.applied_version {c : κ} {t version : Nat} (hpending : u.pending ≠ nothing)
    (hcode : fingerprint c = u.pending) (hready : u.pendingAt + delay ≤ t)
    (hversion : version = u.version + 1) :
    Move fingerprint nothing delay u (some (.apply c t)) ⟨version, nothing, 0, c⟩ := by
  rw [hversion]
  exact .applied c t hpending hcode hready

/-- What an event has to show that performs no operation. -/
theorem Move.idle {P : Prop} :
    Move fingerprint nothing delay u none u ∧ ((none : Option (Op κ η)).isSome → P) :=
  ⟨.kept, fun h => absurd h Bool.false_ne_true⟩

end

namespace System

/-- The number of applications in a run. -/
def applies (M : System σ ε κ η α) : σ → List ε → Nat
  | _, [] => 0
  | s, e :: es =>
    (match M.op s e with
      | some (.apply _ _) => 1
      | _ => 0) + applies M (M.step s e) es

/-- What every single event keeps to. -/
structure Sound (M : System σ ε κ η α) : Prop where
  move : ∀ s e, Move M.fingerprint M.nothing (M.delay s) (M.slot s) (M.op s e)
    (M.slot (M.step s e))
  gated : ∀ s e, (M.op s e).isSome → M.sender e = some (M.authority s)
  delay_step : ∀ s e, M.delay (M.step s e) = M.delay s

/-- The latest operation of the run `es` is the announcement of `h` at time `t`, by the authority of
    that moment. -/
def LatestAnnounces (M : System σ ε κ η α) (s : σ) (es : List ε) (h : η) (t : Nat) : Prop :=
  ∃ earlier e between, es = earlier ++ e :: between ∧
    M.op (Run.final M.step s earlier) e = some (.announce h t) ∧
    M.sender e = some (M.authority (Run.final M.step s earlier)) ∧
    Run.Guarded M.step (fun s e => M.op s e = none)
      (M.step (Run.final M.step s earlier) e) between

/-- What a run keeps to. -/
structure Governed (M : System σ ε κ η α) (s : σ) (es : List ε) : Prop where
  applied : ∀ before e after code time, es = before ++ e :: after →
    M.op (Run.final M.step s before) e = some (.apply code time) →
    (M.slot (M.step (Run.final M.step s before) e)).code = code ∧
      ∃ announcedAt, M.LatestAnnounces s before (M.fingerprint code) announcedAt ∧
        announcedAt + M.delay s ≤ time
  version : (M.slot (Run.final M.step s es)).version = M.applies s es
  others : ∀ before e after, es = before ++ e :: after →
    M.sender e ≠ some (M.authority (Run.final M.step s before)) →
    M.slot (M.step (Run.final M.step s before) e) = M.slot (Run.final M.step s before)

variable {M : System σ ε κ η α}

/-- Both conditions on an event, checked in one go. -/
theorem Sound.of_step
    (hstep : ∀ s e, Move M.fingerprint M.nothing (M.delay s) (M.slot s) (M.op s e)
        (M.slot (M.step s e)) ∧
      ((M.op s e).isSome → M.sender e = some (M.authority s)))
    (hdelay : ∀ s e, M.delay (M.step s e) = M.delay s) : M.Sound :=
  ⟨fun s e => (hstep s e).1, fun s e => (hstep s e).2, hdelay⟩

theorem Sound.slot_of_none (hM : M.Sound) {s : σ} {e : ε} (h : M.op s e = none) :
    M.slot (M.step s e) = M.slot s := by
  have hmove := hM.move s e
  rw [h] at hmove
  generalize M.slot (M.step s e) = u at hmove ⊢
  cases hmove
  rfl

theorem Sound.delay_final (hM : M.Sound) (s : σ) (es : List ε) :
    M.delay (Run.final M.step s es) = M.delay s :=
  (Run.always_of_invariant (P := fun t => M.delay t = M.delay s)
    (fun t e ht => (hM.delay_step t e).trans ht) rfl es).last

/-- What is pending was announced by the latest operation. -/
theorem Sound.latest (hM : M.Sound) {s : σ} (hs : (M.slot s).pending = M.nothing) (es : List ε)
    (hpending : (M.slot (Run.final M.step s es)).pending ≠ M.nothing) :
    M.LatestAnnounces s es (M.slot (Run.final M.step s es)).pending
      (M.slot (Run.final M.step s es)).pendingAt := by
  induction es using List.reverseRecOn with
  | nil => exact absurd hs hpending
  | append_singleton es e ih =>
    rw [Run.final_append] at hpending ⊢
    have hlast : Run.final M.step (Run.final M.step s es) [e] =
        M.step (Run.final M.step s es) e := rfl
    rw [hlast] at hpending ⊢
    have hmove := hM.move (Run.final M.step s es) e
    cases hop : M.op (Run.final M.step s es) e with
    | none =>
      rw [hM.slot_of_none hop] at hpending ⊢
      obtain ⟨earlier, e', between, rfl, hannounce, hsender, hquiet⟩ := ih hpending
      refine ⟨earlier, e', between ++ [e], by simp, hannounce, hsender, ?_⟩
      apply Run.guarded_append.mpr
      refine ⟨hquiet, ?_, trivial⟩
      rw [Run.final_append] at hop
      exact hop
    | some o =>
      have hsender := hM.gated (Run.final M.step s es) e (by rw [hop]; rfl)
      rw [hop] at hmove
      generalize M.slot (M.step (Run.final M.step s es) e) = u at hmove hpending ⊢
      cases hmove with
      | announced h t => exact ⟨es, e, [], rfl, hop, hsender, trivial⟩
      | applied | cancelled => exact absurd rfl hpending

theorem Sound.version_eq (hM : M.Sound) (s : σ) (es : List ε) :
    (M.slot (Run.final M.step s es)).version = (M.slot s).version + M.applies s es := by
  induction es generalizing s with
  | nil => rfl
  | cons e es ih =>
    have hmove := hM.move s e
    have hrest := ih (M.step s e)
    show (M.slot (Run.final M.step (M.step s e) es)).version = _
    rw [hrest, applies]
    generalize M.op s e = o at hmove ⊢
    generalize M.slot (M.step s e) = u at hmove ⊢
    cases hmove with
    | kept | announced | cancelled => simp
    | applied => simp [Nat.add_assoc]

/-- The rule: what every event keeps to, every run from a state with nothing announced and no
    replacement behind it keeps to. -/
theorem Sound.governed (hM : M.Sound) {s : σ} (hpending : (M.slot s).pending = M.nothing)
    (hversion : (M.slot s).version = 0) (es : List ε) : M.Governed s es := by
  refine ⟨?_, ?_, ?_⟩
  · intro before e after code time _ hop
    have hmove := hM.move (Run.final M.step s before) e
    have hlatest := hM.latest hpending before
    rw [hop, hM.delay_final] at hmove
    generalize M.slot (M.step (Run.final M.step s before) e) = u at hmove ⊢
    cases hmove with
    | applied c t hannounced hcode hready =>
      rw [hcode]
      exact ⟨rfl, _, hlatest hannounced, hready⟩
  · rw [hM.version_eq, hversion, Nat.zero_add]
  · intro before e after _ hsender
    apply hM.slot_of_none
    by_contra hop
    exact hsender (hM.gated _ e (Option.isSome_iff_ne_none.mpr hop))

end System

end Timelock
