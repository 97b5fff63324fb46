/-
  Computations that change a state and may fail, written with `EStateM`.

  Nothing is rolled back: a computation that fails leaves the state as it was at that point.
  `FailsIn Q m s` says that `m`, run from `s`, ends in a state with `Q` if it fails, and
  `Succeeds m s` that it does not fail. The rules take both apart one step at a time. The second
  half is about a state made of places that are written one after another, where a write may
  also break off and leave something else behind.
-/
import Mathlib.Logic.Function.Basic

namespace Failing

variable {ε σ α β γ : Type}

/-- Where a computation ends, well or badly. -/
def last : EStateM.Result ε σ α → σ
  | .ok _ s => s
  | .error _ s => s

def FailsIn (Q : σ → Prop) (m : EStateM ε σ α) (s : σ) : Prop :=
  ∀ e s', m s = .error e s' → Q s'

def Succeeds (m : EStateM ε σ α) (s : σ) : Prop :=
  ∃ a s', m s = .ok a s'

/-- `m` leaves `g` as it is, however it ends. -/
def Frames (g : σ → γ) (m : EStateM ε σ α) : Prop :=
  ∀ s, g (last (m s)) = g s

/-- A computation that looks at the state and does not change it. -/
def reads (f : σ → Except ε α) : EStateM ε σ α := fun s =>
  match f s with
  | .ok a => .ok a s
  | .error e => .error e s

variable {Q : σ → Prop} {g : σ → γ} {m : EStateM ε σ α} {k : α → EStateM ε σ β} {s s' : σ}

/-! ## One step after another -/

variable {a : α} {e : ε}

theorem bind_of_ok (h : m s = .ok a s') : (m >>= k) s = k a s' := by
  show EStateM.bind m k s = _
  rw [EStateM.bind, h]

theorem bind_of_error (h : m s = .error e s') : (m >>= k) s = .error e s' := by
  show EStateM.bind m k s = _
  rw [EStateM.bind, h]

theorem failsIn_bind_of_ok (h : m s = .ok a s') :
    FailsIn Q (m >>= k) s ↔ FailsIn Q (k a) s' := by
  unfold FailsIn
  rw [bind_of_ok h]

theorem failsIn_bind_of_error (h : m s = .error e s') :
    FailsIn Q (m >>= k) s ↔ Q s' := by
  unfold FailsIn
  rw [bind_of_error h]
  constructor
  · intro hQ
    exact hQ e s' rfl
  · rintro hQ _ _ ⟨⟩
    exact hQ

theorem succeeds_bind_of_ok (h : m s = .ok a s') :
    Succeeds (m >>= k) s ↔ Succeeds (k a) s' := by
  unfold Succeeds
  rw [bind_of_ok h]

theorem not_succeeds_bind (h : m s = .error e s') : ¬ Succeeds (m >>= k) s := by
  rintro ⟨b, t, ht⟩
  rw [bind_of_error h] at ht
  cases ht

theorem succeeds_pure (a : α) : Succeeds (pure a : EStateM ε σ α) s := ⟨a, s, rfl⟩

theorem Succeeds.failsIn (h : Succeeds m s) : FailsIn Q m s := by
  obtain ⟨a, s', ha⟩ := h
  intro e t ht
  rw [ha] at ht
  cases ht

theorem failsIn_pure (a : α) : FailsIn Q (pure a : EStateM ε σ α) s :=
  (succeeds_pure a).failsIn

/-! ## Looking at the state -/

variable {f : σ → Except ε α} {rest : EStateM ε σ β}

theorem reads_of_ok (h : f s = .ok a) : reads f s = .ok a s := by
  simp only [reads, h]

theorem reads_of_error (h : f s = .error e) :
    reads f s = .error e s := by
  simp only [reads, h]

theorem last_reads (f : σ → Except ε α) (s : σ) : last (reads f s) = s := by
  cases hf : f s with
  | ok a => rw [reads_of_ok hf]; rfl
  | error e => rw [reads_of_error hf]; rfl

/-- A failed look changes nothing. -/
theorem failsIn_reads (hQ : Q s) : FailsIn Q (reads f) s := by
  intro e t ht
  cases hf : f s with
  | ok a =>
    rw [reads_of_ok hf] at ht
    cases ht
  | error e' =>
    rw [reads_of_error hf] at ht
    cases ht
    exact hQ

theorem failsIn_reads_bind (hQ : Q s) :
    FailsIn Q (reads f >>= k) s ↔ ∀ a, f s = .ok a → FailsIn Q (k a) s := by
  cases hf : f s with
  | ok a =>
    rw [failsIn_bind_of_ok (reads_of_ok hf)]
    constructor
    · rintro h _ ⟨⟩
      exact h
    · intro h
      exact h a rfl
  | error e =>
    rw [failsIn_bind_of_error (reads_of_error hf)]
    exact ⟨nofun, fun _ => hQ⟩

theorem succeeds_reads_bind :
    Succeeds (reads f >>= k) s ↔ ∃ a, f s = .ok a ∧ Succeeds (k a) s := by
  cases hf : f s with
  | ok a =>
    rw [succeeds_bind_of_ok (reads_of_ok hf)]
    constructor
    · intro h
      exact ⟨a, rfl, h⟩
    · rintro ⟨_, ⟨⟩, h⟩
      exact h
  | error e =>
    constructor
    · intro h
      exact absurd h (not_succeeds_bind (reads_of_error hf))
    · rintro ⟨_, h, _⟩
      cases h

/-- A look without an answer is a check. -/
theorem failsIn_check_bind {f : σ → Except ε Unit} (hQ : Q s) :
    FailsIn Q (reads f >>= fun _ => rest) s ↔ (f s = .ok () → FailsIn Q rest s) := by
  rw [failsIn_reads_bind hQ]
  exact ⟨fun h => h (), fun h _ => h⟩

theorem succeeds_check_bind {f : σ → Except ε Unit} :
    Succeeds (reads f >>= fun _ => rest) s ↔ f s = .ok () ∧ Succeeds rest s := by
  rw [succeeds_reads_bind]
  exact ⟨fun ⟨_, h⟩ => h, fun h => ⟨(), h⟩⟩

/-! ## What stays as it is -/

theorem frames_pure (a : α) : Frames g (pure a : EStateM ε σ α) := fun _ => rfl

theorem frames_reads (f : σ → Except ε α) : Frames g (reads f) := fun s =>
  congrArg g (last_reads f s)

theorem Frames.bind (hm : Frames g m) (hk : ∀ a, Frames g (k a)) : Frames g (m >>= k) := by
  intro s
  have hs := hm s
  cases h : m s with
  | ok a s' =>
    rw [h] at hs
    rw [bind_of_ok h, hk a s']
    exact hs
  | error e s' =>
    rw [h] at hs
    rw [bind_of_error h]
    exact hs

/-- Past a change it cannot undo, a computation has to succeed. -/
theorem failsIn_iff_succeeds (hg : Frames g m) (hs : ∀ t, Q t → g t ≠ g s) :
    FailsIn Q m s ↔ Succeeds m s := by
  refine ⟨fun h => ?_, Succeeds.failsIn⟩
  have hlast := hg s
  cases hm : m s with
  | ok a t => exact ⟨a, t, hm⟩
  | error e t =>
    rw [hm] at hlast
    exact absurd hlast (hs t (h e t hm))

/-! ## Places -/

/-- How a write ends: done, refused before it has changed anything, or broken off. -/
inductive Outcome (ε γ : Type) where
  | done
  | refused (e : ε)
  | brokenOff (kept : γ) (e : ε)

section Places

variable {ι : Type} [DecidableEq ι]

def write (o : Outcome ε γ) (i : ι) (c : γ) : EStateM ε (ι → γ) Unit := fun s =>
  match o with
  | .done => .ok () (Function.update s i c)
  | .refused e => .error e s
  | .brokenOff kept e => .error e (Function.update s i kept)

variable {o : Outcome ε γ} {i j : ι} {c : γ} {d : ι → γ} {rest : EStateM ε (ι → γ) β}

theorem frames_write (h : j ≠ i) : Frames (fun d => d j) (write o i c) := by
  intro d
  cases o with
  | done => exact Function.update_of_ne h c d
  | refused e => rfl
  | brokenOff kept e => exact Function.update_of_ne h kept d

theorem succeeds_write_bind :
    Succeeds (write o i c >>= fun _ => rest) d ↔
      o = .done ∧ Succeeds rest (Function.update d i c) := by
  cases o with
  | done =>
    exact ⟨fun h => ⟨rfl, h⟩, fun h => h.2⟩
  | refused e =>
    exact ⟨fun h => absurd h (not_succeeds_bind (m := write (.refused e) i c) rfl),
      fun h => (nomatch h.1)⟩
  | brokenOff kept e =>
    exact ⟨fun h => absurd h (not_succeeds_bind (m := write (.brokenOff kept e) i c) rfl),
      fun h => (nomatch h.1)⟩

/-- A write at `i` of a computation that may then still fail: what is lost if it does. -/
def WriteSafe (o : Outcome ε γ) (d : ι → γ) (i : ι) (c : γ) (same changed : Prop) : Prop :=
  (∀ kept e, o = .brokenOff kept e → d i = kept) ∧
    (o = .done → (d i = c → same) ∧ (d i ≠ c → changed))

/-- A write is harmless if it breaks off without a trace, or puts what is there already and what
    follows is harmless too, or is followed by a success. -/
theorem failsIn_write_bind (hrest : Frames (fun d => d i) rest) :
    FailsIn (fun t => t = d) (write o i c >>= fun _ => rest) d ↔
      WriteSafe o d i c (FailsIn (fun t => t = d) rest d)
        (Succeeds rest (Function.update d i c)) := by
  cases o with
  | done =>
    rw [failsIn_bind_of_ok (m := write .done i c) (a := ()) rfl]
    have hbroken : ∀ kept e, (Outcome.done : Outcome ε γ) = .brokenOff kept e → d i = kept :=
      nofun
    by_cases hc : d i = c
    · have hsame : Function.update d i c = d := by rw [← hc, Function.update_eq_self]
      rw [hsame]
      exact ⟨fun h => ⟨hbroken, fun _ => ⟨fun _ => h, fun hne => absurd hc hne⟩⟩,
        fun h => (h.2 rfl).1 hc⟩
    · have hmoved : ∀ t, t = d → t i ≠ Function.update d i c i := by
        rintro t rfl
        rwa [Function.update_self]
      rw [failsIn_iff_succeeds hrest hmoved]
      exact ⟨fun h => ⟨hbroken, fun _ => ⟨fun heq => absurd heq hc, fun _ => h⟩⟩,
        fun h => (h.2 rfl).2 hc⟩
  | refused e =>
    rw [failsIn_bind_of_error (m := write (.refused e) i c) rfl]
    exact ⟨fun _ => ⟨nofun, nofun⟩, fun _ => rfl⟩
  | brokenOff kept e =>
    rw [failsIn_bind_of_error (m := write (.brokenOff kept e) i c) rfl, Function.update_eq_iff]
    constructor
    · rintro ⟨hkept, -⟩
      refine ⟨?_, nofun⟩
      rintro _ _ ⟨⟩
      exact hkept.symm
    · intro h
      exact ⟨(h.1 kept e rfl).symm, fun _ _ => rfl⟩

end Places

end Failing
