/-
  Arithmetic and indexing on a 64-bit machine that checks them.

  A computation gives a value, ends with the answer "nothing", or panics: on an overflow, or on an
  index or a slice out of range. `Quiet` says that it does not panic.
-/
import Duckton.Lib.Fallible
import Duckton.Lib.Octets

namespace Checked

inductive Halt where
  | nothing
  | panic
  deriving DecidableEq, Repr

variable {α β σ : Type}

/-! ## Operations -/

def add (a b : Nat) : Except Halt Nat :=
  if a + b < 2 ^ 64 then .ok (a + b) else .error .panic

def sub (a b : Nat) : Except Halt Nat :=
  if b ≤ a then .ok (a - b) else .error .panic

def mul (a b : Nat) : Except Halt Nat :=
  if a * b < 2 ^ 64 then .ok (a * b) else .error .panic

/-- A value that has to be there. -/
def orPanic : Option α → Except Halt α
  | some a => .ok a
  | none => .error .panic

def index (xs : List α) (i : Nat) : Except Halt α :=
  orPanic xs[i]?

def slice (xs : List α) (start stop : Nat) : Except Halt (List α) :=
  if start ≤ stop ∧ stop ≤ xs.length then .ok ((xs.drop start).take (stop - start))
  else .error .panic

def update (xs : List α) (i : Nat) (a : α) : Except Halt (List α) :=
  if i < xs.length then .ok (xs.set i a) else .error .panic

/-- `checked_add` and its kin give nothing in place of a panic. -/
def checkedAdd (a b : Nat) : Option Nat :=
  if a + b < 2 ^ 64 then some (a + b) else none

def checkedMul (a b : Nat) : Option Nat :=
  if a * b < 2 ^ 64 then some (a * b) else none

def checkedSub (a b : Nat) : Option Nat :=
  if b ≤ a then some (a - b) else none

/-- An early return of "nothing". -/
def rejectIf (p : Prop) [Decidable p] : Except Halt Unit :=
  if p then .error .nothing else .ok ()

/-- The question-mark operator. -/
def orNothing : Option α → Except Halt α
  | some a => .ok a
  | none => .error .nothing

/-! ## Values -/

theorem add_eq_ok {a b r : Nat} : add a b = .ok r ↔ a + b < 2 ^ 64 ∧ r = a + b := by
  unfold add
  split_ifs with h
  · rw [Except.ok.injEq]
    exact ⟨fun hr => ⟨h, hr.symm⟩, fun hr => hr.2.symm⟩
  · exact ⟨nofun, fun hr => absurd hr.1 h⟩

variable {a : α} {x : Except Halt α}

theorem orPanic_eq_ok {x : Option α} : orPanic x = .ok a ↔ x = some a := by
  cases x with
  | none => exact ⟨nofun, nofun⟩
  | some b =>
    show Except.ok b = .ok a ↔ _
    rw [Except.ok.injEq, Option.some.injEq]

variable {xs : List α} {i : Nat}

theorem index_eq_ok : index xs i = .ok a ↔ xs[i]? = some a :=
  orPanic_eq_ok

theorem slice_eq_ok {part : List α} {start stop : Nat} :
    slice xs start stop = .ok part ↔
      stop = start + part.length ∧ Octets.IsSlice xs (start, part) := by
  unfold slice
  split_ifs with h
  · have hlen : ((xs.drop start).take (stop - start)).length = stop - start := by
      rw [List.length_take, List.length_drop]
      omega
    rw [Except.ok.injEq]
    constructor
    · rintro rfl
      refine ⟨by omega, by dsimp only; omega, ?_⟩
      rw [hlen]
    · rintro ⟨rfl, _, hpiece⟩
      rw [Nat.add_sub_cancel_left, ← hpiece]
  · refine ⟨nofun, ?_⟩
    rintro ⟨rfl, hfits, _⟩
    exact absurd ⟨Nat.le_add_right _ _, hfits⟩ h

theorem update_eq_ok {ys : List α} (h : i < xs.length) :
    update xs i a = .ok ys ↔ ys = xs.set i a := by
  rw [update, if_pos h, Except.ok.injEq]
  exact eq_comm

theorem rejectIf_eq_ok {p : Prop} [Decidable p] {u : Unit} : rejectIf p = .ok u ↔ ¬ p := by
  unfold rejectIf
  by_cases hp : p
  · rw [if_pos hp]
    exact ⟨nofun, fun h => absurd hp h⟩
  · rw [if_neg hp]
    exact ⟨fun _ => hp, fun _ => rfl⟩

theorem orNothing_eq_ok {x : Option α} : orNothing x = .ok a ↔ x = some a := by
  cases x with
  | none => exact ⟨nofun, nofun⟩
  | some b =>
    show Except.ok b = .ok a ↔ _
    rw [Except.ok.injEq, Option.some.injEq]

/-! ## No panic -/

/-- The computation ends in a value or in "nothing". -/
def Quiet (x : Except Halt α) : Prop :=
  x ≠ .error .panic

theorem quiet_ok (a : α) : Quiet (.ok a) := by
  intro h
  cases h

theorem quiet_nothing : Quiet (.error .nothing : Except Halt α) := by
  intro h
  cases h

theorem Quiet.bind {f : α → Except Halt β} (hx : Quiet x) (hf : ∀ a, x = .ok a → Quiet (f a)) :
    Quiet (x >>= f) := by
  cases x with
  | ok a => exact hf a rfl
  | error e =>
    intro h
    cases h
    exact hx rfl

/-- A computation that does not panic and has no value ends in "nothing". -/
theorem Quiet.eq_nothing (hx : Quiet x) (h : ∀ a, x ≠ .ok a) :
    x = .error .nothing := by
  cases x with
  | ok a => exact absurd rfl (h a)
  | error e =>
    cases e with
    | nothing => rfl
    | panic => exact absurd rfl hx

theorem quiet_add {a b : Nat} (h : a + b < 2 ^ 64) : Quiet (add a b) := by
  rw [add, if_pos h]
  exact quiet_ok _

theorem quiet_index (h : i < xs.length) : Quiet (index xs i) := by
  rw [index_eq_ok.mpr (List.getElem?_eq_getElem h)]
  exact quiet_ok _

theorem quiet_slice {start stop : Nat} (hle : start ≤ stop)
    (hstop : stop ≤ xs.length) : Quiet (slice xs start stop) := by
  rw [slice, if_pos ⟨hle, hstop⟩]
  exact quiet_ok _

theorem quiet_update (h : i < xs.length) :
    Quiet (update xs i a) := by
  rw [update, if_pos h]
  exact quiet_ok _

theorem quiet_rejectIf (p : Prop) [Decidable p] : Quiet (rejectIf p) := by
  unfold rejectIf
  split
  · exact quiet_nothing
  · exact quiet_ok _

theorem quiet_add_bind {a b : Nat} {f : Nat → Except Halt β} (h : a + b < 2 ^ 64)
    (hf : Quiet (f (a + b))) : Quiet (add a b >>= f) :=
  (quiet_add h).bind fun _ hr => (add_eq_ok.mp hr).2 ▸ hf

theorem quiet_rejectIf_bind {p : Prop} [Decidable p] {f : Unit → Except Halt β}
    (hf : ¬ p → Quiet (f ())) : Quiet (rejectIf p >>= f) :=
  (quiet_rejectIf p).bind fun _ hp => hf (rejectIf_eq_ok.mp hp)

theorem quiet_orNothing (x : Option α) : Quiet (orNothing x) := by
  cases x with
  | none => exact quiet_nothing
  | some a => exact quiet_ok a

end Checked
