/-
  A counter at the far end of a queue.

  The near end posts credits and debits, the far end applies them in order. `drain` is the value
  the counter reaches when a debit stops at zero; `drainExact` is the value it reaches if no debit
  asks for more than there is. Both are stated for a counter that starts anywhere, so that a post
  at the near end and an application at the far end are each one rewrite.
-/
import Mathlib.Logic.Basic

inductive Posting where
  | credit (amount : Nat)
  | debit (amount : Nat)
  deriving DecidableEq, Repr

namespace Posting

/-- A debit stops at zero. -/
def apply (n : Nat) : Posting → Nat
  | credit amount => n + amount
  | debit amount => n - amount

/-- A debit of more than there is has no result. -/
def applyExact (n : Nat) : Posting → Option Nat
  | credit amount => some (n + amount)
  | debit amount => if amount ≤ n then some (n - amount) else none

def drain (n : Nat) (ps : List Posting) : Nat :=
  ps.foldl apply n

def drainExact : Nat → List Posting → Option Nat
  | n, [] => some n
  | n, p :: ps => (p.applyExact n).bind fun m => drainExact m ps

variable (n : Nat) (ps : List Posting) (p : Posting)

@[simp] theorem drain_concat : drain n (ps ++ [p]) = p.apply (drain n ps) := by
  unfold drain
  rw [List.foldl_append]
  rfl

theorem apply_mono {m n : Nat} (h : m ≤ n) : p.apply m ≤ p.apply n := by
  cases p with
  | credit amount => exact Nat.add_le_add_right h amount
  | debit amount => exact Nat.sub_le_sub_right h amount

theorem drain_mono {m n : Nat} (h : m ≤ n) : drain m ps ≤ drain n ps := by
  induction ps generalizing m n with
  | nil => exact h
  | cons p ps ih => exact ih (p.apply_mono h)

theorem apply_add_le (n d : Nat) : p.apply (n + d) ≤ p.apply n + d := by
  cases p with
  | credit amount =>
    show n + d + amount ≤ n + amount + d
    omega
  | debit amount =>
    show n + d - amount ≤ n - amount + d
    omega

/-- A head start is never multiplied by the queue. -/
theorem drain_add_le (n d : Nat) : drain (n + d) ps ≤ drain n ps + d := by
  induction ps generalizing n with
  | nil => exact Nat.le_refl _
  | cons p ps ih => exact Nat.le_trans (drain_mono ps (p.apply_add_le n d)) (ih (p.apply n))

theorem drainExact_concat : drainExact n (ps ++ [p]) = (drainExact n ps).bind p.applyExact := by
  induction ps generalizing n with
  | nil =>
    show (p.applyExact n).bind (fun m => some m) = (some n).bind p.applyExact
    rw [Option.bind_some, Option.bind_fun_some]
  | cons q ps ih =>
    show (q.applyExact n).bind (fun m => drainExact m (ps ++ [p])) =
      ((q.applyExact n).bind fun m => drainExact m ps).bind p.applyExact
    rw [Option.bind_assoc]
    exact congrArg _ (funext fun m => ih m)

end Posting
