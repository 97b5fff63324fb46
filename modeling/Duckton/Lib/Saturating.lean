/-
  Saturating unsigned arithmetic of a given width, on natural numbers.
-/
import Mathlib.Algebra.Group.Nat.Defs
import Mathlib.Order.Basic

namespace Saturating

/-- `a.saturating_add(b)` in `w` bits. -/
def add (w a b : Nat) : Nat :=
  min (a + b) (2 ^ w - 1)

/-- `a.saturating_mul(b)` in `w` bits. -/
def mul (w a b : Nat) : Nat :=
  min (a * b) (2 ^ w - 1)

theorem add_eq {w a b : Nat} (h : a + b < 2 ^ w) : add w a b = a + b := by
  unfold add
  omega

theorem mul_eq {w a b : Nat} (h : a * b < 2 ^ w) : mul w a b = a * b := by
  unfold mul
  omega

theorem add_le (w a b : Nat) : add w a b ≤ a + b :=
  Nat.min_le_left _ _

theorem mul_le (w a b : Nat) : mul w a b ≤ a * b :=
  Nat.min_le_left _ _

end Saturating
