/-
  Bit strings, most significant bit first: fixed-width encoding of naturals and its inverse.
-/
import Mathlib.Data.Nat.Bitwise
import Mathlib.Tactic.Ring

namespace Bits

/-- The low `w` bits of `n`. -/
def ofNat : (w n : Nat) → List Bool
  | 0, _ => []
  | w + 1, n => n.testBit w :: ofNat w n

def toNat : List Bool → Nat
  | [] => 0
  | b :: bs => b.toNat * 2 ^ bs.length + toNat bs

@[simp] theorem length_ofNat (w n : Nat) : (ofNat w n).length = w := by
  induction w with
  | zero => rfl
  | succ w ih => rw [ofNat, List.length_cons, ih]

theorem getElem?_ofNat {w j : Nat} (n : Nat) (h : j < w) :
    (ofNat w n)[j]? = some (n.testBit (w - 1 - j)) := by
  induction w generalizing j with
  | zero => omega
  | succ w ih =>
    rw [ofNat]
    cases j with
    | zero => rfl
    | succ j =>
      have hbit : w + 1 - 1 - (j + 1) = w - 1 - j := by omega
      rw [List.getElem?_cons_succ, ih (by omega), hbit]

theorem toNat_lt (bs : List Bool) : toNat bs < 2 ^ bs.length := by
  induction bs with
  | nil => decide
  | cons b bs ih =>
    have hb : b.toNat ≤ 1 := Bool.toNat_le b
    rw [toNat, List.length_cons, pow_succ]
    have hmul : b.toNat * 2 ^ bs.length ≤ 1 * 2 ^ bs.length := Nat.mul_le_mul_right _ hb
    omega

theorem toNat_ofNat (w n : Nat) : toNat (ofNat w n) = n % 2 ^ w := by
  induction w with
  | zero => rw [pow_zero, Nat.mod_one]; rfl
  | succ w ih =>
    rw [ofNat, toNat, length_ofNat, ih, Nat.toNat_testBit, pow_succ, Nat.mod_mul]
    ring

theorem toNat_ofNat_of_lt {w n : Nat} (h : n < 2 ^ w) : toNat (ofNat w n) = n := by
  rw [toNat_ofNat, Nat.mod_eq_of_lt h]

theorem ofNat_congr {w a b : Nat} (h : a % 2 ^ w = b % 2 ^ w) : ofNat w a = ofNat w b := by
  induction w with
  | zero => rfl
  | succ w ih =>
    have hbit : a.testBit w = b.testBit w := by
      have ha := Nat.testBit_mod_two_pow a (w + 1) w
      have hb := Nat.testBit_mod_two_pow b (w + 1) w
      rw [h, hb] at ha
      simpa using ha.symm
    have hlow : a % 2 ^ w = b % 2 ^ w := by
      have hdvd : 2 ^ w ∣ 2 ^ (w + 1) := pow_dvd_pow 2 (Nat.le_succ w)
      rw [← Nat.mod_mod_of_dvd a hdvd, h, Nat.mod_mod_of_dvd b hdvd]
    rw [ofNat, ofNat, hbit, ih hlow]

theorem ofNat_inj {w a b : Nat} : ofNat w a = ofNat w b ↔ a % 2 ^ w = b % 2 ^ w := by
  refine ⟨fun h => ?_, ofNat_congr⟩
  rw [← toNat_ofNat, h, toNat_ofNat]

/-- A wide field is its high part followed by its low part. -/
theorem ofNat_add (a b n : Nat) : ofNat (a + b) n = ofNat a (n / 2 ^ b) ++ ofNat b n := by
  induction a with
  | zero => rw [Nat.zero_add]; rfl
  | succ a ih =>
    rw [Nat.succ_add, ofNat, ofNat, ih, List.cons_append, Nat.testBit_div_two_pow]

/-- Every bit string is the encoding of its value. -/
theorem ofNat_toNat (bs : List Bool) : ofNat bs.length (toNat bs) = bs := by
  induction bs with
  | nil => rfl
  | cons b bs ih =>
    have hlt := toNat_lt bs
    have hhigh : (b.toNat * 2 ^ bs.length + toNat bs) / 2 ^ bs.length = b.toNat := by
      rw [Nat.add_comm, Nat.add_mul_div_right _ _ (Nat.two_pow_pos _), Nat.div_eq_of_lt hlt,
        Nat.zero_add]
    have hlow : ofNat bs.length (b.toNat * 2 ^ bs.length + toNat bs) = bs := by
      refine (ofNat_congr ?_).trans ih
      rw [Nat.mul_add_mod_self_right]
    rw [toNat, List.length_cons, Nat.add_comm, ofNat_add, hhigh, hlow]
    cases b <;> rfl

end Bits
