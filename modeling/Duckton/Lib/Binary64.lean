/-
  Rounding to binary64, on exact rationals.

  A finite binary64 number is a rational; an operation on two of them is the exact operation
  followed by `rnd`, which rounds to the nearest multiple of the unit in the last place, ties to
  even. Infinities and NaN are not modelled, nor is overflow. What the proofs use is the usual
  bound, that in the normal range `rnd` is off by at most `2^-53` of its argument, and that below
  `2^53` it does not pass an integer.
-/
import Mathlib.Data.Int.Log
import Mathlib.Data.Rat.Floor

namespace Binary64

/-- The nearest integer, a tie to the even one. -/
def roundEven (q : ℚ) : ℤ :=
  if q - ⌊q⌋ < 1 / 2 then ⌊q⌋
  else if 1 / 2 < q - ⌊q⌋ then ⌊q⌋ + 1
  else if ⌊q⌋ % 2 = 0 then ⌊q⌋ else ⌊q⌋ + 1

theorem abs_roundEven_sub_le (q : ℚ) : |(roundEven q : ℚ) - q| ≤ 1 / 2 := by
  have hlow := Int.floor_le q
  have hhigh := Int.lt_floor_add_one q
  unfold roundEven
  split_ifs
  · rw [abs_le]
    constructor <;> linarith
  · push_cast
    rw [abs_le]
    constructor <;> linarith
  · rw [abs_le]
    constructor <;> linarith
  · push_cast
    rw [abs_le]
    constructor <;> linarith

/-- The exponent of the unit in the last place; `-1074` is that of the subnormal numbers. -/
def ulpExp (x : ℚ) : ℤ :=
  max (Int.log 2 |x| - 52) (-1074)

def ulp (x : ℚ) : ℚ :=
  2 ^ ulpExp x

/-- Round to nearest, ties to even. -/
def rnd (x : ℚ) : ℚ :=
  roundEven (x / ulp x) * ulp x

theorem ulp_pos (x : ℚ) : 0 < ulp x :=
  zpow_pos (by norm_num) _

@[simp] theorem rnd_zero : rnd 0 = 0 := by
  have hzero : roundEven 0 = 0 := by simp [roundEven]
  rw [rnd, zero_div, hzero, Int.cast_zero, zero_mul]

theorem abs_rnd_sub_le_ulp (x : ℚ) : |rnd x - x| ≤ ulp x / 2 := by
  have hpos := ulp_pos x
  have hquot := abs_roundEven_sub_le (x / ulp x)
  have hscale : rnd x - x = (roundEven (x / ulp x) - x / ulp x) * ulp x := by
    rw [rnd, sub_mul, div_mul_cancel₀ x hpos.ne']
  rw [hscale, abs_mul, abs_of_pos hpos]
  calc |(roundEven (x / ulp x) : ℚ) - x / ulp x| * ulp x
      ≤ 1 / 2 * ulp x := mul_le_mul_of_nonneg_right hquot hpos.le
    _ = ulp x / 2 := by ring

variable {x : ℚ}

/-- In the normal range the unit in the last place is at most `2^-52` of the number. -/
theorem ulp_le (hx : 2 ^ (-1022 : ℤ) ≤ |x|) : ulp x ≤ |x| / 2 ^ 52 := by
  have hnormal : (0 : ℚ) < 2 ^ (-1022 : ℤ) := zpow_pos (by norm_num) _
  have hpos : 0 < |x| := hnormal.trans_le hx
  have hlog : -1022 ≤ Int.log 2 |x| := by
    have hmono := Int.log_mono_right (b := 2) hnormal hx
    rwa [show (2 : ℚ) = ((2 : ℕ) : ℚ) by norm_num, Int.log_zpow (by norm_num)] at hmono
  have hexp : ulpExp x = Int.log 2 |x| - 52 := max_eq_left (by omega)
  have hself : (2 : ℚ) ^ Int.log 2 |x| ≤ |x| := by
    exact_mod_cast Int.zpow_log_le_self (b := 2) (by norm_num) hpos
  rw [ulp, hexp, zpow_sub₀ (by norm_num)]
  exact div_le_div_of_nonneg_right hself (by norm_num)

/-- The relative error of one operation. -/
theorem abs_rnd_sub_le (hx : 2 ^ (-1022 : ℤ) ≤ |x|) : |rnd x - x| ≤ |x| / 2 ^ 53 := by
  calc |rnd x - x| ≤ ulp x / 2 := abs_rnd_sub_le_ulp x
    _ ≤ |x| / 2 ^ 52 / 2 := div_le_div_of_nonneg_right (ulp_le hx) (by norm_num)
    _ = |x| / 2 ^ 53 := by ring

theorem minNormal_le : (2 : ℚ) ^ (-1022 : ℤ) ≤ 1 / 2 ^ 14 := by
  calc (2 : ℚ) ^ (-1022 : ℤ) ≤ 2 ^ (-14 : ℤ) := zpow_le_zpow_right₀ (by norm_num) (by norm_num)
    _ = 1 / 2 ^ 14 := by norm_num

/-! ## Numbers of the format are not passed -/

theorem roundEven_le {q : ℚ} {z : ℤ} (h : q ≤ z) : roundEven q ≤ z := by
  have hfloor : ⌊q⌋ ≤ z := by exact_mod_cast (Int.floor_le q).trans h
  rcases hfloor.lt_or_eq with hlt | heq
  · unfold roundEven
    split_ifs <;> omega
  · -- then `q` is the integer itself
    have hq : q - ⌊q⌋ < 1 / 2 := by
      rw [heq]
      linarith
    rw [roundEven, if_pos hq, heq]

theorem le_roundEven {q : ℚ} {z : ℤ} (h : z ≤ q) : z ≤ roundEven q := by
  have hfloor : z ≤ ⌊q⌋ := Int.le_floor.mpr h
  unfold roundEven
  split_ifs <;> omega

/-- Below `2^53` an integer is a multiple of the unit in the last place. -/
theorem exists_mul_ulp (hpos : 0 < x) (hx : x < 2 ^ 53) (k : ℤ) :
    ∃ z : ℤ, (k : ℚ) = z * ulp x := by
  have hlog : Int.log 2 |x| - 52 ≤ 0 := by
    have hlt : |x| < ((2 : ℕ) : ℚ) ^ (53 : ℤ) := by
      rw [abs_of_pos hpos]
      exact_mod_cast hx
    have := (Int.lt_zpow_iff_log_lt (by norm_num) (abs_pos.mpr hpos.ne')).mp hlt
    omega
  obtain ⟨e, he⟩ : ∃ e : ℕ, ulpExp x = -(e : ℤ) := by
    refine ⟨(-ulpExp x).toNat, ?_⟩
    have hexp : ulpExp x ≤ 0 := max_le hlog (by norm_num)
    omega
  refine ⟨k * 2 ^ e, ?_⟩
  rw [ulp, he, zpow_neg, zpow_natCast]
  push_cast
  rw [mul_assoc, mul_inv_cancel₀ (by positivity), mul_one]

theorem rnd_le_intCast {k : ℤ} (hpos : 0 < x) (hx : x < 2 ^ 53) (h : x ≤ k) :
    rnd x ≤ k := by
  obtain ⟨z, hz⟩ := exists_mul_ulp hpos hx k
  have hulp := ulp_pos x
  have hquot : x / ulp x ≤ z := by
    rw [div_le_iff₀ hulp, ← hz]
    exact h
  rw [rnd, hz]
  exact mul_le_mul_of_nonneg_right (by exact_mod_cast roundEven_le hquot) hulp.le

theorem intCast_le_rnd {k : ℤ} (hpos : 0 < x) (hx : x < 2 ^ 53) (h : k ≤ x) :
    k ≤ rnd x := by
  obtain ⟨z, hz⟩ := exists_mul_ulp hpos hx k
  have hulp := ulp_pos x
  have hquot : z ≤ x / ulp x := by
    rw [le_div_iff₀ hulp, ← hz]
    exact h
  rw [rnd, hz]
  exact mul_le_mul_of_nonneg_right (by exact_mod_cast le_roundEven hquot) hulp.le

theorem rnd_natCast {n : ℕ} (hn : n < 2 ^ 53) : rnd n = n := by
  rcases Nat.eq_zero_or_pos n with rfl | hpos
  · rw [Nat.cast_zero, rnd_zero]
  · have hq : (0 : ℚ) < n := by exact_mod_cast hpos
    have hlt : (n : ℚ) < 2 ^ 53 := by exact_mod_cast hn
    have hle := rnd_le_intCast hq hlt (k := n) (by simp)
    have hge := intCast_le_rnd hq hlt (k := n) (by simp)
    exact le_antisymm (by exact_mod_cast hle) (by exact_mod_cast hge)

/-! ## Division undone -/

/-- An integer divided and multiplied by the same number is still the nearest integer. -/
theorem round_rnd_div_mul {n d : ℕ} (hd : 0 < d) (hn : n ≤ 2 ^ 50)
    (hnormal : 2 ^ (-1022 : ℤ) ≤ (n : ℚ) / d) : round (rnd (rnd (n / d) * d)) = (n : ℤ) := by
  have hdq : (0 : ℚ) < d := by exact_mod_cast hd
  have hnq : (n : ℚ) ≤ 2 ^ 50 := by exact_mod_cast hn
  have hpos : (0 : ℚ) < n / d := lt_of_lt_of_le (zpow_pos (by norm_num) _) hnormal
  have hone : (1 : ℚ) ≤ n := by
    have hn0 : 0 < n := by
      by_contra hzero
      rw [Nat.eq_zero_of_not_pos hzero, Nat.cast_zero, zero_div] at hpos
      exact lt_irrefl _ hpos
    exact_mod_cast hn0
  have hfirst : |rnd (n / d) * d - n| ≤ n / 2 ^ 53 := by
    have herr := abs_rnd_sub_le (hnormal.trans (le_abs_self _))
    have hscale : rnd (n / d) * d - n = (rnd (n / d) - n / d) * d := by
      rw [sub_mul, div_mul_cancel₀ _ hdq.ne']
    rw [hscale, abs_mul, abs_of_pos hdq]
    calc |rnd (n / d) - n / d| * d ≤ |(n : ℚ) / d| / 2 ^ 53 * d :=
          mul_le_mul_of_nonneg_right herr hdq.le
      _ = (n / d * d) / 2 ^ 53 := by rw [abs_of_pos hpos]; ring
      _ = n / 2 ^ 53 := by rw [div_mul_cancel₀ _ hdq.ne']
  obtain ⟨hlow, hhigh⟩ := abs_le.mp hfirst
  have hhalf : 1 / 2 ^ 14 ≤ rnd (n / d) * d := by linarith
  have hsecond := abs_rnd_sub_le ((minNormal_le.trans hhalf).trans (le_abs_self _))
  rw [abs_of_nonneg (by linarith : 0 ≤ rnd (n / d) * d)] at hsecond
  obtain ⟨hlow', hhigh'⟩ := abs_le.mp hsecond
  rw [round_eq, Int.floor_eq_iff]
  constructor
  all_goals
    rw [Int.cast_natCast]
    linarith

end Binary64
