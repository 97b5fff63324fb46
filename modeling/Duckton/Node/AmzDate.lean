/-
  The date of a signed storage request (node/storage.rs, format_amz_date and civil_from_days).

  The day count becomes a date by arithmetic on eras of 400 years that begin with March. The year
  of the era is one division of a corrected day count, which is right because the correction is
  monotone and right on the first and the last day of each of the 400 years.
-/
import Duckton.Lib.Calendar
import Mathlib.Algebra.Group.Int.Defs
import Mathlib.Algebra.Group.Nat.Defs
import Mathlib.Order.Monotone.Basic

namespace Duckton.Node

open Calendar

/-- An i64, or the panic of an operation that leaves its range. -/
def i64 (x : Int) : Option Int :=
  if -2 ^ 63 ≤ x ∧ x < 2 ^ 63 then some x else none

def asU32 (x : Int) : Nat :=
  (x % 2 ^ 32).toNat

/-- Only the two shifts can leave the range: what follows them is smaller than `z`. -/
def civilFromDays (z : Int) : Option (Int × Nat × Nat) := do
  let z ← i64 (z + 719468)
  let shifted ← if z ≥ 0 then some z else i64 (z - 146096)
  let era := shifted.tdiv 146097
  let doe := z - era * 146097
  let yoe := (doe - doe.tdiv 1460 + doe.tdiv 36524 - doe.tdiv 146096).tdiv 365
  let y := yoe + era * 400
  let doy := doe - (365 * yoe + yoe.tdiv 4 - yoe.tdiv 100)
  let mp := (5 * doy + 2).tdiv 153
  let d := asU32 (doy - (153 * mp + 2).tdiv 5 + 1)
  let m := asU32 (if mp < 10 then mp + 3 else mp - 9)
  some (y + if m ≤ 2 then 1 else 0, m, d)

/-- `{x:0w}`: zeros between the sign and the digits. -/
def zeroPadded (w : Nat) : Int → List Char
  | .ofNat n => (Nat.toDigits 10 n).leftpad w '0'
  | .negSucc n => '-' :: (Nat.toDigits 10 (n + 1)).leftpad (w - 1) '0'

def formatAmzDate (epochSecs : UInt64) : Option (List Char × List Char) := do
  let days := epochSecs.toNat / 86400
  let rem := epochSecs.toNat % 86400
  let (y, mo, d) ← civilFromDays days
  let date := zeroPadded 4 y ++ zeroPadded 2 mo ++ zeroPadded 2 d
  some (date ++ 'T' :: zeroPadded 2 (rem / 3600 : Nat) ++ zeroPadded 2 (rem % 3600 / 60 : Nat) ++
    zeroPadded 2 (rem % 60 : Nat) ++ ['Z'], date)

/-! ## The day count -/

def correctedDays (doe : Nat) : Nat :=
  doe - doe / 1460 + doe / 36524 - doe / 146096

theorem monotone_correctedDays : Monotone correctedDays := by
  refine monotone_nat_of_le_succ fun doe => ?_
  unfold correctedDays
  omega

/-- The first and the last day of each year of an era. -/
theorem correctedDays_bounds : ∀ y < 400, 365 * y ≤ correctedDays (yearStart y) ∧
    correctedDays (yearStart (y + 1) - 1) < 365 * (y + 1) := by
  decide +kernel

theorem yearOfEra {y doe : Nat} (hy : y < 400) (hfirst : yearStart y ≤ doe)
    (hlast : doe < yearStart (y + 1)) : correctedDays doe / 365 = y := by
  obtain ⟨hlow, hhigh⟩ := correctedDays_bounds y hy
  have hge := monotone_correctedDays hfirst
  have hle := monotone_correctedDays (Nat.le_sub_one_of_lt hlast)
  omega

section March

variable {y doy : Nat}

theorem lt_of_yearStart (h : yearStart y + doy < yearStart (y + 1)) : doy < 366 := by
  unfold yearStart at h
  omega

theorem tdiv_march (doy : Nat) : (5 * (doy : Int) + 2).tdiv 153 = marchMonth doy := rfl

theorem asU32_day (h : doy < 366) :
    asU32 (doy - (153 * (marchMonth doy : Int) + 2).tdiv 5 + 1) = dayOf doy := by
  have hle : 153 * marchMonth doy ≤ 5 * doy + 2 := Nat.mul_div_le _ _
  have hcast : (153 * (marchMonth doy : Int) + 2).tdiv 5 =
      ((153 * marchMonth doy + 2) / 5 : Nat) := rfl
  unfold asU32 dayOf
  rw [hcast]
  omega

theorem asU32_month (h : doy < 366) :
    asU32 (if (marchMonth doy : Int) < 10 then (marchMonth doy : Int) + 3
      else marchMonth doy - 9) = monthOf doy := by
  unfold asU32 monthOf marchMonth
  split <;> split <;> omega

/-- Year `y` is year `y % 400` of era `y / 400`. -/
theorem civilFromDays_marchDate {n : Nat} (hfit : n + 719468 < 2 ^ 63)
    (hn : n + 719468 = yearStart y + doy) (hdoy : yearStart y + doy < yearStart (y + 1)) :
    civilFromDays n =
      some ((marchDate y doy).year, (marchDate y doy).month, (marchDate y doy).day) := by
  have hlt := lt_of_yearStart hdoy
  obtain ⟨e, r, hr, rfl⟩ : ∃ e r, r < 400 ∧ y = 400 * e + r :=
    ⟨y / 400, y % 400, Nat.mod_lt _ (by decide), (Nat.div_add_mod y 400).symm⟩
  have hfirst := yearStart_era e r
  have hnext := yearStart_era e (r + 1)
  rw [← Nat.add_assoc] at hnext
  have hyear := yearOfEra hr (Nat.le_add_right _ doy) (by omega)
  have hbound : yearStart r + doy < 146097 := by
    unfold yearStart at hdoy ⊢
    omega
  generalize hdoe : yearStart r + doy = doe at hyear hbound
  have hz : (n : Int) + 719468 = (146097 * e + doe : Nat) := by omega
  have hera : ((146097 * e + doe : Nat) : Int).tdiv 146097 = e := by
    rw [Int.tdiv_eq_ediv_of_nonneg (by omega)]
    omega
  have hrest : ((146097 * e + doe : Nat) : Int) - e * 146097 = doe := by omega
  have hyoe : ((doe : Int) - (doe : Int).tdiv 1460 + (doe : Int).tdiv 36524 -
      (doe : Int).tdiv 146096).tdiv 365 = r := by
    unfold correctedDays at hyear
    simp (disch := omega) only [Int.tdiv_eq_ediv_of_nonneg]
    omega
  have hday : (doe : Int) - (365 * r + (r : Int).tdiv 4 - (r : Int).tdiv 100) = doy := by
    unfold yearStart at hdoe
    simp (disch := omega) only [Int.tdiv_eq_ediv_of_nonneg]
    omega
  unfold civilFromDays i64
  rw [hz, if_pos (by omega)]
  dsimp only [bind, Option.bind]
  rw [if_pos (by omega)]
  simp only [hera, hrest, hyoe, hday, tdiv_march, asU32_day hlt, asU32_month hlt]
  unfold marchDate
  simp
  omega

end March

/-! ## The text -/

/-- The last `w` decimal digits. -/
def decimals : Nat → Nat → List Char
  | 0, _ => []
  | w + 1, n => decimals w (n / 10) ++ [Nat.digitChar (n % 10)]

theorem zeroPadded_natCast {w n : Nat} (h : n < 10 ^ (w + 1)) :
    zeroPadded (w + 1) n = decimals (w + 1) n := by
  show (Nat.toDigits 10 n).leftpad (w + 1) '0' = _
  induction w generalizing n with
  | zero =>
    have hn : n < 10 := h
    rw [Nat.toDigits_of_lt_base hn, decimals, Nat.mod_eq_of_lt hn]
    rfl
  | succ w ih =>
    rw [decimals, ← ih (by omega)]
    by_cases hn : n < 10
    · rw [Nat.toDigits_of_lt_base hn, Nat.div_eq_of_lt hn, Nat.mod_eq_of_lt hn]
      simp [List.leftpad, List.replicate_succ']
    · rw [Nat.toDigits_of_base_le (by decide) (by omega)]
      simp [List.leftpad]

def dateText (d : Date) : List Char :=
  decimals 4 d.year.toNat ++ decimals 2 d.month ++ decimals 2 d.day

/-- `YYYYMMDDTHHMMSSZ` and `YYYYMMDD` -/
def amzText (d : Date) (hour minute second : Nat) : List Char × List Char :=
  (dateText d ++ 'T' :: decimals 2 hour ++ decimals 2 minute ++ decimals 2 second ++ ['Z'],
    dateText d)

theorem marchDate_fits (y : Nat) {doy : Nat} (h : doy < 366) :
    0 ≤ (marchDate y doy).year ∧ (marchDate y doy).month < 10 ^ 2 ∧
      (marchDate y doy).day < 10 ^ 2 := by
  unfold marchDate monthOf dayOf marchMonth
  dsimp only
  refine ⟨?_, ?_, by omega⟩
  · split_ifs <;> omega
  · split <;> omega

theorem amz_date_correct :
    (∀ n : Nat, n + 719468 < 2 ^ 63 → civilFromDays n =
      some ((dateAfter n).year, (dateAfter n).month, (dateAfter n).day)) ∧
    ∀ (secs : UInt64) (days hour minute second : Nat),
      secs.toNat = 86400 * days + 3600 * hour + 60 * minute + second →
      hour < 24 → minute < 60 → second < 60 → (dateAfter days).year ≤ 9999 →
      formatAmzDate secs = some (amzText (dateAfter days) hour minute second) := by
  constructor
  · intro n hfit
    obtain ⟨y, doy, hn, hlt, hdate⟩ := exists_marchDate n
    rw [hdate, civilFromDays_marchDate hfit hn hlt]
  intro secs days hour minute second hsecs hhour hminute hsecond hyear
  obtain ⟨y, doy, hn, hlt, hdate⟩ := exists_marchDate days
  obtain ⟨hera, hmonth, hday⟩ := marchDate_fits y (lt_of_yearStart hlt)
  have hfit : days + 719468 < 2 ^ 63 := by
    have hlt : secs.toNat < 2 ^ 64 := secs.toNat_lt
    omega
  have hdays : secs.toNat / 86400 = days := by omega
  have hh : secs.toNat % 86400 / 3600 = hour := by omega
  have hm : secs.toNat % 86400 % 3600 / 60 = minute := by omega
  have hs : secs.toNat % 86400 % 60 = second := by omega
  rw [hdate] at hyear ⊢
  unfold formatAmzDate amzText dateText
  dsimp only
  obtain ⟨year, hyr⟩ := Int.eq_ofNat_of_zero_le hera
  rw [hdays, hh, hm, hs, civilFromDays_marchDate hfit hn hlt, hyr]
  simp only [Option.bind_eq_bind, Option.bind_some]
  rw [zeroPadded_natCast (w := 3) (by omega), zeroPadded_natCast (w := 1) hmonth,
    zeroPadded_natCast (w := 1) hday, zeroPadded_natCast (w := 1) (by omega),
    zeroPadded_natCast (w := 1) (by omega), zeroPadded_natCast (w := 1) (by omega)]
  rfl

/-- The first leap day, one hour, one minute and one second in. -/
theorem amz_date_correct_leap_day :
    civilFromDays 789 = some (1972, 2, 29) ∧
    formatAmzDate 68173261 = some ("19720229T010101Z".toList, "19720229".toList) := by
  constructor
  · exact (amz_date_correct.1 789 (by decide)).trans (by decide +kernel)
  · rw [amz_date_correct.2 68173261 789 1 1 1 (by decide) (by decide) (by decide) (by decide)
      (by decide +kernel)]
    decide +kernel

end Duckton.Node
