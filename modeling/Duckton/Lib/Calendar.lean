/-
  The proleptic Gregorian calendar, day by day.

  The calendar is its successor function (`Date.next`): month lengths, and the leap years of the
  rule of 4, 100 and 400. Arithmetic on days is easier in years that begin with March, where the
  leap day comes last: `marchDate y doy` is day `doy` of such a year, and `marchDate_next` says
  that counting days there is the calendar's successor.
-/
import Mathlib.Logic.Function.Iterate
import Mathlib.Tactic.SplitIfs

namespace Calendar

structure Date where
  year : Int
  month : Nat
  day : Nat
  deriving DecidableEq, Repr

def isLeap (y : Int) : Bool :=
  decide (4 ∣ y ∧ (100 ∣ y → 400 ∣ y))

def daysIn (y : Int) (m : Nat) : Nat :=
  if m = 2 then if isLeap y then 29 else 28
  else if m ∈ [4, 6, 9, 11] then 30
  else 31

def Date.next (d : Date) : Date :=
  if d.day < daysIn d.year d.month then { d with day := d.day + 1 }
  else if d.month < 12 then ⟨d.year, d.month + 1, 1⟩
  else ⟨d.year + 1, 1, 1⟩

/-- The date `n` days after 1970-01-01. -/
def dateAfter (n : Nat) : Date :=
  Date.next^[n] ⟨1970, 1, 1⟩

theorem dateAfter_succ (n : Nat) : dateAfter (n + 1) = (dateAfter n).next :=
  Function.iterate_succ_apply' _ _ _

/-! ## Years that begin with March -/

/-- The months of such a year, counted from 0: five of them have 153 days. -/
def marchMonth (doy : Nat) : Nat :=
  (5 * doy + 2) / 153

def monthOf (doy : Nat) : Nat :=
  if marchMonth doy < 10 then marchMonth doy + 3 else marchMonth doy - 9

def dayOf (doy : Nat) : Nat :=
  doy - (153 * marchMonth doy + 2) / 5 + 1

def marchDate (y doy : Nat) : Date :=
  ⟨y + if monthOf doy ≤ 2 then 1 else 0, monthOf doy, dayOf doy⟩

/-- The days before year `y`. -/
def yearStart (y : Nat) : Nat :=
  365 * y + y / 4 - y / 100 + y / 400

/-- Outside February the year plays no part in the successor. -/
theorem next_add_year (d : Date) (k : Int) (hm : d.month ≠ 2) :
    Date.next ⟨d.year + k, d.month, d.day⟩ =
      ⟨d.next.year + k, d.next.month, d.next.day⟩ := by
  have hdays : daysIn (d.year + k) d.month = daysIn d.year d.month := by
    simp [daysIn, hm]
  unfold Date.next
  rw [hdays]
  split
  · rfl
  split
  · rfl
  · rw [Int.add_right_comm]

theorem marchDate_zero_next :
    ∀ doy < 337, monthOf doy ≠ 2 ∧ (marchDate 0 doy).next = marchDate 0 (doy + 1) := by
  decide +kernel

theorem marchDate_eq_add (y doy : Nat) :
    marchDate y doy =
      ⟨(marchDate 0 doy).year + y, (marchDate 0 doy).month, (marchDate 0 doy).day⟩ := by
  simp [marchDate, Int.add_comm]

theorem marchDate_february {y doy : Nat} (hfirst : 337 ≤ doy) (hlast : doy < 366) :
    marchDate y doy = ⟨y + 1, 2, doy - 336⟩ := by
  have hmonth : marchMonth doy = 11 := by
    unfold marchMonth
    omega
  have hday : doy - 337 + 1 = doy - 336 := by omega
  simp [marchDate, monthOf, dayOf, hmonth, hday]

theorem yearStart_succ (y : Nat) :
    yearStart (y + 1) = yearStart y + daysIn (y + 1) 2 + 337 := by
  unfold yearStart daysIn isLeap
  rw [Nat.succ_div, Nat.succ_div, Nat.succ_div, if_pos rfl]
  simp only [decide_eq_true_eq]
  split_ifs <;> omega

theorem marchDate_next {y doy : Nat} (h : yearStart y + doy < yearStart (y + 1)) :
    (marchDate y doy).next =
      if yearStart y + doy + 1 < yearStart (y + 1) then marchDate y (doy + 1)
      else marchDate (y + 1) 0 := by
  have hdays : 28 ≤ daysIn (y + 1) 2 ∧ daysIn (y + 1) 2 ≤ 29 := by
    unfold daysIn
    split <;> split <;> omega
  rw [yearStart_succ] at h ⊢
  by_cases hfirst : doy < 337
  · obtain ⟨hmonth, hnext⟩ := marchDate_zero_next doy hfirst
    rw [marchDate_eq_add, next_add_year _ _ hmonth, hnext, ← marchDate_eq_add, if_pos (by omega)]
  · rw [marchDate_february (by omega) (by omega)]
    unfold Date.next
    dsimp only
    by_cases hday : doy - 336 < daysIn (y + 1) 2
    · have hsucc : doy - 336 + 1 = doy + 1 - 336 := by omega
      rw [if_pos hday, if_pos (by omega), marchDate_february (by omega) (by omega), hsucc]
    · rw [if_neg hday, if_pos (by decide), if_neg (by omega)]
      rfl

/-- The calendar repeats itself every 400 years. -/
theorem yearStart_era (e y : Nat) : yearStart (400 * e + y) = 146097 * e + yearStart y := by
  unfold yearStart
  omega

/-- 1970-01-01 is day 306 of its year. -/
theorem exists_marchDate (n : Nat) :
    ∃ y doy, n + 719468 = yearStart y + doy ∧ yearStart y + doy < yearStart (y + 1) ∧
      dateAfter n = marchDate y doy := by
  induction n with
  | zero => exact ⟨1969, 306, by decide, by decide, by decide⟩
  | succ n ih =>
    obtain ⟨y, doy, hn, hlt, hdate⟩ := ih
    have hnext := marchDate_next hlt
    rw [← hdate, ← dateAfter_succ] at hnext
    by_cases hsame : yearStart y + doy + 1 < yearStart (y + 1)
    · exact ⟨y, doy + 1, by omega, hsame, hnext.trans (if_pos hsame)⟩
    · have hlater := yearStart_succ (y + 1)
      exact ⟨y + 1, 0, by omega, by omega, hnext.trans (if_neg hsame)⟩

end Calendar
