import Mathlib.Tactic.Common
import Mathlib.Tactic.IntervalCases

/-! The month view of the desktop (desktop.c): the length of a month, and the weekday of
its first by Zeller's congruence. Ints are wide enough for every sum here. -/

namespace Zenbite.Calendar

def days : List Int := [31, 28, 31, 30, 31, 30, 31, 31, 30, 31, 30, 31]

/-- `month_days` -/
def monthDays (year month : Int) : Int :=
  if month = 2 ∧ ((year.tmod 4 = 0 ∧ year.tmod 100 ≠ 0) ∨ year.tmod 400 = 0) then 29
  else days.getD (month - 1).toNat 0

def conv : List Int := [5, 6, 0, 1, 2, 3, 4]

/-- The `h` of dow_first, with January and February counted to the year before. -/
def zeller (year m : Int) : Int :=
  let K := year.tmod 100
  let J := year.tdiv 100
  (1 + (13 * (m + 1)).tdiv 5 + K + K.tdiv 4 + J.tdiv 4 + 5 * J).tmod 7

/-- `dow_first`: 0 is Monday. -/
def dowFirst (year month : Int) : Int :=
  let h := if month < 3 then zeller (year - 1) (month + 12) else zeller year month
  conv.getD h.toNat 0

/-- The year and the month after this one. -/
def nextMonth (year month : Int) : Int × Int := if month = 12 then (year + 1, 1) else (year, month + 1)

/-! The proleptic Gregorian calendar: day 0 is the first of January of year 1, a Monday. -/

def Leap (year : Nat) : Prop := year % 4 = 0 ∧ (year % 100 ≠ 0 ∨ year % 400 = 0)

instance (year : Nat) : Decidable (Leap year) := inferInstanceAs (Decidable (_ ∧ _))

def monthLength (year month : Nat) : Nat :=
  if month ∈ [4, 6, 9, 11] then 30
  else if month = 2 then if Leap year then 29 else 28
  else 31

/-- The number of days in the first `n` months. -/
def daysBefore : Nat → Nat
  | 0 => 0
  | n + 1 => daysBefore n + monthLength (n / 12 + 1) (n % 12 + 1)

/-- The number of months before this one. -/
def monthsBefore (year month : Int) : Nat := ((year - 1) * 12 + (month - 1)).toNat

/-- What the two functions owe for one month. -/
structure Agrees (year month : Int) : Prop where
  inside : 0 ≤ dowFirst year month ∧ dowFirst year month ≤ 6
  next : dowFirst (nextMonth year month).1 (nextMonth year month).2 =
    (dowFirst year month + monthDays year month) % 7
  weekday : dowFirst year month = (daysBefore (monthsBefore year month) % 7 : Nat)

/-! The years of Zeller's congruence -/

/-- What the year adds to `h`. -/
def century (year : Int) : Int := year % 100 + year % 100 / 4 + year / 100 / 4 + 5 * (year / 100)

theorem zeller_eq {year m : Int} (from0 : 0 ≤ year) (low : 0 ≤ m) :
    zeller year m = (1 + 13 * (m + 1) / 5 + century year) % 7 := by
  have K0 : 0 ≤ year % 100 := Int.emod_nonneg year (by decide)
  have J0 : 0 ≤ year / 100 := Int.ediv_nonneg from0 (by decide)
  have m0 : 0 ≤ 13 * (m + 1) := by omega
  rw [zeller, Int.tmod_eq_emod_of_nonneg from0, Int.tdiv_eq_ediv_of_nonneg from0,
    Int.tdiv_eq_ediv_of_nonneg m0, Int.tdiv_eq_ediv_of_nonneg K0, Int.tdiv_eq_ediv_of_nonneg J0,
    Int.tmod_eq_emod_of_nonneg (by omega), century]
  congr 1
  omega

/-- A common year is one day longer than whole weeks, and a leap year two. -/
theorem century_step (year : Int) :
    (century year - century (year - 1)) % 7 =
      if year % 4 = 0 ∧ year % 100 ≠ 0 ∨ year % 400 = 0 then 2 else 1 := by
  simp only [century]
  split_ifs with leap <;> omega

theorem conv_eq {h : Int} (low : 0 ≤ h) (high : h < 7) : conv.getD h.toNat 0 = (h + 5) % 7 := by
  interval_cases h <;> rfl

section Months
variable {year month : Int}

/-- Saturday is 0 in `h` and 5 in the result. -/
theorem conv_zeller {year m : Int} (from0 : 0 ≤ year) (low : 0 ≤ m) :
    conv.getD (zeller year m).toNat 0 = (6 + 13 * (m + 1) / 5 + century year) % 7 := by
  rw [zeller_eq from0 low, conv_eq (Int.emod_nonneg _ (by decide)) (Int.emod_lt_of_pos _ (by decide))]
  omega

theorem dowFirst_eq (from1 : 1 ≤ year) (low : 1 ≤ month) : dowFirst year month =
    if month < 3 then (6 + 13 * (month + 13) / 5 + century (year - 1)) % 7
    else (6 + 13 * (month + 1) / 5 + century year) % 7 := by
  have moved : month + 12 + 1 = month + 13 := Int.add_assoc month 12 1
  rw [dowFirst]
  split_ifs with shifted
  · rw [conv_zeller (by omega) (by omega), moved]
  · rw [conv_zeller (by omega) (by omega)]

theorem monthDays_eq (from1 : 1 ≤ year) : monthDays year month =
    if month = 2 ∧ (year % 4 = 0 ∧ year % 100 ≠ 0 ∨ year % 400 = 0) then 29
    else days.getD (month - 1).toNat 0 := by
  have from0 : 0 ≤ year := by omega
  rw [monthDays, Int.tmod_eq_emod_of_nonneg from0, Int.tmod_eq_emod_of_nonneg from0,
    Int.tmod_eq_emod_of_nonneg from0]

/-- The lengths of the months but February, and the next month's place in Zeller's sum. -/
theorem march_on (low : 3 ≤ month) (high : month ≤ 11) :
    (13 * (month + 2) / 5 - 13 * (month + 1) / 5) % 7 = days.getD (month - 1).toNat 0 % 7 := by
  interval_cases month <;> rfl

/-- The weekday moves on by the length of the month. -/
theorem dowFirst_next (from1 : 1 ≤ year) (low : 1 ≤ month) (high : month ≤ 12) :
    dowFirst (nextMonth year month).1 (nextMonth year month).2 = (dowFirst year month + monthDays year month) % 7 := by
  rw [dowFirst_eq from1 low, monthDays_eq from1, nextMonth]
  by_cases last : month = 12
  · rw [if_pos last, dowFirst_eq (by dsimp only; omega) (Int.le_refl 1), last]
    have december : days.getD (12 - 1 : Int).toNat 0 = 31 := rfl
    rw [december]
    simp only [Int.add_sub_cancel]
    omega
  · rw [if_neg last, dowFirst_eq from1 (by dsimp only; omega)]
    by_cases late : 3 ≤ month
    · have length := march_on late (by omega)
      have after : month + 1 + 1 = month + 2 := Int.add_assoc month 1 1
      dsimp only
      rw [if_neg (by omega), if_neg (by omega), if_neg (by omega), after]
      omega
    · by_cases first : month = 1
      · rw [first]
        have january : days.getD (1 - 1 : Int).toNat 0 = 31 := rfl
        rw [january]
        simp only [show (1 : Int) + 1 < 3 by decide, show (1 : Int) < 3 by decide, if_true]
        omega
      · have second : month = 2 := by omega
        have step := century_step year
        have february : days.getD (2 - 1 : Int).toNat 0 = 28 := rfl
        rw [second, february]
        simp only [true_and, show ¬ (2 : Int) + 1 < 3 by decide, show (2 : Int) < 3 by decide, if_true, if_false]
        split_ifs at step ⊢ <;> omega

/-- The table and the leap rule are those of the calendar. -/
theorem monthDays_length (from1 : 1 ≤ year) (low : 1 ≤ month) (high : month ≤ 12) :
    monthDays year month = monthLength year.toNat month.toNat := by
  have leap : (year % 4 = 0 ∧ year % 100 ≠ 0 ∨ year % 400 = 0) ↔ Leap year.toNat := by
    rw [Leap]
    omega
  rw [monthDays_eq from1]
  simp only [leap]
  interval_cases month <;> first | rfl | (rw [monthLength]; split_ifs <;> simp_all [days])

theorem dowFirst_inside (from1 : 1 ≤ year) (low : 1 ≤ month) :
    0 ≤ dowFirst year month ∧ dowFirst year month ≤ 6 := by
  rw [dowFirst_eq from1 low]
  split_ifs <;> omega

/-- The month with number `n`, counted from January of year 1. -/
def monthAt (n : Nat) : Int × Int := (n / 12 + 1, n % 12 + 1)

theorem monthAt_next (n : Nat) : nextMonth (monthAt n).1 (monthAt n).2 = monthAt (n + 1) := by
  rw [nextMonth, monthAt, monthAt]
  split_ifs <;> ext <;> dsimp only <;> omega

theorem monthAt_before (from1 : 1 ≤ year) (low : 1 ≤ month) (high : month ≤ 12) :
    monthAt (monthsBefore year month) = (year, month) := by
  rw [monthAt, monthsBefore]
  ext <;> dsimp only <;> omega

/-- Month by month, from Monday the first of January on. -/
theorem dowFirst_monthAt (n : Nat) : dowFirst (monthAt n).1 (monthAt n).2 = (daysBefore n % 7 : Nat) := by
  induction n with
  | zero => rfl
  | succ n ih =>
      have from1 : 1 ≤ (monthAt n).1 := by
        rw [monthAt]
        omega
      have low : 1 ≤ (monthAt n).2 := by
        rw [monthAt]
        omega
      have high : (monthAt n).2 ≤ 12 := by
        rw [monthAt]
        omega
      have length : monthDays (monthAt n).1 (monthAt n).2 = monthLength (n / 12 + 1) (n % 12 + 1) :=
        monthDays_length from1 low high
      calc
        dowFirst (monthAt (n + 1)).1 (monthAt (n + 1)).2
          = dowFirst (nextMonth (monthAt n).1 (monthAt n).2).1 (nextMonth (monthAt n).1 (monthAt n).2).2 := by
            rw [monthAt_next]
        _ = (dowFirst (monthAt n).1 (monthAt n).2 + monthDays (monthAt n).1 (monthAt n).2) % 7 :=
            dowFirst_next from1 low high
        _ = (((daysBefore n % 7 : Nat) : Int) + (monthLength (n / 12 + 1) (n % 12 + 1) : Nat)) % 7 := by
            rw [ih, length]
        _ = (daysBefore (n + 1) % 7 : Nat) := by
            rw [daysBefore]
            omega

end Months

/-- The weekdays are those of the calendar, from year 1 on. -/
theorem weekdays_agree (year month : Int) (from1 : 1 ≤ year) (low : 1 ≤ month) (high : month ≤ 12) :
    Agrees year month where
  inside := dowFirst_inside from1 low
  next := dowFirst_next from1 low high
  weekday := by
    have here := dowFirst_monthAt (monthsBefore year month)
    rwa [monthAt_before from1 low high] at here

/-- February 2000, and the leap day at its end. -/
theorem weekdays_agree_leap : Agrees 2000 2 := weekdays_agree 2000 2 (by decide) (by decide) (by decide)

end Zenbite.Calendar
