import Mathlib

/-! The Gregorian calendar from 1970 on: its days, and the seconds of Unix time, which counts no leap seconds. -/
namespace Calendar

section Years

def Leap (year : ℕ) : Prop := 4 ∣ year ∧ (100 ∣ year → 400 ∣ year)

instance (year : ℕ) : Decidable (Leap year) := inferInstanceAs (Decidable (_ ∧ _))

def monthLength (year month : ℕ) : ℕ :=
  if month = 2 then if Leap year then 29 else 28
  else if month = 4 ∨ month = 6 ∨ month = 9 ∨ month = 11 then 30
  else 31

def yearLength (year : ℕ) : ℕ := ∑ month ∈ Finset.Ico 1 13, monthLength year month

/-- The days between the first of 1970 and the first of a year, and of a month in it. -/
def daysBeforeYear (year : ℕ) : ℕ := ∑ y ∈ Finset.Ico 1970 year, yearLength y

def daysBeforeMonth (year month : ℕ) : ℕ := ∑ m ∈ Finset.Ico 1 month, monthLength year m

variable {year month : ℕ}

theorem monthLength_pos (year month : ℕ) : 1 ≤ monthLength year month := by
  unfold monthLength
  split_ifs <;> omega

theorem monthLength_le (year month : ℕ) : monthLength year month ≤ 31 := by
  unfold monthLength
  split_ifs <;> omega

theorem daysBeforeYear_succ (h : 1970 ≤ year) : daysBeforeYear (year + 1) = daysBeforeYear year + yearLength year :=
  Finset.sum_Ico_succ_top h _

theorem daysBeforeMonth_succ (h : 1 ≤ month) :
    daysBeforeMonth year (month + 1) = daysBeforeMonth year month + monthLength year month :=
  Finset.sum_Ico_succ_top h _

theorem daysBeforeMonth_first (year : ℕ) : daysBeforeMonth year 1 = 0 := rfl

theorem daysBeforeMonth_year (year : ℕ) : daysBeforeMonth year 13 = yearLength year := rfl

/-- The days before each month, without the leap day and with it. -/
theorem daysBeforeMonth_eq (hlow : 1 ≤ month) (hhigh : month ≤ 13) : daysBeforeMonth year month =
    [0, 31, 59, 90, 120, 151, 181, 212, 243, 273, 304, 334, 365].getD (month - 1) 0 +
      if Leap year ∧ 2 < month then 1 else 0 := by
  have hsum : ∀ m, 1 ≤ m → daysBeforeMonth year (m + 1) = daysBeforeMonth year m + monthLength year m :=
    fun m => daysBeforeMonth_succ
  have hfirst := daysBeforeMonth_first year
  by_cases hleap : Leap year
  · interval_cases month <;> simp [hsum, hfirst, monthLength, hleap]
  · interval_cases month <;> simp [hsum, hfirst, monthLength, hleap]

theorem yearLength_eq (year : ℕ) : yearLength year = if Leap year then 366 else 365 := by
  rw [← daysBeforeMonth_year, daysBeforeMonth_eq (by decide) le_rfl]
  by_cases hleap : Leap year <;> simp [hleap]

end Years

section Moments

/-- A date with a time of the day. -/
structure Moment where
  year : ℕ
  month : ℕ
  day : ℕ
  hour : ℕ
  min : ℕ
  sec : ℕ
  since : 1970 ≤ year
  month_range : 1 ≤ month ∧ month ≤ 12
  day_range : 1 ≤ day ∧ day ≤ monthLength year month
  hour_lt : hour < 24
  min_lt : min < 60
  sec_lt : sec < 60

namespace Moment

/-- The days since the first of January 1970. -/
def days (t : Moment) : ℕ := daysBeforeYear t.year + daysBeforeMonth t.year t.month + (t.day - 1)

/-- The timestamp. -/
def unix (t : Moment) : ℕ := t.days * 86400 + t.hour * 3600 + t.min * 60 + t.sec

/-- Midnight of the next day. -/
def tomorrow (t : Moment) : Moment :=
  if hday : t.day < monthLength t.year t.month then
    ⟨t.year, t.month, t.day + 1, 0, 0, 0, t.since, t.month_range, ⟨Nat.le_add_left 1 t.day, hday⟩,
      Nat.zero_lt_succ 23, Nat.zero_lt_succ 59, Nat.zero_lt_succ 59⟩
  else if hmonth : t.month < 12 then
    ⟨t.year, t.month + 1, 1, 0, 0, 0, t.since, ⟨Nat.le_add_left 1 t.month, hmonth⟩, ⟨Nat.le_refl 1, monthLength_pos _ _⟩,
      Nat.zero_lt_succ 23, Nat.zero_lt_succ 59, Nat.zero_lt_succ 59⟩
  else
    ⟨t.year + 1, 1, 1, 0, 0, 0, Nat.le_succ_of_le t.since, ⟨Nat.le_refl 1, Nat.le_add_left 1 11⟩,
      ⟨Nat.le_refl 1, monthLength_pos _ _⟩, Nat.zero_lt_succ 23, Nat.zero_lt_succ 59, Nat.zero_lt_succ 59⟩

/-- The next second. -/
def next (t : Moment) : Moment :=
  if hsec : t.sec < 59 then { t with sec := t.sec + 1, sec_lt := Nat.succ_lt_succ hsec }
  else if hmin : t.min < 59 then
    { t with min := t.min + 1, sec := 0, min_lt := Nat.succ_lt_succ hmin, sec_lt := Nat.zero_lt_succ 59 }
  else if hhour : t.hour < 23 then
    { t with
      hour := t.hour + 1
      min := 0
      sec := 0
      hour_lt := Nat.succ_lt_succ hhour
      min_lt := Nat.zero_lt_succ 59
      sec_lt := Nat.zero_lt_succ 59 }
  else t.tomorrow

variable (t : Moment)

theorem tomorrow_days : t.tomorrow.days = t.days + 1 := by
  have hday := t.day_range
  have hmonth := t.month_range
  unfold tomorrow
  split_ifs with hin hless
  · simp only [days]
    omega
  · have hsucc := @daysBeforeMonth_succ t.year t.month hmonth.1
    simp only [days, hsucc]
    omega
  · have hlast : t.month = 12 := by omega
    have hsucc := @daysBeforeMonth_succ t.year t.month hmonth.1
    have hfirst := daysBeforeMonth_first (t.year + 1)
    have hyear := daysBeforeMonth_year t.year
    rw [hlast] at hday hsucc hin
    change daysBeforeMonth t.year 13 = _ at hsucc
    simp only [days, daysBeforeYear_succ t.since, hlast, hfirst]
    omega

theorem tomorrow_midnight : t.tomorrow.hour = 0 ∧ t.tomorrow.min = 0 ∧ t.tomorrow.sec = 0 := by
  unfold tomorrow
  split_ifs <;> exact ⟨rfl, rfl, rfl⟩

/-- Each second counts one more. -/
theorem next_unix : t.next.unix = t.unix + 1 := by
  have hhour := t.hour_lt
  have hmin := t.min_lt
  have hsec := t.sec_lt
  unfold next
  split_ifs
  · simp only [unix, days]
    omega
  · simp only [unix, days]
    omega
  · simp only [unix, days]
    omega
  · obtain ⟨hhour0, hmin0, hsec0⟩ := t.tomorrow_midnight
    rw [unix, unix, tomorrow_days, hhour0, hmin0, hsec0]
    omega

/-- The timestamp counts the seconds that have passed. -/
theorem iterate_unix (n : ℕ) : (next^[n] t).unix = t.unix + n := by
  induction n with
  | zero => rw [Function.iterate_zero_apply, Nat.add_zero]
  | succ n ih => rw [Function.iterate_succ_apply', next_unix, ih, Nat.add_assoc]

end Moment

end Moments

end Calendar
