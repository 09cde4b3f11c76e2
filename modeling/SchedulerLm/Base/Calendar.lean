import Mathlib.Algebra.BigOperators.Group.List.Basic
import Mathlib.Algebra.Order.Ring.Int

/-!
# The calendar

The proleptic Gregorian calendar, from the year 1 to the year 9999, with the days
counted from 1 January of the year 1 (the day `0`).

* `dayNumber`: the days before a date; `ofDayNumber`: its inverse, which splits off
  400 years, 100 years, 4 years and single years, and then the months
  (`dayNumber_ofDayNumber`, `valid_ofDayNumber`).
* `Fields`: what a clock shows, to the microsecond. `Fields.wall` counts the
  microseconds from 1970 on, and `Fields.ofWall` is its inverse
  (`wall_ofWall`, `valid_ofWall`).
-/

namespace Calendar

/-! ## Days -/

/-- The year has a 29 February. -/
def isLeap (year : ℕ) : Bool := year % 4 = 0 && (year % 100 ≠ 0 || year % 400 = 0)

/-- The lengths of the months. -/
def monthLengths (leap : Bool) : List ℕ :=
  [31, if leap then 29 else 28, 31, 30, 31, 30, 31, 31, 30, 31, 30, 31]

/-- The days before the `z`-th year after the year 1. -/
def daysBefore (z : ℕ) : ℕ := z * 365 + z / 4 - z / 100 + z / 400

/-- The days before a date. -/
def dayNumber (year month day : ℕ) : ℕ :=
  daysBefore (year - 1) + ((monthLengths (isLeap year)).take (month - 1)).sum + (day - 1)

/-- The days of the calendar: up to 31 December 9999. -/
def days : ℕ := 3652059

/-- The date exists. -/
structure ValidDate (year month day : ℕ) : Prop where
  one_le_year : 1 ≤ year
  year_le : year ≤ 9999
  one_le_month : 1 ≤ month
  month_le : month ≤ 12
  one_le_day : 1 ≤ day
  day_le : day ≤ (monthLengths (isLeap year)).getD (month - 1) 0

instance (year month day : ℕ) : Decidable (ValidDate year month day) :=
  decidable_of_iff (1 ≤ year ∧ year ≤ 9999 ∧ 1 ≤ month ∧ month ≤ 12 ∧ 1 ≤ day ∧
      day ≤ (monthLengths (isLeap year)).getD (month - 1) 0)
    ⟨fun ⟨a, b, c, d, e, f⟩ => ⟨a, b, c, d, e, f⟩, fun ⟨a, b, c, d, e, f⟩ =>
      ⟨a, b, c, d, e, f⟩⟩

/-- The part of lengths `ls` in which the `n`-th element is, and its place there. -/
def locate : List ℕ → ℕ → ℕ × ℕ
  | [], n => (0, n)
  | l :: ls, n => if n < l then (0, n) else ((locate ls (n - l)).1 + 1, (locate ls (n - l)).2)

/-- The years after the year 1 that are over on a day, and the days since. -/
def splitYear (n : ℕ) : ℕ × ℕ :=
  let n400 := n / 146097
  let n100 := n % 146097 / 36524
  let n4 := n % 146097 % 36524 / 1461
  let n1 := n % 146097 % 36524 % 1461 / 365
  let z := n400 * 400 + n100 * 100 + n4 * 4 + n1
  -- The last day of a leap year, or of 400 years, is one day late.
  if n1 = 4 ∨ n100 = 4 then (z - 1, 365) else (z, n % 146097 % 36524 % 1461 % 365)

/-- The date of a day. -/
def ofDayNumber (n : ℕ) : ℕ × ℕ × ℕ :=
  let year := (splitYear n).1 + 1
  let place := locate (monthLengths (isLeap year)) (splitYear n).2
  (year, place.1 + 1, place.2 + 1)

variable {n : ℕ}

theorem isLeap_iff {year : ℕ} :
    isLeap year = true ↔ year % 4 = 0 ∧ (year % 100 ≠ 0 ∨ year % 400 = 0) := by
  simp [isLeap]

theorem sum_monthLengths (leap : Bool) : (monthLengths leap).sum = if leap then 366 else 365 := by
  cases leap <;> rfl

/-- The days of whole years, by the parts of `splitYear`. -/
theorem daysBefore_split {a b c d : ℕ} (hb : b ≤ 3) (hc : c ≤ 24) (hd : d ≤ 3) :
    daysBefore (a * 400 + b * 100 + c * 4 + d) = a * 146097 + b * 36524 + c * 1461 + d * 365 := by
  have h4 : (a * 400 + b * 100 + c * 4 + d) / 4 = a * 100 + b * 25 + c := by omega
  have h100 : (a * 400 + b * 100 + c * 4 + d) / 100 = a * 4 + b := by omega
  have h400 : (a * 400 + b * 100 + c * 4 + d) / 400 = a := by omega
  rw [daysBefore, h4, h100, h400]
  omega

theorem splitYear_eq (n : ℕ) :
    daysBefore (splitYear n).1 + (splitYear n).2 = n ∧
      ((splitYear n).2 < 365 ∨ (splitYear n).2 = 365 ∧ isLeap ((splitYear n).1 + 1) = true) := by
  obtain ⟨a, r, hn, hr⟩ : ∃ a r, n = a * 146097 + r ∧ r < 146097 :=
    ⟨n / 146097, n % 146097, by omega, Nat.mod_lt _ (by decide)⟩
  obtain ⟨b, s, hs, hs'⟩ : ∃ b s, r = b * 36524 + s ∧ s < 36524 :=
    ⟨r / 36524, r % 36524, by omega, Nat.mod_lt _ (by decide)⟩
  obtain ⟨c, t, ht, ht'⟩ : ∃ c t, s = c * 1461 + t ∧ t < 1461 :=
    ⟨s / 1461, s % 1461, by omega, Nat.mod_lt _ (by decide)⟩
  obtain ⟨d, u, hu, hu'⟩ : ∃ d u, t = d * 365 + u ∧ u < 365 :=
    ⟨t / 365, t % 365, by omega, Nat.mod_lt _ (by decide)⟩
  have hsplit : splitYear n = if d = 4 ∨ b = 4 then (a * 400 + b * 100 + c * 4 + d - 1, 365)
      else (a * 400 + b * 100 + c * 4 + d, u) := by
    have ha : n / 146097 = a := by omega
    have hb : n % 146097 = r := by omega
    have hb' : r / 36524 = b := by omega
    have hc : r % 36524 = s := by omega
    have hc' : s / 1461 = c := by omega
    have hd : s % 1461 = t := by omega
    have hd' : t / 365 = d := by omega
    have hu : t % 365 = u := by omega
    simp only [splitYear, ha, hb, hb', hc, hc', hd, hd', hu]
  rw [hsplit]
  by_cases hlast : d = 4 ∨ b = 4
  · -- The day before is the last one of the parts with one year less.
    rw [if_pos hlast]
    obtain ⟨b', c', hz, hb', hc', hsum, hleap⟩ : ∃ b' c', a * 400 + b * 100 + c * 4 + d - 1 =
        a * 400 + b' * 100 + c' * 4 + 3 ∧ b' ≤ 3 ∧ c' ≤ 24 ∧
        b' * 36524 + c' * 1461 + 1460 = r ∧ (c' = 24 → b' = 3) := by
      rcases hlast with rfl | rfl
      · exact ⟨b, c, by omega, by omega, by omega, by omega, by omega⟩
      · exact ⟨3, 24, by omega, by omega, by omega, by omega, by omega⟩
    have hbefore : daysBefore (a * 400 + b' * 100 + c' * 4 + 3) =
        a * 146097 + b' * 36524 + c' * 1461 + 1095 := daysBefore_split hb' hc' (Nat.le_refl 3)
    rw [hz, isLeap_iff]
    dsimp only
    exact ⟨by omega, .inr ⟨rfl, by omega⟩⟩
  · rw [if_neg hlast, daysBefore_split (by omega) (by omega) (by omega)]
    exact ⟨by omega, .inl hu'⟩

/-- The day of the year is one of its days. -/
theorem splitYear_lt (n : ℕ) :
    (splitYear n).2 < (monthLengths (isLeap ((splitYear n).1 + 1))).sum := by
  rw [sum_monthLengths]
  rcases (splitYear_eq n).2 with h | ⟨h, hleap⟩
  · split <;> omega
  · rw [if_pos hleap, h]
    decide

theorem splitYear_le (h : n < days) : (splitYear n).1 ≤ 9998 := by
  have heq := (splitYear_eq n).1
  simp only [daysBefore] at heq
  simp only [days] at h
  omega

theorem locate_spec {ls : List ℕ} (h : n < ls.sum) :
    (locate ls n).1 < ls.length ∧ (ls.take (locate ls n).1).sum + (locate ls n).2 = n ∧
      (locate ls n).2 < ls.getD (locate ls n).1 0 := by
  induction ls generalizing n with
  | nil => exact absurd h (Nat.not_lt_zero _)
  | cons l ls ih =>
    rw [locate]
    by_cases hl : n < l
    · rw [if_pos hl]
      exact ⟨Nat.succ_pos _, by simp, by simpa using hl⟩
    · rw [if_neg hl]
      rw [List.sum_cons] at h
      obtain ⟨hlt, hsum, hget⟩ := ih (n := n - l) (by omega)
      refine ⟨Nat.succ_lt_succ hlt, ?_, by simpa using hget⟩
      rw [List.take_succ_cons, List.sum_cons]
      omega

/-- The date of a day is that day. -/
theorem dayNumber_ofDayNumber (n : ℕ) :
    dayNumber (ofDayNumber n).1 (ofDayNumber n).2.1 (ofDayNumber n).2.2 = n := by
  have hsum := (locate_spec (splitYear_lt n)).2.1
  have heq := (splitYear_eq n).1
  simp only [dayNumber, ofDayNumber, Nat.add_sub_cancel]
  omega

/-- The days of the calendar have dates. -/
theorem valid_ofDayNumber (h : n < days) :
    ValidDate (ofDayNumber n).1 (ofDayNumber n).2.1 (ofDayNumber n).2.2 := by
  obtain ⟨hlt, -, hget⟩ := locate_spec (splitYear_lt n)
  have hlength : (monthLengths (isLeap ((splitYear n).1 + 1))).length = 12 := rfl
  exact ⟨Nat.succ_pos _, Nat.succ_le_succ (splitYear_le h), Nat.succ_pos _,
    by simp only [ofDayNumber]; omega, Nat.succ_pos _, hget⟩

/-! ## Weeks -/

/-- The day of the week of a day, from Monday (`0`) on. -/
def weekday (n : ℕ) : ℕ := n % 7

/-- A day of the next seven is the next one on its day of the week. -/
theorem isLeast_weekday {d k w : ℕ} (hlow : 1 ≤ k) (hhigh : k ≤ 7) (h : weekday (d + k) = w) :
    IsLeast {n | d < n ∧ weekday n = w} (d + k) := by
  refine ⟨⟨by omega, h⟩, ?_⟩
  rintro n ⟨hlt, hn⟩
  simp only [weekday] at h hn
  omega

/-- The year has 53 weeks: it starts with a Thursday, or is a leap year and starts
    with a Wednesday. -/
def isLong (year : ℕ) : Bool :=
  weekday (dayNumber year 1 1) = 3 || weekday (dayNumber year 1 1) = 2 && isLeap year

/-- The Monday of the first week of a year, the one that has its first Thursday;
    counted from 1 January of the year 1, which is a Monday. -/
def firstMonday (year : ℕ) : ℕ :=
  let n := dayNumber year 1 1
  if weekday n ≤ 3 then n - weekday n else n + 7 - weekday n

/-- The date of a day of a week of a year. -/
def ofWeek (year week day : ℕ) : Option (ℕ × ℕ × ℕ) :=
  if 1 ≤ year ∧ 1 ≤ week ∧ (week ≤ 52 ∨ week = 53 ∧ isLong year) ∧
    1 ≤ day ∧ day ≤ 7 then
    some (ofDayNumber (firstMonday year + (week - 1) * 7 + (day - 1)))
  else none

example : ofWeek 2026 22 7 = some (2026, 5, 31) := by decide

/-! ## Clocks -/

/-- What a clock shows. -/
structure Fields where
  year : ℕ
  month : ℕ
  day : ℕ
  hour : ℕ
  minute : ℕ
  second : ℕ
  microsecond : ℕ
  deriving DecidableEq

namespace Fields

/-- A clock can show it. -/
structure Valid (f : Fields) : Prop where
  date : ValidDate f.year f.month f.day
  hour_le : f.hour ≤ 23
  minute_le : f.minute ≤ 59
  second_le : f.second ≤ 59
  microsecond_le : f.microsecond ≤ 999999

instance (f : Fields) : Decidable f.Valid :=
  decidable_of_iff (ValidDate f.year f.month f.day ∧ f.hour ≤ 23 ∧ f.minute ≤ 59 ∧
    f.second ≤ 59 ∧
      f.microsecond ≤ 999999)
    ⟨fun ⟨a, b, c, d, e⟩ => ⟨a, b, c, d, e⟩, fun ⟨a, b, c, d, e⟩ => ⟨a, b, c, d, e⟩⟩

/-- The microseconds of a day. -/
def dayLength : ℕ := 86400000000

/-- The microseconds from the year 1 to 1970. -/
def epoch : ℕ := 719162 * dayLength

/-- The microseconds a clock shows, from 1970 on. -/
def wall (f : Fields) : Int :=
  (dayNumber f.year f.month f.day * dayLength +
    ((f.hour * 60 + f.minute) * 60 + f.second) * 1000000 + f.microsecond : ℕ) - epoch

/-- The range of clocks. -/
def InRange (w : Int) : Prop := -epoch ≤ w ∧ w < days * dayLength - epoch

instance (w : Int) : Decidable (InRange w) := inferInstanceAs (Decidable (_ ∧ _))

/-- What a clock shows at `w` microseconds from 1970 on. -/
def ofWall (w : Int) : Fields :=
  let n := (w + epoch).toNat
  let date := ofDayNumber (n / dayLength)
  let t := n % dayLength
  { year := date.1
    month := date.2.1
    day := date.2.2
    hour := t / 3600000000
    minute := t / 60000000 % 60
    second := t / 1000000 % 60
    microsecond := t % 1000000 }

variable {w : Int}

/-- The parts of the time of day. -/
theorem timeOfDay_eq (n : ℕ) :
    ((n / 3600000000 * 60 + n / 60000000 % 60) * 60 + n / 1000000 % 60) * 1000000 +
      n % 1000000 = n := by
  omega

theorem wall_ofWall (h : InRange w) : (ofWall w).wall = w := by
  have hn : ((w + epoch).toNat : Int) = w + epoch := Int.toNat_of_nonneg (by have := h.1; omega)
  simp only [ofWall, wall, dayNumber_ofDayNumber]
  rw [Nat.add_assoc, timeOfDay_eq, Nat.mul_comm, Nat.div_add_mod, hn]
  omega

theorem valid_ofWall (h : InRange w) : (ofWall w).Valid := by
  obtain ⟨hlow, hhigh⟩ := h
  have hday : (w + epoch).toNat / dayLength < days := by
    rw [Nat.div_lt_iff_lt_mul (by decide)]
    omega
  have hmod := Nat.mod_lt (w + epoch).toNat (show 0 < dayLength by decide)
  simp only [dayLength] at hmod
  refine ⟨valid_ofDayNumber hday, ?_, ?_, ?_, ?_⟩ <;> simp only [ofWall, dayLength] <;> omega

end Fields

end Calendar
