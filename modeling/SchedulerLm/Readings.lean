import Mathlib.Order.Bounds.Basic
import SchedulerLm.CalendarDays
import SchedulerLm.ElapsedTime

/-!
# Readings

The relative parser, from a text to the reading of the wall clock that it speaks of
(`ReadingMeant`): the clock is moved by a duration, or to a day and a time of day on it. Where
the parser answers, it answers with that reading, and with none only if the text
speaks of none (`readingMeant_iff`).
-/

namespace SchedulerLm

open Calendar Zones Regex

variable (unicode : Unicode)

/-- The reading of the wall clock that a text speaks of, at `localized`. -/
inductive ReadingMeant (text : String) (localized : ZonedDatetime) : ZonedDatetime → Prop
  /-- A duration: the clock is moved by it. -/
  | duration {amount : ℕ} {length : Int} : durationOf unicode text = some (amount, length) →
      ReadingMeant text localized ⟨localized.wall + amount * length, false⟩
  /-- A day: the clock is moved to it, and set to the time of day. -/
  | day {days : ℕ} {time : ℕ × ℕ} : (searchIn unicode recurringPattern text.toList).isSome = false →
      searchIn unicode (inDurationPattern unicode) text.toList = none →
      DayMeant unicode text.toList (dayOf localized) (dayOf localized + days) →
      ClockTimeKept unicode text.toList time →
      ReadingMeant text localized (applyTime ⟨localized.wall + days * Fields.dayLength, false⟩ time)

variable {unicode} {zone : Zone} {text : String} {now : Now} {localized reading : ZonedDatetime}
  {answer : Option ZonedDatetime} {m : Match Char} {days weekday : ℕ}

theorem durationOf_eq_none (h : searchIn unicode (inDurationPattern unicode) text.toList = none) :
    durationOf unicode text = none := by
  rw [durationOf, h, Option.bind_none, ite_self]

/-! ## Days -/

theorem dayMeant_tomorrow (h : (searchIn unicode tomorrowPattern text.toList).isSome) :
    DayMeant unicode text.toList (dayOf localized) (dayOf localized + days) ↔ days = 1 := by
  rw [DayMeant, if_pos h, Nat.add_left_cancel_iff]

/-- The days ahead to the weekday in the table are the ones that lead to the day that is meant. -/
theorem dayMeant_nextWeekday (htomorrow : ¬(searchIn unicode tomorrowPattern text.toList).isSome)
    (hm : searchIn unicode (nextWeekdayPattern unicode) text.toList = some m)
    (hlookup : weekdayNames.lookup (unicode.lower (captured m 1)) = some weekday) :
    DayMeant unicode text.toList (dayOf localized) (dayOf localized + days) ↔
      days = daysAhead localized weekday := by
  have htable : ∀ entry ∈ weekdayNames, weekdayNames.lookup entry.1 = some entry.2 := by decide
  obtain ⟨entry, hentry, rfl, hname⟩ := lookup_weekday_eq_some hm hlookup
  obtain ⟨hlow, hhigh, hweekday⟩ := daysAhead_spec localized (lt_seven_of_mem hentry)
  have hleast := isLeast_weekday hlow hhigh hweekday
  rw [DayMeant, if_neg htomorrow]
  constructor
  · rintro ⟨m', hm', entry', hentry', hname', hleast', -⟩
    obtain rfl := Option.some.inj (hm.symm.trans hm')
    -- The name is spelt in letters of ASCII, so that it is of one weekday only.
    have hsame : entry'.2 = entry.2 := by
      rcases lower_weekday unicode hentry' hname' with ⟨-, hlower⟩ | ⟨-, hnone⟩
      · rw [hlower, htable entry' hentry'] at hlookup
        exact Option.some.inj hlookup
      · exact absurd (hnone.symm.trans hlookup) (by simp)
    rw [hsame] at hleast'
    exact Nat.add_left_cancel (hleast'.unique hleast)
  · rintro rfl
    exact ⟨m, hm, entry, hentry, hname, hleast, by omega⟩

/-! ## The parser -/

/-- The parser comes to the day it is asked for, at the time of day the text has kept. -/
theorem onDay_eq_ok (h : onDay unicode text.toList localized days = .ok answer) :
    ∃ time, ClockTimeKept unicode text.toList time ∧
      answer = some (applyTime ⟨localized.wall + days * Fields.dayLength, false⟩ time) := by
  obtain ⟨target, htarget, h⟩ := Raising.bind_eq_ok.1 h
  obtain ⟨read, hread, rfl⟩ := Raising.map_eq_ok.1 h
  rw [addTimedelta] at htarget
  split at htarget
  · obtain rfl := Except.ok.inj htarget
    exact ⟨_, (clockTimeKept_iff hread).1 rfl, rfl⟩
  · exact absurd htarget (by simp)

theorem clockTimeKept_unique {time time' : ℕ × ℕ}
    (h : onDay unicode text.toList localized days = .ok answer) (htime : ClockTimeKept unicode
      text.toList time) (htime' : ClockTimeKept unicode text.toList time') :
    time = time' := by
  obtain ⟨target, -, h⟩ := Raising.bind_eq_ok.1 h
  obtain ⟨read, hread, -⟩ := Raising.map_eq_ok.1 h
  exact ((clockTimeKept_iff hread).2 htime).symm.trans ((clockTimeKept_iff hread).2 htime')

/-- Where the parser goes to the day the text speaks of, it comes to the reading it speaks of. -/
theorem readingMeant_onDay
    (hrecurring : (searchIn unicode recurringPattern text.toList).isSome = false)
    (hduration : searchIn unicode (inDurationPattern unicode) text.toList = none) (hdays : ∀ days',
      DayMeant unicode text.toList (dayOf localized) (dayOf localized + days') ↔ days' = days)
    (h : onDay unicode text.toList localized days = .ok answer) :
    answer = some reading ↔ ReadingMeant unicode text localized reading := by
  obtain ⟨time, htime, rfl⟩ := onDay_eq_ok h
  constructor
  · intro heq
    rw [← Option.some.inj heq]
    exact .day hrecurring hduration ((hdays days).2 rfl) htime
  · rintro (hspeaks | ⟨-, -, hday, htime'⟩)
    · exact absurd (hspeaks.symm.trans (durationOf_eq_none hduration)) (by simp)
    · obtain rfl := (hdays _).1 hday
      rw [clockTimeKept_unique h htime htime']

/-- Where the text has the pattern of a duration, the parser comes to the duration it speaks of. -/
theorem readingMeant_inDuration
    (hrecurring : (searchIn unicode recurringPattern text.toList).isSome = false)
    (hm : searchIn unicode (inDurationPattern unicode) text.toList = some m)
    (h : inDuration unicode localized m = .ok answer) :
    answer = some reading ↔ ReadingMeant unicode text localized reading := by
  obtain ⟨amount, hamount, h⟩ := Raising.bind_eq_ok.1 h
  have hspeaks : durationOf unicode text =
      amount.bind fun n => (unitLength (unicode.lower (captured m 2))).map fun length =>
        (n, length) := by
    rw [durationOf, if_neg (by simp [hrecurring]), hm]
    dsimp only [Option.bind_some]
    rw [hamount]
    cases amount <;> rfl
  have hmeant : ReadingMeant unicode text localized reading ↔
      ∃ amount length, durationOf unicode text = some (amount, length) ∧
        reading = ⟨localized.wall + amount * length, false⟩ := by
    constructor
    · rintro (hspeaks | ⟨-, hnone, -, -⟩)
      · exact ⟨_, _, hspeaks, rfl⟩
      · exact absurd (hnone.symm.trans hm) (by simp)
    · rintro ⟨amount, length, hspeaks, rfl⟩
      exact .duration hspeaks
  rw [hmeant, hspeaks]
  rcases amount with _ | amount
  · obtain rfl := Except.ok.inj h
    simp
  rcases hunit : unitLength (unicode.lower (captured m 2)) with _ | length <;>
    simp only [hunit] at h
  · obtain rfl := Except.ok.inj h
    simp
  obtain ⟨delta, hdelta, h⟩ := Raising.bind_eq_ok.1 h
  obtain ⟨target, hadd, rfl⟩ := Raising.map_eq_ok.1 h
  rw [timedelta] at hdelta
  split at hdelta
  · obtain rfl := Except.ok.inj hdelta
    rw [addTimedelta] at hadd
    split at hadd
    · obtain rfl := Except.ok.inj hadd
      simp [eq_comm]
    · exact absurd hadd (by simp)
  · exact absurd hdelta (by simp)

/-- What the parser answers is the reading the text speaks of. -/
theorem readingMeant_iff (hlocal : localize zone now = .ok localized)
    (h : tryParseOnceSchedule unicode zone text now = .ok answer) :
    answer = some reading ↔ ReadingMeant unicode text localized reading := by
  rw [tryParseOnceSchedule] at h
  split at h
  · rename_i hrecurring
    obtain rfl := Except.ok.inj h
    refine iff_of_false (by simp) ?_
    rintro (hspeaks | ⟨hnone, -, -, -⟩)
    · exact (durationOf_eq_some hspeaks).1 hrecurring
    · exact absurd (hnone.symm.trans hrecurring) (by simp)
  rename_i hrecurring
  rw [Bool.not_eq_true] at hrecurring
  rw [hlocal] at h
  dsimp only [Except.bind] at h
  split at h
  · rename_i m hm
    exact readingMeant_inDuration hrecurring hm h
  rename_i hduration
  split at h
  · rename_i htomorrow
    exact readingMeant_onDay hrecurring hduration (fun _ => dayMeant_tomorrow htomorrow) h
  rename_i htomorrow
  split at h
  · rename_i hnext
    obtain rfl := Except.ok.inj h
    refine iff_of_false (by simp) ?_
    rintro (hspeaks | ⟨-, -, hday, -⟩)
    · exact absurd (hspeaks.symm.trans (durationOf_eq_none hduration)) (by simp)
    · rw [DayMeant, if_neg htomorrow] at hday
      obtain ⟨m, hm, -⟩ := hday
      exact absurd (hnext.symm.trans hm) (by simp)
  rename_i m hm
  split at h
  · exact absurd h (by simp)
  · rename_i weekday hlookup
    exact readingMeant_onDay hrecurring hduration (fun _ =>
      dayMeant_nextWeekday htomorrow hm hlookup) h

end SchedulerLm
