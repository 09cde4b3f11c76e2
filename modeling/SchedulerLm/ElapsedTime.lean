import SchedulerLm.RelativeSchedule

/-!
# Elapsed time

"In N units" moves the wall clock of the time zone, and not the time: the result is
N units later as long as the offset from UTC is the same then and now
(`elapsed_iff`). Around a transition it may even be in the past.
-/

namespace SchedulerLm

open Calendar Zones Regex

variable (unicode : Unicode) (zone : Zone)

/-- The duration a text speaks of, as an amount and the length of its unit, if it
    speaks of one. -/
def durationOf (text : String) : Option (ℕ × Int) :=
  if (searchIn unicode recurringPattern text.toList).isSome then none
  else
    (searchIn unicode (inDurationPattern unicode) text.toList).bind fun m =>
    match readAmount unicode (unicode.lower (captured m 1)) with
    | .ok (some amount) =>
      (unitLength (unicode.lower (captured m 2))).map fun length => (amount, length)
    | _ => none

variable {unicode zone} {text : String} {now : Now} {localized runAt : ZonedDatetime} {amount : ℕ}
  {length : Int}

theorem unitLength_pos {unit : List Char} (h : unitLength unit = some length) : 0 < length := by
  have hsecond : (0 : Int) < second := by decide
  rw [unitLength] at h
  split at h
  · exact Option.some.inj h ▸ hsecond
  split at h
  · exact Option.some.inj h ▸ Int.mul_pos (by decide) hsecond
  split at h
  · exact Option.some.inj h ▸ Int.mul_pos (by decide) hsecond
  split at h
  · exact Option.some.inj h ▸ Int.mul_pos (by decide) hsecond
  · exact absurd h (by simp)

/-- A text speaks of a duration if the pattern has captured an amount and a unit. -/
theorem durationOf_eq_some (h : durationOf unicode text = some (amount, length)) :
    ¬(searchIn unicode recurringPattern text.toList).isSome = true ∧
      ∃ m, searchIn unicode (inDurationPattern unicode) text.toList = some m ∧
        readAmount unicode (unicode.lower (captured m 1)) = .ok (some amount) ∧
        unitLength (unicode.lower (captured m 2)) = some length := by
  rw [durationOf] at h
  split at h
  · exact absurd h (by simp)
  · rename_i hrecurring
    obtain ⟨m, hm, h⟩ := Option.bind_eq_some_iff.1 h
    split at h
    · rename_i n hamount
      obtain ⟨l, hunit, hpair⟩ := Option.map_eq_some_iff.1 h
      obtain ⟨rfl, rfl⟩ := Prod.mk.inj hpair
      exact ⟨hrecurring, m, hm, hamount, hunit⟩
    · exact absurd h (by simp)

/-- The parser moves the wall clock by the duration the text speaks of. -/
theorem tryParse_of_durationOf (hduration : durationOf unicode text = some (amount, length))
    (hlocal : localize zone now = .ok localized) :
    tryParseOnceSchedule unicode zone text now =
      (timedelta (amount * length)).bind fun delta => (addTimedelta localized delta).map some := by
  obtain ⟨hrecurring, m, hm, hamount, hunit⟩ := durationOf_eq_some hduration
  rw [tryParseOnceSchedule, if_neg hrecurring, hlocal]
  simp only [Except.bind, hm, inDuration, hamount, hunit]

/-- So it comes to that reading, if it comes to one. -/
theorem runAt_of_durationOf (hduration : durationOf unicode text = some (amount, length))
    (hlocal : localize zone now = .ok localized)
    (h : tryParseOnceSchedule unicode zone text now = .ok (some runAt)) :
    runAt = ⟨localized.wall + amount * length, false⟩ := by
  rw [tryParse_of_durationOf hduration hlocal] at h
  obtain ⟨delta, hdelta, h⟩ := Raising.bind_eq_ok.1 h
  obtain ⟨d, hadd, hd⟩ := Raising.map_eq_ok.1 h
  obtain rfl := Option.some.inj hd
  rw [timedelta] at hdelta
  split at hdelta
  · obtain rfl := Except.ok.inj hdelta
    rw [addTimedelta] at hadd
    split at hadd
    · exact (Except.ok.inj hadd).symm
    · exact absurd hadd (by simp)
  · exact absurd hdelta (by simp)

/-- The instant "in N units" is N units after now, and so not before it, iff the offset
    of the zone on the wall clock N units ahead is the one it is ahead of UTC now. -/
theorem elapsed_iff (hduration : durationOf unicode text = some (amount, length))
    (hlocal : localize zone now = .ok localized)
    (h : tryParseOnceSchedule unicode zone text now = .ok (some runAt)) :
    zone.instant runAt = now.instant zone + amount * length ∧
      now.instant zone ≤ zone.instant runAt ↔
      zone.utcoffset ⟨localized.wall + amount * length, false⟩ = localized.wall -
        now.instant zone := by
  obtain rfl := runAt_of_durationOf hduration hlocal h
  obtain ⟨-, m, -, -, hunit⟩ := durationOf_eq_some hduration
  have hpos : 0 < length := unitLength_pos hunit
  have hnonneg : 0 ≤ amount * length := Int.mul_nonneg (Int.natCast_nonneg _) (Int.le_of_lt hpos)
  -- The instant is the wall clock reading less its offset, so that the offset decides.
  rw [Zone.instant]
  dsimp only
  constructor
  · rintro ⟨helapsed, -⟩
    omega
  · intro hoffset
    have helapsed : localized.wall + amount * length -
        zone.utcoffset ⟨localized.wall + amount * length, false⟩ = now.instant zone +
          amount * length := by
      omega
    exact ⟨helapsed, helapsed ▸ Int.le_add_of_nonneg_right hnonneg⟩

/-- Half past one in the morning of that day, the second time. -/
def halfPastOne : Now := .inZone 1793496600000000 true

/-- Three hours later, all is well. -/
theorem elapsed_threeHours :
    Zone.newYork.instant ⟨1793496600000000 + 10800000000, false⟩ = halfPastOne.instant .newYork +
      10800000000 := by
  have hduration : durationOf .ascii "in three hours" = some (3, 3600000000) := by decide +kernel
  have hparse : tryParseOnceSchedule .ascii .newYork "in three hours" halfPastOne =
      .ok (some ⟨1793496600000000 + 10800000000, false⟩) := by decide +kernel
  exact ((elapsed_iff hduration rfl hparse).2 (by decide)).1

/-- The time elapsed would be the one spoken of: ten minutes after half past one, it is
    fifty minutes earlier. -/
theorem not_elapsed : ¬∀ (unicode : Unicode) (zone : Zone) (text : String) (now : Now) (amount : ℕ)
    (length : Int) (runAt : ZonedDatetime), length ∈ [second, 60 * second, 3600 * second] →
    durationOf unicode text = some (amount, length) →
    tryParseOnceSchedule unicode zone text now = .ok (some runAt) →
    zone.instant runAt = now.instant zone + amount * length ∧
      now.instant zone ≤ zone.instant runAt := by
  intro h
  have hduration : durationOf .ascii "in 10 minutes" = some (10, 60000000) := by decide +kernel
  have hparse : tryParseOnceSchedule .ascii .newYork "in 10 minutes" halfPastOne =
      .ok (some ⟨1793497200000000, false⟩) := by decide +kernel
  have hpast : Zone.newYork.instant ⟨1793497200000000, false⟩ = halfPastOne.instant .newYork -
      3000000000 := by
    decide
  have hle := (h _ _ _ _ _ _ _ (by decide) hduration hparse).2
  rw [hpast] at hle
  exact absurd hle (by decide)

end SchedulerLm
