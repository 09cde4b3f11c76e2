import SchedulerLm.Totality

/-!
# Clock times

The times of day a text states, "5pm", "8:15 AM" or "17:30" (`clockTimes`), and the one
that is set on the days "tomorrow" and "next <weekday>": it is the one that is read, or
nine in the morning (`hourMinuteOf_of_tryParse`).
-/

namespace SchedulerLm

open Calendar Zones Regex

variable (unicode : Unicode)

/-! ## Times that are stated -/

/-- The value of some digits, one after another. -/
def valueOf (digits : List Char) : Option ℕ :=
  (digits.mapM unicode.decimal).map fun ds => ds.foldl (fun n d => n * 10 + d) 0

/-- The minutes after a colon, and what is left. -/
def minutesPart : List Char → Option (ℕ × List Char)
  | ':' :: a :: b :: rest => (valueOf unicode [a, b]).map fun minute => (minute, rest)
  | _ => none

/-- The text goes on with "am" (`false`) or "pm" (`true`), in any case, as a word. -/
def meridiemPart (cs : List Char) : Option Bool :=
  match cs.dropWhile unicode.isSpace with
  | a :: m :: rest =>
    if rest.head?.any unicode.isWord || m.toLower ≠ 'm' then none
    else if a.toLower = 'a' then some false
    else if a.toLower = 'p' then some true
    else none
  | _ => none

/-- The hour of the day: twelve comes before one. -/
def hourOf (hour : ℕ) (pm : Bool) : ℕ := hour % 12 + if pm then 12 else 0

/-- The time of day that is stated at a place of a text, after the character `before`:
    `h` or `h:mm` with "am" or "pm", or `H:MM` without. -/
def clockTimeAt (before : Option Char) (cs : List Char) : Option (ℕ × ℕ) :=
  let digits := cs.takeWhile unicode.isDecimal
  if before.any (fun c => unicode.isWord c || c = ':') || 2 < digits.length then none
  else
    (valueOf unicode digits).bind fun hour =>
    let minutes := minutesPart unicode (cs.drop digits.length)
    -- A number with minutes is one of 24 hours, unless "am" or "pm" is after it.
    match meridiemPart unicode (minutes.elim (cs.drop digits.length) Prod.snd), minutes with
    | some pm, _ =>
      let minute := minutes.elim 0 Prod.fst
      if digits ≠ [] ∧ 1 ≤ hour ∧ hour ≤ 12 ∧ minute ≤ 59
        then some (hourOf hour pm, minute) else none
    | none, some (minute, rest) =>
      if digits ≠ [] ∧ hour ≤ 23 ∧ minute ≤ 59 ∧
        ¬rest.head?.any (fun c => unicode.isWord c || c = ':') then
        some (hour, minute)
      else none
    | none, none => none

/-- The times of day that are stated after the character `before`. -/
def clockTimesFrom : Option Char → List Char → List (ℕ × ℕ)
  | _, [] => []
  | before, c :: cs => (clockTimeAt unicode before (c :: cs)).toList ++ clockTimesFrom (some c) cs

/-- The times of day a text states. -/
def clockTimes (text : String) : List (ℕ × ℕ) := clockTimesFrom unicode none text.toList

example : clockTimes .ascii "Tomorrow at 8:15 AM" = [(8, 15)] := by decide +kernel

example : clockTimes .ascii "on 31 May, 12am or 17:30, room 1234" =
    [(0, 0), (17, 30)] := by decide +kernel

/-! ## The time that is set -/

/-- The hour and the minute of a reading. -/
def hourMinuteOf (d : ZonedDatetime) : ℕ × ℕ :=
  ((Fields.ofWall d.wall).hour, (Fields.ofWall d.wall).minute)

variable {unicode} {zone : Zone} {text : String} {now : Now}
  {localized runAt : ZonedDatetime} {days : ℕ} {hourMinute : ℕ × ℕ}

/-- The day is kept, and the time of day is the one that is set. -/
theorem ofWall_applyTime (base : ZonedDatetime) (hhour : hourMinute.1 ≤ 23)
    (hminute : hourMinute.2 ≤ 59) :
    Fields.ofWall (applyTime base hourMinute).wall =
      { Fields.ofWall base.wall with
        hour := hourMinute.1, minute := hourMinute.2, second := 0, microsecond := 0 } := by
  obtain ⟨hour, minute⟩ := hourMinute
  dsimp only at hhour hminute
  -- The days are kept, and what is left of the day is the time that is set.
  generalize hday : (base.wall + Fields.epoch).toNat / Fields.dayLength = day
  have hwall : ((applyTime base (hour, minute)).wall + Fields.epoch).toNat =
      day * Fields.dayLength + (hour * 60 + minute) * 60000000 := by
    rw [wall_applyTime, hday]
    omega
  have hlt : (hour * 60 + minute) * 60000000 < Fields.dayLength := by
    simp only [Fields.dayLength]
    omega
  have hmod : (day * Fields.dayLength + (hour * 60 + minute) * 60000000) % Fields.dayLength =
      (hour * 60 + minute) * 60000000 := by
    rw [Nat.mul_comm, Nat.mul_add_mod]
    exact Nat.mod_eq_of_lt hlt
  have hdiv : (day * Fields.dayLength + (hour * 60 + minute) *
      60000000) / Fields.dayLength = day := by
    rw [Nat.mul_comm, Nat.mul_add_div (by decide), Nat.div_eq_of_lt hlt, Nat.add_zero]
  simp only [Fields.ofWall, hwall, hmod, hdiv, hday, Fields.mk.injEq, true_and]
  omega

/-- The time of day that is set is the one that is read. -/
theorem hourMinuteOf_applyTime (base : ZonedDatetime) (hhour : hourMinute.1 ≤ 23)
    (hminute : hourMinute.2 ≤ 59) :
    hourMinuteOf (applyTime base hourMinute) = hourMinute := by
  rw [hourMinuteOf, ofWall_applyTime base hhour hminute]

theorem applyTime_of_onDay (h : onDay unicode text.toList localized days = .ok (some runAt)) :
    ∃ target time, parseTimeOfDay unicode text.toList = .ok time ∧
      runAt = applyTime target (time.getD defaultHourMinute) := by
  obtain ⟨target, -, h⟩ := Raising.bind_eq_ok.1 h
  obtain ⟨time, htime, heq⟩ := Raising.map_eq_ok.1 h
  exact ⟨target, time, htime, (Option.some.inj heq).symm⟩

/-- What is no duration is a day, at the time of day that is read, or at nine. -/
theorem applyTime_of_tryParse
    (hduration : searchIn unicode (inDurationPattern unicode) text.toList = none)
    (h : tryParseOnceSchedule unicode zone text now = .ok (some runAt)) :
    ∃ target time, parseTimeOfDay unicode text.toList = .ok time ∧
      runAt = applyTime target (time.getD defaultHourMinute) := by
  rw [tryParseOnceSchedule] at h
  split at h
  · exact absurd h (by simp)
  obtain ⟨localized, -, h⟩ := Raising.bind_eq_ok.1 h
  simp only [hduration] at h
  split at h
  · exact applyTime_of_onDay h
  split at h
  · exact absurd h (by simp)
  split at h
  · exact absurd h (by simp)
  · exact applyTime_of_onDay h

/-- The time that is set is the one that is read, or nine. -/
theorem hourMinuteOf_of_tryParse
    (hduration : searchIn unicode (inDurationPattern unicode) text.toList = none)
    (h : tryParseOnceSchedule unicode zone text now = .ok (some runAt)) :
    ∃ read, parseTimeOfDay unicode text.toList = .ok read ∧
      hourMinuteOf runAt = read.getD defaultHourMinute := by
  obtain ⟨target, read, hread, rfl⟩ := applyTime_of_tryParse hduration h
  obtain ⟨read', hread', hle⟩ := parseTimeOfDay_isOk unicode text.toList
  obtain rfl := Except.ok.inj (hread.symm.trans hread')
  refine ⟨read, hread, ?_⟩
  rcases read with _ | time
  · exact hourMinuteOf_applyTime target (by decide) (by decide)
  · exact hourMinuteOf_applyTime target (hle time rfl).1 (hle time rfl).2

end SchedulerLm
