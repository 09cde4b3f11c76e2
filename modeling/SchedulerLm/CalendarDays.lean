import Mathlib.Data.List.Forall2
import SchedulerLm.TwelveHours

/-!
# Calendar days

"Tomorrow" is the day after that of the localized time, and "next <weekday>" the first day
after it on that weekday; the days are those of the calendar, and so months, leap years
and years end where they do. The time of day is the one that is read, to the minute, and
the reading is later than the localized one (`calendarDay_of_tryParse`). A text that speaks
of a recurrence has no such day, and no duration.
-/

namespace SchedulerLm

open Calendar Zones Regex

variable (unicode : Unicode)

/-- The day a reading is on, by its date. -/
def dayOf (d : ZonedDatetime) : ℕ :=
  dayNumber (Fields.ofWall d.wall).year (Fields.ofWall d.wall).month (Fields.ofWall d.wall).day

/-- The current time is a datetime: its reading is one of the calendar. -/
def Now.InRange : Now → Prop
  | .naive wall _ | .inZone wall _ | .aware wall _ => Fields.InRange wall

/-- The words of `RECURRING_PATTERN`. -/
def recurringKeywords : List (List Char) :=
  ["every".toList, "each".toList, "daily".toList, "weekly".toList, "hourly".toList,
    "biweekly".toList,
    "fortnightly".toList, "weekday".toList, "weekdays".toList, "weekend".toList, "weekends".toList]

/-- One of these is a whole word of the text, in any case. -/
def SpeaksOfRecurrence (text : List Char) : Prop :=
  ∃ keyword ∈ recurringKeywords, ∃ before w after, text = before ++ (w ++ after) ∧
    List.Forall₂ (fun c x => isLetter c x = true) keyword w ∧
    before.getLast?.any unicode.isWord = false ∧ after.head?.any unicode.isWord = false

/-- The day a text without a duration speaks of: the one after today if it has the word "tomorrow",
    and the first one after today on the weekday of the first "next <weekday>" otherwise. -/
def DayMeant (text : List Char) (today day : ℕ) : Prop :=
  if (searchIn unicode tomorrowPattern text).isSome then day = today + 1
  else
    ∃ m, searchIn unicode (nextWeekdayPattern unicode) text = some m ∧
      ∃ entry ∈ weekdayNames, List.Forall₂ (fun c x => isLetter c x = true) entry.1 (captured m 1) ∧
        IsLeast {n | today < n ∧ Calendar.weekday n = entry.2} day ∧ day ≤ today + 7

variable {unicode} {zone : Zone} {text : String} {now : Now}
  {localized runAt target : ZonedDatetime} {days number : ℕ} {isWord : Char → Bool}
  {before u after cs ds w : List Char} {g : List (ℕ × List Char)}

/-! ## Days -/

theorem dayOf_eq (d : ZonedDatetime) : dayOf d = (d.wall + Fields.epoch).toNat / Fields.dayLength :=
  dayNumber_ofDayNumber _

theorem weekday_dayOf (d : ZonedDatetime) : Calendar.weekday (dayOf d) = weekdayOf d := by
  rw [dayOf_eq, weekdayOf]

/-- A reading on a later day is later. -/
theorem wall_lt_of_dayOf_lt {d d' : ZonedDatetime} (h : dayOf d < dayOf d') : d.wall < d'.wall := by
  rw [dayOf_eq, dayOf_eq] at h
  by_contra hle
  have hnat : (d'.wall + Fields.epoch).toNat ≤ (d.wall + Fields.epoch).toNat := by omega
  exact absurd (Nat.div_le_div_right hnat) (Nat.not_le.2 h)

theorem dayOf_addTimedelta (hrange : Fields.InRange localized.wall)
    (h : addTimedelta localized (days * Fields.dayLength) = .ok target) :
    dayOf target = dayOf localized + days := by
  rw [addTimedelta] at h
  split at h
  · obtain rfl := Except.ok.inj h
    have hnat : (localized.wall + days * Fields.dayLength + Fields.epoch).toNat =
        (localized.wall + Fields.epoch).toNat + days * Fields.dayLength := by
      have hlow := hrange.1
      omega
    rw [dayOf_eq, dayOf_eq]
    dsimp only
    rw [hnat, Nat.add_mul_div_right _ _ (by decide)]
  · exact absurd h (by simp)

/-- Where the reading of the current time is one of the calendar, that of the zone is, too. -/
theorem inRange_localize (hnow : now.InRange) (h : localize zone now = .ok localized) :
    Fields.InRange localized.wall := by
  cases now with
  | naive wall fold =>
    obtain rfl := Except.ok.inj h
    exact hnow
  | inZone wall fold =>
    obtain rfl := Except.ok.inj h
    exact hnow
  | aware wall utcoffset =>
    rw [localize] at h
    split at h
    · dsimp only at h
      split at h
      · rename_i hrange
        exact Except.ok.inj h ▸ hrange
      · exact absurd h (by simp)
    · exact absurd h (by simp)

/-- The time of a day some days away is on that day, to the minute. -/
theorem day_of_onDay (hrange : Fields.InRange localized.wall)
    (h : onDay unicode text.toList localized days = .ok (some runAt)) :
    dayOf runAt = dayOf localized + days ∧
      (∃ time, parseTimeOfDay unicode text.toList = .ok time ∧
        hourMinuteOf runAt = time.getD defaultHourMinute) ∧
      (Fields.ofWall runAt.wall).second = 0 ∧ (Fields.ofWall runAt.wall).microsecond = 0 := by
  obtain ⟨target, htarget, h⟩ := Raising.bind_eq_ok.1 h
  obtain ⟨time, htime, heq⟩ := Raising.map_eq_ok.1 h
  obtain rfl := Option.some.inj heq
  have hle := getD_of_parseTimeOfDay htime
  have hfields := ofWall_applyTime target hle.1 hle.2
  refine ⟨?_, ⟨time, htime, hourMinuteOf_applyTime target hle.1
    hle.2⟩, by rw [hfields], by rw [hfields]⟩
  rw [← dayOf_addTimedelta hrange htarget, dayOf, hfields, dayOf]

theorem lt_seven_of_mem {entry : List Char × ℕ} (h : entry ∈ weekdayNames) : entry.2 < 7 := by
  have htable : ∀ entry ∈ weekdayNames, entry.2 < 7 := by decide
  exact htable entry h

variable (localized) in
/-- The days until the next weekday lead to it. -/
theorem daysAhead_spec (hnumber : number < 7) : 1 ≤ daysAhead localized number ∧
    daysAhead localized number ≤ 7 ∧ Calendar.weekday (dayOf localized +
      daysAhead localized number) = number := by
  have hweekday := weekday_dayOf localized
  rw [Calendar.weekday] at hweekday ⊢
  rw [daysAhead]
  split <;> omega

/-! ## Recurrences -/

theorem reads_oneOf_of_mem {p q : Pattern Char} {ps : List (Pattern Char)} (hq : q ∈ p :: ps)
    (h : Reads isWord q before u after g) : Reads isWord (oneOf p ps) before u after g := by
  induction ps generalizing p with
  | nil =>
    obtain rfl := List.mem_singleton.1 hq
    exact h
  | cons r rs ih =>
    rcases List.mem_cons.1 hq with rfl | hq
    · exact .left h
    · exact .right (ih hq)

/-- A word is read where its end may be missing. -/
theorem reads_exactly_opt (h : List.Forall₂ (fun c x => isLetter c x = true) (cs ++ ds) w) :
    Reads unicode.isWord (.seq (exactly isLetter cs) (.opt (exactly isLetter ds))) before w
      after [] := by
  have hhead := List.forall₂_take cs.length h
  have htail := List.forall₂_drop cs.length h
  rw [List.take_left] at hhead
  rw [List.drop_left] at htail
  exact reads_seq.2 ⟨_, _, [], [], (List.take_append_drop cs.length w).symm, rfl,
    reads_exactly hhead, .some (reads_exactly htail)⟩

/-- The keywords are what the pattern has a choice of. -/
theorem reads_keyword {keyword : List Char} (hkeyword : keyword ∈ recurringKeywords)
    (h : List.Forall₂ (fun c x => isLetter c x = true) keyword w) :
    Reads unicode.isWord (oneOf (word "every")
      [word "each", word "daily", word "weekly", word "hourly", word "biweekly", word "fortnightly",
        .seq (word "weekday") (.opt (word "s")), .seq (word "weekend") (.opt (word "s"))]) before w
          after [] := by
  have hshort : ∀ {s : String}, List.Forall₂ (fun c x => isLetter c x = true) s.toList w →
      Reads unicode.isWord (.seq (word s) (.opt (word "s"))) before w after [] := by
    intro s h
    exact reads_seq.2 ⟨w, [], [], [], (List.append_nil w).symm, rfl, reads_exactly h, .none⟩
  simp only [recurringKeywords, List.mem_cons, List.not_mem_nil, or_false] at hkeyword
  rcases hkeyword with rfl | rfl | rfl | rfl | rfl | rfl | rfl | rfl | rfl | rfl | rfl
  · exact reads_oneOf_of_mem (q := word "every") (by simp) (reads_exactly h)
  · exact reads_oneOf_of_mem (q := word "each") (by simp) (reads_exactly h)
  · exact reads_oneOf_of_mem (q := word "daily") (by simp) (reads_exactly h)
  · exact reads_oneOf_of_mem (q := word "weekly") (by simp) (reads_exactly h)
  · exact reads_oneOf_of_mem (q := word "hourly") (by simp) (reads_exactly h)
  · exact reads_oneOf_of_mem (q := word "biweekly") (by simp) (reads_exactly h)
  · exact reads_oneOf_of_mem (q := word "fortnightly") (by simp) (reads_exactly h)
  · exact reads_oneOf_of_mem (q := .seq (word "weekday") (.opt (word "s"))) (by simp) (hshort h)
  · exact reads_oneOf_of_mem (q := .seq (word "weekday") (.opt (word "s"))) (by simp)
      (reads_exactly_opt h)
  · exact reads_oneOf_of_mem (q := .seq (word "weekend") (.opt (word "s"))) (by simp) (hshort h)
  · exact reads_oneOf_of_mem (q := .seq (word "weekend") (.opt (word "s"))) (by simp)
      (reads_exactly_opt h)

/-- What speaks of a recurrence is found by the pattern. -/
theorem search_of_speaksOfRecurrence {text : List Char} (h : SpeaksOfRecurrence unicode text) :
    (searchIn unicode recurringPattern text).isSome = true := by
  have hsmall : (recurringKeywords.all fun keyword =>
      keyword ≠ [] && keyword.all (· ∈ smallLetters)) = true := by
    decide
  simp only [List.all_eq_true, Bool.and_eq_true, decide_eq_true_eq] at hsmall
  obtain ⟨keyword, hkeyword, before, w, after, rfl, hword, hbefore, hafter⟩ := h
  obtain ⟨hne, hletters⟩ := hsmall keyword hkeyword
  have hall : ∀ x ∈ w, unicode.isWord x = true :=
    fun x hx => isWord_of_isSomeLetter (isSomeLetter_of_forall₂ hletters hword x hx)
  have hw : w ≠ [] := ne_nil_of_forall₂ hne hword
  have hstart : isBoundary unicode.isWord before.reverse (w ++ after) = true :=
    isBoundary_start hall hw (by rwa [List.head?_reverse])
  have hreads : Reads unicode.isWord recurringPattern before.reverse w after [(1, w)] := by
    refine reads_seq.2 ⟨[], w, [], _, rfl, rfl, .boundary hstart, ?_⟩
    refine reads_seq.2 ⟨w, [], [(1, w)], [], (List.append_nil w).symm, rfl, ?_,
      .boundary (isBoundary_end hall hw hafter)⟩
    exact .group (g := []) (reads_keyword hkeyword hword)
  obtain ⟨m, -, hm, -⟩ := exists_search hreads
  rw [searchIn, hm, Option.isSome_some]

/-! ## The parser -/

/-- The days "tomorrow" and "next <weekday>" are those of the calendar, at the time of day that is
    read, and later than the localized time; and no text that speaks of a recurrence has an
    answer. -/
theorem calendarDay_of_tryParse (hnow : now.InRange) :
    (searchIn unicode (inDurationPattern unicode) text.toList = none →
      ∀ runAt, tryParseOnceSchedule unicode zone text now = .ok (some runAt) →
        ∃ localized, localize zone now = .ok localized ∧
          DayMeant unicode text.toList (dayOf localized) (dayOf runAt) ∧
          (∃ time, parseTimeOfDay unicode text.toList = .ok time ∧
            hourMinuteOf runAt = time.getD defaultHourMinute) ∧
          (Fields.ofWall runAt.wall).second = 0 ∧ (Fields.ofWall runAt.wall).microsecond = 0 ∧
          localized.wall < runAt.wall) ∧
      (SpeaksOfRecurrence unicode text.toList → tryParseOnceSchedule unicode zone text now =
        .ok none) := by
  constructor
  · intro hduration runAt h
    rw [tryParseOnceSchedule] at h
    split at h
    · exact absurd h (by simp)
    obtain ⟨localized, hlocal, h⟩ := Raising.bind_eq_ok.1 h
    have hrange := inRange_localize hnow hlocal
    simp only [hduration] at h
    refine ⟨localized, hlocal, ?_⟩
    split at h
    · rename_i htomorrow
      obtain ⟨hday, htime, hsecond, hmicrosecond⟩ := day_of_onDay hrange h
      refine ⟨?_, htime, hsecond, hmicrosecond, wall_lt_of_dayOf_lt (by omega)⟩
      rw [DayMeant, if_pos htomorrow, hday]
    rename_i htomorrow
    split at h
    · exact absurd h (by simp)
    rename_i m hm
    split at h
    · exact absurd h (by simp)
    rename_i weekday hlookup
    obtain ⟨hday, htime, hsecond, hmicrosecond⟩ := day_of_onDay hrange h
    obtain ⟨entry, hentry, rfl, hname⟩ := lookup_weekday_eq_some hm hlookup
    obtain ⟨hlow, hhigh, hweekday⟩ := daysAhead_spec localized (lt_seven_of_mem hentry)
    refine ⟨?_, htime, hsecond, hmicrosecond, wall_lt_of_dayOf_lt (by omega)⟩
    rw [DayMeant, if_neg htomorrow, hday]
    exact ⟨m, hm, entry, hentry, hname, isLeast_weekday hlow hhigh hweekday, by omega⟩
  · intro hrecurring
    rw [tryParseOnceSchedule, if_pos (search_of_speaksOfRecurrence hrecurring)]

/-- From a Sunday, the next Friday is five days away. -/
theorem calendarDay_nextFriday :
    DayMeant .ascii "Next Friday at 5pm".toList (dayOf ⟨1780214400000000, false⟩)
    (dayOf ⟨1780678800000000, false⟩) := by
  have hduration :
      searchIn .ascii (inDurationPattern .ascii) "Next Friday at 5pm".toList = none := by
    decide +kernel
  have hparse : tryParseOnceSchedule .ascii .utc "Next Friday at 5pm" eightOClock =
      .ok (some ⟨1780678800000000, false⟩) := by decide +kernel
  have hnow : eightOClock.InRange := by
    rw [eightOClock, Now.InRange]
    decide
  obtain ⟨localized, hlocal, hday, -⟩ := (calendarDay_of_tryParse hnow).1 hduration _ hparse
  obtain rfl := Except.ok.inj hlocal
  exact hday

end SchedulerLm
