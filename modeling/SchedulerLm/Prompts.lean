import SchedulerLm.CalendarDays
import SchedulerLm.TriggerParse

/-!
# Prompts

The prompt of the model has examples of relative dates, for which
`build_trigger_parse_placeholders` puts in datetimes it computes itself. They are those
the relative parser has for the same texts (`examples_of_placeholders`): the examples are in
printable characters of ASCII, on which it is known what the parser reads
(`tryParse_congr`).
-/

namespace SchedulerLm

open Calendar Zones Regex

/-! ## Characters of ASCII -/

/-- The printable characters of ASCII. -/
def printable : List Char := (List.range 95).map fun n => Char.ofNat (n + 32)

/-- On printable characters of ASCII, the methods of characters are those of ASCII. -/
structure Unicode.ExtendsAscii (unicode : Unicode) : Prop where
  isAlnum : ∀ c ∈ printable, unicode.isAlnum c = Unicode.ascii.isAlnum c
  isSpace : ∀ c ∈ printable, unicode.isSpace c = Unicode.ascii.isSpace c
  decimal : ∀ c ∈ printable, unicode.decimal c = Unicode.ascii.decimal c
  isDigit : ∀ c ∈ printable, unicode.isDigit c = Unicode.ascii.isDigit c
  lower : ∀ cs : List Char, (∀ c ∈ cs, c ∈ printable) → unicode.lower cs = Unicode.ascii.lower cs

theorem extendsAscii_ascii : Unicode.ascii.ExtendsAscii :=
  ⟨fun _ _ => rfl, fun _ _ => rfl, fun _ _ => rfl, fun _ _ => rfl, fun _ _ => rfl⟩

variable {unicode : Unicode} {zone : Zone} {timezone : String} {now : Now}
  {localized : ZonedDatetime} {text : List Char} {pat pat' : Pattern Char} {m : Match Char}

theorem mem_printable_of_lower (h : ∀ c ∈ text, c ∈ printable) :
    ∀ c ∈ Unicode.ascii.lower text, c ∈ printable := by
  have hlower : (printable.all fun c => (lowerLetter c).all (· ∈ printable)) =
      true := by decide +kernel
  simp only [List.all_eq_true, decide_eq_true_eq] at hlower
  intro x hx
  obtain ⟨c, hc, hcx⟩ := List.mem_flatMap.1 hx
  exact hlower c (h c hc) x hcx

theorem mem_printable_of_captured {n : ℕ} (h : ∀ c ∈ text, c ∈ printable)
    (hm : searchIn unicode pat text = some m) :
    ∀ c ∈ captured m n, c ∈ printable :=
  fun c hc => h c ((infix_captured hm n).subset hc)

/-- What the parser reads in a text of printable characters of ASCII does not depend on
    the others. -/
theorem searchIn_congr (hunicode : unicode.ExtendsAscii) (h : ∀ c ∈ text, c ∈ printable)
    (hpat : Agree (· ∈ printable) pat pat') :
    searchIn unicode pat text = searchIn .ascii pat' text := by
  have hword : ∀ c, c ∈ printable → unicode.isWord c = Unicode.ascii.isWord c := by
    intro c hc
    rw [Unicode.isWord, Unicode.isWord, hunicode.isAlnum c hc]
  exact search_congr hpat hword h

theorem isDecimal_congr (hunicode : unicode.ExtendsAscii) :
    ∀ c, c ∈ printable → unicode.isDecimal c = Unicode.ascii.isDecimal c := by
  intro c hc
  rw [Unicode.isDecimal, Unicode.isDecimal, hunicode.decimal c hc]

theorem agree_inDuration (hunicode : unicode.ExtendsAscii) :
    Agree (· ∈ printable) (inDurationPattern unicode) (inDurationPattern .ascii) := by
  have hspaces : Agree (· ∈ printable) (spaces unicode) (spaces .ascii) := .chars hunicode.isSpace
  have hamount : Agree (· ∈ printable) (.alt (.chars isSomeLetter 1 none)
    (.chars unicode.isDecimal 1 none))
      (.alt (.chars isSomeLetter 1 none) (.chars Unicode.ascii.isDecimal 1 none)) :=
    .alt (.refl _ _) (.chars (isDecimal_congr hunicode))
  exact .seq .boundary (.seq (.refl _ _) (.seq hspaces (.seq (.group hamount)
    (.seq hspaces (.refl _ _)))))

theorem agree_atTime (hunicode : unicode.ExtendsAscii) :
    Agree (· ∈ printable) (atTimePattern unicode) (atTimePattern .ascii) := by
  have hdecimal : ∀ {lo hi}, Agree (· ∈ printable) (.chars unicode.isDecimal lo hi)
      (.chars Unicode.ascii.isDecimal lo hi) := .chars (isDecimal_congr hunicode)
  have hat : Agree (· ∈ printable) (.opt (sequence .boundary [word "at", spaces unicode]))
      (.opt (sequence .boundary [word "at", spaces .ascii])) :=
    .opt (.seq .boundary (.seq (.refl _ _) (.chars hunicode.isSpace)))
  exact .seq hat (.seq (.group hdecimal) (.seq (.opt (.seq (.refl _ _) (.group hdecimal)))
    (.seq (.chars hunicode.isSpace) (.refl _ _))))

theorem agree_nextWeekday (hunicode : unicode.ExtendsAscii) :
    Agree (· ∈ printable) (nextWeekdayPattern unicode) (nextWeekdayPattern .ascii) :=
  .seq .boundary (.seq (.refl _ _) (.seq (.chars hunicode.isSpace) (.refl _ _)))

theorem readInteger_congr (hunicode : unicode.ExtendsAscii) (h : ∀ c ∈ text, c ∈ printable) :
    readInteger unicode text = readInteger .ascii text := by
  have hdecimals : text.mapM unicode.decimal = text.mapM Unicode.ascii.decimal := by
    induction text with
    | nil => rfl
    | cons c cs ih =>
      rw [List.mapM_cons, List.mapM_cons, hunicode.decimal c (h c List.mem_cons_self),
        ih fun x hx => h x (List.mem_cons_of_mem c hx)]
  rw [readInteger, readInteger, hdecimals]

theorem parseAtTime_congr (hunicode : unicode.ExtendsAscii) (h : ∀ c ∈ text, c ∈ printable) :
    parseAtTime unicode text = parseAtTime .ascii text := by
  rw [parseAtTime, parseAtTime, searchIn_congr hunicode h (agree_atTime hunicode)]
  rcases hm : searchIn .ascii (atTimePattern .ascii) text with _ | m
  · rfl
  · have hminute : (m.group 2).elim (.ok 0) (readInteger unicode) =
        (m.group 2).elim (.ok 0) (readInteger .ascii) := by
      rcases hv : m.group 2 with _ | v
      · rfl
      · exact readInteger_congr hunicode fun c hc => h c ((infix_of_search hm hv).subset hc)
    dsimp only
    rw [readInteger_congr hunicode (mem_printable_of_captured h hm), hminute,
      hunicode.lower _ (mem_printable_of_captured h hm)]

theorem parseTimeOfDay_congr (hunicode : unicode.ExtendsAscii) (h : ∀ c ∈ text, c ∈ printable) :
    parseTimeOfDay unicode text = parseTimeOfDay .ascii text := by
  have hword : timeOfDayWord unicode text = timeOfDayWord .ascii text := by
    have hfind : ∀ entry : List Char × ℕ × ℕ, searchIn unicode (keywordPattern entry.1)
      (unicode.lower text) =
        searchIn .ascii (keywordPattern entry.1) (Unicode.ascii.lower text) := by
      intro entry
      rw [hunicode.lower text h]
      exact searchIn_congr hunicode (mem_printable_of_lower h) (.refl _ _)
    rw [timeOfDayWord, timeOfDayWord]
    simp only [hfind]
  rw [parseTimeOfDay, parseTimeOfDay, hword, parseAtTime_congr hunicode h]

theorem readAmount_congr (hunicode : unicode.ExtendsAscii) (h : ∀ c ∈ text, c ∈ printable) :
    readAmount unicode text = readAmount .ascii text := by
  have hdigits : text.all unicode.isDigit = text.all Unicode.ascii.isDigit := by
    rw [Bool.eq_iff_iff, List.all_eq_true, List.all_eq_true]
    exact forall₂_congr fun c hc => by rw [hunicode.isDigit c (h c hc)]
  rw [readAmount, readAmount, hdigits, readInteger_congr hunicode h]

theorem inDuration_congr (hunicode : unicode.ExtendsAscii)
    (h : ∀ n, ∀ c ∈ captured m n, c ∈ printable) :
    inDuration unicode localized m = inDuration .ascii localized m := by
  rw [inDuration, inDuration, hunicode.lower _ (h 1), hunicode.lower _ (h 2),
    readAmount_congr hunicode (mem_printable_of_lower (h 1))]

theorem onDay_congr {days : ℕ} (hunicode : unicode.ExtendsAscii) (h : ∀ c ∈ text, c ∈ printable) :
    onDay unicode text localized days = onDay .ascii text localized days := by
  rw [onDay, onDay, parseTimeOfDay_congr hunicode h]

/-- On printable characters of ASCII, the parser does what it does for those alone. -/
theorem tryParse_congr {text : String} (hunicode : unicode.ExtendsAscii)
    (h : ∀ c ∈ text.toList, c ∈ printable) :
    tryParseOnceSchedule unicode zone text now = tryParseOnceSchedule .ascii zone text now := by
  rw [tryParseOnceSchedule, tryParseOnceSchedule,
    searchIn_congr hunicode h (.refl _ recurringPattern),
    searchIn_congr hunicode h (agree_inDuration hunicode),
      searchIn_congr hunicode h (.refl _ tomorrowPattern),
    searchIn_congr hunicode h (agree_nextWeekday hunicode)]
  rcases hduration : searchIn .ascii (inDurationPattern .ascii) text.toList with _ | m
  · rcases hnext : searchIn .ascii (nextWeekdayPattern .ascii) text.toList with _ | m
    · simp only [onDay_congr hunicode h]
    · simp only [onDay_congr hunicode h, hunicode.lower _ (mem_printable_of_captured h hnext)]
  · simp only [inDuration_congr hunicode fun _ => mem_printable_of_captured h hduration]

/-! ## The examples of the prompt -/

variable (zone) in
/-- `isoformat`, of a reading of a zone. -/
def isoformatIn (d : ZonedDatetime) : String := Datetime.isoformat ⟨d.wall, some (zone.utcoffset d)⟩

/-- The placeholders of the examples, in the order of `buildTriggerParsePlaceholders`. -/
def examplePlaceholders : List String :=
  ["[INJECT_TOMORROW_MORNING_ISO]", "[INJECT_TOMORROW_0815_ISO]", "[INJECT_NEXT_FRIDAY_5PM_ISO]",
    "[INJECT_ONE_HOUR_LATER_ISO]", "[INJECT_NEXT_TUESDAY_9AM_ISO]"]

variable (zone timezone now) in
/-- `build_trigger_parse_placeholders`: the placeholders and what is put in for them. The time
    is localized as the relative parser does it (`_localize_now`). -/
def triggerParsePlaceholders : Except Exn (List (String × String)) :=
  (localize zone now).bind fun localized =>
  (buildTriggerParsePlaceholders localized).map fun examples =>
  ("[INJECT_CURRENT_ISO_DATETIME]", isoformatIn zone localized) ::
    ("[INJECT_DEFAULT_TIMEZONE]", timezone) ::
    ("[INJECT_CURRENT_DATE]", .ofList (Iso8601.formatDate (Fields.ofWall localized.wall))) ::
    examplePlaceholders.zip (examples.map (isoformatIn zone))

/-- The texts of the examples of `trigger_parse.txt` that have one of these placeholders. -/
def promptExamples : List (String × String) :=
  [("tomorrow morning", "[INJECT_TOMORROW_MORNING_ISO]"),
    ("Tomorrow at 8:15 AM", "[INJECT_TOMORROW_0815_ISO]"),
    ("Next Friday at 5pm", "[INJECT_NEXT_FRIDAY_5PM_ISO]"),
    ("In one hour", "[INJECT_ONE_HOUR_LATER_ISO]"),
    ("Next Tuesday at 9am", "[INJECT_NEXT_TUESDAY_9AM_ISO]")]

/-! ## What the parser has for them -/

variable {time : ℕ × ℕ} {runAt : ZonedDatetime}

/-- A day that can be reached is the answer, at the time that is read. -/
theorem onDay_of_addTimedelta {days : ℕ} {target : ZonedDatetime}
    (htarget : addTimedelta localized (days * Fields.dayLength) = .ok target)
    (htime : parseTimeOfDay unicode text = .ok (some time)) :
    onDay unicode text localized days = .ok (some (applyTime target time)) := by
  rw [onDay, htarget, htime]
  rfl

theorem tryParse_tomorrow {text : String} {target : ZonedDatetime}
    (hrecurring : (searchIn unicode recurringPattern text.toList).isSome = false)
    (hduration : searchIn unicode (inDurationPattern unicode) text.toList = none)
    (htomorrow : (searchIn unicode tomorrowPattern text.toList).isSome = true)
    (htime : parseTimeOfDay unicode text.toList = .ok (some time))
    (hlocal : localize zone now = .ok localized)
    (htarget : addTimedelta localized Fields.dayLength = .ok target) :
    tryParseOnceSchedule unicode zone text now = .ok (some (applyTime target time)) := by
  rw [tryParseOnceSchedule, hrecurring, if_neg (by simp), hlocal, hduration]
  simp only [Except.bind, htomorrow, if_true]
  exact onDay_of_addTimedelta (by rwa [Int.natCast_one, Int.one_mul]) htime

theorem tryParse_nextWeekday {text : String} {target : ZonedDatetime} {weekday : ℕ}
    (hrecurring : (searchIn unicode recurringPattern text.toList).isSome = false)
    (hduration : searchIn unicode (inDurationPattern unicode) text.toList = none)
    (htomorrow : (searchIn unicode tomorrowPattern text.toList).isSome = false)
    (hm : searchIn unicode (nextWeekdayPattern unicode) text.toList = some m)
    (hlookup : weekdayNames.lookup (unicode.lower (captured m 1)) = some weekday)
    (htime : parseTimeOfDay unicode text.toList = .ok (some time))
    (hlocal : localize zone now = .ok localized) (htarget : addTimedelta localized
      (daysAhead localized weekday * Fields.dayLength) = .ok target) :
    tryParseOnceSchedule unicode zone text now = .ok (some (applyTime target time)) := by
  rw [tryParseOnceSchedule, hrecurring, if_neg (by simp), hlocal, hduration]
  simp only [Except.bind, htomorrow, Bool.false_eq_true, if_false, hm, hlookup]
  exact onDay_of_addTimedelta htarget htime

/-- The datetimes in the prompt are those the relative parser has for the examples. -/
theorem examples_of_placeholders (hunicode : unicode.ExtendsAscii) {values : List (String × String)}
    (h : triggerParsePlaceholders zone timezone now = .ok values) :
    ∀ entry ∈ promptExamples, ∃ runAt, tryParseOnceSchedule unicode zone entry.1 now =
      .ok (some runAt) ∧ values.lookup entry.2 = some (isoformatIn zone runAt) := by
  obtain ⟨localized, hlocal, h⟩ := Raising.bind_eq_ok.1 h
  obtain ⟨readings, hreadings, rfl⟩ := Raising.map_eq_ok.1 h
  obtain ⟨tomorrow, htomorrow, hreadings⟩ := Raising.bind_eq_ok.1 hreadings
  obtain ⟨nextFriday, hfriday, hreadings⟩ := Raising.bind_eq_ok.1 hreadings
  obtain ⟨oneHourLater, hhour, hreadings⟩ := Raising.bind_eq_ok.1 hreadings
  obtain ⟨nextTuesday, htuesday, rfl⟩ := Raising.map_eq_ok.1 hreadings
  have hprintable : (promptExamples.all fun entry => entry.1.toList.all fun c =>
      c ∈ printable) = true := by
    decide +kernel
  intro entry hentry
  rw [tryParse_congr hunicode (forall_mem_of_all (List.all_eq_true.1 hprintable entry hentry))]
  simp only [promptExamples, List.mem_cons, List.not_mem_nil, or_false] at hentry
  rcases hentry with rfl | rfl | rfl | rfl | rfl
  · have htime : parseTimeOfDay .ascii "tomorrow morning".toList =
        .ok (some (9, 0)) := by decide +kernel
    exact ⟨_, tryParse_tomorrow (by decide +kernel) (by decide +kernel)
      (by decide +kernel) htime hlocal
      htomorrow, rfl⟩
  · have htime : parseTimeOfDay .ascii "Tomorrow at 8:15 AM".toList =
        .ok (some (8, 15)) := by decide +kernel
    exact ⟨_, tryParse_tomorrow (by decide +kernel) (by decide +kernel)
      (by decide +kernel) htime hlocal
      htomorrow, rfl⟩
  · have hm : searchIn .ascii (nextWeekdayPattern .ascii) "Next Friday at 5pm".toList =
        some ⟨"Next Friday".toList, " at 5pm".toList, [(1, "Friday".toList)]⟩ := by decide +kernel
    have hlookup : weekdayNames.lookup (Unicode.ascii.lower "Friday".toList) =
        some 4 := by decide +kernel
    have htime : parseTimeOfDay .ascii "Next Friday at 5pm".toList =
        .ok (some (17, 0)) := by decide +kernel
    exact ⟨_, tryParse_nextWeekday (by decide +kernel) (by decide +kernel)
      (by decide +kernel) hm hlookup htime
      hlocal hfriday, rfl⟩
  · have hduration : durationOf .ascii "In one hour" = some (1, 3600000000) := by decide +kernel
    have hdelta : timedelta ((1 : ℕ) * 3600000000) = .ok (3600 * second) := rfl
    refine ⟨oneHourLater, ?_, rfl⟩
    rw [tryParse_of_durationOf hduration hlocal, hdelta]
    exact Raising.map_eq_ok.2 ⟨oneHourLater, hhour, rfl⟩
  · have hm : searchIn .ascii (nextWeekdayPattern .ascii) "Next Tuesday at 9am".toList =
        some ⟨"Next Tuesday".toList, " at 9am".toList, [(1, "Tuesday".toList)]⟩ := by decide +kernel
    have hlookup : weekdayNames.lookup (Unicode.ascii.lower "Tuesday".toList) =
        some 1 := by decide +kernel
    have htime : parseTimeOfDay .ascii "Next Tuesday at 9am".toList =
        .ok (some (9, 0)) := by decide +kernel
    exact ⟨_, tryParse_nextWeekday (by decide +kernel) (by decide +kernel)
      (by decide +kernel) hm hlookup htime
      hlocal htuesday, rfl⟩

/-- Eight in the morning of 31 May 2026 is a Sunday, and the next Friday is 5 June. -/
theorem examples_eightOClock : ∃ runAt,
    tryParseOnceSchedule .ascii .utc "Next Friday at 5pm" eightOClock = .ok (some runAt) ∧
      isoformatIn .utc runAt = "2026-06-05T17:00:00+00:00" := by
  obtain ⟨values, hvalues, hlookup⟩ : ∃ values,
    triggerParsePlaceholders .utc "UTC" eightOClock = .ok values ∧
      values.lookup "[INJECT_NEXT_FRIDAY_5PM_ISO]" = some "2026-06-05T17:00:00+00:00" :=
        ⟨_, rfl, by decide +kernel⟩
  obtain ⟨runAt, hrunAt, hiso⟩ := examples_of_placeholders extendsAscii_ascii hvalues
    ("Next Friday at 5pm", "[INJECT_NEXT_FRIDAY_5PM_ISO]") (by decide)
  exact ⟨runAt, hrunAt, Option.some.inj (hiso.symm.trans hlookup)⟩

end SchedulerLm
