import SchedulerLm.Apscheduler
import SchedulerLm.Base.Calendar
import SchedulerLm.Base.Except
import SchedulerLm.Base.Regex
import SchedulerLm.Base.Zone

/-!
# Relative schedules

`try_parse_once_schedule`, which reads texts such as "in one hour" or "tomorrow at
5pm" without a model: "in N units", "tomorrow" and "next <weekday>", where neither a
recurrence is spoken of. The patterns ignore case as Unicode has it: there are four
letters besides those of ASCII that they take for one of these.

Of Unicode, what the patterns and the methods of strings ask for is a parameter
(`Unicode`).
-/

namespace SchedulerLm

open Calendar Zones Regex

/-! ## Characters -/

/-- The letters the patterns take for a letter of ASCII, besides its two cases. -/
def otherCases : List (Char × Char) := [('i', 'ı'), ('i', 'İ'), ('s', 'ſ'), ('k', '\u212A')]

/-- The character is the letter `c`, ignoring case. -/
def isLetter (c x : Char) : Bool := x = c || x = c.toUpper || (c, x) ∈ otherCases

/-- The small letters of ASCII. -/
def smallLetters : List Char := "abcdefghijklmnopqrstuvwxyz".toList

/-- `[a-z]`, ignoring case. -/
def isSomeLetter (x : Char) : Bool := smallLetters.any fun c => isLetter c x

/-- `lower`, on what `[a-z]` matches: the letter `İ` becomes an `i` with a dot. -/
def lowerLetter (x : Char) : List Char :=
  if x = 'İ' then ['i', '\u0307'] else if x = '\u212A' then ['k'] else [x.toLower]

/-- What the patterns and the methods of strings ask of a character, or of a text. -/
structure Unicode where
  /-- `isalnum`. -/
  isAlnum : Char → Bool
  /-- `isspace`. -/
  isSpace : Char → Bool
  /-- The value of a decimal digit. -/
  decimal : Char → Option ℕ
  /-- `isdigit`. -/
  isDigit : Char → Bool
  /-- `lower`. -/
  lower : List Char → List Char
  isDigit_decimal : ∀ {c}, decimal c ≠ none → isDigit c = true
  isDigit_letter : ∀ {c}, isSomeLetter c = true → isDigit c = false
  isAlnum_letter : ∀ {c}, isSomeLetter c = true → isAlnum c = true
  isSpace_letter : ∀ {c}, isSomeLetter c = true → isSpace c = false
  decimal_space : ∀ {c}, isSpace c = true → decimal c = none
  decimal_colon : decimal ':' = none
  isSpace_colon : isSpace ':' = false
  lower_decimals : ∀ {cs : List Char}, (∀ c ∈ cs, decimal c ≠ none) → lower cs = cs
  lower_letters : ∀ {cs : List Char}, (∀ c ∈ cs, isSomeLetter c = true) →
    lower cs = cs.flatMap lowerLetter

/-- What holds of the letters of ASCII and of the other cases holds of all that are taken for
    a letter. -/
theorem forall_isSomeLetter {p : Char → Bool}
    (hsmall : (smallLetters.all fun c => p c && p c.toUpper) = true)
    (hother : (otherCases.all fun pair => p pair.2) = true) {x : Char} (h : isSomeLetter x = true) :
    p x = true := by
  obtain ⟨c, hc, hx⟩ := List.any_eq_true.1 h
  obtain ⟨hc, hupper⟩ := Bool.and_eq_true_iff.1 (List.all_eq_true.1 hsmall c hc)
  rw [isLetter, Bool.or_eq_true, Bool.or_eq_true, decide_eq_true_eq, decide_eq_true_eq,
    decide_eq_true_eq] at hx
  rcases hx with (rfl | rfl) | hx
  · exact hc
  · exact hupper
  · exact List.all_eq_true.1 hother (c, x) hx

/-- The digits of ASCII. -/
def asciiDigits : List Char := "0123456789".toList

theorem idxOf?_asciiDigits_of_isSomeLetter {c : Char} (h : isSomeLetter c = true) :
    (asciiDigits.idxOf? c).isSome = false := by
  have hnone : (asciiDigits.idxOf? c).isNone = true :=
    forall_isSomeLetter (p := fun c => (asciiDigits.idxOf? c).isNone) (by decide) (by decide) h
  rw [Option.isNone_iff_eq_none] at hnone
  rw [hnone, Option.isSome_none]

theorem isWhitespace_of_isSomeLetter {c : Char} (h : isSomeLetter c = true) :
    c.isWhitespace = false := by
  have hnot : (!c.isWhitespace) = true :=
    forall_isSomeLetter (p := fun c => !c.isWhitespace) (by decide) (by decide) h
  simpa using hnot

theorem idxOf?_asciiDigits_of_isWhitespace {c : Char} (h : c.isWhitespace = true) :
    asciiDigits.idxOf? c = none := by
  have hdigits : (asciiDigits.all fun d => !d.isWhitespace) = true := by decide
  refine List.idxOf?_eq_none_iff.2 fun hc => ?_
  have hnot := List.all_eq_true.1 hdigits c hc
  rw [h] at hnot
  exact absurd hnot (by simp)

theorem flatMap_lowerLetter_digits {cs : List Char} (h : ∀ c ∈ cs, asciiDigits.idxOf? c ≠ none) :
    cs.flatMap lowerLetter = cs := by
  have hlower : (asciiDigits.all fun d => lowerLetter d = [d]) = true := by decide
  refine (List.flatMap_congr fun c hc => ?_).trans (List.flatMap_singleton' cs)
  have hdigit := h c hc
  rw [ne_eq, List.idxOf?_eq_none_iff, not_not] at hdigit
  exact of_decide_eq_true (List.all_eq_true.1 hlower c hdigit)

/-- The digits and letters of ASCII, and the other cases of letters. -/
def Unicode.ascii : Unicode where
  isAlnum c := c.isAlphanum || isSomeLetter c
  isSpace c := c.isWhitespace
  decimal c := asciiDigits.idxOf? c
  isDigit c := (asciiDigits.idxOf? c).isSome
  lower cs := cs.flatMap lowerLetter
  isDigit_decimal h := Option.isSome_iff_ne_none.2 h
  isDigit_letter := idxOf?_asciiDigits_of_isSomeLetter
  isAlnum_letter h := by rw [h, Bool.or_true]
  isSpace_letter := isWhitespace_of_isSomeLetter
  decimal_space := idxOf?_asciiDigits_of_isWhitespace
  decimal_colon := rfl
  isSpace_colon := rfl
  lower_decimals := flatMap_lowerLetter_digits
  lower_letters _ := rfl

variable (unicode : Unicode)

/-- `\w`. -/
def Unicode.isWord (c : Char) : Bool := unicode.isAlnum c || c = '_'

/-- `\d`. -/
def Unicode.isDecimal (c : Char) : Bool := (unicode.decimal c).isSome

/-! ## Tables -/

/-- `WEEKDAY_NAMES`. -/
def weekdayNames : List (List Char × ℕ) :=
  [("monday".toList, 0), ("tuesday".toList, 1), ("wednesday".toList, 2), ("thursday".toList, 3),
    ("friday".toList, 4), ("saturday".toList, 5), ("sunday".toList, 6)]

/-- `WORD_NUMBERS`. -/
def wordNumbers : List (List Char × ℕ) :=
  [("a".toList, 1), ("an".toList, 1), ("one".toList, 1), ("two".toList, 2), ("three".toList, 3),
    ("four".toList, 4), ("five".toList, 5), ("six".toList, 6), ("seven".toList, 7),
    ("eight".toList, 8), ("nine".toList, 9), ("ten".toList, 10)]

/-- `TIME_OF_DAY`. -/
def timeOfDay : List (List Char × ℕ × ℕ) :=
  [("morning".toList, 9, 0), ("noon".toList, 12, 0), ("afternoon".toList, 14, 0),
    ("evening".toList, 18, 0), ("midnight".toList, 0, 0)]

/-- `DEFAULT_HOUR_MINUTE`. -/
def defaultHourMinute : ℕ × ℕ := (9, 0)

/-! ## Patterns -/

/-- The characters of a word, one after another. -/
def exactly (p : Char → Char → Bool) : List Char → Pattern Char
  | [] => .chars (fun _ => false) 0 (some 0)
  | [c] => .chars (p c) 1 (some 1)
  | c :: cs => .seq (.chars (p c) 1 (some 1)) (exactly p cs)

/-- A word, ignoring case. -/
def word (w : String) : Pattern Char := exactly isLetter w.toList

/-- One of some patterns, tried in order. -/
def oneOf : Pattern Char → List (Pattern Char) → Pattern Char
  | p, [] => p
  | p, q :: qs => .alt p (oneOf q qs)

/-- Some patterns, one after another. -/
def sequence : Pattern Char → List (Pattern Char) → Pattern Char
  | p, [] => p
  | p, q :: qs => .seq p (sequence q qs)

/-- `\s+`. -/
def spaces : Pattern Char := .chars unicode.isSpace 1 none

/-- `RECURRING_PATTERN`. -/
def recurringPattern : Pattern Char :=
  sequence .boundary
    [.group 1 (oneOf (word "every")
      [word "each", word "daily", word "weekly", word "hourly", word "biweekly", word "fortnightly",
        .seq (word "weekday") (.opt (word "s")), .seq (word "weekend") (.opt (word "s"))]),
      .boundary]

/-- `AT_TIME_PATTERN`. -/
def atTimePattern : Pattern Char :=
  sequence (.opt (sequence .boundary [word "at", spaces unicode]))
    [.group 1 (.chars unicode.isDecimal 1 (some 2)),
      .opt (.seq (.chars (· = ':') 1 (some 1)) (.group 2 (.chars unicode.isDecimal 2 (some 2)))),
      .chars unicode.isSpace 0 none, .group 3 (oneOf (word "am") [word "pm"]), .boundary]

/-- `IN_DURATION_PATTERN`. -/
def inDurationPattern : Pattern Char :=
  sequence .boundary
    [word "in", spaces unicode,
      .group 1 (.alt (.chars isSomeLetter 1 none) (.chars unicode.isDecimal 1 none)),
      spaces unicode, .group 2 (oneOf (word "second")
        [word "seconds", word "minute", word "minutes", word "hour", word "hours", word "day",
          word "days"]),
      .boundary]

/-- `TOMORROW_PATTERN`. -/
def tomorrowPattern : Pattern Char := sequence .boundary [word "tomorrow", .boundary]

/-- `NEXT_WEEKDAY_PATTERN`. -/
def nextWeekdayPattern : Pattern Char :=
  sequence .boundary
    [word "next", spaces unicode,
      .group 1 (oneOf (word "monday")
        [word "tuesday", word "wednesday", word "thursday", word "friday", word "saturday",
          word "sunday"]),
      .boundary]

/-- `\bkeyword\b`. -/
def keywordPattern (keyword : List Char) : Pattern Char :=
  sequence .boundary [exactly (fun c x => x = c) keyword, .boundary]

/-- `pattern.search(text)`. -/
def searchIn (pattern : Pattern Char) (text : List Char) : Option (Match Char) :=
  search unicode.isWord pattern text

/-- What a group has captured; the patterns ask for groups that are there. -/
def captured (m : Match Char) (n : ℕ) : List Char := (m.group n).getD []

/-! ## Times -/

/-- `int(digits)`: at most 4300 digits are read. -/
def readInteger (digits : List Char) : Except Exn ℕ :=
  if 4300 < digits.length then .error .valueError
  else
    match digits.mapM unicode.decimal with
    | none => .error .valueError
    | some ds => .ok (ds.foldl (fun n d => n * 10 + d) 0)

/-- `_parse_at_time`. -/
def parseAtTime (text : List Char) : Except Exn (Option (ℕ × ℕ)) :=
  match searchIn unicode (atTimePattern unicode) text with
  | none => .ok none
  | some m =>
    (readInteger unicode (captured m 1)).bind fun hour =>
    ((m.group 2).elim (.ok 0) (readInteger unicode)).bind fun minute =>
    let meridiem := unicode.lower (captured m 3)
    let hour :=
      if meridiem = "pm".toList ∧ hour ≠ 12 then hour + 12
      else if meridiem = "am".toList ∧ hour = 12 then 0
      else hour
    .ok (if hour ≤ 23 ∧ minute ≤ 59 then some (hour, minute) else none)

/-- The first word of `TIME_OF_DAY` that is in the text. -/
def timeOfDayWord (text : List Char) : Option (ℕ × ℕ) :=
  (timeOfDay.find? fun entry =>
    (searchIn unicode (keywordPattern entry.1) (unicode.lower text)).isSome).map Prod.snd

/-- `_parse_time_of_day`. -/
def parseTimeOfDay (text : List Char) : Except Exn (Option (ℕ × ℕ)) :=
  match timeOfDayWord unicode text with
  -- A word comes before any time of day in the text.
  | some hourMinute => .ok (some hourMinute)
  | none => parseAtTime unicode text

/-! ## Datetimes -/

/-- The current time: naive, of the time zone itself, or with an offset of its own. -/
inductive Now
  | naive (wall : Int) (fold : Bool)
  | inZone (wall : Int) (fold : Bool)
  | aware (wall utcoffset : Int)
  deriving DecidableEq

variable (zone : Zone)

/-- The instant; a naive time is one of the time zone. -/
def Now.instant : Now → Instant
  | .naive wall fold | .inZone wall fold => zone.instant ⟨wall, fold⟩
  | .aware wall utcoffset => wall - utcoffset

/-- `_localize`: a time of the zone is left as it is, and another one goes through
    UTC, which has to exist. -/
def localize : Now → Except Exn ZonedDatetime
  | .naive wall fold => .ok ⟨wall, fold⟩
  | .inZone wall fold => .ok ⟨wall, fold⟩
  | .aware wall utcoffset =>
    if Fields.InRange (wall - utcoffset) then
      let d := zone.fromUtc (wall - utcoffset)
      if Fields.InRange d.wall then .ok d else .error .overflowError
    else .error .overflowError

/-- The longest `timedelta`, in microseconds. -/
def maxDelta : Int := 1000000000 * Fields.dayLength - 1

/-- `timedelta`, of some microseconds. -/
def timedelta (microseconds : Int) : Except Exn Int :=
  if microseconds ≤ maxDelta then .ok microseconds else .error .overflowError

/-- The sum of a datetime and a `timedelta`: the wall clock is moved, and the fold is
    lost. -/
def addTimedelta (d : ZonedDatetime) (delta : Int) : Except Exn ZonedDatetime :=
  if Fields.InRange (d.wall + delta) then .ok ⟨d.wall + delta, false⟩ else .error .overflowError

/-- `weekday`, from Monday (`0`) on. -/
def weekdayOf (d : ZonedDatetime) : ℕ :=
  Calendar.weekday ((d.wall + Fields.epoch).toNat / Fields.dayLength)

/-- `_apply_time`. -/
def applyTime (base : ZonedDatetime) (hourMinute : ℕ × ℕ) : ZonedDatetime :=
  { base with
    wall := Fields.wall
      { Fields.ofWall base.wall with
        hour := hourMinute.1, minute := hourMinute.2, second := 0, microsecond := 0 } }

/-! ## The parser -/

/-- The length of a unit, in microseconds. -/
def unitLength (unit : List Char) : Option Int :=
  if unit = "second".toList ∨ unit = "seconds".toList then some second
  else if unit = "minute".toList ∨ unit = "minutes".toList then some (60 * second)
  else if unit = "hour".toList ∨ unit = "hours".toList then some (3600 * second)
  else if unit = "day".toList ∨ unit = "days".toList then some (86400 * second)
  else none

/-- The amount of a duration: digits, or a word for a number. -/
def readAmount (raw : List Char) : Except Exn (Option ℕ) :=
  if raw ≠ [] ∧ raw.all unicode.isDigit then (readInteger unicode raw).map some
  else .ok (wordNumbers.lookup raw)

/-- The branch of `IN_DURATION_PATTERN`. -/
def inDuration (localized : ZonedDatetime) (m : Match Char) : Except Exn (Option ZonedDatetime) :=
  (readAmount unicode (unicode.lower (captured m 1))).bind fun amount =>
  match amount with
  | none => .ok none
  | some amount =>
    match unitLength (unicode.lower (captured m 2)) with
    | none => .ok none
    | some length =>
      (timedelta (amount * length)).bind fun delta => (addTimedelta localized delta).map some

/-- The time of a day that is some days away. -/
def onDay (text : List Char) (localized : ZonedDatetime) (days : ℕ) :
    Except Exn (Option ZonedDatetime) :=
  (addTimedelta localized (days * Fields.dayLength)).bind fun target =>
  (parseTimeOfDay unicode text).map fun hourMinute =>
  some (applyTime target (hourMinute.getD defaultHourMinute))

/-- The days until the next weekday of a number. -/
def daysAhead (localized : ZonedDatetime) (weekday : ℕ) : ℕ :=
  if weekday ≤ weekdayOf localized then weekday + 7 - weekdayOf localized
  else weekday - weekdayOf localized

/-- `try_parse_once_schedule`: the `run_at` of the trigger, if there is one. -/
def tryParseOnceSchedule (text : String) (now : Now) : Except Exn (Option ZonedDatetime) :=
  if (searchIn unicode recurringPattern text.toList).isSome then .ok none
  else
    -- Nothing below is guarded: what is raised is raised to the route.
    (localize zone now).bind fun localized =>
    match searchIn unicode (inDurationPattern unicode) text.toList with
    | some m => inDuration unicode localized m
    | none =>
      if (searchIn unicode tomorrowPattern text.toList).isSome
        then onDay unicode text.toList localized 1
      else
        match searchIn unicode (nextWeekdayPattern unicode) text.toList with
        | none => .ok none
        | some m =>
          -- The pattern ignores case as Unicode has it, and `lower` does not.
          match weekdayNames.lookup (unicode.lower (captured m 1)) with
          | none => .error .keyError
          | some weekday => onDay unicode text.toList localized (daysAhead localized weekday)

end SchedulerLm
