import SchedulerLm.Base.Calendar

/-!
# ISO 8601

Datetimes as texts: `format` writes what a clock shows, with its distance from
UTC if it has one, and `parse` reads it. What is read may be written in other ways
as well: without separators, by week, with fewer parts, with any separator between
the date and the time.

The texts written are read as what was written (`parse_format`). The proof follows
the text: `digits` reads what `pad` has written, and each part of the reader is
run on the part of the text it is for.
-/

namespace Iso8601

open Calendar

/-! ## Digits -/

/-- The value of a digit. -/
def digitValue (c : Char) : ℕ := c.toNat - '0'.toNat

/-- The number some digits show. -/
def value (cs : List Char) : ℕ := cs.foldl (fun n c => n * 10 + digitValue c) 0

/-- `k` digits for the number `n`. -/
def pad : ℕ → ℕ → List Char
  | 0, _ => []
  | k + 1, n => pad k (n / 10) ++ [Nat.digitChar (n % 10)]

/-- Reads `k` digits. -/
def digits (k : ℕ) (cs : List Char) : Option (ℕ × List Char) :=
  if (cs.take k).length = k ∧ (cs.take k).all Char.isDigit then
    some (value (cs.take k), cs.drop k)
  else none

/-! ## Writing -/

/-- `.ffffff`, unless it is zero. -/
def formatFraction (microsecond : ℕ) : List Char :=
  if microsecond = 0 then [] else '.' :: pad 6 microsecond

/-- `±HH:MM[:SS[.ffffff]]`. -/
def formatOffset (offset : Int) : List Char :=
  let n := offset.natAbs
  (if offset < 0 then '-' else '+') :: (pad 2 (n / 3600000000) ++
    ':' :: pad 2 (n / 60000000 % 60) ++
    if n % 60000000 = 0 then [] else ':' :: pad 2 (n / 1000000 % 60) ++
      formatFraction (n % 1000000))

/-- `YYYY-MM-DD`. -/
def formatDate (f : Fields) : List Char :=
  pad 4 f.year ++ '-' :: pad 2 f.month ++ '-' :: pad 2 f.day

/-- `HH:MM:SS[.ffffff]`. -/
def formatClock (f : Fields) : List Char :=
  pad 2 f.hour ++ ':' :: pad 2 f.minute ++ ':' :: pad 2 f.second ++ formatFraction f.microsecond

/-- `YYYY-MM-DDTHH:MM:SS[.ffffff][±HH:MM[:SS[.ffffff]]]`. -/
def format (f : Fields) (offset : Option Int) : List Char :=
  formatDate f ++ 'T' :: (formatClock f ++ offset.elim [] formatOffset)

/-! ## Reading -/

/-- A separator, if there are separators. -/
def separator (sep : Bool) (c : Char) (cs : List Char) : Option (List Char) :=
  if sep then if cs.head? = some c then some cs.tail else none else some cs

/-- `[{.,}f+]`, to the microsecond. -/
def fraction : List Char → Option ℕ
  | [] => some 0
  | c :: cs =>
    if (c = '.' ∨ c = ',') ∧ cs ≠ [] ∧ cs.all Char.isDigit then
      some (value (cs.take 6) * 10 ^ (6 - cs.length))
    else none

/-- `HH[:?MM[:?SS[{.,}f+]]]`: hours, minutes, seconds and microseconds. -/
def parseClock (cs : List Char) : Option (ℕ × ℕ × ℕ × ℕ) :=
  (digits 2 cs).bind fun (hour, cs) =>
  if cs = [] then some (hour, 0, 0, 0)
  else
    let sep := cs.head? = some ':'
    (separator sep ':' cs).bind fun cs => (digits 2 cs).bind fun (minute, cs) =>
    if cs = [] then some (hour, minute, 0, 0)
    else
      (separator sep ':' cs).bind fun cs => (digits 2 cs).bind fun (second, cs) =>
      (fraction cs).map fun microsecond => (hour, minute, second, microsecond)

/-- The character does not start a distance from UTC. -/
def isClock (c : Char) : Bool := c ≠ '+' && c ≠ '-' && c ≠ 'Z'

/-- The microseconds of a time of day. -/
def duration (t : ℕ × ℕ × ℕ × ℕ) : ℕ := ((t.1 * 60 + t.2.1) * 60 + t.2.2.1) * 1000000 + t.2.2.2

/-- `Z`, or `±` and a time of less than a day, or nothing. -/
def parseOffset : List Char → Option (Option Int)
  | [] => some none
  | c :: cs =>
    if c = 'Z' then if cs = [] then some (some 0) else none
    else
      (parseClock cs).bind fun t =>
      if duration t < Fields.dayLength then
        some (some (if c = '-' then -(duration t : Int) else duration t))
      else none

/-- Where the date ends. -/
def dateLength (cs : List Char) : ℕ :=
  if cs.length = 7 then 7
  else if cs[4]? = some '-' then
    if cs[5]? = some 'W' then
      if cs[8]? = some '-' then
        -- `YYYY-Www-D`, unless two digits follow: then the hyphen starts the time.
        if cs[10]?.any Char.isDigit then 8 else 10
      else 8
    else 10
  else if cs[4]? = some 'W' then
    -- `YYYYWww` or `YYYYWwwD`: the digits of the time come in pairs.
    let n := 7 + ((cs.drop 7).takeWhile Char.isDigit).length
    if n < 9 then n else if n % 2 = 0 then 7 else 8
  else 8

/-- `YYYY-?MM-?DD` or `YYYY-?Www[-?D]`. -/
def parseDate (cs : List Char) : Option (ℕ × ℕ × ℕ) :=
  (digits 4 cs).bind fun (year, cs) =>
  let sep := cs.head? = some '-'
  (separator sep '-' cs).bind fun cs =>
  if cs.head? = some 'W' then
    (digits 2 cs.tail).bind fun (week, cs) =>
    if cs = [] then ofWeek year week 1
    else
      (separator sep '-' cs).bind fun cs => (digits 1 cs).bind fun (day, cs) =>
      if cs = [] then ofWeek year week day else none
  else
    (digits 2 cs).bind fun (month, cs) =>
    (separator sep '-' cs).bind fun cs => (digits 2 cs).bind fun (day, cs) =>
    if cs = [] then some (year, month, day) else none

/-- A date, and a time after any one character, with a distance from UTC or without;
    a date alone is its midnight. -/
def parse (cs : List Char) : Option (Fields × Option Int) :=
  if cs.length < 7 then none
  else
    (parseDate (cs.take (dateLength cs))).bind fun (year, month, day) =>
    let time := cs.drop (dateLength cs + 1)
    (if cs.length ≤ dateLength cs then some (0, 0, 0, 0)
      else parseClock (time.takeWhile isClock)).bind
      fun (hour, minute, second, microsecond) =>
    (parseOffset (time.dropWhile isClock)).bind fun offset =>
    let f : Fields := ⟨year, month, day, hour, minute, second, microsecond⟩
    if f.Valid then some (f, offset) else none

example : parse "2026-05-25T09:00:00+02:00".toList =
    some (⟨2026, 5, 25, 9, 0, 0, 0⟩, some 7200000000) := by decide
example : parse "20260525 0915".toList = some (⟨2026, 5, 25, 9, 15, 0, 0⟩, none) := by decide
example : parse "2026-05-25T".toList = none := by decide

/-! ## Reading what was written -/

variable {k n : ℕ} {cs : List Char} {f : Fields}

theorem digitChar_spec (h : n < 10) :
    (Nat.digitChar n).isDigit = true ∧ digitValue (Nat.digitChar n) = n := by
  have hall : ∀ d : Fin 10, (Nat.digitChar d).isDigit = true ∧
      digitValue (Nat.digitChar d) = d := by
    decide
  exact hall ⟨n, h⟩

@[simp] theorem length_pad (k n : ℕ) : (pad k n).length = k := by
  induction k generalizing n with
  | zero => rfl
  | succ k ih => rw [pad, List.length_append, ih, List.length_singleton]

theorem isDigit_of_mem_pad {c : Char} (h : c ∈ pad k n) : c.isDigit = true := by
  induction k generalizing n with
  | zero => exact absurd h List.not_mem_nil
  | succ k ih =>
    rw [pad, List.mem_append, List.mem_singleton] at h
    rcases h with h | rfl
    · exact ih h
    · exact (digitChar_spec (Nat.mod_lt n (by decide))).1

theorem value_concat (cs : List Char) (c : Char) :
    value (cs ++ [c]) = value cs * 10 + digitValue c := by
  rw [value, value, List.foldl_append, List.foldl_cons, List.foldl_nil]

theorem value_pad (h : n < 10 ^ k) : value (pad k n) = n := by
  induction k generalizing n with
  | zero => exact (Nat.lt_one_iff.1 h).symm
  | succ k ih =>
    have hdiv : n / 10 < 10 ^ k := by rw [Nat.pow_succ] at h; omega
    rw [pad, value_concat, ih hdiv, (digitChar_spec (Nat.mod_lt n (by decide))).2]
    omega

/-- What `pad` has written is read. -/
theorem digits_pad (h : n < 10 ^ k) (cs : List Char) : digits k (pad k n ++ cs) = some (n, cs) := by
  have htake : (pad k n ++ cs).take k = pad k n := List.take_left' (length_pad k n)
  have hdrop : (pad k n ++ cs).drop k = cs := List.drop_left' (length_pad k n)
  rw [digits, htake, hdrop, value_pad h,
    if_pos ⟨length_pad k n, List.all_eq_true.2 fun c hc => isDigit_of_mem_pad hc⟩]

theorem fraction_format (h : n ≤ 999999) : fraction (formatFraction n) = some n := by
  rw [formatFraction]
  split
  · rename_i hzero
    rw [hzero]
    rfl
  · have hne : pad 6 n ≠ [] := List.ne_nil_of_length_pos (by simp)
    have htake : (pad 6 n).take 6 = pad 6 n := List.take_of_length_le (by simp)
    rw [fraction, if_pos ⟨.inl rfl, hne, List.all_eq_true.2 fun c hc =>
      isDigit_of_mem_pad hc⟩, htake, value_pad (by omega), length_pad]
    simp

/-- A clock is read off what was written, down to the minutes at least. -/
theorem parseClock_pad (hour minute second microsecond : ℕ) (hh : hour < 100) (hm : minute < 100)
    (hs : second < 100) (hu : microsecond ≤ 999999) :
    parseClock (pad 2 hour ++ ':' :: pad 2 minute) = some (hour, minute, 0, 0) ∧
      parseClock (pad 2 hour ++ ':' :: (pad 2 minute ++ ':' :: (pad 2 second ++
        formatFraction microsecond))) = some (hour, minute, second, microsecond) := by
  have hminute : digits 2 (pad 2 minute) = some (minute, []) := by
    simpa using digits_pad (k := 2) (n := minute) (by omega) []
  constructor
  · rw [parseClock, digits_pad (by omega)]
    simp [separator, hminute]
  · rw [parseClock, digits_pad (by omega)]
    simp [separator, digits_pad (k := 2) (n := minute) (by omega),
      digits_pad (k := 2) (n := second) (by omega), fraction_format hu]

/-- A distance of less than a day from UTC is read off what was written. -/
theorem parseOffset_format {offset : Int} (h : offset.natAbs < Fields.dayLength) :
    parseOffset (formatOffset offset) = some (some offset) := by
  have hlt : offset.natAbs < 86400000000 := h
  obtain ⟨t, ht, hduration⟩ : ∃ t, parseClock (formatOffset offset).tail = some t ∧
      duration t = offset.natAbs := by
    have hparse := parseClock_pad (offset.natAbs / 3600000000) (offset.natAbs / 60000000 % 60)
      (offset.natAbs / 1000000 % 60) (offset.natAbs % 1000000) (by omega) (by omega)
        (by omega) (by omega)
    by_cases hminutes : offset.natAbs % 60000000 = 0
    · refine ⟨(offset.natAbs / 3600000000, offset.natAbs / 60000000 % 60, 0, 0), ?_, ?_⟩
      · rw [formatOffset, List.tail_cons, if_pos hminutes, List.append_nil]
        exact hparse.1
      · simp only [duration]
        omega
    · refine ⟨(offset.natAbs / 3600000000, offset.natAbs / 60000000 % 60,
        offset.natAbs / 1000000 % 60, offset.natAbs % 1000000), ?_, ?_⟩
      · rw [formatOffset, List.tail_cons, if_neg hminutes]
        simpa using hparse.2
      · simp only [duration]
        omega
  have hcons : formatOffset offset = (if offset < 0 then '-'
      else '+') :: (formatOffset offset).tail := rfl
  rw [hcons, parseOffset, ht]
  by_cases hneg : offset < 0
  · have habs : -(offset.natAbs : Int) = offset := by omega
    rw [if_pos hneg, if_neg (by decide), Option.bind_some, hduration, if_pos h, if_pos rfl, habs]
  · have habs : (offset.natAbs : Int) = offset := by omega
    rw [if_neg hneg, if_neg (by decide), Option.bind_some, hduration, if_pos h,
      if_neg (by decide), habs]

theorem parseDate_format (h : f.Valid) : parseDate (formatDate f) =
    some (f.year, f.month, f.day) := by
  obtain ⟨-, hyear, -, hmonth, -, hday⟩ := h.date
  have hlength : (monthLengths (isLeap f.year)).getD (f.month - 1) 0 < 100 := by
    generalize f.month - 1 = m, isLeap f.year = leap
    rcases m with _ | _ | _ | _ | _ | _ | _ | _ | _ | _ | _ | _ | m <;> cases leap <;>
      simp [monthLengths]
  have hd : digits 2 (pad 2 f.day) = some (f.day, []) := by
    simpa using digits_pad (k := 2) (n := f.day) (by omega) []
  have hm := digits_pad (k := 2) (n := f.month) (by omega) ('-' :: pad 2 f.day)
  have hW : (pad 2 f.month ++ '-' :: pad 2 f.day).head? ≠ some 'W' := by
    intro hhead
    have hmem : 'W' ∈ pad 2 f.month := by
      simp only [pad, List.nil_append, List.cons_append, List.head?_cons,
        Option.some.injEq] at hhead ⊢
      simp [hhead]
    exact absurd (isDigit_of_mem_pad hmem) (by decide)
  rw [formatDate, List.append_assoc, List.cons_append]
  generalize pad 2 f.month ++ '-' :: pad 2 f.day = rest at hm hW ⊢
  rw [parseDate, digits_pad (by omega)]
  simp [separator, hW, hm, hd]

@[simp] theorem length_formatDate : (formatDate f).length = 10 := by simp [formatDate]

theorem isDigit_or_of_mem_formatFraction {c : Char} (h : c ∈ formatFraction n) :
    c.isDigit = true ∨ c = '.' := by
  rw [formatFraction] at h
  split at h
  · exact absurd h List.not_mem_nil
  · exact (List.mem_cons.1 h).symm.imp_left isDigit_of_mem_pad

theorem isDigit_or_of_mem_formatClock {c : Char} (h : c ∈ formatClock f) :
    c.isDigit = true ∨ c = ':' ∨ c = '.' := by
  simp only [formatClock, List.mem_append, List.mem_cons] at h
  rcases h with ((h | h | h) | h | h) | h
  · exact .inl (isDigit_of_mem_pad h)
  · exact .inr (.inl h)
  · exact .inl (isDigit_of_mem_pad h)
  · exact .inr (.inl h)
  · exact .inl (isDigit_of_mem_pad h)
  · exact (isDigit_or_of_mem_formatFraction h).imp_right .inr

theorem isClock_of_mem {c : Char} (h : c ∈ formatClock f) : isClock c = true := by
  have hne : c ≠ '+' ∧ c ≠ '-' ∧ c ≠ 'Z' := by
    rcases isDigit_or_of_mem_formatClock h with h | rfl | rfl
    · refine ⟨?_, ?_, ?_⟩ <;> rintro rfl <;> exact absurd h (by decide)
    · decide
    · decide
  simp [isClock, hne]

/-- The clock ends where the distance from UTC begins. -/
theorem span_format (offset : Option Int) :
    (formatClock f ++ offset.elim [] formatOffset).takeWhile isClock = formatClock f ∧
      (formatClock f ++ offset.elim [] formatOffset).dropWhile isClock =
        offset.elim [] formatOffset := by
  rw [List.takeWhile_append_of_pos fun c hc => isClock_of_mem hc,
    List.dropWhile_append_of_pos fun c hc => isClock_of_mem hc]
  rcases offset with _ | o
  · simp
  · by_cases hneg : o < 0 <;> simp [formatOffset, hneg, isClock]

/-- The date is where it is expected. -/
theorem dateLength_format (offset : Option Int) : dateLength (format f offset) = 10 := by
  have hlength : (format f offset).length ≠ 7 := by
    simp only [format, List.length_append, length_formatDate]
    omega
  have hdash : (format f offset)[4]? = some '-' := by
    simp [format, formatDate, pad]
  have hW : (format f offset)[5]? ≠ some 'W' := by
    intro h
    have hmem : 'W' ∈ pad 2 f.month := by
      simp only [format, formatDate, pad, List.nil_append, List.cons_append,
        List.getElem?_cons_succ, List.getElem?_cons_zero, Option.some.injEq] at h ⊢
      simp [h]
    exact absurd (isDigit_of_mem_pad hmem) (by decide)
  rw [dateLength, if_neg hlength, if_pos hdash, if_neg hW]

/-- What was written is read. -/
theorem parse_format {offset : Option Int} (h : f.Valid)
    (hoffset : ∀ o, offset = some o → o.natAbs < Fields.dayLength) :
    parse (format f offset) = some (f, offset) := by
  have hlength : ¬(format f offset).length < 7 := by
    simp only [format, List.length_append, length_formatDate]
    omega
  have htake : (format f offset).take 10 = formatDate f := List.take_left' length_formatDate
  have hdrop : (format f offset).drop (10 + 1) = formatClock f ++ offset.elim [] formatOffset := by
    rw [← List.drop_drop, format, List.drop_left' length_formatDate]
    rfl
  have hlonger : ¬(format f offset).length ≤ 10 := by simp [format, length_formatDate, formatClock]
  have hclock : parseClock (formatClock f) = some (f.hour, f.minute, f.second, f.microsecond) := by
    obtain ⟨-, hh, hm, hs, hu⟩ := h
    simpa [formatClock] using (parseClock_pad f.hour f.minute f.second f.microsecond
      (by omega) (by omega)
      (by omega) (by omega)).2
  have hparse : parseOffset (offset.elim [] formatOffset) = some offset := by
    rcases offset with _ | o
    · rfl
    · exact parseOffset_format (hoffset o rfl)
  rw [parse, if_neg hlength, dateLength_format, htake, hdrop, parseDate_format h]
  simp only [Option.bind_some, if_neg hlonger, span_format, hclock, hparse]
  exact if_pos h

/-- A text that was written has digits in it, and marks between them. -/
theorem not_mem_format {c : Char} (offset : Option Int) (hdigit : c.isDigit = false)
    (hc : c ∉ ['-', ':', 'T', '+', '.']) : c ∉ format f offset := by
  simp only [List.mem_cons, List.not_mem_nil, or_false, not_or] at hc
  have hpad : ∀ k n, c ∉ pad k n := fun k n h => by simp [isDigit_of_mem_pad h] at hdigit
  have hfraction : ∀ n, c ∉ formatFraction n := by
    intro n h
    rcases isDigit_or_of_mem_formatFraction h with h | h
    · simp [h] at hdigit
    · exact hc.2.2.2.2 h
  have hclock : c ∉ formatClock f := by simp [formatClock, hpad, hfraction, hc]
  rcases offset with _ | o
  · simp [format, formatDate, hpad, hclock, hc]
  · by_cases hneg : o < 0 <;> by_cases hminutes : o.natAbs % 60000000 = 0 <;>
      simp [format, formatDate, formatOffset, hpad, hclock, hfraction, hneg, hminutes, hc]

/-- It begins with a digit, of the year, and the year ends in a hyphen. -/
theorem exists_formatDate_eq (f : Fields) (cs : List Char) :
    ∃ c rest, formatDate f ++ cs = c :: rest ∧ c.isDigit = true ∧ '-' ∈ c :: rest := by
  have hne : pad 4 f.year ≠ [] := List.ne_nil_of_length_pos (by simp)
  obtain ⟨c, rest, hpad⟩ := List.exists_cons_of_ne_nil hne
  refine ⟨c, rest ++ '-' :: pad 2 f.month ++ '-' :: pad 2 f.day ++ cs, ?_, ?_, by simp⟩
  · rw [formatDate, hpad]
    rfl
  · exact isDigit_of_mem_pad (hpad ▸ List.mem_cons_self)

end Iso8601
