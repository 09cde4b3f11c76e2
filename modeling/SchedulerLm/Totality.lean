import SchedulerLm.ElapsedTime

/-!
# When the parser raises

`try_parse_once_schedule` is called on any text, and nothing catches what it raises.
It raises when a datetime leaves the calendar, and when the name of a weekday is
spelt with a letter that is none of ASCII: the pattern takes it for one, and the table
does not (`returns_tryParse_iff`). Integers are read without error: a text of 2000
characters has no more than 4300 digits.
-/

namespace SchedulerLm

open Calendar Zones Regex

variable {unicode : Unicode} {zone : Zone} {isWord : Char → Bool} {before u v after : List Char}
  {g : List (ℕ × List Char)} {text : List Char} {m : Match Char}

/-! ## Words -/

@[simp] theorem subpatterns_exactly (p : Char → Char → Bool) (cs : List Char) :
    (exactly p cs).subpatterns = [] := by
  induction cs with
  | nil => rfl
  | cons c cs ih =>
    cases cs with
    | nil => rfl
    | cons d ds => exact ih

@[simp] theorem subpatterns_word (w : String) : (word w).subpatterns = [] := subpatterns_exactly _ _

/-- A word is read letter by letter. -/
theorem forall₂_of_exactly {p : Char → Char → Bool} {cs : List Char}
    (h : Reads isWord (exactly p cs) before u after g) :
    List.Forall₂ (fun c x => p c x = true) cs u := by
  have hone : ∀ {c : Char} {before u after g},
    Reads isWord (.chars (p c) 1 (some 1)) before u after g →
      ∃ x, u = [x] ∧ p c x = true := by
    intro c before u after g h
    cases h with
    | chars hall hlo hhi =>
      obtain ⟨x, rfl⟩ := List.length_eq_one_iff.1 (Nat.le_antisymm (hhi 1 rfl) hlo)
      exact ⟨x, rfl, hall x (List.mem_singleton.2 rfl)⟩
  induction cs generalizing before u after g with
  | nil =>
    cases h with
    | chars _ _ hhi =>
      obtain rfl := List.length_eq_zero_iff.1 (Nat.le_zero.1 (hhi 0 rfl))
      exact .nil
  | cons c cs ih =>
    cases cs with
    | nil =>
      obtain ⟨x, rfl, hx⟩ := hone h
      exact .cons hx .nil
    | cons d ds =>
      cases h with
      | seq ha hb =>
        obtain ⟨x, rfl, hx⟩ := hone ha
        exact .cons hx (ih hb)

theorem forall_mem_of_all {p : Char → Prop} [DecidablePred p] {cs : List Char}
    (h : (cs.all fun c => p c) = true) :
    ∀ c ∈ cs, p c :=
  fun c hc => of_decide_eq_true (List.all_eq_true.1 h c hc)

theorem exists_of_forall₂ {r : Char → Char → Prop} {cs : List Char} {x : Char}
    (h : List.Forall₂ r cs v) (hx : x ∈ v) : ∃ c ∈ cs, r c x := by
  induction h with
  | nil => exact absurd hx List.not_mem_nil
  | @cons c y cs _ hcy _ ih =>
    rcases List.mem_cons.1 hx with rfl | hx
    · exact ⟨c, List.mem_cons_self, hcy⟩
    · obtain ⟨d, hd, hdx⟩ := ih hx
      exact ⟨d, List.mem_cons_of_mem c hd, hdx⟩

/-- What a word in small letters is spelt with are letters. -/
theorem isSomeLetter_of_forall₂ {name : List Char} (hname : ∀ c ∈ name, c ∈ smallLetters)
    (h : List.Forall₂ (fun c x => isLetter c x = true) name v) :
    ∀ x ∈ v, isSomeLetter x = true := by
  intro x hx
  obtain ⟨c, hc, hcx⟩ := exists_of_forall₂ h hx
  exact List.any_eq_true.2 ⟨c, hname c hc, hcx⟩

theorem ne_nil_of_forall₂ {r : Char → Char → Prop} {cs : List Char} (hne : cs ≠ [])
    (h : List.Forall₂ r cs v) :
    v ≠ [] := by
  rintro rfl
  cases h
  exact hne rfl

theorem isWord_of_isSomeLetter {c : Char} (h : isSomeLetter c = true) :
    unicode.isWord c = true := by
  rw [Unicode.isWord, unicode.isAlnum_letter h, Bool.true_or]

theorem reads_oneOf {p : Pattern Char} {ps : List (Pattern Char)}
    (h : Reads isWord (oneOf p ps) before u after g) :
    ∃ q ∈ p :: ps, Reads isWord q before u after g := by
  induction ps generalizing p with
  | nil => exact ⟨p, List.mem_singleton.2 rfl, h⟩
  | cons q qs ih =>
    cases h with
    | left h => exact ⟨p, List.mem_cons_self, h⟩
    | right h =>
      obtain ⟨r, hr, h⟩ := ih h
      exact ⟨r, List.mem_cons_of_mem p hr, h⟩

/-- What a group has captured is part of the text. -/
theorem infix_captured {pat : Pattern Char} (hm : searchIn unicode pat text = some m) (n : ℕ) :
    captured m n <:+: text := by
  rw [captured]
  rcases hv : m.group n with _ | v
  · exact List.nil_infix
  · exact infix_of_search hm hv

/-- What a group of a pattern has captured is read by its pattern, if it captures at all. -/
theorem reads_captured {p q : Pattern Char} {n : ℕ} (hm : searchIn unicode p text = some m)
    (hn : p.sets n = true) (hq : ∀ a, (n, a) ∈ p.subpatterns → a = q) :
    (captured m n).length ≤ text.length ∧
      ∃ before after g, Reads unicode.isWord q before (captured m n) after g := by
  obtain ⟨v, hv⟩ := exists_group_of_search hm hn
  obtain ⟨hle, a, before, after, g, hsub, hreads⟩ := group_of_search hm hv
  rw [captured, hv, Option.getD_some]
  exact ⟨hle, before, after, g, hq a hsub ▸ hreads⟩

/-! ## Integers -/

theorem readInteger_isOk (hdigits : ∀ c ∈ v, unicode.isDecimal c = true)
    (hlength : v.length ≤ 4300) :
    ∃ n, readInteger unicode v = .ok n := by
  -- Every character has a value; that there are few enough of them is for `int`.
  obtain ⟨ds, hds⟩ : ∃ ds, v.mapM unicode.decimal = some ds := by
    clear hlength
    induction v with
    | nil => exact ⟨[], rfl⟩
    | cons c cs ih =>
      obtain ⟨d, hd⟩ := Option.isSome_iff_exists.1 (hdigits c List.mem_cons_self)
      obtain ⟨ds, hds⟩ := ih fun x hx => hdigits x (List.mem_cons_of_mem c hx)
      exact ⟨d :: ds, by rw [List.mapM_cons, hd, hds]; rfl⟩
  rw [readInteger, if_neg (by omega), hds]
  exact ⟨_, rfl⟩

/-- The first letter of a word in small letters is one. -/
theorem isDigit_lower_letters (h : ∀ c ∈ v, isSomeLetter c = true) (hne : v ≠ []) :
    (unicode.lower v).all unicode.isDigit = false := by
  have hhead : ∀ {x}, isSomeLetter x = true → (lowerLetter x).head?.any isSomeLetter = true :=
    forall_isSomeLetter (p := fun x => (lowerLetter x).head?.any isSomeLetter)
      (by decide) (by decide)
  obtain ⟨x, xs, rfl⟩ := List.exists_cons_of_ne_nil hne
  have hx := hhead (h x List.mem_cons_self)
  rw [unicode.lower_letters h, List.flatMap_cons]
  rcases hl : lowerLetter x with _ | ⟨y, ys⟩
  · rw [hl] at hx
    exact absurd hx (by simp)
  · rw [hl] at hx
    have hy : isSomeLetter y = true := by simpa using hx
    simp [unicode.isDigit_letter hy]

/-- The amount of a duration is read without error. -/
theorem readAmount_isOk (hm : searchIn unicode (inDurationPattern unicode) text = some m)
    (hlength : text.length ≤ 2000) :
    ∃ amount, readAmount unicode (unicode.lower (captured m 1)) = .ok amount := by
  obtain ⟨hle, before, after, g, hreads⟩ := reads_captured (n := 1)
    (q := .alt (.chars isSomeLetter 1 none) (.chars unicode.isDecimal 1 none)) hm rfl
    (by simp [inDurationPattern, sequence, oneOf, Pattern.subpatterns, spaces])
  cases hreads with
  | left h =>
    -- A word: it is looked up, as its first letter is no digit.
    cases h with
    | chars hall hlo _ =>
      have hne : captured m 1 ≠ [] := List.ne_nil_of_length_pos hlo
      rw [readAmount, isDigit_lower_letters hall hne, if_neg (by simp)]
      exact ⟨_, rfl⟩
  | right h =>
    -- Digits: these are left as they are.
    cases h with
    | chars hall _ _ =>
      rw [unicode.lower_decimals fun c hc => Option.isSome_iff_ne_none.1 (hall c hc), readAmount]
      split
      · obtain ⟨n, hn⟩ := readInteger_isOk hall (by omega)
        exact ⟨some n, Raising.map_eq_ok.2 ⟨n, hn, rfl⟩⟩
      · exact ⟨_, rfl⟩

/-! ## Times of day -/

/-- What the digits of a time capture is read without error. -/
theorem readInteger_of_group {n : ℕ} (lo hi : ℕ)
    (hm : searchIn unicode (atTimePattern unicode) text = some m) (hn : ∀ a,
      (n, a) ∈ (atTimePattern unicode).subpatterns → a = .chars unicode.isDecimal lo (some hi))
    (hhi : hi ≤ 4300) (hv : m.group n = some v) : ∃ k, readInteger unicode v = .ok k := by
  obtain ⟨-, a, before, after, g, hsub, hreads⟩ := group_of_search hm hv
  obtain rfl := hn a hsub
  cases hreads with
  | chars hall _ hmax => exact readInteger_isOk hall ((hmax hi rfl).trans hhi)

theorem le_of_mem_time {hour minute : ℕ} {time : ℕ × ℕ}
    (h : time ∈ if hour ≤ 23 ∧ minute ≤ 59 then some (hour, minute) else none) :
    time.1 ≤ 23 ∧ time.2 ≤ 59 := by
  split at h
  · rename_i hle
    exact Option.mem_some.1 h ▸ hle
  · exact absurd h (by simp)

/-- A time of day is read without error, and is one. -/
theorem parseAtTime_isOk : ∃ time, parseAtTime unicode text = .ok time ∧
    ∀ hourMinute ∈ time, hourMinute.1 ≤ 23 ∧ hourMinute.2 ≤ 59 := by
  rcases hm : searchIn unicode (atTimePattern unicode) text with _ | m
  · exact ⟨none, by rw [parseAtTime, hm], by simp⟩
  · obtain ⟨v, hv⟩ := exists_group_of_search hm (n := 1) rfl
    obtain ⟨hour, hhour⟩ := readInteger_of_group 1 2 hm
      (by simp [atTimePattern, sequence, oneOf, Pattern.subpatterns, spaces]) (by decide) hv
    obtain ⟨minute, hminute⟩ : ∃ minute, (m.group 2).elim (.ok 0) (readInteger unicode) =
        .ok minute := by
      rcases hv : m.group 2 with _ | v
      · exact ⟨0, rfl⟩
      · exact readInteger_of_group 2 2 hm
          (by simp [atTimePattern, sequence, oneOf, Pattern.subpatterns, spaces]) (by decide) hv
    have hcaptured : captured m 1 = v := by rw [captured, hv, Option.getD_some]
    refine ⟨_, by simp only [parseAtTime, hm, hcaptured, hhour, hminute, Except.bind]; rfl, ?_⟩
    exact fun time htime => le_of_mem_time htime

variable (unicode text) in
theorem parseTimeOfDay_isOk : ∃ time, parseTimeOfDay unicode text = .ok time ∧
    ∀ hourMinute ∈ time, hourMinute.1 ≤ 23 ∧ hourMinute.2 ≤ 59 := by
  have htable : ∀ entry ∈ timeOfDay, entry.2.1 ≤ 23 ∧ entry.2.2 ≤ 59 := by decide
  rw [parseTimeOfDay]
  rcases hword : timeOfDayWord unicode text with _ | hourMinute
  · exact parseAtTime_isOk
  · refine ⟨some hourMinute, rfl, fun time htime => ?_⟩
    obtain ⟨entry, hfind, rfl⟩ := Option.map_eq_some_iff.1 hword
    exact Option.mem_some.1 htime ▸ htable entry (List.mem_of_find?_eq_some hfind)

/-- Nine o'clock is a time of day, too. -/
theorem getD_of_parseTimeOfDay {time : Option (ℕ × ℕ)}
    (h : parseTimeOfDay unicode text = .ok time) :
    (time.getD defaultHourMinute).1 ≤ 23 ∧ (time.getD defaultHourMinute).2 ≤ 59 := by
  obtain ⟨time', htime, hle⟩ := parseTimeOfDay_isOk unicode text
  obtain rfl := Except.ok.inj (h.symm.trans htime)
  rcases time with _ | hourMinute
  · decide
  · exact hle hourMinute rfl

/-! ## Datetimes -/

variable {base localized : ZonedDatetime} {hourMinute : ℕ × ℕ} {days : ℕ}

/-- The day is kept, and the time of day is the one given. -/
theorem wall_applyTime (base : ZonedDatetime) (hourMinute : ℕ × ℕ) :
    (applyTime base hourMinute).wall =
    ((base.wall + Fields.epoch).toNat / Fields.dayLength * Fields.dayLength +
      (hourMinute.1 * 60 + hourMinute.2) * 60000000 : ℕ) - (Fields.epoch : Int) := by
  have hseconds : ((hourMinute.1 * 60 + hourMinute.2) * 60 + 0) * 1000000 + 0 =
      (hourMinute.1 * 60 + hourMinute.2) * 60000000 := by omega
  simp only [applyTime, Fields.wall, Fields.ofWall, dayNumber_ofDayNumber]
  rw [Nat.add_assoc, hseconds]

theorem inRange_applyTime (hrange : Fields.InRange base.wall) (hhour : hourMinute.1 ≤ 23)
    (hminute : hourMinute.2 ≤ 59) : Fields.InRange (applyTime base hourMinute).wall := by
  obtain ⟨hlow, hhigh⟩ := hrange
  have hday : (base.wall + Fields.epoch).toNat / Fields.dayLength + 1 ≤ Calendar.days := by
    rw [Nat.add_one_le_iff, Nat.div_lt_iff_lt_mul (by decide)]
    omega
  have hmul := Nat.mul_le_mul_right Fields.dayLength hday
  rw [Fields.InRange, wall_applyTime]
  simp only [Fields.dayLength, Calendar.days] at hmul ⊢
  omega

/-- A datetime may be moved by some microseconds. -/
def Fits (d : ZonedDatetime) (delta : Int) : Prop :=
  delta ≤ maxDelta ∧ Fields.InRange (d.wall + delta)

instance (d : ZonedDatetime) (delta : Int) : Decidable (Fits d delta) :=
  inferInstanceAs (Decidable (_ ∧ _))

/-- A datetime is moved where it may be. -/
theorem moved_eq_ok_iff {d : ZonedDatetime} {delta : Int} {runAt : Option ZonedDatetime} :
    ((timedelta delta).bind fun delta => (addTimedelta d delta).map some) = .ok runAt ↔
      Fits d delta ∧ runAt = some ⟨d.wall + delta, false⟩ := by
  rw [timedelta, Fits]
  by_cases hdelta : delta ≤ maxDelta
  · rw [if_pos hdelta]
    simp only [Except.bind, addTimedelta]
    by_cases hrange : Fields.InRange (d.wall + delta)
    · rw [if_pos hrange]
      simp [Except.map, hdelta, hrange, eq_comm]
    · rw [if_neg hrange]
      simp [Except.map, hrange]
  · rw [if_neg hdelta]
    simp [Except.bind, hdelta]

/-- Nothing is raised, and the datetime returned is one of the calendar. -/
def Returns (result : Except Exn (Option ZonedDatetime)) : Prop :=
  ∃ d, result = .ok d ∧ ∀ runAt ∈ d, Fields.InRange runAt.wall

theorem returns_none : Returns (.ok none) := ⟨none, rfl, by simp⟩

theorem not_returns_error (e : Exn) : ¬Returns (.error e) := by
  rintro ⟨d, hd, -⟩
  exact absurd hd (by simp)

theorem returns_onDay_iff : Returns (onDay unicode text localized days) ↔
    Fields.InRange (localized.wall + days * Fields.dayLength) := by
  obtain ⟨time, htime, -⟩ := parseTimeOfDay_isOk unicode text
  obtain ⟨hhour, hminute⟩ := getD_of_parseTimeOfDay htime
  rw [onDay, addTimedelta, htime]
  by_cases hrange : Fields.InRange (localized.wall + days * Fields.dayLength)
  · rw [if_pos hrange]
    refine iff_of_true ⟨_, rfl, fun runAt hmem => ?_⟩ hrange
    exact Option.mem_some.1 hmem ▸ inRange_applyTime hrange hhour hminute
  · rw [if_neg hrange]
    exact iff_of_false (not_returns_error _) hrange

/-! ## Weekdays -/

/-- The letters a name of a weekday may be spelt with, besides those of ASCII. -/
def strangeLetters : List Char := ['ı', 'İ', 'ſ']

/-- A letter that is none of the strange ones becomes the letter it is taken for. -/
theorem lowerLetter_of_isLetter {c x : Char} (hc : c ∈ smallLetters) (hk : c ≠ 'k')
    (h : isLetter c x = true) (hx : x ∉ strangeLetters) : lowerLetter x = [c] := by
  have hsmall : (smallLetters.all fun c => lowerLetter c = [c] && lowerLetter c.toUpper =
    [c]) = true := by
    decide
  have hother : (otherCases.all fun p => p.1 = 'k' || p.2 ∈ strangeLetters) = true := by decide
  simp only [List.all_eq_true, Bool.and_eq_true, Bool.or_eq_true,
    decide_eq_true_eq] at hsmall hother
  rw [isLetter, Bool.or_eq_true, Bool.or_eq_true, decide_eq_true_eq, decide_eq_true_eq,
    decide_eq_true_eq] at h
  rcases h with (rfl | rfl) | h
  · exact (hsmall x hc).1
  · exact (hsmall c hc).2
  · rcases hother (c, x) h with hk' | hx'
    · exact absurd hk' hk
    · exact absurd hx' hx

theorem flatMap_lowerLetter {name : List Char} (hname : ∀ c ∈ name, c ∈ smallLetters ∧ c ≠ 'k')
    (h : List.Forall₂ (fun c x => isLetter c x = true) name v) (hv : ∀ x ∈ v, x ∉ strangeLetters) :
    v.flatMap lowerLetter = name := by
  induction h with
  | nil => rfl
  | @cons c x cs xs hcx _ ih =>
    obtain ⟨hc, hk⟩ := hname c List.mem_cons_self
    rw [List.flatMap_cons, lowerLetter_of_isLetter hc hk hcx (hv x List.mem_cons_self),
      ih (fun d hd => hname d (List.mem_cons_of_mem c hd)) fun y hy =>
        hv y (List.mem_cons_of_mem x hy)]
    rfl

variable (unicode) in
/-- In small letters, a word without strange letters is what it is spelt as. -/
theorem lower_of_forall₂ {name : List Char} (hname : ∀ c ∈ name, c ∈ smallLetters ∧ c ≠ 'k')
    (h : List.Forall₂ (fun c x => isLetter c x = true) name v) (hv : ∀ x ∈ v, x ∉ strangeLetters) :
    unicode.lower v = name := by
  rw [unicode.lower_letters (isSomeLetter_of_forall₂ (fun c hc => (hname c hc).1) h)]
  exact flatMap_lowerLetter hname h hv

/-- The names of weekdays are in letters of ASCII. -/
theorem mem_smallLetters_of_weekday {entry : List Char × ℕ} (h : entry ∈ weekdayNames) :
    ∀ c ∈ entry.1, c ∈ smallLetters ∧ c ≠ 'k' := by
  have hnames : (weekdayNames.all fun entry => entry.1.all fun c => c ∈ smallLetters && c ≠
      'k') = true := by
    decide
  simp only [List.all_eq_true, Bool.and_eq_true, decide_eq_true_eq] at hnames
  exact hnames entry h

/-- What the pattern takes for a weekday is the name of one, ignoring case. -/
theorem captured_weekday (hm : searchIn unicode (nextWeekdayPattern unicode) text = some m) :
    ∃ entry ∈ weekdayNames, List.Forall₂ (fun c x => isLetter c x =
      true) entry.1 (captured m 1) := by
  obtain ⟨-, before, after, g, hreads⟩ := reads_captured (n := 1)
    (q := oneOf (word "monday") [word "tuesday", word "wednesday", word "thursday", word "friday",
      word "saturday", word "sunday"]) hm rfl
    (by simp [nextWeekdayPattern, sequence, oneOf, Pattern.subpatterns, spaces])
  obtain ⟨q, hq, hreads⟩ := reads_oneOf hreads
  obtain ⟨entry, hentry, rfl⟩ : ∃ entry ∈ weekdayNames, q = exactly isLetter entry.1 := by
    simpa [weekdayNames, word] using hq
  exact ⟨entry, hentry, forall₂_of_exactly hreads⟩

variable (unicode) in
/-- The name of a weekday is found in the table, if it has no strange letter. -/
theorem lower_weekday {entry : List Char × ℕ} (hentry : entry ∈ weekdayNames)
    (h : List.Forall₂ (fun c x => isLetter c x = true) entry.1 v) :
    (∀ x ∈ v, x ∉ strangeLetters) ∧ unicode.lower v = entry.1 ∨
      (∃ x ∈ v, x ∈ strangeLetters) ∧ weekdayNames.lookup (unicode.lower v) = none := by
  by_cases hstrange : ∀ x ∈ v, x ∉ strangeLetters
  · exact .inl ⟨hstrange, lower_of_forall₂ unicode (mem_smallLetters_of_weekday hentry) h hstrange⟩
  · -- The strange letters stay strange, and the table has none.
    have hlower : (strangeLetters.all fun c => (lowerLetter c).any fun d =>
        d ∉ smallLetters) = true := by
      decide
    simp only [List.all_eq_true, List.any_eq_true, decide_eq_true_eq] at hlower
    push Not at hstrange
    obtain ⟨x, hx, hx'⟩ := hstrange
    refine .inr ⟨⟨x, hx, hx'⟩, ?_⟩
    rw [← Option.not_isSome_iff_eq_none, List.lookup_isSome_iff,
      unicode.lower_letters (isSomeLetter_of_forall₂ (fun c hc =>
        (mem_smallLetters_of_weekday hentry c hc).1) h)]
    rintro ⟨entry', hentry', heq⟩
    obtain ⟨d, hd, hsmall⟩ := hlower x hx'
    have hd' : d ∈ v.flatMap lowerLetter := List.mem_flatMap.2 ⟨x, hx, hd⟩
    rw [eq_of_beq heq] at hd'
    exact hsmall (mem_smallLetters_of_weekday hentry' d hd').1

/-- What the pattern takes for a weekday is in the table iff it has no strange letter. -/
theorem lookup_weekday_isSome (hm : searchIn unicode (nextWeekdayPattern unicode) text = some m) :
    (weekdayNames.lookup (unicode.lower (captured m 1))).isSome ↔
      ∀ c ∈ captured m 1, c ∉ strangeLetters := by
  obtain ⟨entry, hentry, hforall⟩ := captured_weekday hm
  rcases lower_weekday unicode hentry hforall with ⟨hstrange, hlower⟩ | ⟨⟨x, hx, hx'⟩, hlookup⟩
  · rw [hlower, List.lookup_isSome_iff]
    exact iff_of_true ⟨entry, hentry, beq_self_eq_true _⟩ hstrange
  · rw [hlookup]
    exact iff_of_false (by simp) fun hstrange => hstrange x hx hx'

/-- So the number found in the table is that of a weekday it names. -/
theorem lookup_weekday_eq_some {weekday : ℕ}
    (hm : searchIn unicode (nextWeekdayPattern unicode) text = some m)
    (h : weekdayNames.lookup (unicode.lower (captured m 1)) = some weekday) :
    ∃ entry ∈ weekdayNames, entry.2 = weekday ∧
      List.Forall₂ (fun c x => isLetter c x = true) entry.1 (captured m 1) := by
  have htable : ∀ entry ∈ weekdayNames, weekdayNames.lookup entry.1 = some entry.2 := by decide
  obtain ⟨entry, hentry, hforall⟩ := captured_weekday hm
  rcases lower_weekday unicode hentry hforall with ⟨-, hlower⟩ | ⟨-, hlookup⟩
  · rw [hlower, htable entry hentry] at h
    exact ⟨entry, hentry, Option.some.inj h, hforall⟩
  · exact absurd (hlookup.symm.trans h) (by simp)

/-! ## The parser -/

variable (unicode zone) in
/-- The datetime the parser comes to is one: the duration fits, or the day is one of the
    calendar, and the weekday is spelt with letters of ASCII. -/
def Representable (text : String) (now : Now) : Prop :=
  (searchIn unicode recurringPattern text.toList).isSome ∨
  ∃ localized, localize zone now = .ok localized ∧
    match searchIn unicode (inDurationPattern unicode) text.toList with
    | some _ => ∀ amount length, durationOf unicode text = some (amount, length) →
        Fits localized (amount * length)
    | none =>
      if (searchIn unicode tomorrowPattern text.toList).isSome then
        Fields.InRange (localized.wall + Fields.dayLength)
      else
        ∀ m, searchIn unicode (nextWeekdayPattern unicode) text.toList = some m →
          (∀ c ∈ captured m 1, c ∉ strangeLetters) ∧
          ∀ weekday, weekdayNames.lookup (unicode.lower (captured m 1)) = some weekday →
            Fields.InRange (localized.wall + daysAhead localized weekday * Fields.dayLength)

theorem returns_inDuration_iff {text : String} (hlength : text.length ≤ 2000)
    (hrecurring : (searchIn unicode recurringPattern text.toList).isSome = false)
    (hm : searchIn unicode (inDurationPattern unicode) text.toList = some m) :
    Returns (inDuration unicode localized m) ↔
      ∀ amount length, durationOf unicode text = some (amount, length) →
        Fits localized (amount * length) := by
  obtain ⟨amount, hamount⟩ := readAmount_isOk hm hlength
  rw [durationOf, hrecurring, if_neg (by simp), hm, Option.bind_some, hamount, inDuration, hamount]
  rcases amount with _ | amount
  · exact iff_of_true returns_none fun _ _ h => absurd h (by simp)
  · rcases hunit : unitLength (unicode.lower (captured m 2)) with _ | length
    · exact iff_of_true (by simpa only [Except.bind, hunit] using returns_none) fun _ _ h =>
        absurd h (by simp)
    · have hmoved : Returns ((timedelta (amount * length)).bind fun delta =>
        (addTimedelta localized delta).map some) ↔
          Fits localized (amount * length) := by
        constructor
        · rintro ⟨runAt, hrunAt, -⟩
          exact (moved_eq_ok_iff.1 hrunAt).1
        · intro hfits
          exact ⟨_, moved_eq_ok_iff.2 ⟨hfits, rfl⟩, fun runAt hmem =>
            Option.mem_some.1 hmem ▸ hfits.2⟩
      simp only [Except.bind, Option.map_some, Option.some.injEq, Prod.mk.injEq]
      refine hmoved.trans ⟨?_, fun h => h _ _ ⟨rfl, rfl⟩⟩
      rintro hfits _ _ ⟨rfl, rfl⟩
      exact hfits

/-- The parser returns, and returns a datetime of the calendar if any, iff what it comes
    to is one: it raises where a datetime leaves the calendar, and where a weekday is not
    in the table. -/
theorem returns_tryParse_iff {text : String} {now : Now} (hlength : text.length ≤ 2000) :
    Returns (tryParseOnceSchedule unicode zone text now) ↔ Representable unicode zone text now := by
  rw [tryParseOnceSchedule, Representable]
  by_cases hrecurring : (searchIn unicode recurringPattern text.toList).isSome = true
  · rw [if_pos hrecurring]
    exact iff_of_true returns_none (.inl hrecurring)
  rw [if_neg hrecurring]
  -- It is known from here on that no recurrence is spoken of.
  rcases hlocal : localize zone now with e | localized
  · refine iff_of_false (not_returns_error e) ?_
    rintro (h | ⟨localized, h, -⟩)
    · exact hrecurring h
    · exact absurd h (by simp)
  have hlocalized : ∀ {P : ZonedDatetime → Prop},
    ((searchIn unicode recurringPattern text.toList).isSome = true ∨
      ∃ d, (Except.ok localized : Except Exn ZonedDatetime) = .ok d ∧ P d) ↔ P localized := by
    intro P
    constructor
    · rintro (h | ⟨d, hd, h⟩)
      · exact absurd h hrecurring
      · exact Except.ok.inj hd ▸ h
    · exact fun h => .inr ⟨localized, rfl, h⟩
  rw [hlocalized, Except.bind]
  rcases hm : searchIn unicode (inDurationPattern unicode) text.toList with _ | m
  · by_cases htomorrow : (searchIn unicode tomorrowPattern text.toList).isSome = true
    · dsimp only
      rw [if_pos htomorrow, if_pos htomorrow, returns_onDay_iff, Int.natCast_one, Int.one_mul]
    · dsimp only
      rw [if_neg htomorrow, if_neg htomorrow]
      rcases hnext : searchIn unicode (nextWeekdayPattern unicode) text.toList with _ | m
      · exact iff_of_true returns_none fun _ h => absurd h (by simp)
      · have hstrange := lookup_weekday_isSome hnext
        dsimp only
        -- The name is in the table iff it has no strange letter.
        rcases hlookup : weekdayNames.lookup (unicode.lower (captured m 1)) with _ | weekday
        · rw [hlookup] at hstrange
          refine iff_of_false (not_returns_error _) fun h => ?_
          exact absurd (hstrange.2 (h m rfl).1) (by simp)
        · rw [hlookup] at hstrange
          dsimp only
          rw [returns_onDay_iff]
          constructor
          · rintro hrange _ ⟨rfl⟩
            refine ⟨hstrange.1 rfl, fun w hw => ?_⟩
            rw [hlookup] at hw
            exact Option.some.inj hw ▸ hrange
          · intro h
            exact (h m rfl).2 weekday hlookup
  · exact returns_inDuration_iff hlength (by simpa using hrecurring) hm

/-- Eight in the morning of 31 May 2026. -/
def eightOClock : Now := .inZone 1780214400000000 false

/-- Nothing is raised about the day after. -/
theorem returns_tomorrow :
    Returns (tryParseOnceSchedule .ascii .utc "tomorrow at 5pm" eightOClock) := by
  have hlength : "tomorrow at 5pm".length ≤ 2000 := by decide
  refine (returns_tryParse_iff hlength).2 (.inr ⟨_, rfl, ?_⟩)
  have hduration : searchIn .ascii (inDurationPattern .ascii) "tomorrow at 5pm".toList = none := by
    decide +kernel
  have htomorrow : (searchIn .ascii tomorrowPattern "tomorrow at 5pm".toList).isSome = true := by
    decide +kernel
  rw [hduration]
  dsimp only
  rw [if_pos htomorrow]
  decide

/-- The parser would always return: the pattern takes `ſ` for an `s`, and the table
    does not. -/
theorem not_returns : ¬∀ (unicode : Unicode) (zone : Zone) (text : String) (now : Now),
    1 ≤ text.length → text.length ≤ 2000 → Returns
      (tryParseOnceSchedule unicode zone text now) := by
  intro h
  have hraises : tryParseOnceSchedule .ascii .utc "next ſunday" eightOClock = .error .keyError := by
    decide +kernel
  have hreturns := h .ascii .utc "next ſunday" eightOClock (by decide) (by decide)
  rw [hraises] at hreturns
  exact not_returns_error _ hreturns

/-- And a duration may be too long. -/
example : tryParseOnceSchedule .ascii .utc "in 99999999999 days" eightOClock =
    .error .overflowError := by
  decide +kernel

end SchedulerLm
