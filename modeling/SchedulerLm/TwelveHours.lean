import SchedulerLm.ClockTimes

/-!
# Numbers with "am" or "pm"

The times of twelve hours the parser reads: its pattern finds the first number of the
text that has "am" or "pm" after it (`parseAtTime_eq`), which is scanned for here
(`firstNumber`). No digits are before what the pattern finds but those of a number without
"am" or "pm", so that the digits it captures are those of the number.

So a time that is stated is kept iff the text has it kept (`ClockTimeKept`): by the first of its
words for a time of day or, without such words, by its first number with "am" or "pm",
or if it is nine and there is none (`stated_iff`).
-/

namespace SchedulerLm

open Calendar Zones Regex

variable (unicode : Unicode)

/-! ## Numbers -/

/-- A number with "am" or "pm" after it. -/
structure TwelveHour where
  hour : ℕ
  minute : ℕ
  pm : Bool
  deriving DecidableEq

/-- The time of day it stands for, if there is one: with "pm" the hours but twelve come
    twelve later, and twelve with "am" is midnight. -/
def TwelveHour.time (n : TwelveHour) : Option (ℕ × ℕ) :=
  let hour :=
    if n.pm = true ∧ n.hour ≠ 12 then n.hour + 12 else if n.pm = false ∧ n.hour = 12
      then 0 else n.hour
  if hour ≤ 23 ∧ n.minute ≤ 59 then some (hour, n.minute) else none

/-- "am" (`false`) or "pm" (`true`), in any case. -/
def meridiemOf : List Char → Option Bool
  | [a, m] =>
    if isLetter 'm' m then
      if isLetter 'a' a then some false else if isLetter 'p' a then some true else none
    else none
  | _ => none

/-- The digits at the front of a text, the minutes after a colon, the two letters after
    spaces, and what is left. -/
def numberParts (cs : List Char) : List Char × Option (List Char) × List Char × List Char :=
  let ds := cs.takeWhile unicode.isDecimal
  match cs.dropWhile unicode.isDecimal with
  | ':' :: a :: b :: left =>
    (ds, some [a, b], (left.dropWhile unicode.isSpace).take 2,
      (left.dropWhile unicode.isSpace).drop 2)
  | left =>
    (ds, none, (left.dropWhile unicode.isSpace).take 2, (left.dropWhile unicode.isSpace).drop 2)

/-- The number with "am" or "pm" at the front of a text: one or two digits, maybe a colon
    and two digits, and "am" or "pm" as the end of a word. -/
def numberAt (cs : List Char) : Option TwelveHour :=
  let (ds, mm, me, rest) := numberParts unicode cs
  if ds = [] ∨ 2 < ds.length ∨ rest.head?.any unicode.isWord then none
  else
    (meridiemOf me).bind fun pm =>
    (valueOf unicode ds).bind fun hour =>
    (mm.elim (some 0) (valueOf unicode)).map fun minute => ⟨hour, minute, pm⟩

/-- The first number with "am" or "pm" of a text. -/
def firstNumber : List Char → Option TwelveHour
  | [] => none
  | c :: cs => (numberAt unicode (c :: cs)).or (firstNumber cs)

example : firstNumber .ascii "room 1234, at 10:05PM or 9 am".toList =
    some ⟨10, 5, true⟩ := by decide +kernel

/-- The text has the keyword as a word. -/
def hasWord (keyword text : List Char) : Bool :=
  (searchIn unicode (keywordPattern keyword) (unicode.lower text)).isSome

/-- The text has the time `time` kept. -/
inductive ClockTimeKept (text : List Char) (time : ℕ × ℕ) : Prop
  /-- The first of its words for a time of day, in the order of the table, stands for it. -/
  | word {before after : List (List Char × ℕ × ℕ)} {keyword : List Char} :
      timeOfDay = before ++ (keyword, time) :: after →
      (∀ entry ∈ before, hasWord unicode entry.1 text = false) →
        hasWord unicode keyword text = true →
      ClockTimeKept text time
  /-- It has no such words, and its first number with "am" or "pm" stands for it. -/
  | number {n : TwelveHour} : (∀ entry ∈ timeOfDay, hasWord unicode entry.1 text = false) →
      firstNumber unicode text = some n → n.time = some time → ClockTimeKept text time
  /-- It has no such words, the first such number, if it has one, stands for no time of day, and
      the time is nine. -/
  | nine : (∀ entry ∈ timeOfDay, hasWord unicode entry.1 text = false) →
      (∀ n, firstNumber unicode text = some n → n.time = none) → time = defaultHourMinute →
        ClockTimeKept text time

/-! ## What a number reads as -/

/-- A colon and minutes, or nothing. -/
def minutesText : Option (List Char) → List Char
  | none => []
  | some mm => ':' :: mm

/-- "am" or "pm". -/
def meridiem (pm : Bool) : List Char := if pm then ['p', 'm'] else ['a', 'm']

/-- The text goes on with a number and "am" or "pm", as the end of a word: the digits `ds`
    and maybe `mm`, spaces, the letters `me` and the `rest`. -/
structure Numbered (cs ds : List Char) (mm : Option (List Char)) (pm : Bool)
    (me rest : List Char) : Prop where
  exists_spaces : ∃ spaces, (∀ c ∈ spaces, unicode.isSpace c = true) ∧
    cs = ds ++ (minutesText mm ++ (spaces ++ (me ++ rest)))
  digits : ∀ c ∈ ds, unicode.isDecimal c = true
  ne_nil : ds ≠ []
  length_digits : ds.length ≤ 2
  minutes : ∀ l ∈ mm, l.length = 2 ∧ ∀ c ∈ l, unicode.isDecimal c = true
  meridiem : List.Forall₂ (fun c x => isLetter c x = true) (meridiem pm) me
  word_end : rest.head?.any unicode.isWord = false

variable {unicode} {zone : Zone} {text : String} {now : Now} {runAt : ZonedDatetime}
  {before u after cs ds me rest : List Char} {mm : Option (List Char)} {g : List (ℕ × List Char)}
  {pm : Bool} {n : TwelveHour} {time : ℕ × ℕ}

/-! ## Characters -/

theorem isDecimal_of_isSpace {c : Char} (h : unicode.isSpace c = true) :
    unicode.isDecimal c = false := by
  rw [Unicode.isDecimal, unicode.decimal_space h, Option.isSome_none]

theorem isDecimal_of_isSomeLetter {c : Char} (h : isSomeLetter c = true) :
    unicode.isDecimal c = false := by
  have hdigit := unicode.isDigit_letter h
  rw [Unicode.isDecimal, Option.isSome_eq_false_iff, Option.isNone_iff_eq_none]
  by_contra hdecimal
  rw [unicode.isDigit_decimal hdecimal] at hdigit
  exact absurd hdigit (by simp)

theorem isDecimal_colon : unicode.isDecimal ':' = false := by
  rw [Unicode.isDecimal, unicode.decimal_colon, Option.isSome_none]

theorem mem_smallLetters_of_meridiem : ∀ c ∈ meridiem pm, c ∈ smallLetters ∧ c ≠ 'k' := by
  have hsmall : ∀ pm, ((meridiem pm).all fun c => c ∈ smallLetters && c ≠ 'k') = true := by decide
  simpa [List.all_eq_true] using hsmall pm

theorem isSomeLetter_of_meridiem (h : List.Forall₂ (fun c x => isLetter c x = true)
    (meridiem pm) me) :
    ∀ c ∈ me, isSomeLetter c = true :=
  isSomeLetter_of_forall₂ (fun c hc => (mem_smallLetters_of_meridiem c hc).1) h

/-- The letters of "am" and "pm" have two cases, and no others. -/
theorem lower_meridiem (h : List.Forall₂ (fun c x => isLetter c x = true) (meridiem pm) me) :
    unicode.lower me = meridiem pm := by
  have hstrange : ∀ pm, ((meridiem pm).all fun c => strangeLetters.all fun x =>
      !isLetter c x) = true := by
    decide
  replace hstrange := hstrange pm
  simp only [List.all_eq_true, Bool.not_eq_true'] at hstrange
  refine lower_of_forall₂ unicode mem_smallLetters_of_meridiem h fun x hx hx' => ?_
  obtain ⟨c, hc, hcx⟩ := exists_of_forall₂ h hx
  exact absurd (hcx.symm.trans (hstrange c hc x hx')) (by simp)

theorem meridiemOf_eq_some :
    meridiemOf me = some pm ↔ List.Forall₂ (fun c x => isLetter c x = true) (meridiem pm) me := by
  constructor
  · intro h
    rw [meridiemOf.eq_def] at h
    split at h
    · split at h
      · rename_i hm
        split at h
        · rename_i ha
          obtain rfl := Option.some.inj h
          exact .cons ha (.cons hm .nil)
        · split at h
          · rename_i hp
            obtain rfl := Option.some.inj h
            exact .cons hp (.cons hm .nil)
          · exact absurd h (by simp)
      · exact absurd h (by simp)
    · exact absurd h (by simp)
  · intro h
    cases pm with
    | false =>
      obtain _ | ⟨ha, _ | ⟨hm, _ | _⟩⟩ := h
      rw [meridiemOf, if_pos hm, if_pos ha]
    | true =>
      obtain _ | ⟨hp, _ | ⟨hm, _ | _⟩⟩ := h
      rename_i x y
      -- A "p" is no "a".
      have ha : isLetter 'a' x = false := by
        rw [isLetter, Bool.or_eq_true, Bool.or_eq_true, decide_eq_true_eq, decide_eq_true_eq] at hp
        rcases hp with (rfl | rfl) | hp
        · decide
        · decide
        · exact absurd hp (by simp [otherCases])
      rw [meridiemOf, if_pos hm, if_neg (by simp [ha]), if_pos hp]

/-! ## The parts of a number -/

theorem Numbered.letters (h : Numbered unicode cs ds mm pm me rest) :
    ∀ c ∈ me, isSomeLetter c = true :=
  isSomeLetter_of_meridiem h.meridiem

theorem Numbered.length_letters (h : Numbered unicode cs ds mm pm me rest) : me.length = 2 := by
  rw [← h.meridiem.length_eq]
  cases pm <;> rfl

/-- After the digits there is a space or a letter, and after the spaces the letters. -/
theorem after_digits (rest : List Char) {spaces : List Char}
    (hspaces : ∀ c ∈ spaces, unicode.isSpace c = true)
    (hletters : ∀ c ∈ me, isSomeLetter c = true) (hlength : me.length = 2) :
    (∃ c left, spaces ++ (me ++ rest) = c :: left ∧ unicode.isDecimal c = false ∧ c ≠ ':') ∧
      (spaces ++ (me ++ rest)).dropWhile unicode.isSpace = me ++ rest := by
  have hcolon : isSomeLetter ':' = false := by decide
  obtain ⟨x, y, rfl⟩ := List.length_eq_two.1 hlength
  have hx := hletters x List.mem_cons_self
  constructor
  · rcases spaces with _ | ⟨c, spaces⟩
    · refine ⟨x, y :: rest, rfl, isDecimal_of_isSomeLetter hx, ?_⟩
      rintro rfl
      exact absurd (hcolon.symm.trans hx) (by simp)
    · have hc := hspaces c List.mem_cons_self
      refine ⟨c, spaces ++ ([x, y] ++ rest), rfl, isDecimal_of_isSpace hc, ?_⟩
      rintro rfl
      exact absurd (unicode.isSpace_colon.symm.trans hc) (by simp)
  · rw [List.dropWhile_append_of_pos hspaces, List.cons_append,
      List.dropWhile_cons_of_neg (by simp [unicode.isSpace_letter hx])]

theorem numberParts_eq (h : Numbered unicode cs ds mm pm me rest) :
    numberParts unicode cs = (ds, mm, me, rest) := by
  obtain ⟨spaces, hspaces, rfl⟩ := h.exists_spaces
  obtain ⟨⟨c, left, hleft, hc, hne⟩, hme⟩ := after_digits rest hspaces h.letters h.length_letters
  have htake : (me ++ rest).take 2 = me := List.take_left' h.length_letters
  have hdrop : (me ++ rest).drop 2 = rest := List.drop_left' h.length_letters
  rcases mm with _ | mm
  · have hdropped : (c :: left).dropWhile unicode.isDecimal = c :: left :=
      List.dropWhile_cons_of_neg (by simp [hc])
    have htaken : (c :: left).takeWhile unicode.isDecimal = [] :=
      List.takeWhile_cons_of_neg (by simp [hc])
    rw [minutesText, List.nil_append, numberParts, List.takeWhile_append_of_pos h.digits,
      List.dropWhile_append_of_pos h.digits, hleft, hdropped, htaken, List.append_nil]
    split
    · rename_i heq
      exact absurd (List.cons.inj heq).1 hne
    · rw [← hleft, hme, htake, hdrop]
  · obtain ⟨a, b, rfl⟩ := List.length_eq_two.1 (h.minutes mm rfl).1
    rw [minutesText, numberParts, List.takeWhile_append_of_pos h.digits,
      List.dropWhile_append_of_pos h.digits, List.cons_append,
      List.dropWhile_cons_of_neg (by simp [isDecimal_colon]),
      List.takeWhile_cons_of_neg (by simp [isDecimal_colon]), List.append_nil]
    simp only [List.cons_append, List.nil_append, hme, htake, hdrop]

/-- A text is put together from its parts. -/
theorem of_numberParts (h : numberParts unicode cs = (ds, mm, me, rest)) :
    (∃ spaces, (∀ c ∈ spaces, unicode.isSpace c = true) ∧
      cs = ds ++ (minutesText mm ++ (spaces ++ (me ++ rest)))) ∧
      (∀ c ∈ ds, unicode.isDecimal c = true) ∧ ∀ l ∈ mm, l.length = 2 := by
  have htext : ∀ left : List Char, left = left.takeWhile unicode.isSpace ++
      ((left.dropWhile unicode.isSpace).take 2 ++ (left.dropWhile unicode.isSpace).drop 2) := by
    intro left
    rw [List.take_append_drop, List.takeWhile_append_dropWhile]
  have hcs := (List.takeWhile_append_dropWhile (p := unicode.isDecimal) (l := cs)).symm
  have hdigits : ∀ c ∈ cs.takeWhile unicode.isDecimal, unicode.isDecimal c = true :=
    List.all_eq_true.1 List.all_takeWhile
  have hspaces : ∀ left : List Char, ∀ c ∈ left.takeWhile unicode.isSpace,
      unicode.isSpace c = true :=
    fun _ => List.all_eq_true.1 List.all_takeWhile
  rw [numberParts] at h
  split at h
  · rename_i a b left heq
    simp only [Prod.mk.injEq] at h
    obtain ⟨rfl, rfl, rfl, rfl⟩ := h
    refine ⟨⟨left.takeWhile unicode.isSpace, hspaces left, ?_⟩, hdigits, by simp⟩
    rw [heq] at hcs
    rw [← htext left]
    exact hcs
  · rename_i left hne
    simp only [Prod.mk.injEq] at h
    obtain ⟨rfl, rfl, rfl, rfl⟩ := h
    refine ⟨⟨_, hspaces (cs.dropWhile unicode.isDecimal), ?_⟩, hdigits, by simp⟩
    rw [minutesText, List.nil_append, ← htext]
    exact hcs

theorem isDecimal_of_valueOf {number : ℕ} (h : valueOf unicode ds = some number) :
    ∀ c ∈ ds, unicode.isDecimal c = true := by
  obtain ⟨values, hvalues, -⟩ := Option.map_eq_some_iff.1 h
  clear h
  induction ds generalizing values with
  | nil => simp
  | cons d ds ih =>
    rw [List.mapM_cons] at hvalues
    obtain ⟨value, hvalue, hvalues⟩ := Option.bind_eq_some_iff.1 hvalues
    obtain ⟨values, hvalues, -⟩ := Option.bind_eq_some_iff.1 hvalues
    intro c hc
    rcases List.mem_cons.1 hc with rfl | hc
    · exact Option.isSome_iff_exists.2 ⟨value, hvalue⟩
    · exact ih values hvalues c hc

/-- A number is at the front of a text iff its digits, spaces and letters are. -/
theorem numberAt_eq_some : numberAt unicode cs = some n ↔ ∃ ds mm me rest,
    Numbered unicode cs ds mm n.pm me rest ∧ valueOf unicode ds = some n.hour ∧
      mm.elim (some 0) (valueOf unicode) = some n.minute := by
  constructor
  · intro h
    rcases hparts : numberParts unicode cs with ⟨ds, mm, me, rest⟩
    simp only [numberAt, hparts] at h
    split at h
    · exact absurd h (by simp)
    rename_i hgood
    rw [not_or, not_or, not_lt, Bool.not_eq_true] at hgood
    obtain ⟨pm, hpm, h⟩ := Option.bind_eq_some_iff.1 h
    obtain ⟨hour, hhour, h⟩ := Option.bind_eq_some_iff.1 h
    obtain ⟨minute, hminute, rfl⟩ := Option.map_eq_some_iff.1 h
    obtain ⟨hspaces, hdigits, hlength⟩ := of_numberParts hparts
    refine ⟨ds, mm, me, rest, ⟨hspaces, hdigits, hgood.1, hgood.2.1, fun l hl => ⟨hlength l hl, ?_⟩,
      meridiemOf_eq_some.1 hpm, hgood.2.2⟩, hhour, hminute⟩
    obtain rfl := hl
    exact isDecimal_of_valueOf hminute
  · rintro ⟨ds, mm, me, rest, h, hhour, hminute⟩
    have hgood : ¬(ds = [] ∨ 2 < ds.length ∨ rest.head?.any unicode.isWord = true) := by
      rw [not_or, not_or, not_lt, Bool.not_eq_true]
      exact ⟨h.ne_nil, h.length_digits, h.word_end⟩
    simp only [numberAt, numberParts_eq h, if_neg hgood, meridiemOf_eq_some.2 h.meridiem,
      hhour, hminute, Option.bind_some, Option.map_some]

/-! ## What the pattern reads -/

/-- A word is read, letter by letter. -/
theorem reads_exactly {p : Char → Char → Bool} (h : List.Forall₂ (fun c x => p c x = true) cs u) :
    Reads unicode.isWord (exactly p cs) before u after [] := by
  have hone : ∀ {c x : Char} {before after : List Char}, p c x = true →
      Reads unicode.isWord (.chars (p c) 1 (some 1)) before [x] after [] := by
    intro c x before after hcx
    exact .chars (by simpa using hcx) (Nat.le_refl 1) (by simp)
  induction h generalizing before with
  | nil => exact .chars (by simp) (Nat.le_refl 0) (by simp)
  | @cons c x cs xs hcx htail ih =>
    cases cs with
    | nil =>
      cases htail
      exact hone hcx
    | cons d ds => exact .seq (u := [x]) (hone hcx) ih

/-- There are no digits in "at". -/
theorem reads_at
    (h : Reads unicode.isWord (.opt (sequence .boundary [word "at", spaces unicode]))
      before u after g) :
    (∀ c ∈ u, unicode.isDecimal c = false) ∧ g = [] := by
  have hsmall : ("at".toList.all (· ∈ smallLetters)) = true := by decide
  simp only [List.all_eq_true, decide_eq_true_eq] at hsmall
  refine ⟨?_, h.groups_eq_nil (by simp [sequence, Pattern.subpatterns, spaces])⟩
  cases h with
  | none => simp
  | some h =>
    obtain ⟨_, _, _, _, rfl, -, hboundary, h⟩ := reads_seq.1 h
    obtain ⟨rfl, -, -⟩ := reads_boundary.1 hboundary
    obtain ⟨at', spaces, _, _, rfl, -, hat, hspaces⟩ := reads_seq.1 h
    obtain ⟨-, hspaces, -, -⟩ := reads_chars.1 hspaces
    intro c hc
    rw [List.nil_append, List.mem_append] at hc
    rcases hc with hc | hc
    · exact isDecimal_of_isSomeLetter (isSomeLetter_of_forall₂ hsmall (forall₂_of_exactly hat) c hc)
    · exact isDecimal_of_isSpace (hspaces c hc)

theorem reads_minutes
    (h : Reads unicode.isWord (.opt (.seq (.chars (· = ':') 1 (some 1))
      (.group 2 (.chars unicode.isDecimal 2 (some 2))))) before u after g) :
    ∃ mm, u = minutesText mm ∧ (∀ l ∈ mm, l.length = 2 ∧
      ∀ c ∈ l, unicode.isDecimal c = true) ∧ g = mm.toList.map (2, ·) := by
  cases h with
  | none => exact ⟨none, rfl, by simp, rfl⟩
  | some h =>
    obtain ⟨colon, mm, _, _, rfl, rfl, hcolon, hgroup⟩ := reads_seq.1 h
    obtain ⟨rfl, hcolon, hlo, hhi⟩ := reads_chars.1 hcolon
    obtain ⟨x, rfl⟩ := List.length_eq_one_iff.1 (Nat.le_antisymm (hhi 1 rfl) hlo)
    obtain rfl : x = ':' := by simpa using hcolon
    obtain ⟨_, rfl, hdigits⟩ := reads_group.1 hgroup
    obtain ⟨rfl, hdigits, hlo, hhi⟩ := reads_chars.1 hdigits
    refine ⟨some mm, rfl, ?_, rfl⟩
    rintro l ⟨⟩
    exact ⟨Nat.le_antisymm (hhi 2 rfl) hlo, hdigits⟩

theorem reads_meridiem
    (h : Reads unicode.isWord (.group 3 (oneOf (word "am") [word "pm"])) before u after g) :
    (∃ pm, List.Forall₂ (fun c x => isLetter c x = true) (meridiem pm) u) ∧ g = [(3, u)] := by
  obtain ⟨g, rfl, hword⟩ := reads_group.1 h
  obtain rfl := hword.groups_eq_nil (by simp [oneOf, Pattern.subpatterns])
  obtain ⟨q, hq, hreads⟩ := reads_oneOf hword
  obtain ⟨pm, rfl⟩ : ∃ pm, q = exactly isLetter (meridiem pm) := by
    rcases List.mem_pair.1 hq with rfl | rfl
    · exact ⟨false, rfl⟩
    · exact ⟨true, rfl⟩
  exact ⟨⟨pm, forall₂_of_exactly hreads⟩, rfl⟩

/-- The word of "am" or "pm" ends where no other character of a word follows. -/
theorem isBoundary_letters (h : List.Forall₂ (fun c x => isLetter c x = true) (meridiem pm) me) :
    isBoundary unicode.isWord (me.reverse ++ before) rest = !rest.head?.any unicode.isWord := by
  have hlength : me.length = 2 := by
    rw [← h.length_eq]
    cases pm <;> rfl
  obtain ⟨x, y, rfl⟩ := List.length_eq_two.1 hlength
  have hy :
      unicode.isWord y = true := isWord_of_isSomeLetter (isSomeLetter_of_meridiem h y (by simp))
  simp [isBoundary, hy]

/-- The pattern reads a number with "am" or "pm", after what has no digits, and captures its
    parts. -/
theorem reads_atTime (h : Reads unicode.isWord (atTimePattern unicode) before u after g) :
    ∃ lead cs ds mm pm me, u ++ after = lead ++ cs ∧ (∀ c ∈ lead, unicode.isDecimal c = false) ∧
      Numbered unicode cs ds mm pm me after ∧
        g = (1, ds) :: (mm.toList.map (2, ·) ++ [(3, me)]) := by
  obtain ⟨lead, _, _, _, rfl, rfl, hlead, h⟩ := reads_seq.1 h
  obtain ⟨ds, _, _, _, rfl, rfl, hds, h⟩ := reads_seq.1 h
  obtain ⟨_, _, _, _, rfl, rfl, hmm, h⟩ := reads_seq.1 h
  obtain ⟨spaces, _, _, _, rfl, rfl, hspaces, h⟩ := reads_seq.1 h
  obtain ⟨me, _, _, _, rfl, rfl, hme, hboundary⟩ := reads_seq.1 h
  -- Each part reads what it stands for, and captures it or nothing.
  obtain ⟨hnone, rfl⟩ := reads_at hlead
  obtain ⟨_, rfl, hnumber⟩ := reads_group.1 hds
  obtain ⟨rfl, hdigits, hlo, hhi⟩ := reads_chars.1 hnumber
  obtain ⟨mm, rfl, hminutes, rfl⟩ := reads_minutes hmm
  obtain ⟨rfl, hspace, -, -⟩ := reads_chars.1 hspaces
  obtain ⟨⟨pm, hpm⟩, rfl⟩ := reads_meridiem hme
  obtain ⟨rfl, rfl, hbound⟩ := reads_boundary.1 hboundary
  refine ⟨lead, ds ++ (minutesText mm ++ (spaces ++ (me ++ after))), ds, mm, pm,
    me, by simp, hnone, ?_, by simp⟩
  refine ⟨⟨spaces, hspace, rfl⟩, hdigits, List.ne_nil_of_length_pos hlo, hhi 2 rfl,
    hminutes, hpm, ?_⟩
  rwa [isBoundary_letters hpm, Bool.not_eq_true'] at hbound

/-- The pattern reads a number with "am" or "pm". -/
theorem exists_reads_atTime (before : List Char) (h : Numbered unicode cs ds mm pm me rest) :
    ∃ u g, cs = u ++ rest ∧ Reads unicode.isWord (atTimePattern unicode) before u rest g := by
  obtain ⟨spaces, hspaces, rfl⟩ := h.exists_spaces
  have hminutes : ∀ {before after : List Char}, Reads unicode.isWord
      (.opt (.seq (.chars (· = ':') 1 (some 1)) (.group 2 (.chars unicode.isDecimal 2 (some 2)))))
      before (minutesText mm) after (mm.toList.map (2, ·)) := by
    intro before after
    rcases mm with _ | mm
    · exact .none
    · obtain ⟨hlength, hdigits⟩ := h.minutes mm rfl
      refine .some (reads_seq.2 ⟨[':'], mm, [], _, rfl, rfl, .chars (by simp) (by simp)
        (by simp), ?_⟩)
      exact .group (.chars hdigits hlength.ge (by simp [hlength]))
  have hmeridiem : ∀ {before after : List Char},
      Reads unicode.isWord (.group 3 (oneOf (word "am") [word "pm"])) before me after
        [(3, me)] := by
    intro before after
    have hword := h.meridiem
    cases pm with
    | false => exact .group (.left (reads_exactly hword))
    | true => exact .group (.right (reads_exactly hword))
  have hboundary : ∀ {before : List Char}, isBoundary unicode.isWord (me.reverse ++ before)
      rest = true := by
    intro before
    rw [isBoundary_letters h.meridiem, h.word_end, Bool.not_false]
  have hdigits : ∀ {before after : List Char},
      Reads unicode.isWord (.group 1 (.chars unicode.isDecimal 1 (some 2))) before ds
        after [(1, ds)] :=
    .group (g := []) (.chars h.digits (List.length_pos_of_ne_nil h.ne_nil)
      (by simp [h.length_digits]))
  refine ⟨ds ++ (minutesText mm ++ (spaces ++ (me ++ []))),
    [(1, ds)] ++ (mm.toList.map (2, ·) ++ ([(3, me)] ++ [])), by simp, ?_⟩
  refine .seq (u := []) (g := []) .none (.seq hdigits (.seq hminutes ?_))
  exact .seq (g := []) (.chars hspaces (Nat.zero_le _) (by simp))
    (.seq hmeridiem (.boundary hboundary))

/-! ## The first number -/

theorem valueOf_isSome (h : ∀ c ∈ ds, unicode.isDecimal c = true) :
    ∃ number, valueOf unicode ds = some number := by
  suffices hvalues : ∃ values, ds.mapM unicode.decimal = some values by
    obtain ⟨values, hvalues⟩ := hvalues
    exact ⟨_, Option.map_eq_some_iff.2 ⟨values, hvalues, rfl⟩⟩
  induction ds with
  | nil => exact ⟨[], rfl⟩
  | cons d ds ih =>
    obtain ⟨value, hvalue⟩ := Option.isSome_iff_exists.1 (h d List.mem_cons_self)
    obtain ⟨values, hvalues⟩ := ih fun c hc => h c (List.mem_cons_of_mem d hc)
    exact ⟨value :: values, by rw [List.mapM_cons, hvalue, hvalues]; rfl⟩

theorem numberAt_ne_none (h : Numbered unicode cs ds mm pm me rest) :
    numberAt unicode cs ≠ none := by
  obtain ⟨hour, hhour⟩ := valueOf_isSome h.digits
  obtain ⟨minute, hminute⟩ : ∃ minute, mm.elim (some 0) (valueOf unicode) = some minute := by
    rcases mm with _ | mm
    · exact ⟨0, rfl⟩
    · exact valueOf_isSome (h.minutes mm rfl).2
  have hsome : numberAt unicode cs = some ⟨hour, minute, pm⟩ :=
    numberAt_eq_some.2 ⟨ds, mm, me, rest, h, hhour, hminute⟩
  rw [hsome]
  exact Option.some_ne_none _

theorem firstNumber_eq_none (h : firstNumber unicode cs = none) (hcs : cs = before ++ rest) :
    numberAt unicode rest = none := by
  induction cs generalizing before with
  | nil =>
    obtain rfl := (List.append_eq_nil_iff.1 hcs.symm).2
    rfl
  | cons c cs ih =>
    obtain ⟨hhere, hlater⟩ := Option.or_eq_none_iff.1 h
    cases before with
    | nil =>
      obtain rfl : c :: cs = rest := hcs
      exact hhere
    | cons b before => exact ih hlater (List.cons.inj hcs).2

/-- The first number is at some place, and none is to the left of it. -/
theorem firstNumber_eq_some (h : firstNumber unicode cs = some n) :
    ∃ before rest, cs = before ++ rest ∧
    numberAt unicode rest = some n ∧ ∀ p q, before = p ++ q → q ≠ [] →
      numberAt unicode (q ++ rest) = none := by
  induction cs with
  | nil => exact absurd h (by simp [firstNumber])
  | cons c cs ih =>
    rcases Option.or_eq_some_iff.1 h with hhere | ⟨hnone, hlater⟩
    · refine ⟨[], c :: cs, rfl, hhere, fun p q hpq hq => ?_⟩
      exact absurd (List.append_eq_nil_iff.1 hpq.symm).2 hq
    · obtain ⟨before, rest, rfl, hn, hfirst⟩ := ih hlater
      refine ⟨c :: before, rest, rfl, hn, fun p q hpq hq => ?_⟩
      rcases p with _ | ⟨b, p⟩
      · obtain rfl : q = c :: before := hpq.symm
        exact hnone
      · exact hfirst p q (List.cons.inj hpq).2 hq

/-- What is read where no number is to the left begins where the number does. -/
theorem number_of_search {pre lead cs' ds' me' rest' : List Char} {mm' : Option (List Char)}
    {pm' : Bool} (hfirst : ∀ p q, before = p ++ q → q ≠ [] → numberAt unicode (q ++ cs) = none)
    (h : Numbered unicode cs ds mm pm me rest) (hle : pre.length ≤ before.length)
    (happ : before ++ cs = pre ++ (lead ++ cs')) (hlead : ∀ c ∈ lead, unicode.isDecimal c = false)
    (h' : Numbered unicode cs' ds' mm' pm' me' rest') : cs = cs' := by
  rw [← List.append_assoc] at happ
  rcases List.append_eq_append_iff.1 happ with ⟨q, hq, hcs⟩ | ⟨q, hq, hcs'⟩
  · rcases q with _ | ⟨c, q⟩
    · exact hcs
    -- Its digits would be among what is read before the number.
    obtain ⟨r, hr, hlast⟩ : ∃ r, before = pre ++ r ∧ lead = r ++ c :: q := by
      obtain ⟨r, rfl⟩ := List.prefix_of_prefix_length_le (List.prefix_append pre lead)
        (hq ▸ List.prefix_append before (c :: q)) hle
      exact ⟨r, rfl, by simpa [List.append_assoc] using hq⟩
    obtain ⟨spaces, -, htext⟩ := h.exists_spaces
    obtain ⟨d, left, rfl⟩ := List.exists_cons_of_ne_nil h.ne_nil
    obtain rfl : d = c := (List.cons.inj (htext.symm.trans hcs)).1
    have hdigit := h.digits d List.mem_cons_self
    exact absurd (hdigit.symm.trans (hlead d (hlast ▸ by simp))) (by simp)
  · rcases q with _ | ⟨c, q⟩
    · exact hcs'.symm
    · exact absurd (hcs' ▸ hfirst _ (c :: q) hq (List.cons_ne_nil c q)) (numberAt_ne_none h')

/-- What is found is the first number with "am" or "pm". -/
theorem groups_of_firstNumber (hn : firstNumber unicode cs = some n) : ∃ m number ds mm me rest,
    searchIn unicode (atTimePattern unicode) cs = some m ∧
      Numbered unicode number ds mm n.pm me rest ∧
      valueOf unicode ds = some n.hour ∧ mm.elim (some 0) (valueOf unicode) = some n.minute ∧
      m.groups = (1, ds) :: (mm.toList.map (2, ·) ++ [(3, me)]) := by
  obtain ⟨before, number, rfl, hat, hfirst⟩ := firstNumber_eq_some hn
  obtain ⟨ds, mm, me, rest, h, hhour, hminute⟩ := numberAt_eq_some.1 hat
  obtain ⟨u, g, hu, hreads⟩ := exists_reads_atTime before.reverse h
  obtain ⟨m, pre, hm, hle, happ, hreads⟩ := exists_search hreads
  rw [← hu] at hm happ
  obtain ⟨lead, cs', ds', mm', pm', me', hlead, hdecimal, h', hgroups⟩ := reads_atTime hreads
  rw [hlead] at happ
  obtain rfl := number_of_search hfirst h hle happ hdecimal h'
  have hparts := (numberParts_eq h).symm.trans (numberParts_eq h')
  simp only [Prod.mk.injEq] at hparts
  obtain ⟨rfl, rfl, rfl, -⟩ := hparts
  exact ⟨m, number, ds, mm, me, rest, hm, h, hhour, hminute, hgroups⟩

theorem readInteger_of_valueOf {number : ℕ} (hlength : ds.length ≤ 4300)
    (h : valueOf unicode ds = some number) : readInteger unicode ds = .ok number := by
  obtain ⟨values, hvalues, rfl⟩ := Option.map_eq_some_iff.1 h
  rw [readInteger, if_neg (by omega), hvalues]

/-- The parser reads the first number with "am" or "pm". -/
theorem parseAtTime_eq : parseAtTime unicode cs =
    .ok ((firstNumber unicode cs).bind TwelveHour.time) := by
  rcases hn : firstNumber unicode cs with _ | n
  · rcases hm : searchIn unicode (atTimePattern unicode) cs with _ | m
    · rw [parseAtTime, hm]
      rfl
    · obtain ⟨skipped, hcs, hreads⟩ := search_eq_some hm
      obtain ⟨lead, number, ds, mm, pm, me, hlead, -, h, -⟩ := reads_atTime hreads
      rw [hlead, ← List.append_assoc] at hcs
      exact absurd (firstNumber_eq_none hn hcs) (numberAt_ne_none h)
  obtain ⟨m, number, ds, mm, me, rest, hm, h, hhour, hminute, hgroups⟩ := groups_of_firstNumber hn
  have hone : captured m 1 = ds := by
    rw [captured, Match.group, hgroups]
    cases mm <;> rfl
  have htwo : m.group 2 = mm := by
    rw [Match.group, hgroups]
    cases mm <;> rfl
  have hthree : captured m 3 = me := by simp [captured, Match.group, hgroups]
  have hread : mm.elim (.ok 0) (readInteger unicode) = .ok n.minute := by
    rcases mm with _ | mm
    · exact congrArg Except.ok (Option.some.inj hminute)
    · exact readInteger_of_valueOf (by have := (h.minutes mm rfl).1; omega) hminute
  have hds := h.length_digits
  rw [parseAtTime, hm]
  dsimp only
  rw [hone, htwo, hthree, lower_meridiem h.meridiem, readInteger_of_valueOf (by omega) hhour, hread]
  dsimp only [Except.bind]
  rw [Option.bind_some, TwelveHour.time]
  cases n.pm with
  | false => simp [meridiem]
  | true => simp [meridiem]

/-! ## Times that are kept -/

/-- The text has the word for a time of day that comes first in the table, or none. -/
theorem timeOfDayWord_eq_some : timeOfDayWord unicode cs = some time ↔
    ∃ before keyword after, timeOfDay = before ++ (keyword, time) :: after ∧
      (∀ entry ∈ before, hasWord unicode entry.1 cs = false) ∧
        hasWord unicode keyword cs = true := by
  rw [timeOfDayWord, Option.map_eq_some_iff]
  constructor
  · rintro ⟨⟨keyword, time⟩, hfind, rfl⟩
    obtain ⟨hword, before, after, htable, hnone⟩ := List.find?_eq_some_iff_append.1 hfind
    exact ⟨before, keyword, after, htable,
      fun entry hentry => by simpa [hasWord] using hnone entry hentry, hword⟩
  · rintro ⟨before, keyword, after, htable, hnone, hword⟩
    refine ⟨(keyword, time), List.find?_eq_some_iff_append.2 ⟨hword, before, after,
      htable, ?_⟩, rfl⟩
    intro entry hentry
    rw [← hasWord, hnone entry hentry, Bool.not_false]

theorem timeOfDayWord_eq_none : timeOfDayWord unicode cs = none ↔
    ∀ entry ∈ timeOfDay, hasWord unicode entry.1 cs = false := by
  rw [timeOfDayWord, Option.map_eq_none_iff, List.find?_eq_none]
  exact forall₂_congr fun _ _ => by rw [hasWord, Bool.not_eq_true]

/-- The time that is read, or nine, is the one that the text has kept. -/
theorem clockTimeKept_iff {read : Option (ℕ × ℕ)} (hread : parseTimeOfDay unicode cs = .ok read) :
    read.getD defaultHourMinute = time ↔ ClockTimeKept unicode cs time := by
  rw [parseTimeOfDay] at hread
  constructor
  · rintro rfl
    rcases hword : timeOfDayWord unicode cs with _ | time
    · rw [hword, parseAtTime_eq] at hread
      obtain rfl := Except.ok.inj hread
      rw [timeOfDayWord_eq_none] at hword
      rcases hn : firstNumber unicode cs with _ | n
      · exact .nine hword (by simp [hn]) rfl
      rcases htime : n.time with _ | time
      · refine .nine hword (fun n' hn' => ?_) (by simp [htime])
        obtain rfl := Option.some.inj (hn.symm.trans hn')
        exact htime
      · exact .number hword hn (by simp [htime])
    · rw [hword] at hread
      obtain rfl := Except.ok.inj hread
      obtain ⟨before, keyword, after, htable, hnone, hhas⟩ := timeOfDayWord_eq_some.1 hword
      exact .word htable hnone hhas
  · intro hkept
    cases hkept with
    | word htable hnone hhas =>
      rw [timeOfDayWord_eq_some.2 ⟨_, _, _, htable, hnone, hhas⟩] at hread
      obtain rfl := Except.ok.inj hread
      rfl
    | number hnone hn htime =>
      rw [timeOfDayWord_eq_none.2 hnone, parseAtTime_eq, hn] at hread
      obtain rfl := Except.ok.inj hread
      rw [Option.bind_some, htime, Option.getD_some]
    | nine hnone hn htime =>
      rw [timeOfDayWord_eq_none.2 hnone, parseAtTime_eq] at hread
      obtain rfl := Except.ok.inj hread
      have hbind : (firstNumber unicode cs).bind TwelveHour.time = none :=
        Option.bind_eq_none_iff.2 hn
      rw [hbind, Option.getD_none, htime]

/-- The time that is set is the one that the text has kept. -/
theorem hourMinuteOf_iff
    (hduration : searchIn unicode (inDurationPattern unicode) text.toList = none)
    (h : tryParseOnceSchedule unicode zone text now = .ok (some runAt)) :
    hourMinuteOf runAt = time ↔ ClockTimeKept unicode text.toList time := by
  obtain ⟨read, hread, hset⟩ := hourMinuteOf_of_tryParse hduration h
  rw [hset]
  exact clockTimeKept_iff hread

/-- The one time a text states is kept iff the text has it kept. -/
theorem stated_iff (hduration : searchIn unicode (inDurationPattern unicode) text.toList = none)
    (h : tryParseOnceSchedule unicode zone text now = .ok (some runAt)) :
    (∀ time, clockTimes unicode text = [time] → hourMinuteOf runAt = time) ↔
      ∀ time, clockTimes unicode text = [time] → ClockTimeKept unicode text.toList time :=
  forall₂_congr fun _ _ => hourMinuteOf_iff hduration h

/-- A quarter past eight is kept. -/
theorem stated_quarterPastEight : hourMinuteOf ⟨1780215300000000 + 86400000000, false⟩ =
    (8, 15) := by
  have hduration :
      searchIn .ascii (inDurationPattern .ascii) "Tomorrow at 8:15 AM".toList = none := by
    decide +kernel
  have hparse : tryParseOnceSchedule .ascii .utc "Tomorrow at 8:15 AM" eightOClock =
      .ok (some ⟨1780215300000000 + 86400000000, false⟩) := by decide +kernel
  have hclock : clockTimes .ascii "Tomorrow at 8:15 AM" = [(8, 15)] := by decide +kernel
  refine (stated_iff hduration hparse).2 (fun time htime => ?_) (8, 15) hclock
  obtain rfl := (List.cons.inj (htime.symm.trans hclock)).1
  have hnumber : firstNumber .ascii "Tomorrow at 8:15 AM".toList =
      some ⟨8, 15, false⟩ := by decide +kernel
  exact .number (by decide +kernel) hnumber rfl

/-- The one time a text states would be kept: half past five in the afternoon, without
    "pm", becomes nine in the morning. -/
theorem not_stated : ¬∀ (unicode : Unicode) (zone : Zone) (text : String) (now : Now)
    (runAt : ZonedDatetime) (time : ℕ × ℕ), clockTimes unicode text = [time] →
    searchIn unicode (inDurationPattern unicode) text.toList = none →
    tryParseOnceSchedule unicode zone text now = .ok (some runAt) → hourMinuteOf runAt = time := by
  intro h
  have hclock : clockTimes .ascii "tomorrow at 17:30" = [(17, 30)] := by decide +kernel
  have hduration :
      searchIn .ascii (inDurationPattern .ascii) "tomorrow at 17:30".toList = none := by
    decide +kernel
  have hparse : tryParseOnceSchedule .ascii .utc "tomorrow at 17:30" eightOClock =
      .ok (some ⟨1780218000000000 + 86400000000, false⟩) := by decide +kernel
  exact absurd (h _ _ _ _ _ _ hclock hduration hparse) (by decide)

/-- And a word is asked for first: a quarter past eight "in the morning" is nine. -/
example : tryParseOnceSchedule .ascii .utc "tomorrow morning at 8:15 am" eightOClock =
    .ok (some ⟨1780218000000000 + 86400000000, false⟩) := by decide +kernel

end SchedulerLm
