import Mathlib.Algebra.Order.BigOperators.Group.List
import Mathlib.Data.List.Chain
import SchedulerLm.CalendarDays

/-!
# Compound durations

"In N1 hours and N2 minutes" has two durations, and the parser goes by the first one: its
pattern is found where that one is, and what is after it is not looked at. The text is read
as the sum of its durations iff all the others are zero (`summed_iff`).

There is no recurrence in such a text (`search_recurring_of_unjoined`): each word of
`RECURRING_PATTERN` has two letters next to each other that no word for an amount or a unit
has.
-/

namespace SchedulerLm

open Calendar Zones Regex

variable (unicode : Unicode)

/-! ## Texts of several durations -/

/-- The word `name`, in any case, and in letters of ASCII. -/
def Spelt (name u : List Char) : Prop :=
  List.Forall₂ (fun c x => isLetter c x = true) name u ∧ ∀ x ∈ u, x ∉ strangeLetters

/-- Some blanks. -/
def Blanks (cs : List Char) : Prop := cs ≠ [] ∧ ∀ c ∈ cs, unicode.isSpace c = true

/-- Some blanks and commas. -/
def Gap (cs : List Char) : Prop := cs ≠ [] ∧ ∀ c ∈ cs, unicode.isSpace c = true ∨ c = ','

/-- An amount the parser understands: digits, or a word of `WORD_NUMBERS`. -/
inductive Amount : List Char → ℕ → Prop
  | digits {u : List Char} {n : ℕ} : u ≠ [] → (∀ c ∈ u, unicode.isDecimal c = true) →
      readInteger unicode u = .ok n → Amount u n
  | word {entry : List Char × ℕ} {u : List Char} : entry ∈ wordNumbers → Spelt entry.1 u →
      Amount u entry.2

/-- What is between two durations: blanks and commas, and "and" between these. -/
inductive Separator : List Char → Prop
  | gap {cs : List Char} : Gap unicode cs → Separator cs
  | conj {cs u ds : List Char} : Gap unicode cs → Spelt "and".toList u → Separator ds →
      Separator (cs ++ (u ++ ds))

/-- An amount and a unit, with blanks between them. -/
inductive SpellsPair : List Char → ℕ × Int → Prop
  | intro {amount blanks unit name : List Char} {n : ℕ} {length : Int} : Amount unicode amount n →
      Blanks unicode blanks → unitLength name = some length → Spelt name unit →
      SpellsPair (amount ++ (blanks ++ unit)) (n, length)

/-- Amounts and units, one after another. -/
inductive SpellsPairs : List Char → List (ℕ × Int) → Prop
  | one {cs : List Char} {pair : ℕ × Int} : SpellsPair unicode cs pair → SpellsPairs cs [pair]
  | more {cs sep rest : List Char} {pair : ℕ × Int} {pairs : List (ℕ × Int)} :
      SpellsPair unicode cs pair →
      Separator unicode sep → SpellsPairs rest pairs → SpellsPairs (cs ++ (sep ++ rest))
        (pair :: pairs)

/-- "In" and amounts and units, one after another. -/
inductive SpellsDurations : List Char → List (ℕ × Int) → Prop
  | intro {u blanks rest : List Char} {pairs : List (ℕ × Int)} :
      Spelt "in".toList u → Blanks unicode blanks →
      SpellsPairs unicode rest pairs → SpellsDurations (u ++ (blanks ++ rest)) pairs

/-- Blanks and the comma are no part of words. -/
structure Unicode.Separates (unicode : Unicode) : Prop where
  isWord_space : ∀ c, unicode.isSpace c = true → unicode.isWord c = false
  isWord_comma : unicode.isWord ',' = false

/-- The sum of some durations. -/
def total (pairs : List (ℕ × Int)) : Int := (pairs.map fun pair => (pair.1 : Int) * pair.2).sum

variable (zone : Zone) in
/-- The parser has no answer, or goes by all the durations. -/
def Summed (text : String) (now : Now) (pairs : List (ℕ × Int)) : Prop :=
  tryParseOnceSchedule unicode zone text now = .ok none ∨
    ∃ localized, localize zone now = .ok localized ∧
      tryParseOnceSchedule unicode zone text now = .ok (some ⟨localized.wall + total pairs, false⟩)

/-- The names of the units. -/
def unitNames : List (List Char) :=
  ["second".toList, "seconds".toList, "minute".toList, "minutes".toList, "hour".toList,
    "hours".toList, "day".toList, "days".toList]

variable {unicode} {zone : Zone} {text : String} {now : Now} {pair first : ℕ × Int}
  {pairs rest : List (ℕ × Int)} {before u v w cs ds after name : List Char}
  {g : List (ℕ × List Char)} {length : Int} {n : ℕ} {m : Match Char}

theorem mem_unitNames (h : unitLength name = some length) : name ∈ unitNames := by
  have hmem : ∀ {a b : List Char}, name = a ∨ name = b → a ∈ unitNames → b ∈ unitNames →
      name ∈ unitNames := by
    rintro a b (rfl | rfl) ha hb
    · exact ha
    · exact hb
  rw [unitLength] at h
  split at h
  · rename_i hname
    exact hmem hname (by decide) (by decide)
  split at h
  · rename_i hname
    exact hmem hname (by decide) (by decide)
  split at h
  · rename_i hname
    exact hmem hname (by decide) (by decide)
  split at h
  · rename_i hname
    exact hmem hname (by decide) (by decide)
  · exact absurd h (by simp)

theorem wordNumbers_spec : ∀ entry ∈ wordNumbers, entry.1 ≠ [] ∧
    (∀ c ∈ entry.1, c ∈ smallLetters ∧ c ≠ 'k') ∧ wordNumbers.lookup entry.1 = some entry.2 := by
  have htable : (wordNumbers.all fun entry => entry.1 ≠ [] &&
      ((entry.1.all fun c => c ∈ smallLetters && c ≠ 'k') && wordNumbers.lookup entry.1 =
        some entry.2)) = true := by
    decide
  simpa only [List.all_eq_true, Bool.and_eq_true, decide_eq_true_eq] using htable

theorem unitNames_spec : ∀ name ∈ unitNames, name ≠ [] ∧ ∀ c ∈ name, c ∈ smallLetters ∧
    c ≠ 'k' := by
  have htable : (unitNames.all fun name => name ≠ [] && name.all fun c => c ∈ smallLetters && c ≠
      'k') = true := by
    decide
  simpa only [List.all_eq_true, Bool.and_eq_true, decide_eq_true_eq] using htable

/-! ## Letters next to each other -/

/-- Letters next to each other in the words of `RECURRING_PATTERN`. -/
def keywordPairs : List (Char × Char) := [('e', 'r'), ('e', 'a'), ('i', 'l'), ('e', 'k'),
    ('r', 'l'), ('t', 'l')]

/-- The characters are two such letters. -/
def Joined (x y : Char) : Prop := ∃ pair ∈ keywordPairs, isLetter pair.1 x = true ∧
    isLetter pair.2 y = true

/-- There are no such letters next to each other. -/
def Unjoined (cs : List Char) : Prop := cs.IsChain fun x y => ¬Joined x y

theorem isSomeLetter_of_joined {x y : Char} (h : Joined x y) :
    isSomeLetter x = true ∧ isSomeLetter y = true := by
  have hsmall : ∀ pair ∈ keywordPairs, pair.1 ∈ smallLetters ∧ pair.2 ∈ smallLetters := by decide
  obtain ⟨pair, hpair, hx, hy⟩ := h
  obtain ⟨hfst, hsnd⟩ := hsmall pair hpair
  exact ⟨List.any_eq_true.2 ⟨pair.1, hfst, hx⟩, List.any_eq_true.2 ⟨pair.2, hsnd, hy⟩⟩

/-- A character is taken for one letter only. -/
theorem isLetter_unique {c d x : Char} (hc : c ∈ smallLetters) (hd : d ∈ smallLetters)
    (hcx : isLetter c x = true) (hdx : isLetter d x = true) : c = d := by
  have hsmall : (smallLetters.all fun c => smallLetters.all fun d =>
      c = d || !isLetter d c && !isLetter d c.toUpper) = true := by decide +kernel
  have hother : (otherCases.all fun pair => smallLetters.all fun d =>
      pair.1 = d || !isLetter d pair.2) = true := by decide +kernel
  simp only [List.all_eq_true, Bool.or_eq_true, Bool.and_eq_true, Bool.not_eq_true',
    decide_eq_true_eq] at hsmall hother
  rw [isLetter, Bool.or_eq_true, Bool.or_eq_true, decide_eq_true_eq, decide_eq_true_eq,
    decide_eq_true_eq] at hcx
  rcases hcx with (rfl | rfl) | hcx
  · exact (hsmall x hc d hd).resolve_right fun h => absurd (h.1.symm.trans hdx) (by simp)
  · exact (hsmall c hc d hd).resolve_right fun h => absurd (h.2.symm.trans hdx) (by simp)
  · exact (hother (c, x) hcx d hd).resolve_right fun h => absurd (h.symm.trans hdx) (by simp)

/-- What is next to each other stays so, character by character. -/
theorem isChain_of_forall₂ {α β : Type} {r : α → β → Prop} {R : α → α → Prop}
    {S : β → β → Prop} {l : List α} {l' : List β} (h : List.Forall₂ r l l')
    (hRS : ∀ {a b a' b'}, r a a' → r b b' → R a b → S a' b') (hl : l.IsChain R) : l'.IsChain S := by
  induction h with
  | nil => exact .nil
  | @cons a a' l l' ha htail ih =>
    cases htail with
    | nil => exact .singleton a'
    | @cons b b' l l' hb htail =>
      obtain ⟨hab, hl⟩ := List.isChain_cons_cons.1 hl
      exact .cons_cons (hRS ha hb hab) (ih hl)

/-- A word without such letters next to each other is spelt without them. -/
theorem unjoined_of_spelt (h : List.Forall₂ (fun c x => isLetter c x = true) name u)
    (hsmall : ∀ c ∈ name, c ∈ smallLetters) (hname : name.IsChain fun c d =>
      (c, d) ∉ keywordPairs) :
    Unjoined u := by
  have hpairs : ∀ pair ∈ keywordPairs, pair.1 ∈ smallLetters ∧ pair.2 ∈ smallLetters := by decide
  refine isChain_of_forall₂ ((List.forall₂_and_left name u).2 ⟨hsmall, h⟩) ?_ hname
  rintro c d x y ⟨hc, hcx⟩ ⟨hd, hdy⟩ hcd ⟨pair, hpair, hx, hy⟩
  obtain ⟨hfst, hsnd⟩ := hpairs pair hpair
  obtain rfl := isLetter_unique hc hfst hcx hx
  obtain rfl := isLetter_unique hd hsnd hdy hy
  exact hcd hpair

/-- And what is spelt without them is no word with them. -/
theorem isChain_of_unjoined (h : List.Forall₂ (fun c x => isLetter c x = true) name u)
    (hu : Unjoined u) :
    name.IsChain fun c d => (c, d) ∉ keywordPairs := by
  refine isChain_of_forall₂ h.flip ?_ hu
  intro x y c d hcx hdy hxy hcd
  exact hxy ⟨(c, d), hcd, hcx, hdy⟩

theorem unjoined_of_no_letters (h : ∀ c ∈ cs, isSomeLetter c = false) : Unjoined cs := by
  induction cs with
  | nil => exact .nil
  | cons c cs ih =>
    cases cs with
    | nil => exact .singleton c
    | cons d ds =>
      refine .cons_cons (fun hjoined => ?_) (ih fun x hx => h x (List.mem_cons_of_mem c hx))
      exact absurd ((h c List.mem_cons_self).symm.trans
        (isSomeLetter_of_joined hjoined).1) (by simp)

/-- Words may be next to what has no letters. -/
theorem unjoined_append (hcs : Unjoined cs) (hds : Unjoined ds)
    (h : (∀ x ∈ cs, isSomeLetter x = false) ∨ ∀ y ∈ ds.head?, isSomeLetter y = false) :
    Unjoined (cs ++ ds) := by
  refine List.isChain_append.2 ⟨hcs, hds, fun x hx y hy hjoined => ?_⟩
  obtain ⟨hletter, hletter'⟩ := isSomeLetter_of_joined hjoined
  rcases h with h | h
  · exact absurd ((h x (List.mem_of_mem_getLast? hx)).symm.trans hletter) (by simp)
  · exact absurd ((h y hy).symm.trans hletter') (by simp)

/-- A word, what has no letters, and what follows. -/
theorem unjoined_between (hu : Unjoined u) (hne : cs ≠ []) (hcs : ∀ c ∈ cs, isSomeLetter c = false)
    (hds : Unjoined ds) : Unjoined (u ++ (cs ++ ds)) := by
  refine unjoined_append hu (unjoined_append (unjoined_of_no_letters hcs) hds (.inl hcs))
    (.inr fun y hy => ?_)
  obtain ⟨c, cs, rfl⟩ := List.exists_cons_of_ne_nil hne
  obtain rfl := Option.some.inj hy
  exact hcs c List.mem_cons_self

/-! ## No recurrences -/

theorem isSomeLetter_of_isSpace {c : Char} (h : unicode.isSpace c = true) :
    isSomeLetter c = false := by
  by_contra hletter
  rw [Bool.not_eq_false] at hletter
  exact absurd ((unicode.isSpace_letter hletter).symm.trans h) (by simp)

theorem isSomeLetter_of_isDecimal {c : Char} (h : unicode.isDecimal c = true) :
    isSomeLetter c = false := by
  by_contra hletter
  rw [Bool.not_eq_false] at hletter
  exact absurd ((isDecimal_of_isSomeLetter hletter).symm.trans h) (by simp)

theorem isSomeLetter_of_gap (h : Gap unicode cs) : ∀ c ∈ cs, isSomeLetter c = false := by
  intro c hc
  rcases h.2 c hc with hspace | rfl
  · exact isSomeLetter_of_isSpace hspace
  · decide

theorem Blanks.gap (h : Blanks unicode cs) : Gap unicode cs := ⟨h.1, fun c hc => .inl (h.2 c hc)⟩

theorem unjoined_amount (h : Amount unicode u n) : Unjoined u := by
  have hchain : ∀ entry ∈ wordNumbers, entry.1.IsChain fun c d => (c, d) ∉ keywordPairs := by decide
  cases h with
  | digits _ hdigits _ =>
    exact unjoined_of_no_letters fun c hc => isSomeLetter_of_isDecimal (hdigits c hc)
  | word hentry hspelt =>
    have hsmall := (wordNumbers_spec _ hentry).2.1
    exact unjoined_of_spelt hspelt.1 (fun c hc => (hsmall c hc).1) (hchain _ hentry)

theorem unjoined_pair (h : SpellsPair unicode cs pair) : Unjoined cs := by
  have hchain : ∀ name ∈ unitNames, name.IsChain fun c d => (c, d) ∉ keywordPairs := by decide
  cases h with
  | intro hamount hblanks hunit hspelt =>
    have hname := mem_unitNames hunit
    have hsmall := (unitNames_spec _ hname).2
    exact unjoined_between (unjoined_amount hamount) hblanks.1 (isSomeLetter_of_gap hblanks.gap)
      (unjoined_of_spelt hspelt.1 (fun c hc => (hsmall c hc).1) (hchain _ hname))

theorem unjoined_separator (h : Separator unicode cs) (hu : Unjoined u) (hds : Unjoined ds) :
    Unjoined (u ++ (cs ++ ds)) := by
  induction h generalizing u with
  | gap hgap => exact unjoined_between hu hgap.1 (isSomeLetter_of_gap hgap) hds
  | conj hgap hspelt _ ih =>
    have hand : Unjoined _ := unjoined_of_spelt hspelt.1 (forall_mem_of_all (by decide)) (by decide)
    rw [List.append_assoc, List.append_assoc]
    exact unjoined_between hu hgap.1 (isSomeLetter_of_gap hgap) (ih hand)

theorem unjoined_pairs (h : SpellsPairs unicode cs pairs) : Unjoined cs := by
  induction h with
  | one hpair => exact unjoined_pair hpair
  | more hpair hsep _ ih => exact unjoined_separator hsep (unjoined_pair hpair) ih

theorem unjoined_durations (h : SpellsDurations unicode cs pairs) : Unjoined cs := by
  cases h with
  | intro hspelt hblanks hpairs =>
    exact unjoined_between (unjoined_of_spelt hspelt.1 (forall_mem_of_all (by decide))
      (by decide)) hblanks.1
      (isSomeLetter_of_gap hblanks.gap) (unjoined_pairs hpairs)

/-- The words of the pattern have such letters, so that none is found. -/
theorem search_recurring_of_unjoined (h : Unjoined cs) :
    searchIn unicode recurringPattern cs = none := by
  have hkeywords : ∀ keyword ∈ recurringKeywords, ¬keyword.IsChain fun c d =>
      (c, d) ∉ keywordPairs := by decide
  rcases hm : searchIn unicode recurringPattern cs with _ | m
  · rfl
  obtain ⟨-, before, after, g, hreads⟩ := reads_captured (n := 1)
    (q := oneOf (word "every") [word "each", word "daily", word "weekly", word "hourly",
      word "biweekly",
      word "fortnightly", .seq (word "weekday") (.opt (word "s")), .seq (word "weekend")
        (.opt (word "s"))]) hm rfl
    (by simp [recurringPattern, sequence, oneOf, Pattern.subpatterns])
  have hunjoined : Unjoined (captured m 1) := h.infix (infix_captured hm 1)
  obtain ⟨q, hq, hreads⟩ := reads_oneOf hreads
  -- What is captured begins with one of the words.
  obtain ⟨keyword, hkeyword, v, hv, hword⟩ : ∃ keyword ∈ recurringKeywords, ∃ v,
    v <+: captured m 1 ∧
      List.Forall₂ (fun c x => isLetter c x = true) keyword v := by
    simp only [List.mem_cons, List.not_mem_nil, or_false] at hq
    rcases hq with rfl | rfl | rfl | rfl | rfl | rfl | rfl | rfl | rfl
    · exact ⟨"every".toList, by decide, _, List.prefix_rfl, forall₂_of_exactly hreads⟩
    · exact ⟨"each".toList, by decide, _, List.prefix_rfl, forall₂_of_exactly hreads⟩
    · exact ⟨"daily".toList, by decide, _, List.prefix_rfl, forall₂_of_exactly hreads⟩
    · exact ⟨"weekly".toList, by decide, _, List.prefix_rfl, forall₂_of_exactly hreads⟩
    · exact ⟨"hourly".toList, by decide, _, List.prefix_rfl, forall₂_of_exactly hreads⟩
    · exact ⟨"biweekly".toList, by decide, _, List.prefix_rfl, forall₂_of_exactly hreads⟩
    · exact ⟨"fortnightly".toList, by decide, _, List.prefix_rfl, forall₂_of_exactly hreads⟩
    · obtain ⟨v, w, _, _, heq, -, hweekday, -⟩ := reads_seq.1 hreads
      exact ⟨"weekday".toList, by decide, v, ⟨w, heq.symm⟩, forall₂_of_exactly hweekday⟩
    · obtain ⟨v, w, _, _, heq, -, hweekend, -⟩ := reads_seq.1 hreads
      exact ⟨"weekend".toList, by decide, v, ⟨w, heq.symm⟩, forall₂_of_exactly hweekend⟩
  exact absurd (isChain_of_unjoined hword ( List.IsChain.infix hunjoined hv.isInfix))
    (hkeywords keyword hkeyword)

/-! ## The first duration -/

/-- A text is cut in one way into characters of a class and what does not begin with one. -/
theorem append_inj_of_head {p : Char → Bool} {a a' r r' : List Char} (ha : ∀ c ∈ a, p c = true)
    (ha' : ∀ c ∈ a', p c = true) (hr : r.head?.any p = false) (hr' : r'.head?.any p = false)
    (h : a ++ r = a' ++ r') : a = a' ∧ r = r' := by
  have htake : ∀ {r : List Char}, r.head?.any p = false → r.takeWhile p = [] := by
    intro r hr
    cases r with
    | nil => rfl
    | cons c cs => exact List.takeWhile_cons_of_neg (by simpa using hr)
  have heq := congrArg (List.takeWhile p) h
  rw [List.takeWhile_append_of_pos ha, List.takeWhile_append_of_pos ha', htake hr, htake hr',
    List.append_nil, List.append_nil] at heq
  subst heq
  exact ⟨rfl, List.append_cancel_left h⟩

variable (unicode) in
/-- The parts of a text that begins with a duration: "in", blanks, an amount, blanks, and a unit, as
    a word. -/
structure Parts (cs lead gap amount gap' unit after : List Char) : Prop where
  append : cs = lead ++ (gap ++ (amount ++ (gap' ++ (unit ++ after))))
  length_lead : lead.length = 2
  blanks : Blanks unicode gap
  blanks' : Blanks unicode gap'
  amount_ne_nil : amount ≠ []
  amount_no_space : ∀ c ∈ amount, unicode.isSpace c = false
  unit_ne_nil : unit ≠ []
  unit_letters : ∀ c ∈ unit, isSomeLetter c = true
  word_end : after.head?.any unicode.isWord = false

theorem isSpace_of_isDecimal {c : Char} (h : unicode.isDecimal c = true) :
    unicode.isSpace c = false := by
  by_contra hspace
  rw [Bool.not_eq_false] at hspace
  exact absurd ((isDecimal_of_isSpace hspace).symm.trans h) (by simp)

theorem any_head?_append {p : Char → Bool} {b : Bool} (hne : cs ≠ []) (h : ∀ c ∈ cs, p c = b) :
    (cs ++ ds).head?.any p = b := by
  obtain ⟨c, cs, rfl⟩ := List.exists_cons_of_ne_nil hne
  exact h c List.mem_cons_self

theorem Parts.unique {lead gap amount gap' unit lead₂ gap₂ amount₂ gap₂' unit₂ after₂ : List Char}
    (h : Parts unicode cs lead gap amount gap' unit after)
    (h₂ : Parts unicode cs lead₂ gap₂ amount₂ gap₂' unit₂ after₂) :
    amount = amount₂ ∧ unit = unit₂ := by
  have hword : ∀ {u : List Char}, (∀ c ∈ u, isSomeLetter c = true) →
      ∀ c ∈ u, unicode.isWord c = true :=
    fun hu c hc => isWord_of_isSomeLetter (hu c hc)
  have hspace : ∀ {u : List Char}, (∀ c ∈ u, isSomeLetter c = true) →
      ∀ c ∈ u, unicode.isSpace c = false :=
    fun hu c hc => unicode.isSpace_letter (hu c hc)
  -- The parts are cut off one after another: each ends where the next one begins.
  obtain ⟨-, hgap⟩ := List.append_inj (h.append.symm.trans h₂.append)
    (h.length_lead.trans h₂.length_lead.symm)
  obtain ⟨-, hamount⟩ := append_inj_of_head h.blanks.2 h₂.blanks.2
    (any_head?_append h.amount_ne_nil h.amount_no_space)
      (any_head?_append h₂.amount_ne_nil h₂.amount_no_space) hgap
  obtain ⟨heq, hgap'⟩ := append_inj_of_head (p := fun c => !unicode.isSpace c)
    (by simpa using h.amount_no_space) (by simpa using h₂.amount_no_space)
    (any_head?_append h.blanks'.1 (by simpa using h.blanks'.2))
    (any_head?_append h₂.blanks'.1 (by simpa using h₂.blanks'.2)) hamount
  obtain ⟨-, hunit⟩ := append_inj_of_head h.blanks'.2 h₂.blanks'.2
    (any_head?_append h.unit_ne_nil (hspace h.unit_letters))
      (any_head?_append h₂.unit_ne_nil (hspace h₂.unit_letters))
    hgap'
  exact ⟨heq, (append_inj_of_head (hword h.unit_letters)
    (hword h₂.unit_letters) h.word_end h₂.word_end hunit).1⟩

theorem isSomeLetter_of_unit (hname : name ∈ unitNames)
    (h : List.Forall₂ (fun c x => isLetter c x = true) name u) :
    u ≠ [] ∧ ∀ c ∈ u, isSomeLetter c = true := by
  obtain ⟨hne, hsmall⟩ := unitNames_spec name hname
  exact ⟨ne_nil_of_forall₂ hne h, isSomeLetter_of_forall₂ (fun c hc => (hsmall c hc).1) h⟩

/-- The pattern reads such parts, and captures the amount and the unit. -/
theorem reads_inDuration (h : Reads unicode.isWord (inDurationPattern unicode) before u after g) :
    ∃ lead gap amount gap' unit, Parts unicode (u ++ after) lead gap amount gap' unit after ∧
      g = [(1, amount), (2, unit)] := by
  obtain ⟨_, _, _, _, rfl, rfl, hstart, h⟩ := reads_seq.1 h
  obtain ⟨lead, _, _, _, rfl, rfl, hin, h⟩ := reads_seq.1 h
  obtain ⟨gap, _, _, _, rfl, rfl, hgap, h⟩ := reads_seq.1 h
  obtain ⟨amount, _, _, _, rfl, rfl, hamount, h⟩ := reads_seq.1 h
  obtain ⟨gap', _, _, _, rfl, rfl, hgap', h⟩ := reads_seq.1 h
  obtain ⟨unit, _, _, _, rfl, rfl, hunit, hend⟩ := reads_seq.1 h
  obtain ⟨rfl, rfl, -⟩ := reads_boundary.1 hstart
  obtain ⟨rfl, rfl, hboundary⟩ := reads_boundary.1 hend
  obtain ⟨rfl, hblanks, hlo, -⟩ := reads_chars.1 hgap
  obtain ⟨rfl, hblanks', hlo', -⟩ := reads_chars.1 hgap'
  obtain ⟨_, rfl, hchoice⟩ := reads_group.1 hamount
  obtain ⟨_, rfl, hname⟩ := reads_group.1 hunit
  obtain rfl := hin.groups_eq_nil (subpatterns_word _)
  obtain rfl := hchoice.groups_eq_nil rfl
  obtain rfl := hname.groups_eq_nil (by simp [oneOf, Pattern.subpatterns])
  obtain ⟨q, hq, hname⟩ := reads_oneOf hname
  obtain ⟨name, hmem, rfl⟩ : ∃ name ∈ unitNames, q = exactly isLetter name := by
    simpa [unitNames, word] using hq
  obtain ⟨hne, hletters⟩ := isSomeLetter_of_unit hmem (forall₂_of_exactly hname)
  obtain ⟨hamount_ne, hno_space⟩ : amount ≠ [] ∧ ∀ c ∈ amount, unicode.isSpace c = false := by
    cases hchoice with
    | left h =>
      obtain ⟨-, hall, hlo, -⟩ := reads_chars.1 h
      exact ⟨List.ne_nil_of_length_pos hlo, fun c hc => unicode.isSpace_letter (hall c hc)⟩
    | right h =>
      obtain ⟨-, hall, hlo, -⟩ := reads_chars.1 h
      exact ⟨List.ne_nil_of_length_pos hlo, fun c hc => isSpace_of_isDecimal (hall c hc)⟩
  have hword_end := head_of_isBoundary (fun c hc => isWord_of_isSomeLetter (hletters c hc))
    hne hboundary
  refine ⟨lead, gap, amount, gap', unit, ⟨by simp, (forall₂_of_exactly hin).length_eq.symm, ?_,
    ?_, hamount_ne, hno_space, hne, hletters, hword_end⟩, by simp⟩
  · exact ⟨List.ne_nil_of_length_pos hlo, hblanks⟩
  · exact ⟨List.ne_nil_of_length_pos hlo', hblanks'⟩

/-- The parser understands the amount. -/
theorem readAmount_of_amount (h : Amount unicode u n) :
    readAmount unicode (unicode.lower u) = .ok (some n) := by
  cases h with
  | digits hne hdigits hread =>
    have hall : u.all unicode.isDigit = true :=
      List.all_eq_true.2 fun c hc => unicode.isDigit_decimal
        (Option.isSome_iff_ne_none.1 (hdigits c hc))
    rw [unicode.lower_decimals fun c hc => Option.isSome_iff_ne_none.1 (hdigits c hc), readAmount,
      if_pos ⟨hne, hall⟩, hread]
    rfl
  | word hentry hspelt =>
    obtain ⟨hne, hsmall, hlookup⟩ := wordNumbers_spec _ hentry
    have hdigit : (unicode.lower u).all unicode.isDigit = false :=
      isDigit_lower_letters (isSomeLetter_of_forall₂ (fun c hc => (hsmall c hc).1) hspelt.1)
        (ne_nil_of_forall₂ hne hspelt.1)
    rw [readAmount, hdigit, if_neg (by simp),
      lower_of_forall₂ unicode hsmall hspelt.1 hspelt.2, hlookup]

theorem amount_chars (h : Amount unicode u n) : u ≠ [] ∧ ((∀ c ∈ u, isSomeLetter c = true) ∨
    ∀ c ∈ u, unicode.isDecimal c = true) := by
  cases h with
  | digits hne hdigits _ => exact ⟨hne, .inr hdigits⟩
  | word hentry hspelt =>
    obtain ⟨hne, hsmall, -⟩ := wordNumbers_spec _ hentry
    exact ⟨ne_nil_of_forall₂ hne hspelt.1, .inl (isSomeLetter_of_forall₂ (fun c hc =>
      (hsmall c hc).1) hspelt.1)⟩

theorem head_of_separator (hunicode : unicode.Separates) (h : Separator unicode cs) :
    (cs ++ ds).head?.any unicode.isWord = false := by
  have hgap : ∀ {cs ds : List Char}, Gap unicode cs →
      (cs ++ ds).head?.any unicode.isWord = false := by
    intro cs ds hgap
    refine any_head?_append hgap.1 fun c hc => ?_
    rcases hgap.2 c hc with hspace | rfl
    · exact hunicode.isWord_space c hspace
    · exact hunicode.isWord_comma
  cases h with
  | gap h => exact hgap h
  | conj h _ _ =>
    rw [List.append_assoc]
    exact hgap h

/-- The first of some durations, and what is after it. -/
theorem exists_first (hunicode : unicode.Separates) (h : SpellsPairs unicode cs (first :: rest)) :
    ∃ amount gap' unit name after, cs = amount ++ (gap' ++ (unit ++ after)) ∧
      Amount unicode amount first.1 ∧
      Blanks unicode gap' ∧ unitLength name = some first.2 ∧ Spelt name unit ∧
      after.head?.any unicode.isWord = false := by
  cases h with
  | one hpair =>
    cases hpair with
    | intro hamount hblanks hunit hspelt =>
      exact ⟨_, _, _, _, [], by simp, hamount, hblanks, hunit, hspelt, rfl⟩
  | @more _ sep left _ _ hpair hsep _ =>
    cases hpair with
    | @intro amount gap' unit name _ _ hamount hblanks hunit hspelt =>
      exact ⟨amount, gap', unit, name, sep ++ left, by simp, hamount, hblanks, hunit, hspelt,
        head_of_separator hunicode hsep⟩

/-- The pattern reads the parts, if the amount is a word or a number. -/
theorem reads_of_parts {lead gap amount gap' unit : List Char}
    (h : Parts unicode cs lead gap amount gap' unit after)
    (hlead : List.Forall₂ (fun c x => isLetter c x = true) "in".toList lead)
    (hamount : (∀ c ∈ amount, isSomeLetter c = true) ∨ ∀ c ∈ amount, unicode.isDecimal c = true)
    (hname : name ∈ unitNames) (hunit : List.Forall₂ (fun c x => isLetter c x = true) name unit) :
    ∃ u, cs = u ++ after ∧
      Reads unicode.isWord (inDurationPattern unicode) [] u after [(1, amount), (2, unit)] := by
  have hletters : ∀ c ∈ lead, isSomeLetter c = true :=
    isSomeLetter_of_forall₂ (forall_mem_of_all (by decide)) hlead
  have hstart : isBoundary unicode.isWord [] (lead ++ (gap ++ (amount ++ (gap' ++ unit))) ++
      after) = true := by
    rw [List.append_assoc]
    exact isBoundary_start (fun c hc => isWord_of_isSomeLetter (hletters c hc))
      (List.ne_nil_of_length_pos (by rw [h.length_lead]; decide)) rfl
  have hgap : ∀ {gap before after : List Char}, Blanks unicode gap →
      Reads unicode.isWord (spaces unicode) before gap after [] :=
    fun h => .chars h.2 (List.length_pos_of_ne_nil h.1) (by simp)
  have hword : ∀ {before after : List Char}, Reads unicode.isWord (oneOf (word "second")
      [word "seconds", word "minute", word "minutes", word "hour", word "hours", word "day",
        word "days"])
      before unit after [] := by
    intro before after
    have hmem : exactly isLetter name ∈ unitNames.map (exactly isLetter) :=
      List.mem_map_of_mem hname
    exact reads_oneOf_of_mem hmem (reads_exactly hunit)
  have hend : ∀ {before : List Char}, isBoundary unicode.isWord (unit.reverse ++ before)
      after = true :=
    isBoundary_end (fun c hc => isWord_of_isSomeLetter (h.unit_letters c hc))
      h.unit_ne_nil h.word_end
  refine ⟨lead ++ (gap ++ (amount ++ (gap' ++ unit))), by rw [h.append]; simp, ?_⟩
  refine reads_seq.2 ⟨[], _, [], _, rfl, rfl, .boundary hstart, ?_⟩
  refine reads_seq.2 ⟨lead, _, [], _, rfl, rfl, reads_exactly hlead, ?_⟩
  refine reads_seq.2 ⟨gap, _, [], _, rfl, rfl, hgap h.blanks, ?_⟩
  refine reads_seq.2 ⟨amount, _, [(1, amount)], _, rfl, rfl, .group (g := []) ?_, ?_⟩
  · have hpos := List.length_pos_of_ne_nil h.amount_ne_nil
    rcases hamount with hletters | hdigits
    · exact .left (.chars hletters hpos (by simp))
    · exact .right (.chars hdigits hpos (by simp))
  refine reads_seq.2 ⟨gap', _, [], _, rfl, rfl, hgap h.blanks', ?_⟩
  exact reads_seq.2 ⟨unit, [], [(2, unit)], [], (List.append_nil unit).symm, rfl,
    .group (g := []) hword, .boundary hend⟩

/-- The pattern reads the first duration, and captures its amount and its unit. -/
theorem exists_search_inDuration (hunicode : unicode.Separates)
    (h : SpellsDurations unicode cs (first :: rest)) :
    ∃ m, searchIn unicode (inDurationPattern unicode) cs = some m ∧
      Amount unicode (captured m 1) first.1 ∧
      ∃ name, unitLength name = some first.2 ∧ Spelt name (captured m 2) := by
  obtain @⟨lead, gap, left, -, hlead, hblanks, hpairs⟩ := h
  obtain ⟨amount, gap', unit, name, after, rfl, hamount, hblanks', hunit, hspelt, hword_end⟩ :=
    exists_first hunicode hpairs
  have hname := mem_unitNames hunit
  obtain ⟨hunit_ne, hunit_letters⟩ := isSomeLetter_of_unit hname hspelt.1
  obtain ⟨hamount_ne, hchars⟩ := amount_chars hamount
  have hno_space : ∀ c ∈ amount, unicode.isSpace c = false := by
    rcases hchars with hletters | hdigits
    · exact fun c hc => unicode.isSpace_letter (hletters c hc)
    · exact fun c hc => isSpace_of_isDecimal (hdigits c hc)
  have hparts : Parts unicode (lead ++ (gap ++ (amount ++ (gap' ++ (unit ++ after))))) lead gap
      amount gap' unit after :=
    ⟨rfl, hlead.1.length_eq.symm, hblanks, hblanks', hamount_ne, hno_space, hunit_ne,
      hunit_letters, hword_end⟩
  obtain ⟨u, hu, hreads⟩ := reads_of_parts hparts hlead.1 hchars hname hspelt.1
  -- Something is found at the start, and it has the same parts.
  rw [← List.reverse_nil] at hreads
  obtain ⟨m, pre, hm, hpre, happend, hfound⟩ := exists_search hreads
  obtain rfl := List.length_eq_zero_iff.1 (Nat.le_zero.1 hpre)
  obtain ⟨_, _, amount₂, _, unit₂, hparts₂, hgroups⟩ := reads_inDuration hfound
  have happend' : lead ++ (gap ++ (amount ++ (gap' ++ (unit ++ after)))) = m.read ++ m.rest :=
    hu.trans happend
  rw [← happend'] at hparts₂
  obtain ⟨rfl, rfl⟩ := hparts.unique hparts₂
  have hone : captured m 1 = amount := by
    rw [captured, Match.group, hgroups]
    rfl
  have htwo : captured m 2 = unit := by
    rw [captured, Match.group, hgroups]
    rfl
  refine ⟨m, by rw [hu]; exact hm, by rwa [hone], name, hunit, by rwa [htwo]⟩

/-- The text speaks of its first duration. -/
theorem durationOf_of_spells (hunicode : unicode.Separates)
    (h : SpellsDurations unicode text.toList (first :: rest)) :
    durationOf unicode text = some first := by
  obtain ⟨m, hm, hamount, name, hunit, hspelt⟩ := exists_search_inDuration hunicode h
  have hname : unicode.lower (captured m 2) = name :=
    lower_of_forall₂ unicode (unitNames_spec name (mem_unitNames hunit)).2 hspelt.1 hspelt.2
  rw [durationOf, search_recurring_of_unjoined (unjoined_durations h), if_neg (by simp), hm,
    Option.bind_some, readAmount_of_amount hamount, hname, hunit]
  rfl

/-! ## The sum -/

theorem length_pos_of_pairs (h : SpellsPairs unicode cs pairs) : ∀ pair ∈ pairs, 0 < pair.2 := by
  have hpos : ∀ {cs pair}, SpellsPair unicode cs pair → 0 < pair.2 := by
    rintro cs pair ⟨-, -, hunit, -⟩
    exact unitLength_pos hunit
  induction h with
  | one hpair =>
    intro pair hmem
    exact List.mem_singleton.1 hmem ▸ hpos hpair
  | more hpair _ _ ih =>
    intro pair hmem
    rcases List.mem_cons.1 hmem with rfl | hmem
    · exact hpos hpair
    · exact ih pair hmem

theorem length_pos_of_durations (h : SpellsDurations unicode cs pairs) :
    ∀ pair ∈ pairs, 0 < pair.2 := by
  cases h with
  | intro _ _ hpairs => exact length_pos_of_pairs hpairs

theorem total_nonneg (h : ∀ pair ∈ pairs, 0 < pair.2) : 0 ≤ total pairs := by
  refine List.sum_nonneg fun x hx => ?_
  obtain ⟨pair, hpair, rfl⟩ := List.mem_map.1 hx
  exact Int.mul_nonneg (Int.natCast_nonneg _) (Int.le_of_lt (h pair hpair))

theorem total_cons : total (pair :: pairs) = pair.1 * pair.2 + total pairs := by
  rw [total, List.map_cons, List.sum_cons, total]

/-- Some durations are nothing only if each of them is. -/
theorem total_eq_zero_iff (h : ∀ pair ∈ pairs, 0 < pair.2) :
    total pairs = 0 ↔ ∀ pair ∈ pairs, pair.1 = 0 := by
  induction pairs with
  | nil => exact iff_of_true rfl fun pair hpair => absurd hpair List.not_mem_nil
  | cons pair pairs ih =>
    have htail : ∀ pair ∈ pairs, 0 < pair.2 := fun q hq => h q (List.mem_cons_of_mem pair hq)
    have hlength := h pair List.mem_cons_self
    have hfirst : 0 ≤ (pair.1 : Int) * pair.2 :=
      Int.mul_nonneg (Int.natCast_nonneg _) (Int.le_of_lt hlength)
    have hrest := total_nonneg htail
    rw [total_cons, List.forall_mem_cons, ← ih htail]
    constructor
    · intro hsum
      have hzero : (pair.1 : Int) * pair.2 = 0 := by omega
      refine ⟨?_, by omega⟩
      have hamount := (Int.mul_eq_zero.1 hzero).resolve_right (by omega)
      omega
    · rintro ⟨hamount, hsum⟩
      rw [hamount, hsum]
      simp

/-- The parser goes by a duration if the datetime may be moved by it. -/
theorem tryParse_eq_ok_iff {localized : ZonedDatetime} {runAt : Option ZonedDatetime}
    (hduration : durationOf unicode text = some first)
    (hlocal : localize zone now = .ok localized) :
    tryParseOnceSchedule unicode zone text now = .ok runAt ↔
      Fits localized (first.1 * first.2) ∧ runAt =
        some ⟨localized.wall + first.1 * first.2, false⟩ := by
  rw [tryParse_of_durationOf hduration hlocal]
  exact moved_eq_ok_iff

/-- Where the time cannot be localized, the parser raises. -/
theorem tryParse_of_localize_error {e : Exn} (hduration : durationOf unicode text = some first)
    (hlocal : localize zone now = .error e) :
    tryParseOnceSchedule unicode zone text now = .error e := by
  rw [tryParseOnceSchedule, if_neg (durationOf_eq_some hduration).1, hlocal]
  rfl

/-- The parser goes by all the durations of a text, or has no answer, iff the datetime it comes to
    with the first one is one of the calendar, and the others are zero. -/
theorem summed_iff (hunicode : unicode.Separates)
    (h : SpellsDurations unicode text.toList (first :: rest)) :
    Summed unicode zone text now (first :: rest) ↔
      (∃ localized, localize zone now = .ok localized ∧ Fits localized (first.1 * first.2)) ∧
        ∀ pair ∈ rest, pair.1 = 0 := by
  have hduration := durationOf_of_spells hunicode h
  have hpos : ∀ pair ∈ rest, 0 < pair.2 :=
    fun pair hpair => length_pos_of_durations h pair (List.mem_cons_of_mem first hpair)
  rw [← total_eq_zero_iff hpos, Summed]
  rcases hlocal : localize zone now with e | localized
  · rw [tryParse_of_localize_error hduration hlocal]
    simp
  · rw [tryParse_eq_ok_iff hduration hlocal]
    constructor
    · rintro (⟨-, hnone⟩ | ⟨localized', hlocal', hsum⟩)
      · exact absurd hnone (by simp)
      · obtain rfl := Except.ok.inj hlocal'
        obtain ⟨hfits, heq⟩ := (tryParse_eq_ok_iff hduration hlocal).1 hsum
        have hwall := congrArg ZonedDatetime.wall (Option.some.inj heq)
        rw [total_cons] at hwall
        exact ⟨⟨localized, rfl, hfits⟩, by dsimp only at hwall; omega⟩
    · rintro ⟨⟨localized', hlocal', hfits⟩, hzero⟩
      obtain rfl := Except.ok.inj hlocal'
      refine .inr ⟨localized, rfl, (tryParse_eq_ok_iff hduration hlocal).2 ⟨hfits, ?_⟩⟩
      rw [total_cons, hzero, Int.add_zero]

theorem separates_ascii : Unicode.ascii.Separates := by
  refine ⟨fun c hc => ?_, by decide⟩
  have hblanks : ([' ', '\t', '\r', '\n'].all fun c => !Unicode.ascii.isWord c) = true := by decide
  have hmem : c ∈ [' ', '\t', '\r', '\n'] := by
    have hspace : c.isWhitespace = true := hc
    simpa [Char.isWhitespace, or_assoc] using hspace
  simpa using List.all_eq_true.1 hblanks c hmem

/-- Two hours, and some minutes. -/
theorem spells_hoursAndMinutes (hne : u ≠ []) (hdigits : ∀ c ∈ u, Unicode.ascii.isDecimal c = true)
    (hread : readInteger .ascii u = .ok n) :
    SpellsDurations .ascii ("in 2 hours and ".toList ++ (u ++ " minutes".toList))
      [(2, 3600000000), (n, 60000000)] := by
  have hself : ∀ {name : List Char}, List.Forall₂ (fun c x => isLetter c x = true) name name →
      (name.all fun x => x ∉ strangeLetters) = true → Spelt name name :=
        fun h hstrange => ⟨h, forall_mem_of_all hstrange⟩
  have hhours : Spelt "hours".toList "hours".toList := hself (by decide) (by decide)
  have hminutes : Spelt "minutes".toList "minutes".toList := hself (by decide) (by decide)
  have hspace : Blanks .ascii " ".toList := ⟨by decide, forall_mem_of_all (by decide)⟩
  have htwo : SpellsPair .ascii ("2".toList ++ (" ".toList ++ "hours".toList)) (2, 3600000000) :=
    .intro (.digits (by decide) (forall_mem_of_all (by decide)) (by decide)) hspace rfl hhours
  have hrest : SpellsPair .ascii (u ++ (" ".toList ++ "minutes".toList)) (n, 60000000) :=
    .intro (.digits hne hdigits hread) hspace rfl hminutes
  have hand : Separator .ascii (" ".toList ++ ("and".toList ++ " ".toList)) :=
    .conj hspace.gap (hself (by decide) (by decide)) (.gap hspace.gap)
  exact .intro (u := "in".toList) (hself (by decide)
    (by decide)) hspace (.more htwo hand (.one hrest))

/-- With no minutes, two hours later is right. -/
theorem summed_twoHours :
    Summed .ascii .utc "in 2 hours and 0 minutes" eightOClock [(2, 3600000000), (0, 60000000)] := by
  have hspells : SpellsDurations .ascii "in 2 hours and 0 minutes".toList [(2, 3600000000),
      (0, 60000000)] :=
    spells_hoursAndMinutes (u := "0".toList) (by decide) (forall_mem_of_all (by decide)) (by decide)
  exact (summed_iff separates_ascii hspells).2 ⟨⟨_, rfl, by decide⟩, by decide⟩

/-- The durations would be added up: "in 2 hours and 30 minutes" is in two hours. -/
theorem not_summed : ¬∀ (unicode : Unicode) (zone : Zone) (text : String) (now : Now)
    (pairs : List (ℕ × Int)),
    unicode.Separates → SpellsDurations unicode text.toList pairs → 2 ≤ pairs.length →
    Summed unicode zone text now pairs := by
  intro h
  have hspells : SpellsDurations .ascii "in 2 hours and 30 minutes".toList [(2, 3600000000),
      (30, 60000000)] :=
    spells_hoursAndMinutes (u := "30".toList) (by decide)
      (forall_mem_of_all (by decide)) (by decide)
  have hparse : tryParseOnceSchedule .ascii .utc "in 2 hours and 30 minutes" eightOClock =
      .ok (some ⟨1780214400000000 + 7200000000, false⟩) := by decide +kernel
  rcases h .ascii .utc _ eightOClock _ separates_ascii hspells (by decide)
    with hnone | ⟨localized, hlocal, hsum⟩
  · exact absurd (hparse.symm.trans hnone) (by simp)
  · obtain rfl := Except.ok.inj hlocal
    exact absurd (hparse.symm.trans hsum) (by decide)

end SchedulerLm
