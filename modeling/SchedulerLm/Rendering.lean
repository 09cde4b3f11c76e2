import Mathlib.Data.List.Nodup
import SchedulerLm.Base.Templates
import SchedulerLm.Prompts

/-!
# Rendering

`render_trigger_parse_prompt` replaces the placeholders of the prompt one after another, and
each time in all of what it has so far. This is the same as filling them in all at once, in any
order, and what is checked afterwards, that no placeholder is left, depends on the prompt alone
(`rendered_of_placeholders`). For this, the values must not bring placeholders about: datetimes
do not, and the name of a time zone does not if it is plain (`PlainName`).
-/

namespace SchedulerLm

open Calendar Zones Templates

/-- What is raised where the prompt is rendered. -/
inductive PromptExn
  | promptLoadError
  | below (e : Exn)
  deriving DecidableEq

/-- What all placeholders begin with, and is looked for in the end. -/
def injectMark : List Char := "[INJECT_".toList

/-- The placeholders, in the order of `triggerParsePlaceholders`. -/
def promptPlaceholders : List String :=
  "[INJECT_CURRENT_ISO_DATETIME]" :: "[INJECT_DEFAULT_TIMEZONE]" :: "[INJECT_CURRENT_DATE]" ::
    examplePlaceholders

/-- The replacements of `render_trigger_parse_prompt`, and its check. -/
def renderValues (values : List (String × String)) (content : String) : Except PromptExn String :=
  let rendered := values.foldl
    (fun rendered value => .ofList (replace value.1.toList value.2.toList rendered.toList)) content
  if injectMark <:+: rendered.toList then .error .promptLoadError else .ok rendered

section Render

variable (lib : ParseLib) (timezone : String) (now : Now)

/-- `build_trigger_parse_placeholders`, the zone being found by its name. -/
def namedPlaceholders : Except Exn (List (String × String)) :=
  if lib.crontab.zones timezone then triggerParsePlaceholders (lib.zoneInfo timezone) timezone now
  else .error .zoneInfoNotFound

/-- `render_trigger_parse_prompt`. -/
def renderedTriggerParsePrompt (content : String) : Except PromptExn String :=
  ((namedPlaceholders lib timezone now).mapError PromptExn.below).bind fun values =>
  renderValues values content

end Render

/-- The name of a time zone that cannot be a part of a placeholder. -/
structure PlainName (timezone : String) : Prop where
  not_open : '[' ∉ timezone.toList
  not_close : ']' ∉ timezone.toList
  not_inside : ∀ p ∈ promptPlaceholders, ¬timezone.toList <:+: p.toList
  not_across : ∀ w, w ≠ [] → w <+: timezone.toList → ¬w <:+ injectMark

/-- Wherever the mark is, one of the placeholders begins. -/
def MarksPlaceholders (content : String) : Prop :=
  ∀ before after, content.toList = before ++ after → injectMark <+: after →
    ∃ p ∈ promptPlaceholders, p.toList <+: after

/-- The placeholders and their values, as lists of characters. -/
def entriesOf (values : List (String × String)) : List (List Char × List Char) :=
  values.map fun value => (value.1.toList, value.2.toList)

variable {lib : ParseLib} {zone : Zone} {timezone content : String} {now : Now}
  {values order : List (String × String)} {value : String × String} {p : String}
  {v result : List Char}

/-! ## Placeholders -/

theorem promptPlaceholders_spec : ∀ p ∈ promptPlaceholders, injectMark <+: p.toList ∧
    p.toList = '[' :: p.toList.tail ∧ '[' ∉ p.toList.tail ∧ p.toList.getLast? = some ']' ∧
    '-' ∉ p.toList := by
  decide +kernel

theorem injectMark_eq : injectMark = '[' :: "INJECT_".toList := by decide

/-- No placeholder is the beginning of another. -/
theorem eq_of_placeholders :
    ∀ p ∈ promptPlaceholders, ∀ p' ∈ promptPlaceholders, p.toList <+: p'.toList → p = p' := by
  decide +kernel

theorem nodup_promptPlaceholders : promptPlaceholders.Nodup := by decide +kernel

/-! ## Values -/

/-- What a datetime or a date is written as: it begins with a digit, and has a hyphen. -/
structure Dated (v : List Char) : Prop where
  head : ∃ c rest, v = c :: rest ∧ c.isDigit = true
  hyphen : '-' ∈ v
  not_open : '[' ∉ v
  not_close : ']' ∉ v

theorem dated_isoformatIn (d : ZonedDatetime) : Dated (isoformatIn zone d).toList := by
  rw [isoformatIn, Datetime.isoformat, String.toList_ofList]
  obtain ⟨c, rest, heq, hdigit, hhyphen⟩ := Iso8601.exists_formatDate_eq (.ofWall d.wall)
    ('T' :: (Iso8601.formatClock (.ofWall d.wall) ++ Iso8601.formatOffset (zone.utcoffset d)))
  have hformat : Iso8601.format (.ofWall d.wall) (some (zone.utcoffset d)) = c :: rest := heq
  refine ⟨⟨c, rest, hformat, hdigit⟩, ?_, Iso8601.not_mem_format _ (by decide) (by decide),
    Iso8601.not_mem_format _ (by decide) (by decide)⟩
  rw [hformat]
  exact hhyphen

theorem dated_formatDate (f : Fields) : Dated (Iso8601.formatDate f) := by
  have hmem : ∀ c ∈ Iso8601.formatDate f, c ∈ Iso8601.format f none :=
    fun c hc => List.mem_append_left _ hc
  obtain ⟨c, rest, heq, hdigit, hhyphen⟩ := Iso8601.exists_formatDate_eq f []
  rw [List.append_nil] at heq
  exact ⟨⟨c, rest, heq, hdigit⟩, heq ▸ hhyphen,
    fun h => Iso8601.not_mem_format none (by decide) (by decide) (hmem _ h),
    fun h => Iso8601.not_mem_format none (by decide) (by decide) (hmem _ h)⟩

/-- A value that brings no placeholder about, and no mark. -/
structure Harmless (v : List Char) : Prop where
  not_mem : '[' ∉ v
  placeholder : ∀ p ∈ promptPlaceholders, Foreign p.toList v
  mark : Foreign injectMark v

theorem Dated.harmless (h : Dated v) : Harmless v where
  not_mem := h.not_open
  placeholder p hp := by
    obtain ⟨-, -, -, hlast, hhyphen⟩ := promptPlaceholders_spec p hp
    exact foreign_of_getLast h.not_close hlast fun hinside => hhyphen (hinside.subset h.hyphen)
  mark := by
    have hdigits : (injectMark.all fun c => !c.isDigit) = true := by decide
    refine ⟨fun hinside => absurd (hinside.subset h.hyphen) (by decide),
      fun w hne hstart hend => ?_⟩
    obtain ⟨c, rest, rfl, hdigit⟩ := h.head
    obtain ⟨c', w, rfl⟩ := List.exists_cons_of_ne_nil hne
    obtain ⟨rfl, -⟩ := List.cons_prefix_cons.1 hstart
    have hnot := List.all_eq_true.1 hdigits c' (hend.subset List.mem_cons_self)
    simp [hdigit] at hnot

theorem PlainName.harmless (h : PlainName timezone) : Harmless timezone.toList where
  not_mem := h.not_open
  placeholder p hp := by
    obtain ⟨-, -, -, hlast, -⟩ := promptPlaceholders_spec p hp
    exact foreign_of_getLast h.not_close hlast (h.not_inside p hp)
  mark := by
    -- The mark is the beginning of every placeholder, such as the first one.
    have hfirst : "[INJECT_CURRENT_ISO_DATETIME]" ∈ promptPlaceholders := List.mem_cons_self
    obtain ⟨hmark, -⟩ := promptPlaceholders_spec _ hfirst
    exact ⟨fun hinside => h.not_inside _ hfirst (hinside.trans hmark.isInfix), h.not_across⟩

/-- The placeholders are those of the prompt, and their values are harmless. -/
theorem harmless_of_placeholders (h : PlainName timezone)
    (hvalues : triggerParsePlaceholders zone timezone now = .ok values) :
    values.map Prod.fst = promptPlaceholders ∧ ∀ value ∈ values, Harmless value.2.toList := by
  obtain ⟨localized, -, hvalues⟩ := Raising.bind_eq_ok.1 hvalues
  obtain ⟨examples, hexamples, rfl⟩ := Raising.map_eq_ok.1 hvalues
  obtain ⟨tomorrow, -, hexamples⟩ := Raising.bind_eq_ok.1 hexamples
  obtain ⟨nextFriday, -, hexamples⟩ := Raising.bind_eq_ok.1 hexamples
  obtain ⟨oneHourLater, -, hexamples⟩ := Raising.bind_eq_ok.1 hexamples
  obtain ⟨nextTuesday, -, rfl⟩ := Raising.map_eq_ok.1 hexamples
  refine ⟨rfl, fun value hvalue => ?_⟩
  have hiso : ∀ d, Harmless (isoformatIn zone d).toList := fun d => (dated_isoformatIn d).harmless
  simp only [examplePlaceholders, List.map_cons, List.map_nil, List.zip_cons_cons,
    List.zip_nil_left, List.mem_cons, List.not_mem_nil, or_false] at hvalue
  rcases hvalue with rfl | rfl | rfl | rfl | rfl | rfl | rfl | rfl
  · exact hiso _
  · exact h.harmless
  · rw [String.toList_ofList]
    exact (dated_formatDate _).harmless
  all_goals exact hiso _

/-! ## Rendering -/

theorem mem_entriesOf {e : List Char × List Char} :
    e ∈ entriesOf values ↔ ∃ value ∈ values, (value.1.toList, value.2.toList) = e := List.mem_map

/-- Harmless values for the placeholders are the entries of a template. -/
theorem entries_of_harmless (hkeys : values.map Prod.fst = promptPlaceholders)
    (hvalues : ∀ value ∈ values, Harmless value.2.toList) : Entries '[' (entriesOf values) where
  opens e he := by
    obtain ⟨value, hvalue, rfl⟩ := mem_entriesOf.1 he
    obtain ⟨-, heq, htail, -⟩ := promptPlaceholders_spec value.1
      (hkeys ▸ List.mem_map_of_mem hvalue)
    exact ⟨_, heq, htail⟩
  unique e he e' he' hstart := by
    obtain ⟨value, hvalue, rfl⟩ := mem_entriesOf.1 he
    obtain ⟨value', hvalue', rfl⟩ := mem_entriesOf.1 he'
    have hkey : value.1 = value'.1 := eq_of_placeholders _ (hkeys ▸ List.mem_map_of_mem hvalue) _
      (hkeys ▸ List.mem_map_of_mem hvalue') hstart
    have hnodup : (values.map Prod.fst).Nodup := hkeys ▸ nodup_promptPlaceholders
    rw [List.inj_on_of_nodup_map hnodup hvalue hvalue' hkey]
  not_mem e he := by
    obtain ⟨value, hvalue, rfl⟩ := mem_entriesOf.1 he
    exact (hvalues value hvalue).not_mem
  foreign e he e' he' := by
    obtain ⟨value, hvalue, rfl⟩ := mem_entriesOf.1 he
    obtain ⟨value', hvalue', rfl⟩ := mem_entriesOf.1 he'
    exact (hvalues value' hvalue').placeholder value.1 (hkeys ▸ List.mem_map_of_mem hvalue)

/-- The mark is left where no placeholder begins. -/
theorem unfilled_iff (hkeys : values.map Prod.fst = promptPlaceholders) :
    Unfilled (entriesOf values) injectMark content.toList ↔ ¬MarksPlaceholders content := by
  have hnone : ∀ after : List Char, (∀ e ∈ entriesOf values, ¬e.1 <+: after) ↔
      ¬∃ p ∈ promptPlaceholders, p.toList <+: after := by
    intro after
    simp only [← hkeys, entriesOf, List.mem_map, not_exists, not_and]
    constructor
    · rintro h _ ⟨value, hvalue, rfl⟩
      exact h _ ⟨value, hvalue, rfl⟩
    · rintro h _ ⟨value, hvalue, rfl⟩
      exact h _ ⟨value, hvalue, rfl⟩
  simp only [Unfilled, hnone, MarksPlaceholders, not_forall, exists_prop]

/-- What the replacements come to, as lists of characters. -/
theorem toList_foldl (values : List (String × String)) (content : String) :
    (values.foldl (fun rendered value => .ofList
      (replace value.1.toList value.2.toList rendered.toList))
      content).toList = (entriesOf values).foldl (fun text e =>
        replace e.1 e.2 text) content.toList := by
  rw [entriesOf, List.foldl_map]
  induction values generalizing content with
  | nil => rfl
  | cons value values ih => rw [List.foldl_cons, List.foldl_cons, ih, String.toList_ofList]

/-- In any order, the replacements fill the placeholders in, all at once. -/
theorem renderValues_of_perm {result : String} (hentries : Entries '[' (entriesOf values))
    (hperm : order.Perm values) (hfilled : Filled (entriesOf values) content.toList result.toList) :
    renderValues order content =
      if injectMark <:+: result.toList then .error .promptLoadError else .ok result := by
  have hperm' : (entriesOf order).Perm (entriesOf values) := hperm.map _
  have hresult := foldl_replace (hentries.of_subset hperm'.subset) (hfilled.of_perm hperm'.symm)
  have hrendered := String.toList_injective ((toList_foldl order content).trans hresult)
  rw [renderValues, hrendered]

/-- The prompt can be filled in, and what it becomes has the mark iff the prompt has it
    elsewhere. -/
theorem exists_filled_prompt (h : PlainName timezone)
    (hvalues : namedPlaceholders lib timezone now = .ok values) (content : String) :
    ∃ result : String, Filled (entriesOf values) content.toList result.toList ∧
      (injectMark <:+: result.toList ↔ ¬MarksPlaceholders content) ∧
      ∀ order : List (String × String), order.Perm values → renderValues order content =
        if injectMark <:+: result.toList then .error .promptLoadError else .ok result := by
  rw [namedPlaceholders] at hvalues
  split at hvalues
  · obtain ⟨hkeys, hharmless⟩ := harmless_of_placeholders h hvalues
    have hentries := entries_of_harmless hkeys hharmless
    have hforeign : ∀ e ∈ entriesOf values, Foreign ('[' :: "INJECT_".toList) e.2 := by
      intro e he
      obtain ⟨value, hvalue, rfl⟩ := mem_entriesOf.1 he
      exact injectMark_eq ▸ (hharmless value hvalue).mark
    obtain ⟨cs, hfilled⟩ := exists_filled hentries content.toList
    obtain ⟨result, rfl⟩ : ∃ result : String, result.toList = cs :=
      ⟨.ofList cs, String.toList_ofList⟩
    refine ⟨result, hfilled, ?_, fun order hperm => renderValues_of_perm hentries hperm hfilled⟩
    rw [← unfilled_iff hkeys, injectMark_eq]
    exact hfilled.isInfix_iff hentries (by decide) hforeign
  · exact absurd hvalues (by simp)

theorem renderedTriggerParsePrompt_of_values (hvalues : namedPlaceholders lib timezone now =
    .ok values) :
    renderedTriggerParsePrompt lib timezone now content = renderValues values content := by
  rw [renderedTriggerParsePrompt, hvalues]
  rfl

theorem renderedTriggerParsePrompt_of_error {e : Exn}
    (he : namedPlaceholders lib timezone now = .error e) :
    renderedTriggerParsePrompt lib timezone now content = .error (.below e) := by
  rw [renderedTriggerParsePrompt, he]
  rfl

/-- What the exception is for `parse_trigger_text_to_spec`. -/
def PromptExn.parseExn : PromptExn → ParseExn
  | promptLoadError => .triggerParseError .promptLoad
  | below e => .below e

/-- Whether `parse_trigger_text_to_spec` finds the prompt without placeholders depends on the
    prompt alone. -/
theorem renderTriggerParsePrompt_eq {settings : LLMSettings} (h : PlainName timezone)
    (hzone : lib.crontab.zones timezone = true) (hloads : settings.promptLoads = true)
    (hrenders : settings.promptRenders = true ↔ MarksPlaceholders content) (t : Instant) :
    renderTriggerParsePrompt settings (nowIn lib timezone t) =
      ((renderedTriggerParsePrompt lib timezone
        (.inZone (nowIn lib timezone t).wall (nowIn lib timezone t).fold) content).mapError
        PromptExn.parseExn).map fun _ => () := by
  have hlocal : localize (lib.zoneInfo timezone)
      (.inZone (nowIn lib timezone t).wall (nowIn lib timezone t).fold) =
        .ok (nowIn lib timezone t) := rfl
  rw [renderTriggerParsePrompt, if_pos hloads]
  rcases hbuild : buildTriggerParsePlaceholders (nowIn lib timezone t) with e | examples
  · rw [renderedTriggerParsePrompt_of_error (e := e)]
    · rfl
    · rw [namedPlaceholders, if_pos hzone, triggerParsePlaceholders, hlocal, Except.bind, hbuild]
      rfl
  · obtain ⟨values, hvalues⟩ : ∃ values, namedPlaceholders lib timezone
        (.inZone (nowIn lib timezone t).wall (nowIn lib timezone t).fold) = .ok values := by
      rw [namedPlaceholders, if_pos hzone, triggerParsePlaceholders, hlocal, Except.bind, hbuild]
      exact ⟨_, rfl⟩
    obtain ⟨result, -, hmark, hrender⟩ := exists_filled_prompt h hvalues content
    rw [renderedTriggerParsePrompt_of_values hvalues, hrender values (.refl values)]
    by_cases hmarks : MarksPlaceholders content
    · rw [if_neg fun hleft => hmark.1 hleft hmarks]
      simp only [Except.mapError, Except.bind, if_pos (hrenders.2 hmarks), Except.map]
    · rw [if_pos (hmark.2 hmarks)]
      simp only [Except.mapError, Except.bind, if_neg (mt hrenders.1 hmarks), Except.map,
        PromptExn.parseExn]

/-- Where the values are known, the prompt is rendered iff the mark is only where a placeholder
    begins. Then the placeholders are replaced by their values all at once, in any order, and no
    mark is left. -/
theorem rendered_of_placeholders (h : PlainName timezone) (now : Now) (content : String) :
    (∀ e, namedPlaceholders lib timezone now = .error e →
      renderedTriggerParsePrompt lib timezone now content = .error (.below e)) ∧
    ∀ values, namedPlaceholders lib timezone now = .ok values →
      (MarksPlaceholders content → ∃ result : String,
        renderedTriggerParsePrompt lib timezone now content = .ok result ∧
        Filled (entriesOf values) content.toList result.toList ∧ ¬injectMark <:+: result.toList ∧
        ∀ order : List (String × String), order.Perm values →
          renderValues order content = .ok result) ∧
      (¬MarksPlaceholders content →
        renderedTriggerParsePrompt lib timezone now content = .error .promptLoadError) := by
  refine ⟨fun e he => renderedTriggerParsePrompt_of_error he, fun values hvalues => ?_⟩
  obtain ⟨result, hfilled, hmark, hrender⟩ := exists_filled_prompt h hvalues content
  rw [renderedTriggerParsePrompt_of_values hvalues]
  constructor
  · intro hmarks
    have hnot : ¬injectMark <:+: result.toList := fun hleft => hmark.1 hleft hmarks
    have horder : ∀ order : List (String × String), order.Perm values →
        renderValues order content = .ok result :=
      fun order hperm => by rw [hrender order hperm, if_neg hnot]
    exact ⟨result, horder values (.refl values), hfilled, hnot, horder⟩
  · intro hmarks
    rw [hrender values (.refl values), if_pos (hmark.2 hmarks)]

example : renderedTriggerParsePrompt .sample "UTC" eightOClock "[INJECT[INJECT_DEFAULT_TIMEZONE]_" =
    .ok "[INJECTUTC_" := by
  decide +kernel

theorem plainName_utc : PlainName "UTC" where
  not_open := by decide
  not_close := by decide
  not_inside := by decide +kernel
  not_across w hne hstart hend := by
    obtain ⟨c, w, rfl⟩ := List.exists_cons_of_ne_nil hne
    obtain ⟨rfl, -⟩ := List.cons_prefix_cons.1 hstart
    exact absurd (hend.subset List.mem_cons_self) (by decide)

/-- A mark that no placeholder begins with. -/
theorem rendered_missing :
    renderedTriggerParsePrompt .sample "UTC" eightOClock "OTHER: [INJECT_MISSING_HERE]" =
    .error .promptLoadError := by
  refine ((rendered_of_placeholders plainName_utc eightOClock _).2 _ rfl).2 fun hmarks => ?_
  obtain ⟨p, hp, hstart⟩ := hmarks "OTHER: ".toList "[INJECT_MISSING_HERE]".toList
    (by decide) (by decide)
  have hnone : ∀ p ∈ promptPlaceholders, ¬p.toList <+:
      "[INJECT_MISSING_HERE]".toList := by decide +kernel
  exact hnone p hp hstart

/-- Eight in the morning of the last day of the calendar. -/
def lastDay : Now := .aware 253402243200000000 0

/-- The prompt would be rendered iff the mark is only where a placeholder begins: on the last day of
    the calendar, there is no day after it. -/
theorem not_rendered : ¬∀ (lib : ParseLib) (timezone : String) (now : Now) (content : String),
    PlainName timezone → lib.crontab.zones timezone = true →
    (MarksPlaceholders content → ∃ result, renderedTriggerParsePrompt lib timezone now content =
      .ok result) ∧ (¬MarksPlaceholders content →
        renderedTriggerParsePrompt lib timezone now content = .error .promptLoadError) := by
  intro h
  have hrendered : renderedTriggerParsePrompt .sample "UTC" lastDay "" =
      .error (.below .overflowError) := by
    decide +kernel
  have hmarks : MarksPlaceholders "" := by
    intro before after heq hstart
    rw [(List.append_eq_nil_iff.1 heq.symm).2] at hstart
    exact absurd hstart (by decide)
  obtain ⟨result, hresult⟩ := (h .sample "UTC" lastDay "" plainName_utc rfl).1 hmarks
  exact absurd (hrendered.symm.trans hresult) (by simp)

end SchedulerLm
