import SchedulerLm.TriggerParse

/-!
# Refusing replies

A reply of the model that is no trigger is to be refused with a `TriggerParseError`, which
is retried, and answered with 422 in the end. It is one iff the reply is no JSON, or an
object (`refused_iff`): a list, or another value, is validated and then logged as if
it were an object, and an integer of too many digits is not read at all, and neither is
what is nested too deeply. Where the model replies with objects only, no request
comes to more than 422 (`parseTrigger_status`).
-/

namespace SchedulerLm

open Zones

/-- A specification, or a `TriggerParseError`. -/
def ParsedOrRefused (result : Except ParseExn StructuredTriggerSpec) : Prop :=
  (∃ spec, result = .ok spec) ∨ ∃ e, result = .error (.triggerParseError e)

/-- The reply is no JSON, or an object. -/
def IsObjectOrNoJson (lib : ParseLib) (raw : String) : Prop :=
  Json.loads lib.recursionLimit raw = .error .decode ∨
    ∃ fields, Json.loads lib.recursionLimit raw = .ok (.obj fields)

variable {lib : ParseLib} {timezone raw text : String} {now : Instant}
  {spec : StructuredTriggerSpec} {fields : List (Json.Str × Json.Value)} {data : Json.Value}
  {e : TriggerParseError} {output : TriggerParseLLMOutput} {settings : LLMSettings}
  {calls : ℕ → LlmCall}

theorem parsedOrRefused_ok (spec : StructuredTriggerSpec) : ParsedOrRefused (.ok spec) :=
  .inl ⟨spec, rfl⟩

theorem parsedOrRefused_refused (e : TriggerParseError) :
    ParsedOrRefused (.error (.triggerParseError e)) :=
  .inr ⟨e, rfl⟩

theorem not_parsedOrRefused {e : ParseExn} (he : e.isTriggerParseError = false) :
    ¬ParsedOrRefused (.error e) := by
  rintro (⟨spec, h⟩ | ⟨e', h⟩)
  · exact absurd h (by simp)
  · obtain rfl := Except.error.inj h
    exact absurd he (by simp [ParseExn.isTriggerParseError])

/-! ## The stages -/

/-- The log of an object goes well. -/
theorem refuse_object {α : Type} (h : Json.loads lib.recursionLimit raw = .ok (.obj fields)) :
    refuse (α := α) lib raw e = .error (.triggerParseError e) := by
  rw [refuse, logFailedParse, jsonLoads, h]
  rfl

/-- What is no object has no `get`. -/
theorem refuse_other {α : Type} (h : Json.loads lib.recursionLimit raw = .ok data)
    (hdata : ∀ fields, data ≠ .obj fields) : refuse (α := α) lib raw e =
      .error .attributeError := by
  rw [refuse, logFailedParse, jsonLoads, h]
  cases data with
  | obj fields => exact absurd rfl (hdata fields)
  | _ => rfl

/-- A valid reply gives a specification, or raises a `ValueError`. -/
theorem triggerSpecFromLlmOutput_cases (hzone : lib.crontab.zones timezone = true)
    (output : TriggerParseLLMOutput) :
    (∃ spec, triggerSpecFromLlmOutput lib timezone output = .ok spec) ∨
      ∃ e, triggerSpecFromLlmOutput lib timezone output = .error (.below e) ∧
        isValueError e = true := by
  have hvalid := output.typeFields
  rw [OutputFields.validateTypeFields] at hvalid
  rw [triggerSpecFromLlmOutput]
  rcases htype : output.type with _ | _ | _ <;> rw [htype] at hvalid <;> dsimp only at hvalid ⊢
  · split at hvalid
    · exact absurd hvalid (by simp)
    · rename_i hmissing
      rcases hdatetime : output.onceDatetime with _ | text | _
      · exact absurd (by simp [isMissing, hdatetime]) hmissing
      · rcases hread : Datetime.fromisoformat text with _ | runAt
        · exact .inr ⟨.valueError, by simp only [hread], rfl⟩
        · exact .inl ⟨.once runAt, by simp only [hread]⟩
      · exact .inr ⟨.valueError, rfl, rfl⟩
  · split at hvalid
    · exact absurd hvalid (by simp)
    · rename_i hmissing
      rcases hcron : output.cronExpr with _ | expression | _
      · exact absurd (by simp [isMissing, hcron]) hmissing
      · exact .inl ⟨.cron expression timezone, if_pos hzone⟩
      · exact .inr ⟨.valueError, rfl, rfl⟩
  · split at hvalid
    · exact absurd hvalid (by simp)
    · rename_i hmissing
      rcases hvalue : output.intervalValue with _ | value
      · exact absurd (.inl hvalue) hmissing
      · rcases hunit : output.intervalUnit with _ | unit
        · exact absurd (.inr hunit) hmissing
        · dsimp only
          split
          · exact .inl ⟨_, rfl⟩
          · exact .inr ⟨.validationError, rfl, rfl⟩

theorem parsedOrRefused_checkSpec (h : Json.loads lib.recursionLimit raw = .ok (.obj fields)) :
    ParsedOrRefused (checkSpec lib raw now spec) := by
  have hnext : ParsedOrRefused (checkNextRunAt lib raw now spec) := by
    rw [checkNextRunAt]
    split
    · rw [refuse_object h]
      exact parsedOrRefused_refused _
    · exact parsedOrRefused_ok spec
  cases spec with
  | cron expression zone =>
    rw [checkSpec]
    split
    · exact hnext
    · rw [refuse_object h]
      exact parsedOrRefused_refused _
  | once | interval => exact hnext

theorem parsedOrRefused_object (hzone : lib.crontab.zones timezone = true)
    (h : Json.loads lib.recursionLimit raw = .ok (.obj fields)) :
    ParsedOrRefused (parseTriggerJson lib timezone now raw) := by
  have hdata : jsonLoads lib raw = .ok (some (.obj fields)) := by rw [jsonLoads, h]
  rw [parseTriggerJson, hdata]
  dsimp only [Except.bind]
  split
  · rw [refuse_object h]
    exact parsedOrRefused_refused _
  · rename_i output _
    rcases triggerSpecFromLlmOutput_cases hzone output with ⟨spec, hspec⟩ | ⟨e, hspec, he⟩
    · rw [hspec]
      exact parsedOrRefused_checkSpec h
    · rw [hspec]
      dsimp only
      rw [if_pos he, refuse_object h]
      exact parsedOrRefused_refused _

theorem parsedOrRefused_of_reply (hzone : lib.crontab.zones timezone = true)
    (h : IsObjectOrNoJson lib raw) :
    ParsedOrRefused (parseTriggerJson lib timezone now raw) := by
  rcases h with h | ⟨fields, h⟩
  · rw [parseTriggerJson, jsonLoads, h]
    exact parsedOrRefused_refused _
  · exact parsedOrRefused_object hzone h

/-- A reply becomes a specification, or is refused with a `TriggerParseError`, iff it
    is no JSON, or an object. -/
theorem refused_iff (hzone : lib.crontab.zones timezone = true) :
    ParsedOrRefused (parseTriggerJson lib timezone now raw) ↔ IsObjectOrNoJson lib raw := by
  refine ⟨fun hparsed => ?_, parsedOrRefused_of_reply hzone⟩
  rw [parseTriggerJson, jsonLoads] at hparsed
  rw [IsObjectOrNoJson]
  rcases h : Json.loads lib.recursionLimit raw with (_ | _ | _) | data <;> rw [h] at hparsed
  · exact .inl rfl
  · exact absurd hparsed (not_parsedOrRefused rfl)
  · exact absurd hparsed (not_parsedOrRefused rfl)
  · refine .inr (by_contra fun hdata => ?_)
    have hother : ∀ fields, data ≠ .obj fields :=
      fun fields hfields => hdata ⟨fields, congrArg _ hfields⟩
    -- Validation fails for what is no object, and so does the log of that.
    have hinvalid : TriggerParseLLMOutput.modelValidate lib.lax data = .error .notObject := by
      cases data with
      | obj fields => exact absurd rfl (hother fields)
      | _ => rfl
    dsimp only [Except.bind] at hparsed
    rw [hinvalid] at hparsed
    dsimp only at hparsed
    rw [refuse_other h hother] at hparsed
    exact not_parsedOrRefused rfl hparsed

/-- A crontab that comes in an object. -/
def cronReply : String :=
  "\x7b\"_thought\": \"Daily.\", \"type\": \"cron\", \"cron_expr\": \"0 9 * * *\", " ++
    "\"interval_value\": null, \"interval_unit\": null, \"once_datetime\": null\x7d"

/-- It is accepted, or refused. -/
theorem refused_cronReply : ParsedOrRefused (parseTriggerJson .sample "UTC" 0 cronReply) := by
  have hobject : ((Json.loads ParseLib.sample.recursionLimit cronReply).toOption.any
      Json.Value.isObject) = true := by decide +kernel
  refine (refused_iff (by decide)).2 (.inr ?_)
  rcases h : Json.loads ParseLib.sample.recursionLimit cronReply with e | data
  · rw [h] at hobject
    exact absurd hobject (by simp [Except.toOption])
  · rw [h] at hobject
    obtain ⟨fields, rfl⟩ := Json.Value.isObject_iff.1 hobject
    exact ⟨fields, rfl⟩

/-- Every reply would become a specification or a `TriggerParseError`: on an empty list,
    the log of the failure raises an `AttributeError`. -/
theorem not_refused : ¬∀ (lib : ParseLib) (timezone : String) (now : Instant) (raw : String),
    lib.crontab.zones timezone = true → ParsedOrRefused
      (parseTriggerJson lib timezone now raw) := by
  intro h
  have hraises : parseTriggerJson .sample "UTC" 0 "[]" = .error .attributeError := by decide +kernel
  have hrefused := h .sample "UTC" 0 "[]" (by decide)
  rw [hraises] at hrefused
  exact not_parsedOrRefused rfl hrefused

/-! ## The route -/

theorem parsedOrRefused_parseOnce {call : LlmCall} (hzone : lib.crontab.zones timezone = true)
    (hcall : ∀ raw, callLlm lib call = .ok raw → IsObjectOrNoJson lib raw) :
    ParsedOrRefused (parseOnce lib timezone now call) := by
  rw [parseOnce]
  rcases hraw : callLlm lib call with e | raw
  · obtain ⟨e, rfl⟩ : ∃ e', e = .triggerParseError e' := by
      rw [callLlm] at hraw
      split at hraw
      · exact ⟨_, (Except.error.inj hraw).symm⟩
      · rename_i content _
        rw [extractContent.eq_def] at hraw
        split at hraw
        · exact ⟨_, (Except.error.inj hraw).symm⟩
        · split at hraw
          · exact ⟨_, (Except.error.inj hraw).symm⟩
          · exact absurd hraw (by simp)
    exact parsedOrRefused_refused e
  · exact parsedOrRefused_of_reply hzone (hcall raw hraw)

/-- Where the model replies with objects, or no JSON, the route answers with 200 or 422,
    as long as the parser and the prompt keep to the calendar. -/
theorem parseTrigger_status (hzone : lib.crontab.zones timezone = true)
    (hrelative : ∃ runAt, relativeRunAt lib timezone now text = .ok runAt)
    (hprompt : ∃ ds, buildTriggerParsePlaceholders (nowIn lib timezone now) = .ok ds)
    (hcalls : ∀ k raw, callLlm lib (calls k) = .ok raw → IsObjectOrNoJson lib raw) :
    parseTriggerStatus lib timezone now settings calls text = 200 ∨
      parseTriggerStatus lib timezone now settings calls text = 422 := by
  have hparsed : ParsedOrRefused (parseTriggerTextToSpec lib timezone now settings calls text) := by
    obtain ⟨runAt, hrunAt⟩ := hrelative
    obtain ⟨ds, hds⟩ := hprompt
    rw [parseTriggerTextToSpec, if_pos hzone, hrunAt]
    rcases runAt with _ | runAt
    · obtain ⟨k, -, heq, -⟩ := Raising.exists_retry_eq ParseExn.isTriggerParseError
        (fun k => parseOnce lib timezone now (calls k)) settings.maxRetries.toNat 0
      have hreplies : ParsedOrRefused (parseReplies lib timezone now settings calls) := by
        rw [parseReplies, heq]
        exact parsedOrRefused_parseOnce hzone (hcalls _)
      -- Without a prompt, the model is not asked.
      simp only [Except.mapError, Except.bind, renderTriggerParsePrompt, hds]
      by_cases hloads : settings.promptLoads = true <;> by_cases hrenders :
        settings.promptRenders = true
      · simpa only [hloads, hrenders, if_true] using hreplies
      all_goals simpa [hloads, hrenders] using parsedOrRefused_refused _
    · simp only [Except.mapError, Except.bind]
      split
      · exact parsedOrRefused_refused _
      · exact parsedOrRefused_ok _
  rw [parseTriggerStatus, parseTriggerText]
  rcases hparsed with ⟨spec, hspec⟩ | ⟨e, he⟩
  · obtain ⟨⟨next, hnext⟩, -⟩ := parseTriggerTextToSpec_eq_ok hspec
    rw [hspec]
    simp only [Except.bind, hnext, Except.mapError, Except.map]
    exact .inl trivial
  · rw [he]
    exact .inr rfl

end SchedulerLm
