import SchedulerLm.Base.Json
import SchedulerLm.Datetimes
import SchedulerLm.RelativeSchedule
import SchedulerLm.Triggers

/-!
# Parsing triggers

`parse_trigger_text_to_spec`: the text of a trigger is read by the relative parser or,
if this has no answer, by a model, whose reply is a JSON document of a schema
(`TriggerParseLLMOutput`). A reply that is refused is asked for again.

A reply passes five stages: it is decoded, validated, turned into a specification,
checked as a crontab, and asked for its first fire time. Each of them may raise, and
only some of what it raises is turned into a `TriggerParseError`.
-/

namespace SchedulerLm

open Zones

/-! ## The schema of replies -/

/-- `IntervalUnit`. -/
inductive IntervalUnit
  | seconds
  | minutes
  | hours
  | days
  | weeks
  deriving DecidableEq

/-- The units by their names. -/
def intervalUnits : List (String × IntervalUnit) :=
  [("seconds", .seconds), ("minutes", .minutes), ("hours", .hours), ("days", .days),
    ("weeks", .weeks)]

/-- `INTERVAL_UNIT_SECONDS`. -/
def intervalUnitSeconds : IntervalUnit → Int
  | .seconds => 1
  | .minutes => 60
  | .hours => 3600
  | .days => 86400
  | .weeks => 604800

/-- The types of triggers by their names. -/
def outputTypes : List (String × TriggerType) :=
  [("cron", .cron), ("interval", .interval), ("once", .once)]

/-- The fields of a reply. -/
structure OutputFields where
  thought : { s : String // s ≠ "" }
  type : TriggerType
  cronExpr : Option Json.Str
  intervalValue : Option Int
  intervalUnit : Option IntervalUnit
  onceDatetime : Option Json.Str

/-- The optional text is missing, or empty. -/
def isMissing (text : Option Json.Str) : Bool := text = none || text = some (.text "")

/-- `validate_type_fields`: the fields of the type are set, and no others. -/
def OutputFields.validateTypeFields (f : OutputFields) : Except String Unit :=
  match f.type with
  | .cron =>
    if isMissing f.cronExpr then .error "cron_expr is required for cron triggers"
    else if f.intervalValue.isSome ∨ f.intervalUnit.isSome ∨ f.onceDatetime.isSome then
      .error "only cron_expr should be set for cron triggers"
    else .ok ()
  | .interval =>
    if f.intervalValue = none ∨ f.intervalUnit = none then
      .error "interval_value and interval_unit are required for interval triggers"
    else if f.intervalValue.any (· ≤ 0) then .error "interval_value must be positive"
    else if f.cronExpr.isSome ∨ f.onceDatetime.isSome then
      .error "only interval_value and interval_unit should be set for interval triggers"
    else .ok ()
  | .once =>
    if isMissing f.onceDatetime then .error "once_datetime is required for once triggers"
    else if f.cronExpr.isSome ∨ f.intervalValue.isSome ∨ f.intervalUnit.isSome then
      .error "only once_datetime should be set for once triggers"
    else .ok ()

/-- `TriggerParseLLMOutput`: a reply that is valid. -/
structure TriggerParseLLMOutput extends OutputFields where
  typeFields : toOutputFields.validateTypeFields = .ok ()

/-- Why a document is no reply: it is no object, fields are missing, superfluous or of
    another type, or those set are not those of its type. -/
inductive ValidationError
  | notObject
  | fields (names : List Json.Str)
  | typeFields (message : String)
  deriving DecidableEq

/-! ## Validating replies -/

/-- What Python reads integers from, besides integers and truth values: floats and
    texts. -/
structure LaxIntegers where
  ofFloat : List Char → Option Int
  ofText : String → Option Int

/-- Only integers. -/
def LaxIntegers.none : LaxIntegers := ⟨fun _ => Option.none, fun _ => Option.none⟩

/-- A value that may be `null`. -/
def readNullable {α : Type} (read : Json.Value → Option α) : Json.Value → Option (Option α)
  | .null => some none
  | v => (read v).map some

/-- A text. -/
def readString : Json.Value → Option Json.Str
  | .str s => some s
  | _ => none

/-- A text with a value in a table. -/
def readName {α : Type} (table : List (String × α)) : Json.Value → Option α
  | .str (.text s) => table.lookup s
  | _ => none

/-- A text that is not empty. -/
def readThought : Json.Value → Option { s : String // s ≠ "" }
  | .str (.text s) => if h : s = "" then none else some ⟨s, h⟩
  | _ => none

variable (lax : LaxIntegers)

/-- An integer. -/
def laxInteger : Json.Value → Option Int
  | .int n => some n
  | .bool b => some (if b then 1 else 0)
  | .float literal => lax.ofFloat literal
  | .str (.text s) => lax.ofText s
  | _ => none

variable (fields : List (Json.Str × Json.Value))

/-- The name `thought` goes by: its alias, unless only the field's own name is there. What is
    missing is reported under the alias, too. -/
def thoughtName : String :=
  if (Json.field "_thought" fields).isNone ∧ (Json.field "thought" fields).isSome then "thought"
  else "_thought"

/-- The names of the fields, and whether what they hold is read. -/
def fieldChecks : List (String × Bool) :=
  [(thoughtName fields, ((Json.field (thoughtName fields) fields).bind readThought).isSome),
    ("type", ((Json.field "type" fields).bind (readName outputTypes)).isSome),
    ("cron_expr", ((Json.field "cron_expr" fields).bind (readNullable readString)).isSome),
    ("interval_value", ((Json.field "interval_value" fields).bind
      (readNullable (laxInteger lax))).isSome),
    ("interval_unit",
      ((Json.field "interval_unit" fields).bind (readNullable (readName intervalUnits))).isSome),
    ("once_datetime", ((Json.field "once_datetime" fields).bind (readNullable readString)).isSome)]

/-- The fields that are missing, superfluous or of another type. -/
def invalidFields : List Json.Str :=
  ((fieldChecks lax fields).filter fun check => !check.2).map (fun check => .text check.1) ++
    (fields.map Prod.fst).filter fun name =>
      name ∉ (fieldChecks lax fields).map fun check => Json.Str.text check.1

/-- The fields, if they are read. -/
def OutputFields.read : Option OutputFields :=
  ((Json.field (thoughtName fields) fields).bind readThought).bind fun thought =>
  ((Json.field "type" fields).bind (readName outputTypes)).bind fun type =>
  ((Json.field "cron_expr" fields).bind (readNullable readString)).bind fun cronExpr =>
  ((Json.field "interval_value" fields).bind (readNullable (laxInteger lax))).bind
    fun intervalValue =>
  ((Json.field "interval_unit" fields).bind (readNullable (readName intervalUnits))).bind
    fun intervalUnit =>
  ((Json.field "once_datetime" fields).bind (readNullable readString)).map fun onceDatetime =>
  { thought, type, cronExpr, intervalValue, intervalUnit, onceDatetime }

/-- `TriggerParseLLMOutput.model_validate`. -/
def TriggerParseLLMOutput.modelValidate : Json.Value → Except ValidationError TriggerParseLLMOutput
  | .obj fields =>
    -- The fields are checked all at once, and those of the type only if they are well.
    match OutputFields.read lax fields, invalidFields lax fields with
    | some f, [] =>
      match h : f.validateTypeFields with
      | .ok () => .ok ⟨f, h⟩
      | .error message => .error (.typeFields message)
    | _, names => .error (.fields names)
  | _ => .error .notObject

/-! ## From replies to specifications -/

/-- What `_parse_trigger_json` refuses a reply with: `TriggerParseError`, by its text. -/
inductive TriggerParseError
  /-- "LLM returned empty response" -/
  | emptyResponse
  /-- "Invalid JSON: {exc}" -/
  | invalidJson
  /-- "Invalid trigger parse output: {exc}" -/
  | invalidOutput (e : ValidationError)
  /-- "Invalid trigger spec: {exc}" -/
  | invalidSpec (e : Exn)
  /-- "Invalid cron expression: {expression!r}" -/
  | invalidCron (expression : String)
  /-- "Trigger cannot be scheduled: {exc}" -/
  | cannotBeScheduled (e : Exn)
  /-- "LLM request failed: {last_exc}" -/
  | requestFailed
  /-- The text of a `PromptLoadError`. -/
  | promptLoad
  deriving DecidableEq

/-- What is raised where a trigger is parsed. -/
inductive ParseExn
  | triggerParseError (e : TriggerParseError)
  | attributeError
  | assertionError
  | recursionError
  | below (e : Exn)
  deriving DecidableEq

/-- What is not under the program's control: crontabs and time zones, the characters,
    the limit on recursion, how integers are read, and `CronValidator.parse`, which
    returns whether its result is something, or raises a `ValueError` (`none`). -/
structure ParseLib where
  crontab : Crontab
  zoneInfo : String → Zone
  unicode : Unicode
  recursionLimit : ℕ
  lax : LaxIntegers
  cronValidator : String → Option Bool

/-- UTC, the characters of ASCII, and crontabs that match no date. -/
def ParseLib.sample : ParseLib where
  crontab := .never
  zoneInfo _ := .utc
  unicode := .ascii
  recursionLimit := 1000
  lax := .none
  cronValidator _ := some true

variable (lib : ParseLib) (timezone : String)

/-- `trigger_spec_from_llm_output`. -/
def triggerSpecFromLlmOutput (output : TriggerParseLLMOutput) :
    Except ParseExn StructuredTriggerSpec :=
  match output.type with
  | .cron =>
    match output.cronExpr with
    | none => .error .assertionError
    -- Half of a surrogate pair is in no crontab: it would be refused one stage later.
    | some .broken => .error (.below .valueError)
    | some (.text expression) =>
      -- `CronTriggerSpec` looks the zone up, and does not turn what this raises into a
      -- `ValidationError`.
      if lib.crontab.zones timezone then .ok (.cron expression timezone)
      else .error (.below .zoneInfoNotFound)
  | .interval =>
    match output.intervalValue, output.intervalUnit with
    | some value, some unit =>
      if h : 0 < value * intervalUnitSeconds unit
        then .ok (.interval (value * intervalUnitSeconds unit) h)
      else .error (.below .validationError)
    | _, _ => .error .assertionError
  | .once =>
    -- The time zone is not used: the datetime stays naive, if it is.
    match output.onceDatetime with
    | none => .error .assertionError
    | some .broken => .error (.below .valueError)
    | some (.text text) =>
      match Datetime.fromisoformat text with
      | none => .error (.below .valueError)
      | some runAt => .ok (.once runAt)

/-- `is_valid_cron_expression`. -/
def isValidCronExpression (expression : String) : Bool := (lib.cronValidator expression).getD false

/-- `json.loads`, with a `JSONDecodeError` as `none`. -/
def jsonLoads (raw : String) : Except ParseExn (Option Json.Value) :=
  match Json.loads lib.recursionLimit raw with
  | .ok data => .ok (some data)
  | .error .decode => .ok none
  | .error .digits => .error (.below .valueError)
  | .error .recursion => .error .recursionError

/-- `_log_failed_parse`: the thought that is logged, if it is something. Only objects
    have a `get`. -/
def logFailedParse (raw : String) : Except ParseExn (Option Json.Value) :=
  (jsonLoads lib raw).bind fun data =>
  match data with
  | none => .ok none
  -- Nothing is caught here, where the reply is decoded once more.
  | some (.obj fields) => .ok (Json.field "_thought" fields)
  | some _ => .error .attributeError

/-- A reply is refused, after a log. -/
def refuse {α : Type} (raw : String) (e : TriggerParseError) : Except ParseExn α :=
  (logFailedParse lib raw).bind fun _ => .error (.triggerParseError e)

/-- The exceptions that are a `ValueError`. -/
def isValueError : Exn → Bool
  | .valueError | .validationError => true
  | _ => false

/-- The last stage: the first fire time is computed. -/
def checkNextRunAt (raw : String) (now : Instant) (spec : StructuredTriggerSpec) :
    Except ParseExn StructuredTriggerSpec :=
  match computeNextRunAt lib.crontab now spec with
  | .error e => refuse lib raw (.cannotBeScheduled e)
  | .ok _ => .ok spec

/-- The last two stages: a crontab is checked before. -/
def checkSpec (raw : String) (now : Instant) (spec : StructuredTriggerSpec) :
    Except ParseExn StructuredTriggerSpec :=
  match spec with
  | .cron expression _ =>
    if isValidCronExpression lib expression then checkNextRunAt lib raw now spec
    else refuse lib raw (.invalidCron expression)
  | _ => checkNextRunAt lib raw now spec

/-- `_parse_trigger_json`, at the time `now`. -/
def parseTriggerJson (now : Instant) (raw : String) : Except ParseExn StructuredTriggerSpec :=
  (jsonLoads lib raw).bind fun data =>
  match data with
  | none => .error (.triggerParseError .invalidJson)
  | some data =>
    match TriggerParseLLMOutput.modelValidate lib.lax data with
    | .error e => refuse lib raw (.invalidOutput e)
    | .ok output =>
      match triggerSpecFromLlmOutput lib timezone output with
      | .error (.below e) =>
        -- `except (ValueError, ValidationError)`.
        if isValueError e then refuse lib raw (.invalidSpec e) else .error (.below e)
      | .error e => .error e
      | .ok spec => checkSpec lib raw now spec

/-! ## Asking the model -/

/-- What the model comes to, asked for each of the formats in turn: nothing if the request
    fails, or else the content of the response. -/
structure LlmCall where
  jsonSchema : Option (Option String)
  jsonObject : Option (Option String)
  plain : Option (Option String)

/-- `strip`. -/
def strip (unicode : Unicode) (text : String) : String :=
  .ofList ((text.toList.dropWhile unicode.isSpace).reverse.dropWhile unicode.isSpace).reverse

/-- `_extract_content`. -/
def extractContent (content : Option String) : Except ParseExn String :=
  match content with
  | none => .error (.triggerParseError .emptyResponse)
  | some text =>
    if text = "" then .error (.triggerParseError .emptyResponse) else .ok (strip lib.unicode text)

/-- `_call_llm`: the first format for which the request does not fail. -/
def callLlm (call : LlmCall) : Except ParseExn String :=
  match [call.jsonSchema, call.jsonObject, call.plain].findSome? id with
  | none => .error (.triggerParseError .requestFailed)
  | some content => extractContent lib content

/-- `_parse_once`. -/
def parseOnce (now : Instant) (call : LlmCall) : Except ParseExn StructuredTriggerSpec :=
  (callLlm lib call).bind (parseTriggerJson lib timezone now)

/-- A `TriggerParseError`, on which `_parse_once` is retried. -/
def ParseExn.isTriggerParseError : ParseExn → Bool
  | triggerParseError _ => true
  | _ => false

/-- The settings of the model: the retries, whether the prompt is loaded, and whether it
    is left without placeholders. -/
structure LLMSettings where
  maxRetries : Int
  promptLoads : Bool
  promptRenders : Bool

/-- The datetimes `build_trigger_parse_placeholders` puts into the prompt. -/
def buildTriggerParsePlaceholders (localized : ZonedDatetime) : Except Exn (List ZonedDatetime) :=
  (addTimedelta localized Calendar.Fields.dayLength).bind fun tomorrow =>
  (addTimedelta localized (daysAhead localized 4 * Calendar.Fields.dayLength)).bind
    fun nextFriday =>
  (addTimedelta localized (3600 * second)).bind fun oneHourLater =>
  (addTimedelta localized (daysAhead localized 1 * Calendar.Fields.dayLength)).map
    fun nextTuesday =>
  [applyTime tomorrow (9, 0), applyTime tomorrow (8, 15), applyTime nextFriday (17, 0),
    oneHourLater, applyTime nextTuesday (9, 0)]

/-- `load_prompt` and `render_trigger_parse_prompt`. -/
def renderTriggerParsePrompt (settings : LLMSettings) (now : ZonedDatetime) :
    Except ParseExn Unit :=
  if settings.promptLoads then
    ((buildTriggerParsePlaceholders now).mapError ParseExn.below).bind fun _ =>
    if settings.promptRenders then .ok () else .error (.triggerParseError .promptLoad)
  else .error (.triggerParseError .promptLoad)

/-- `datetime.now(ZoneInfo(timezone))`. -/
def nowIn (now : Instant) : ZonedDatetime := (lib.zoneInfo timezone).fromUtc now

/-- The trigger of a datetime of a zone. -/
def onceAt (zone : Zone) (runAt : ZonedDatetime) : StructuredTriggerSpec :=
  .once ⟨runAt.wall, some (zone.utcoffset runAt)⟩

/-- What the relative parser answers to the text. -/
def relativeRunAt (now : Instant) (text : String) : Except Exn (Option ZonedDatetime) :=
  tryParseOnceSchedule lib.unicode (lib.zoneInfo timezone) text
    (.inZone (nowIn lib timezone now).wall (nowIn lib timezone now).fold)

/-- The replies of the model, asked until one is not refused, at most once more than
    there are retries. -/
def parseReplies (now : Instant) (settings : LLMSettings) (calls : ℕ → LlmCall) :
    Except ParseExn StructuredTriggerSpec :=
  Raising.retry ParseExn.isTriggerParseError (fun k => parseOnce lib timezone now (calls k))
    settings.maxRetries.toNat 0

/-- `parse_trigger_text_to_spec`, at the time `now`, the model giving the replies `calls`. -/
def parseTriggerTextToSpec (now : Instant) (settings : LLMSettings) (calls : ℕ → LlmCall)
    (text : String) :
    Except ParseExn StructuredTriggerSpec :=
  if lib.crontab.zones timezone then
    ((relativeRunAt lib timezone now text).mapError ParseExn.below).bind fun runAt =>
    match runAt with
    | some runAt =>
      -- The fire time is computed for what this raises, and dropped.
      match computeNextRunAt lib.crontab now (onceAt (lib.zoneInfo timezone) runAt) with
      | .error e => .error (.triggerParseError (.cannotBeScheduled e))
      | .ok _ => .ok (onceAt (lib.zoneInfo timezone) runAt)
    | none =>
      (renderTriggerParsePrompt settings (nowIn lib timezone now)).bind fun _ =>
      parseReplies lib timezone now settings calls
  else .error (.below .zoneInfoNotFound)

/-- `parse_trigger_text`. -/
def parseTriggerText (now : Instant) (settings : LLMSettings) (calls : ℕ → LlmCall)
    (text : String) :
    Except ParseExn (TriggerType × TriggerConfig × Option Instant) :=
  (parseTriggerTextToSpec lib timezone now settings calls text).bind fun spec =>
  ((computeNextRunAt lib.crontab now spec).mapError ParseExn.below).map fun next =>
  (spec.type, triggerConfigFromSpec spec, next)

/-- The status `parse_trigger` answers with. -/
def parseTriggerStatus (now : Instant) (settings : LLMSettings) (calls : ℕ → LlmCall)
    (text : String) : ℕ :=
  match parseTriggerText lib timezone now settings calls text with
  | .ok _ => 200
  | .error (.triggerParseError _) => 422
  | .error _ => 500

variable {lib timezone} {now : Instant} {raw text : String} {spec spec' : StructuredTriggerSpec}
  {call : LlmCall} {calls : ℕ → LlmCall} {settings : LLMSettings}

/-! ## What is accepted -/

theorem refuse_ne_ok {α : Type} {e : TriggerParseError} (a : α) : refuse lib raw e ≠ .ok a := by
  intro h
  obtain ⟨_, -, h⟩ := Raising.bind_eq_ok.1 h
  exact absurd h (by simp)

theorem checkNextRunAt_eq_ok (h : checkNextRunAt lib raw now spec = .ok spec') :
    spec' = spec ∧ ∃ next, computeNextRunAt lib.crontab now spec = .ok next := by
  rw [checkNextRunAt] at h
  split at h
  · exact absurd h (refuse_ne_ok spec')
  · rename_i next hnext
    exact ⟨(Except.ok.inj h).symm, next, hnext⟩

/-- A specification that is checked is left as it is, and a first fire time can be computed. -/
theorem checkSpec_eq_ok (h : checkSpec lib raw now spec = .ok spec') :
    spec' = spec ∧ ∃ next, computeNextRunAt lib.crontab now spec = .ok next := by
  cases spec with
  | cron expression zone =>
    rw [checkSpec] at h
    split at h
    · exact checkNextRunAt_eq_ok h
    · exact absurd h (refuse_ne_ok spec')
  | once | interval =>
    rw [checkSpec] at h
    · exact checkNextRunAt_eq_ok h
    · simp

/-- A reply that is accepted is valid, and a first fire time can be computed for its
    specification. -/
theorem parseTriggerJson_eq_ok (h : parseTriggerJson lib timezone now raw = .ok spec) :
    ∃ data output next, Json.loads lib.recursionLimit raw = .ok data ∧
      TriggerParseLLMOutput.modelValidate lib.lax data = .ok output ∧
      triggerSpecFromLlmOutput lib timezone output = .ok spec ∧
      computeNextRunAt lib.crontab now spec = .ok next := by
  obtain ⟨data, hloads, h⟩ := Raising.bind_eq_ok.1 h
  rcases data with _ | data
  · exact absurd h (by simp)
  have hdata : Json.loads lib.recursionLimit raw = .ok data := by
    rw [jsonLoads] at hloads
    split at hloads
    · rename_i hdata
      obtain rfl := Option.some.inj (Except.ok.inj hloads)
      exact hdata
    all_goals exact absurd hloads (by simp)
  dsimp only at h
  split at h
  · exact absurd h (refuse_ne_ok spec)
  rename_i output houtput
  split at h
  · split at h
    · exact absurd h (refuse_ne_ok spec)
    · exact absurd h (by simp)
  · exact absurd h (by simp)
  · rename_i spec' hspec
    obtain ⟨rfl, next, hnext⟩ := checkSpec_eq_ok h
    exact ⟨data, output, next, hdata, houtput, hspec, hnext⟩

/-- The specification is that of the first reply that is not refused. -/
theorem parseReplies_eq_ok (h : parseReplies lib timezone now settings calls = .ok spec) :
    ∃ k ≤ settings.maxRetries.toNat, ∃ raw, callLlm lib (calls k) = .ok raw ∧
      parseTriggerJson lib timezone now raw = .ok spec ∧
      ∀ j < k, ∃ e, parseOnce lib timezone now (calls j) = .error (.triggerParseError e) := by
  obtain ⟨k, hk, heq, hbefore⟩ := Raising.exists_retry_eq ParseExn.isTriggerParseError
    (fun k => parseOnce lib timezone now (calls k)) settings.maxRetries.toNat 0
  rw [parseReplies, heq, Nat.zero_add] at h
  obtain ⟨raw, hraw, hparse⟩ := Raising.bind_eq_ok.1 h
  refine ⟨k, hk, raw, hraw, hparse, fun j hj => ?_⟩
  obtain ⟨e, he, hagain⟩ := hbefore j hj
  rw [Nat.zero_add] at he
  cases e with
  | triggerParseError e => exact ⟨e, he⟩
  | _ => exact absurd hagain (by simp [ParseExn.isTriggerParseError])

/-- A specification is the answer of the relative parser, or that of a reply if there is
    no such answer. A first fire time can be computed for it. -/
theorem parseTriggerTextToSpec_eq_ok
    (h : parseTriggerTextToSpec lib timezone now settings calls text = .ok spec) :
    (∃ next, computeNextRunAt lib.crontab now spec = .ok next) ∧
      ((∃ runAt, relativeRunAt lib timezone now text = .ok (some runAt) ∧
        spec = onceAt (lib.zoneInfo timezone) runAt) ∨
      relativeRunAt lib timezone now text = .ok none ∧
        parseReplies lib timezone now settings calls = .ok spec) := by
  rw [parseTriggerTextToSpec] at h
  split at h
  · obtain ⟨runAt, hrelative, h⟩ := Raising.bind_eq_ok.1 h
    have hrunAt := Raising.mapError_eq_ok.1 hrelative
    rcases runAt with _ | runAt
    · obtain ⟨_, -, h⟩ := Raising.bind_eq_ok.1 h
      obtain ⟨_, _, raw, -, hparse, -⟩ := parseReplies_eq_ok h
      obtain ⟨_, _, next, -, -, -, hnext⟩ := parseTriggerJson_eq_ok hparse
      exact ⟨⟨next, hnext⟩, .inr ⟨hrunAt, h⟩⟩
    · dsimp only at h
      split at h
      · exact absurd h (by simp)
      · rename_i next hnext
        obtain rfl := Except.ok.inj h
        exact ⟨⟨next, hnext⟩, .inl ⟨runAt, hrunAt, rfl⟩⟩
  · exact absurd h (by simp)

end SchedulerLm
