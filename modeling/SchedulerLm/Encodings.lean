import SchedulerLm.Datetimes
import SchedulerLm.Queries

/-!
# Four encodings of a trigger

A trigger is a specification, the JSON object stored as the `trigger_config` of its
task, the columns of a history row, and the configuration read back from these. Here
are the functions between them on what is stored, with the texts of datetimes:
`model_dump` (`TriggerConfig.modelDump`), and the two readers of such an object,
`_task_to_trigger_spec` and `_trigger_columns`.

* On what `model_dump` gives, the readers do what their counterparts on
  configurations do (`taskToTriggerSpecOfDump_modelDump`,
  `triggerColumnsOfDump_modelDump`), as the texts of datetimes are read as they were
  written.
* What a specification denotes (`Denotation`) survives both ways round
  (`encodings_roundTrip`).
-/

namespace SchedulerLm

open Calendar

/-! ## Stored objects -/

/-- A value of a stored JSON object. -/
inductive ConfigValue
  | str (value : String)
  | int (value : Int)
  deriving DecidableEq

/-- A stored JSON object. -/
abbrev ConfigDict := List (String × ConfigValue)

/-- `model_dump`. -/
def TriggerConfig.modelDump : TriggerConfig → ConfigDict
  | .once runAt => [("run_at", .str runAt.isoformat)]
  | .cron expression timezone => [("expression", .str expression), ("timezone", .str timezone)]
  | .interval seconds => [("seconds", .int seconds)]

/-- `config[key]`. -/
def getItem (config : ConfigDict) (key : String) : Except Exn ConfigValue :=
  match config.lookup key with
  | none => .error .keyError
  | some value => .ok value

/-- `datetime.fromisoformat(value)`. -/
def readDatetime : ConfigValue → Except Exn Datetime
  | .str text =>
    match Datetime.fromisoformat text with
    | none => .error .valueError
    | some d => .ok d
  | .int _ => .error .typeError

/-- A text, as a field of a model. -/
def readText : ConfigValue → Except Exn String
  | .str text => .ok text
  | .int _ => .error .validationError

/-- An integer, as a field of a model; none is stored as a text. -/
def readInt : ConfigValue → Except Exn Int
  | .str _ => .error .validationError
  | .int n => .ok n

variable (lib : Crontab)

/-- `_task_to_trigger_spec`, on the object stored. -/
def taskToTriggerSpecOfDump (type : TriggerType) (config : ConfigDict) :
    Except Exn StructuredTriggerSpec :=
  match type with
  | .once => ((getItem config "run_at").bind readDatetime).map .once
  | .cron =>
    ((getItem config "expression").bind readText).bind fun expression =>
    (readText ((config.lookup "timezone").getD (.str "UTC"))).bind fun timezone =>
    if lib.zones timezone then .ok (.cron expression timezone) else .error .zoneInfoNotFound
  | .interval =>
    ((getItem config "seconds").bind readInt).bind fun seconds =>
    if h : 0 < seconds then .ok (.interval seconds h) else .error .validationError

/-- `_trigger_columns`, on the object stored. -/
def triggerColumnsOfDump (type : TriggerType) (config : ConfigDict) : Except Exn TriggerColumns :=
  match type with
  | .cron =>
    ((getItem config "expression").bind readText).bind fun expression =>
    (readText ((config.lookup "timezone").getD (.str "UTC"))).map fun timezone =>
      ⟨some expression, some timezone, none, none⟩
  | .interval =>
    ((getItem config "seconds").bind readInt).map fun seconds => ⟨none, none, some seconds, none⟩
  | .once =>
    ((getItem config "run_at").bind fun runAt =>
      match runAt with
      | .str text => readDatetime (.str (Datetime.replaceZ text))
      | runAt => readDatetime runAt).map fun parsed => ⟨none, none, none, some parsed.instant⟩

/-- `compute_next_run_at_for_task`, on the object stored. -/
def computeNextRunAtOfDump (now : Instant) (type : TriggerType) (config : ConfigDict) :
    Except Exn (Option Instant) :=
  (taskToTriggerSpecOfDump lib type config).bind (computeNextRunAt lib now)

variable {lib} {type : TriggerType} {config : TriggerConfig} {spec : StructuredTriggerSpec}

/-- The datetime of a configuration exists. -/
def TriggerConfig.Valid : TriggerConfig → Prop
  | .once runAt => runAt.Valid
  | _ => True

/-- Reading the object stored is reading the configuration. -/
theorem taskToTriggerSpecOfDump_modelDump (h : config.Valid) :
    taskToTriggerSpecOfDump lib type config.modelDump = taskToTriggerSpec lib type config := by
  cases config with
  | once runAt =>
    have hread : readDatetime (.str runAt.isoformat) = .ok runAt := by
      rw [readDatetime, Datetime.fromisoformat_isoformat h]
    cases type
    · simp [taskToTriggerSpecOfDump, TriggerConfig.modelDump, getItem, Except.bind,
        Except.map, hread, taskToTriggerSpec]
    all_goals rfl
  | cron e z => cases type <;> rfl
  | interval s => cases type <;> rfl

/-- The columns of the object stored are those of the configuration. -/
theorem triggerColumnsOfDump_modelDump (h : config.Valid) :
    triggerColumnsOfDump type config.modelDump = triggerColumns type config := by
  cases config with
  | once runAt =>
    have hread : readDatetime (.str (Datetime.replaceZ runAt.isoformat)) = .ok runAt := by
      rw [Datetime.replaceZ_isoformat, readDatetime, Datetime.fromisoformat_isoformat h]
    cases type
    · simp [triggerColumnsOfDump, TriggerConfig.modelDump, getItem, Except.bind, Except.map, hread,
        triggerColumns]
    all_goals rfl
  | cron e z => cases type <;> rfl
  | interval s => cases type <;> rfl

/-! ## What is denoted -/

/-- What a trigger is: one instant, an expression in a zone, or a period. -/
inductive Denotation
  | at (t : Instant)
  | cron (expression timezone : String)
  | every (seconds : Int)
  deriving DecidableEq

/-- What a specification denotes; a naive datetime means UTC. -/
def StructuredTriggerSpec.denotes : StructuredTriggerSpec → Denotation
  | .once runAt => .at runAt.instant
  | .cron expression timezone => .cron expression timezone
  | .interval seconds _ => .every seconds

/-- The specification can be stored: a datetime exists, also in UTC, a zone is
    accepted, and the seconds fit their column. -/
def StructuredTriggerSpec.Accepted (lib : Crontab) : StructuredTriggerSpec → Prop
  | .once runAt => runAt.Valid ∧ Fields.InRange runAt.instant
  | .cron _ timezone => lib.zones timezone = true
  | .interval seconds _ => fitsInteger (some seconds) = true

/-- The configuration shown for a specification in the history: its datetime is in
    UTC. -/
def StructuredTriggerSpec.shown : StructuredTriggerSpec → TriggerConfig
  | .once runAt => .once (.ofInstant runAt.instant)
  | .cron expression timezone => .cron expression timezone
  | .interval seconds _ => .interval seconds

/-- The columns of a history row with the trigger of a specification. -/
def StructuredTriggerSpec.columns : StructuredTriggerSpec → TriggerColumns
  | .once runAt => ⟨none, none, none, some runAt.instant⟩
  | .cron expression timezone => ⟨some expression, some timezone, none, none⟩
  | .interval seconds _ => ⟨none, none, some seconds, none⟩

/-- The trigger columns of a history row. -/
def TaskHistory.columns (row : TaskHistory) : TriggerColumns :=
  ⟨row.cronExpression, row.cronTimezone, row.intervalSeconds, row.onceRunAt⟩

/-- The values of a configuration are those of the columns, which are not null: none
    is a default of the reader. -/
def TriggerColumns.Hold (columns : TriggerColumns) : TriggerConfig → Prop
  | .once runAt => ∃ t, columns.onceRunAt = some t ∧ runAt = .ofInstant t
  | .cron expression timezone =>
    columns.cronExpression = some expression ∧ columns.cronTimezone = some timezone
  | .interval seconds => columns.intervalSeconds = some seconds

theorem denotes_assumeUtc (spec : StructuredTriggerSpec) :
    spec.assumeUtc.denotes = spec.denotes := by
  cases spec <;> simp [StructuredTriggerSpec.assumeUtc, StructuredTriggerSpec.denotes]

theorem triggerConfigFromSpec_assumeUtc (spec : StructuredTriggerSpec) :
    triggerConfigFromSpec spec.assumeUtc = triggerConfigFromSpec spec := by
  cases spec with
  | once runAt => exact congrArg TriggerConfig.once runAt.assumeUtc_assumeUtc
  | cron | interval => rfl

/-- An accepted specification is decoded from its configuration, up to the zone of a
    naive datetime. -/
theorem taskToTriggerSpec_of_accepted (h : spec.Accepted lib) :
    taskToTriggerSpec lib spec.type (triggerConfigFromSpec spec) = .ok spec.assumeUtc := by
  cases spec with
  | once runAt => rfl
  | cron e z => exact if_pos h
  | interval s hs => exact dif_pos hs

theorem valid_of_accepted (h : spec.Accepted lib) : (triggerConfigFromSpec spec).Valid := by
  cases spec with
  | once runAt => exact h.1.assumeUtc
  | cron | interval => trivial

/-- A specification's configuration has its columns. -/
theorem triggerColumns_of_spec (spec : StructuredTriggerSpec) :
    triggerColumns spec.type (triggerConfigFromSpec spec) = .ok spec.columns := by
  cases spec <;> simp [StructuredTriggerSpec.type, triggerConfigFromSpec, triggerColumns,
    StructuredTriggerSpec.columns]

/-- A history row with the columns of a specification, in a zone with a name, is read
    as the configuration shown for it. -/
theorem triggerConfigFromRow_of_columns {row : TaskHistoryRow}
    (hzone : ∀ e z, spec = .cron e z → z ≠ "") (htype : row.triggerType = some spec.type)
    (hcolumns : row.columns = spec.columns) :
    triggerConfigFromRow row = .ok (spec.type, spec.shown) ∧ row.columns.Hold spec.shown := by
  obtain ⟨he, hz, hs, ht⟩ := TriggerColumns.mk.inj hcolumns
  refine ⟨?_, ?_⟩
  · rw [triggerConfigFromRow, htype]
    cases spec with
    | once runAt => simp [StructuredTriggerSpec.type, StructuredTriggerSpec.shown, ht]
    | cron e z =>
      simp [StructuredTriggerSpec.type, StructuredTriggerSpec.shown, he, hz, orDefault,
        hzone e z rfl]
    | interval s hs' => simp [StructuredTriggerSpec.type, StructuredTriggerSpec.shown, hs]
  · rw [hcolumns]
    cases spec with
    | once runAt => exact ⟨_, rfl, rfl⟩
    | cron e z => exact ⟨rfl, rfl⟩
    | interval s hs' => rfl

/-- The configuration shown is decoded to the same trigger. -/
theorem taskToTriggerSpec_shown (h : spec.Accepted lib) : spec.shown.Valid ∧
    ∃ decoded, taskToTriggerSpec lib spec.type spec.shown = .ok decoded ∧
      decoded.denotes = spec.denotes := by
  cases spec with
  | once runAt =>
    exact ⟨Datetime.valid_ofInstant h.2, _, rfl, by simp [StructuredTriggerSpec.denotes]⟩
  | cron e z => exact ⟨trivial, _, if_pos h, rfl⟩
  | interval s hs => exact ⟨trivial, _, dif_pos hs, rfl⟩

/-! ## Both ways round -/

/-- An accepted specification, stored with a task, is decoded to the same trigger,
    with the same fire times, and encoded in the same way again. The columns of a
    history row fit, and a row with them is read, without any default, as a
    configuration that is stored and decoded to the same trigger again. -/
theorem encodings_roundTrip (h : spec.Accepted lib) :
    (∃ decoded, taskToTriggerSpecOfDump lib spec.type (triggerConfigFromSpec spec).modelDump =
        .ok decoded ∧ decoded.denotes = spec.denotes ∧
      (∀ now, computeNextRunAtOfDump lib now spec.type (triggerConfigFromSpec spec).modelDump =
        computeNextRunAt lib now spec) ∧
      (triggerConfigFromSpec decoded).modelDump = (triggerConfigFromSpec spec).modelDump) ∧
    ∃ columns, triggerColumnsOfDump spec.type (triggerConfigFromSpec spec).modelDump = .ok columns ∧
      fitsInteger columns.intervalSeconds = true ∧
      ∀ row : TaskHistoryRow, row.triggerType = some spec.type → row.columns = columns →
        ∃ config decoded, triggerConfigFromRow row = .ok (spec.type, config) ∧
          row.columns.Hold config ∧ taskToTriggerSpecOfDump lib spec.type config.modelDump =
            .ok decoded ∧
          decoded.denotes = spec.denotes := by
  have hdecode : taskToTriggerSpecOfDump lib spec.type (triggerConfigFromSpec spec).modelDump =
      .ok spec.assumeUtc :=
    (taskToTriggerSpecOfDump_modelDump (valid_of_accepted h)).trans
      (taskToTriggerSpec_of_accepted h)
  refine ⟨⟨_, hdecode, denotes_assumeUtc spec, fun now => ?_, ?_⟩, spec.columns, ?_, ?_,
    fun row htype hcolumns => ?_⟩
  · rw [computeNextRunAtOfDump, hdecode]
    exact computeNextRunAt_assumeUtc now spec
  · rw [triggerConfigFromSpec_assumeUtc]
  · rw [triggerColumnsOfDump_modelDump (valid_of_accepted h), triggerColumns_of_spec]
  · cases spec with
    | once | cron => rfl
    | interval s hs => exact h
  · have hzone : ∀ e z, spec = .cron e z → z ≠ "" := by
      rintro e z rfl rfl
      exact absurd (lib.zones_empty.symm.trans h) (by simp)
    obtain ⟨hread, hhold⟩ := triggerConfigFromRow_of_columns hzone htype hcolumns
    obtain ⟨hvalid, decoded, hdecoded, hdenotes⟩ := taskToTriggerSpec_shown h
    exact ⟨spec.shown, decoded, hread, hhold,
      (taskToTriggerSpecOfDump_modelDump hvalid).trans hdecoded, hdenotes⟩

/-- Midnight of 1 January 1970, two hours ahead of UTC. -/
theorem encodings_roundTrip_once : ∃ decoded,
    taskToTriggerSpecOfDump .never .once
        (triggerConfigFromSpec (.once ⟨0, some 7200000000⟩)).modelDump = .ok decoded ∧
      decoded.denotes = .at (-7200000000) := by
  have haccepted : (StructuredTriggerSpec.once ⟨0, some 7200000000⟩).Accepted .never := by
    refine ⟨⟨by decide, ?_⟩, by decide⟩
    rintro o ho
    obtain rfl := Option.some.inj ho
    decide
  obtain ⟨⟨decoded, hdecoded, hdenotes, -⟩, -⟩ := encodings_roundTrip haccepted
  exact ⟨decoded, hdecoded, hdenotes⟩

example : (Datetime.mk 0 (some 7200000000)).isoformat = "1970-01-01T00:00:00+02:00" := by decide

end SchedulerLm
