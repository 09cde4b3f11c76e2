import SchedulerLm.Schedulable
import SchedulerLm.Tasks

/-!
# Creations that fail

What becomes of a creation with a structured trigger (`postTasks`): its body is validated, its
handler computes a first fire time and sends an INSERT, and its session commits. Each of these
may raise, and only what pydantic takes for a `ValueError` is answered with 422. So a creation
creates its task, or is refused and changes nothing (`Clean`), iff its trigger is one of those
that no stage raises for (`Creatable`, `clean_iff`).

The seconds of an interval are bounded nowhere but by their column in the history: an interval
that is accepted is stored iff it fits (`interval_stored_iff`).
-/

namespace SchedulerLm

open Calendar

/-! ## Bodies -/

/-- A structured trigger, as it is sent. -/
inductive TriggerBody
  | once (runAt : Datetime)
  | cron (expression timezone : String)
  | interval (seconds : Int)

/-- The body of a creation, as it is sent. -/
structure TaskBody where
  webhookUrl : String
  parameters : List (String × String)
  trigger : TriggerBody

variable (lib : Crontab) (zoneError : String → Exn)

/-- The validation of `OnceTrigger`, `CronTriggerSpec` and `IntervalTriggerSpec`, where `ZoneInfo`
    raises `zoneError` for a name it does not find. -/
def TriggerBody.validate : TriggerBody → Except Exn StructuredTriggerSpec
  | .once runAt => .ok (.once runAt)
  | .cron expression timezone =>
    if lib.zones timezone then .ok (.cron expression timezone) else .error (zoneError timezone)
  | .interval seconds =>
    if h : 0 < seconds then .ok (.interval seconds h) else .error .validationError

/-- A creation of the body. -/
def TaskBody.creation (body : TaskBody) (spec : StructuredTriggerSpec) : TaskCreate where
  webhookUrl := body.webhookUrl
  parameters := body.parameters
  trigger := .structured spec

/-! ## Sending the INSERT -/

/-- A text without NUL, which JSONB does not have. -/
def storable (text : String) : Bool := '\x00' ∉ text.toList

/-- The texts of a configuration. -/
def TriggerConfig.texts : TriggerConfig → List String
  | .cron expression timezone => [expression, timezone]
  | _ => []

/-- The texts of some parameters. -/
def parameterTexts (parameters : List (String × String)) : List String :=
  parameters.flatMap fun parameter => [parameter.1, parameter.2]

/-- The driver sends the row, and the database takes it: the fire time is sent in UTC, where it
    has to exist, and JSONB stores the texts. -/
def ScheduledTask.sendable (task : ScheduledTask) : Bool :=
  task.nextRunAt.all (fun next => Fields.InRange next) &&
    (parameterTexts task.parameters ++ task.triggerConfig.texts).all storable

/-- The INSERT `create_task` flushes is sent. -/
def TaskWrite.sendable : TaskWrite → Bool
  | .insert task => task.sendable
  | _ => true

/-- How a creation fails: its body is not valid, or its handler fails. -/
inductive CreationFailure
  | body (e : Exn)
  | handler (e : Failure)
  deriving DecidableEq

/-- The status of a failure, if there is an answer. -/
def CreationFailure.status : CreationFailure → Option ℕ
  | .body e => some (if isValueError e then 422 else 500)
  | .handler (.http status _) => some status
  | .handler (.raised _) => some 500
  | .handler .hangs => none

/-- `POST /tasks`: what is answered, and what is left. -/
def postTasks (turn : Turn) (user : CurrentUser) (body : TaskBody) (s : Service) :
    Except CreationFailure Response × Service :=
  match body.trigger.validate lib zoneError with
  | .error e => (.error (.body e), s)
  | .ok spec =>
    let request := Request.create (body.creation spec)
    match createTask lib turn.toEnv user (body.creation spec) with
    | .error e => (.error (.handler e), serve lib none turn user request s)
    | .ok h =>
      if h.work.task.sendable then
        ((respond lib turn user request s).mapError .handler, serve lib none turn user request s)
      else (.error (.handler (.raised .databaseError)), s)

/-! ## Clean creations -/

/-- The creation commits one task, active and of the user, and one row of the history, about its
    creation, and is answered with the task. -/
def Creates (user : CurrentUser) (s : Service)
    (result : Except CreationFailure Response × Service) : Prop :=
  ∃ task response row, result.1 = .ok (.task response) ∧ task.isActive = true ∧
    task.userId = user.userId ∧
    s.row task.id = none ∧ (∀ id, result.2.row id = if id = task.id then some task else s.row id) ∧
    result.2.history = s.history ++ [row] ∧ row.Records .taskCreated user.userId task.id

/-- The creation is refused, with 422, and changes nothing. -/
def Refuses (s : Service) (result : Except CreationFailure Response × Service) : Prop :=
  (∃ e, result.1 = .error e ∧ e.status = some 422) ∧ result.2.tasks = s.tasks ∧
    result.2.history = s.history ∧ result.2.schedules = s.schedules ∧ result.2.sent = s.sent

/-- The creation creates its task, or is refused. -/
def Clean (user : CurrentUser) (s : Service) (result : Except CreationFailure Response × Service) :
    Prop :=
  Creates user s result ∨ Refuses s result

/-- No stage raises for the trigger: a `once` datetime exists in UTC, the zone of a crontab is
    found and the expression is one, and the seconds of an interval fit an INTEGER. -/
def TriggerBody.Creatable : TriggerBody → Prop
  | .once runAt => Fields.InRange runAt.instant
  | .cron expression timezone => lib.zones timezone = true ∧ lib.parses expression = true ∧
      storable expression = true ∧ storable timezone = true
  | .interval seconds => 0 < seconds ∧ seconds < 2 ^ 31

/-- The trigger is not valid, and pydantic takes what its validation raises for a `ValueError`. -/
def TriggerBody.Invalid : TriggerBody → Prop
  | .once _ => False
  | .cron _ timezone => lib.zones timezone = false ∧ isValueError (zoneError timezone) = true
  | .interval seconds => seconds ≤ 0

variable {lib zoneError} {turn : Turn} {user : CurrentUser} {body : TaskBody} {s : Service}
  {trigger : TriggerBody} {spec : StructuredTriggerSpec} {h : Handled} {now : Instant}
  {next : Option Instant}

/-! ## Triggers -/

theorem not_creatable_of_error {e : Exn} (h : trigger.validate lib zoneError = .error e) :
    ¬trigger.Creatable lib ∧ (trigger.Invalid lib zoneError ↔ isValueError e = true) := by
  cases trigger with
  | once runAt => exact absurd h (by simp [TriggerBody.validate])
  | cron expression timezone =>
    by_cases hzone : lib.zones timezone = true
    · exact absurd h (by simp [TriggerBody.validate, hzone])
    · obtain rfl : zoneError timezone = e := by simpa [TriggerBody.validate, hzone] using h
      exact ⟨fun hcreatable => hzone hcreatable.1, and_iff_right (by simpa using hzone)⟩
  | interval seconds =>
    by_cases hpos : 0 < seconds
    · exact absurd h (by simp [TriggerBody.validate, hpos])
    · obtain rfl : Exn.validationError = e := by simpa [TriggerBody.validate, hpos] using h
      exact ⟨fun hcreatable => hpos hcreatable.1, iff_of_true (not_lt.1 hpos) rfl⟩

theorem not_invalid_of_ok (h : trigger.validate lib zoneError = .ok spec) :
    ¬trigger.Invalid lib zoneError := by
  intro hinvalid
  cases trigger with
  | once runAt => exact hinvalid
  | cron expression timezone => exact absurd h (by simp [TriggerBody.validate, hinvalid.1])
  | interval seconds =>
    exact absurd h (by simp [TriggerBody.validate, not_lt.2 (show seconds ≤ 0 from hinvalid)])

theorem computeNextRunAt_cron_eq_ok {expression timezone : String}
    (hzone : lib.zones timezone = true) :
    computeNextRunAt lib now (.cron expression timezone) = .ok next ↔
      lib.parses expression = true ∧ lib.next expression timezone now = next := by
  by_cases hparses : lib.parses expression = true
  · cases hnext : lib.next expression timezone now <;>
      simp [computeNextRunAt, buildTrigger, hzone, hparses, Except.map, Trigger.next, hnext]
  · simp [computeNextRunAt, buildTrigger, hzone, hparses, Except.map]

theorem computeNextRunAt_interval_eq_ok {seconds : Int} {pos : 0 < seconds} :
    computeNextRunAt lib now (.interval seconds pos) = .ok next ↔ seconds ≤ maxTimedelta ∧
      some now = next := by
  by_cases hmax : seconds ≤ maxTimedelta
  · simp [computeNextRunAt, buildTrigger, hmax, Except.map, Trigger.next]
  · simp [computeNextRunAt, buildTrigger, hmax, Except.map]

/-- Positive seconds fit iff they are less than `2^31`. -/
theorem fitsInteger_iff {seconds : Int} (pos : 0 < seconds) :
    fitsInteger (some seconds) = true ↔ seconds < 2 ^ 31 := by
  simp only [fitsInteger, Option.all_some, Bool.and_eq_true, decide_eq_true_eq]
  omega

/-- No stage raises for a trigger that is valid iff a first fire time can be computed and sent,
    the texts can be stored, and the seconds fit. -/
theorem creatable_iff (hnow : Fields.InRange now)
    (hfires : ∀ e z t f, lib.next e z t = some f → Fields.InRange f)
    (h : trigger.validate lib zoneError = .ok spec) :
    trigger.Creatable lib ↔ ∃ next, computeNextRunAt lib now spec = .ok next ∧
      next.all (fun next => Fields.InRange next) = true ∧
      (triggerConfigFromSpec spec).texts.all storable = true ∧
        fitsInteger spec.intervalSeconds = true := by
  cases trigger with
  | once runAt =>
    obtain rfl := Except.ok.inj h
    simp [TriggerBody.Creatable, computeNextRunAt, buildTrigger, Trigger.next, Except.map,
      triggerConfigFromSpec, TriggerConfig.texts,
        StructuredTriggerSpec.intervalSeconds, fitsInteger]
  | cron expression timezone =>
    rw [TriggerBody.validate] at h
    split at h
    · rename_i hzone
      obtain rfl := Except.ok.inj h
      have hall : (lib.next expression timezone now).all (fun next =>
          Fields.InRange next) = true := by
        cases hnext : lib.next expression timezone now with
        | none => rfl
        | some f => simpa using hfires _ _ _ _ hnext
      simp [TriggerBody.Creatable, computeNextRunAt_cron_eq_ok hzone, hzone, hall,
        triggerConfigFromSpec,
        TriggerConfig.texts, StructuredTriggerSpec.intervalSeconds, fitsInteger]
    · exact absurd h (by simp)
  | interval seconds =>
    rw [TriggerBody.validate] at h
    split at h
    · rename_i hpos
      obtain rfl := Except.ok.inj h
      have hmax : seconds < 2 ^ 31 → seconds ≤ maxTimedelta := by
        rw [maxTimedelta]
        omega
      simp only [TriggerBody.Creatable, hpos, true_and, computeNextRunAt_interval_eq_ok,
        StructuredTriggerSpec.intervalSeconds, fitsInteger_iff hpos]
      constructor
      · exact fun hlt => ⟨some now, ⟨hmax hlt, rfl⟩, by simpa using hnow, rfl, hlt⟩
      · rintro ⟨_, -, -, -, hlt⟩
        exact hlt
    · exact absurd h (by simp)

/-! ## Creations -/

/-- A creation whose handler has returned and whose row fits is committed. -/
theorem creates_of_fits {create : TaskCreate} (hs : Reachable lib s)
    (hfresh : (Request.create create).drawsFresh turn s = true)
    (hh : createTask lib turn.toEnv user create = .ok h) (hfits : h.work.fits = true) :
    Creates user s ((respond lib turn user (.create create) s).mapError .handler,
      serve lib none turn user (.create create) s) := by
  have hrow := row_of_drawsFresh hs hfresh
  have hp : Prepared lib { s with issued := turn.taskId :: s.issued } h :=
    prepared_createTask hrow hh
  have hcommit : commit turn.dbNow h.work s ≠ none := fun hnone =>
    ((prepared_createTask hrow hh : Prepared lib s h).commits turn.dbNow s rfl).1 hnone hfits
  have hrespond : respond lib turn user (.create create) s =
      .ok (h.response.elim .deleted .task) := by
    simp [respond, Request.handle, hh, Except.bind, hcommit]
  have hrows := fun id => (hp.finish_of_fits turn hfits id).1
  have hhistory := hp.history_finish turn hfits
  obtain ⟨trigger, nextRunAt, row, -, -, hrecorded, rfl⟩ := createTask_eq_ok hh
  refine ⟨newTask turn.toEnv user create trigger nextRunAt,
    toResponse (newTask turn.toEnv user create trigger nextRunAt),
      { row with createdAt := turn.dbNow }, ?_, rfl,
    rfl, hrow, ?_, ?_, records_recordSnapshot hrecorded⟩
  · rw [hrespond]
    rfl
  · rw [serve_create hh]
    exact hrows
  · rw [serve_create hh]
    exact hhistory

/-- One whose row does not fit is not, and the handler is not what refuses it. -/
theorem not_clean_of_not_fits {create : TaskCreate} (hs : Reachable lib s)
    (hfresh : (Request.create create).drawsFresh turn s = true)
    (hh : createTask lib turn.toEnv user create = .ok h) (hfits : ¬h.work.fits = true) :
    ¬Clean user s ((respond lib turn user (.create create) s).mapError .handler,
      serve lib none turn user (.create create) s) := by
  have hrow := row_of_drawsFresh hs hfresh
  have hp : Prepared lib { s with issued := turn.taskId :: s.issued } h :=
    prepared_createTask hrow hh
  rintro (⟨task, response, row, -, -, -, hnone, hrows, -⟩ | ⟨⟨e, he, hstatus⟩, -⟩)
  · have hleft := (hrows task.id).trans (if_pos rfl)
    rw [serve_create hh, Service.row, (hp.finish_of_not_fits turn hfits).1] at hleft
    exact absurd (hnone.symm.trans hleft) (by simp)
  · have hresponse : respond lib turn user (.create create) s =
        if turn.order = .commitFirst ∧ (commit turn.dbNow h.work s).isNone
          then .error (.raised .databaseError)
        else .ok (h.response.elim .deleted .task) := by
      simp [respond, Request.handle, hh, Except.bind]
    rw [hresponse] at he
    split at he
    · obtain rfl := Except.error.inj he
      exact absurd hstatus (by decide)
    · exact absurd he (by simp [Except.mapError])

/-- The handler of a structured creation raises, if it fails, and then there is no first fire
    time. -/
theorem raised_of_createTask {e : Failure}
    (hh : createTask lib turn.toEnv user (body.creation spec) = .error e) :
    (∃ exn, e = .raised exn) ∧ ∀ next, computeNextRunAt lib turn.now spec ≠ .ok next := by
  constructor
  · rcases Raising.bind_eq_error.1 hh with hresolve | ⟨trigger, -, hh⟩
    · exact absurd hresolve (by simp [TaskBody.creation, resolveTriggerSpec, Except.mapError])
    · rcases Raising.bind_eq_error.1 hh with hnext | ⟨next, -, hh⟩
      · obtain ⟨exn, -, rfl⟩ := Raising.mapError_eq_error.1 hnext
        exact ⟨exn, rfl⟩
      · rcases Raising.bind_eq_error.1 hh with hrow | ⟨row, -, hh⟩
        · obtain ⟨exn, -, rfl⟩ := Raising.mapError_eq_error.1 hrow
          exact ⟨exn, rfl⟩
        · exact absurd hh (by simp)
  · intro next hnext
    have hresolve : resolveTriggerSpec turn.toEnv (body.creation spec).trigger = .ok spec := rfl
    obtain ⟨h, hok⟩ : ∃ h, createTask lib turn.toEnv user (body.creation spec) = .ok h :=
      createTask_isOk hresolve hnext
    exact absurd (hh.symm.trans hok) (by simp)

theorem not_clean_of_raised (exn : Exn) (left : Service) :
    ¬Clean user s (.error (.handler (.raised exn)), left) := by
  rintro (⟨_, _, _, hresponse, -⟩ | ⟨⟨_, he, hstatus⟩, -⟩)
  · exact absurd hresponse (by simp)
  · obtain rfl := Except.error.inj he
    exact absurd hstatus (by simp [CreationFailure.status])

/-- The INSERT of a creation is sent iff its fire time can be, and its texts can be stored. -/
theorem sendable_createTask (hh : createTask lib turn.toEnv user (body.creation spec) = .ok h) :
    h.work.task.sendable = true ↔ (∃ next, computeNextRunAt lib turn.now spec = .ok next ∧
      next.all (fun next => Fields.InRange next) = true) ∧
        (parameterTexts body.parameters).all storable = true ∧
          (triggerConfigFromSpec spec).texts.all storable = true := by
  obtain ⟨trigger, nextRunAt, row, hresolve, hnext, -, rfl⟩ := createTask_eq_ok hh
  obtain rfl : spec = trigger := Except.ok.inj hresolve
  simp [TaskWrite.sendable, ScheduledTask.sendable, newTask, hnext, TaskBody.creation]

/-- A creation is clean iff no stage raises for its trigger, and its parameters can be stored, or
    its trigger is refused by the validation. -/
theorem clean_iff (hs : Reachable lib s) (hfresh : turn.taskId ∉ s.issued)
    (hnow : Fields.InRange turn.now) (hfires : ∀ e z t f, lib.next e z t = some f →
      Fields.InRange f) :
    Clean user s (postTasks lib zoneError turn user body s) ↔
      (body.trigger.Creatable lib ∧ (parameterTexts body.parameters).all storable = true) ∨
        body.trigger.Invalid lib zoneError := by
  rcases hvalid : body.trigger.validate lib zoneError with e | spec
  · -- The body is not valid: nothing has happened.
    obtain ⟨hnot, hinvalid⟩ := not_creatable_of_error hvalid
    have hpost : postTasks lib zoneError turn user body s =
        (.error (.body e), s) := by rw [postTasks, hvalid]
    rw [hpost, hinvalid, or_iff_right fun h => hnot h.1]
    constructor
    · rintro (⟨_, _, _, hresponse, -⟩ | ⟨⟨_, he, hstatus⟩, -⟩)
      · exact absurd hresponse (by simp)
      · obtain rfl := Except.error.inj he
        by_contra hvalue
        simp [CreationFailure.status, hvalue] at hstatus
    · intro hvalue
      exact .inr ⟨⟨_, rfl, by simp [CreationFailure.status, hvalue]⟩, rfl, rfl, rfl, rfl⟩
  · rw [or_iff_left (not_invalid_of_ok hvalid), creatable_iff hnow hfires hvalid]
    rcases hh : createTask lib turn.toEnv user (body.creation spec) with e | h
    · obtain ⟨⟨exn, rfl⟩, hnext⟩ := raised_of_createTask hh
      have hpost : postTasks lib zoneError turn user body s =
          (.error (.handler (.raised exn)), serve lib none turn user
            (.create (body.creation spec)) s) := by
        rw [postTasks, hvalid]
        simp only [hh]
      rw [hpost]
      exact iff_of_false (not_clean_of_raised _ _) fun h => by
        obtain ⟨⟨next, h, -⟩, -⟩ := h
        exact hnext next h
    · have hpost : postTasks lib zoneError turn user body s =
          if h.work.task.sendable then
            ((respond lib turn user (.create (body.creation spec)) s).mapError .handler,
              serve lib none turn user (.create (body.creation spec)) s)
          else (.error (.handler (.raised .databaseError)), s) := by
        rw [postTasks, hvalid]
        simp only [hh]
      have hdraws : (Request.create (body.creation spec)).drawsFresh turn s = true := by
        simpa [Request.drawsFresh] using hfresh
      have hfits : h.work.fits = true ↔ fitsInteger spec.intervalSeconds = true := by
        rw [fits_createTask hh]
        exact ⟨fun h => h spec rfl, fun h trigger htrigger => Except.ok.inj htrigger ▸ h⟩
      rw [hpost]
      by_cases hsendable : h.work.task.sendable = true
      · obtain ⟨⟨next, hnext, hrange⟩, hparameters, htexts⟩ := (sendable_createTask hh).1 hsendable
        rw [if_pos hsendable]
        by_cases hfit : h.work.fits = true
        · exact iff_of_true (.inl (creates_of_fits hs hdraws hh hfit))
            ⟨⟨next, hnext, hrange, htexts, hfits.1 hfit⟩, hparameters⟩
        · refine iff_of_false (not_clean_of_not_fits hs hdraws hh hfit) ?_
          rintro ⟨⟨_, -, -, -, hfit'⟩, -⟩
          exact hfit (hfits.2 hfit')
      · rw [if_neg hsendable]
        refine iff_of_false (not_clean_of_raised _ _) ?_
        rintro ⟨⟨next, hnext, hrange, htexts, -⟩, hparameters⟩
        exact hsendable ((sendable_createTask hh).2 ⟨⟨next, hnext, hrange⟩, hparameters, htexts⟩)

/-- A task of one minute is created. -/
theorem clean_minute : Clean .sample .init
    (postTasks .never (fun _ => .zoneInfoNotFound)
      (.sample 0 1 .commitFirst (.response 200)) .sample
      ⟨"https://example.com/hook", [], .interval 60⟩ .init) :=
  (clean_iff reachable_init (by decide) (by decide) fun _ _ _ _ h =>
    absurd h (by simp [Crontab.never])).2
    (.inl ⟨⟨by decide, by decide⟩, rfl⟩)

/-- Whatever structured trigger is sent, a creation would be clean: it is not where the zone of a
    crontab is not found. -/
theorem not_clean : ¬∀ (lib : Crontab) (zoneError : String → Exn) (s : Service) (turn : Turn)
    (user : CurrentUser) (body : TaskBody), Reachable lib s → turn.taskId ∉ s.issued →
    Fields.InRange turn.now → (∀ e z t f, lib.next e z t = some f → Fields.InRange f) →
    (∀ z, zoneError z = .zoneInfoNotFound) → Clean user s
      (postTasks lib zoneError turn user body s) := by
  intro h
  have hclean := h .never (fun _ => .zoneInfoNotFound) .init
    (.sample 0 1 .commitFirst (.response 200)) .sample
    ⟨"https://example.com/hook", [], .cron "0 9 * * *" "Mars/Olympus"⟩ reachable_init
      (by decide) (by decide)
    (fun _ _ _ _ h => absurd h (by simp [Crontab.never])) fun _ => rfl
  have hpost : postTasks .never (fun _ => .zoneInfoNotFound)
    (.sample 0 1 .commitFirst (.response 200)) .sample
      ⟨"https://example.com/hook", [], .cron "0 9 * * *" "Mars/Olympus"⟩ .init =
        (.error (.body .zoneInfoNotFound), .init) := rfl
  rw [hpost] at hclean
  rcases hclean with ⟨_, _, _, hresponse, -⟩ | ⟨⟨_, he, hstatus⟩, -⟩
  · exact absurd hresponse (by simp)
  · obtain rfl := Except.error.inj he
    exact absurd hstatus (by decide)

/-! ## Intervals -/

/-- The specification of a reply is of the type of the reply. -/
theorem typeOf_spec {lib : ParseLib} {timezone : String} {output : TriggerParseLLMOutput}
    (h : triggerSpecFromLlmOutput lib timezone output = .ok spec) : spec.type = output.type := by
  rw [triggerSpecFromLlmOutput] at h
  rcases htype : output.type with _ | _ | _ <;> rw [htype] at h <;> dsimp only at h
  · split at h
    · exact absurd h (by simp)
    · exact absurd h (by simp)
    · split at h
      · exact absurd h (by simp)
      · exact Except.ok.inj h ▸ rfl
  · split at h
    · exact absurd h (by simp)
    · exact absurd h (by simp)
    · split at h
      · exact Except.ok.inj h ▸ rfl
      · exact absurd h (by simp)
  · split at h
    · split at h
      · exact Except.ok.inj h ▸ rfl
      · exact absurd h (by simp)
    · exact absurd h (by simp)

/-- The seconds of a reply with an interval that is accepted are those of its units. -/
theorem exists_units_of_reply {lib : ParseLib} {timezone raw : String} {seconds : Int}
    {pos : 0 < seconds} (h : parseTriggerJson lib timezone now raw = .ok (.interval seconds pos)) :
    ∃ data output value unit, Json.loads lib.recursionLimit raw = .ok data ∧
      TriggerParseLLMOutput.modelValidate lib.lax data = .ok output ∧
        output.intervalValue = some value ∧
      output.intervalUnit = some unit ∧ seconds = value * intervalUnitSeconds unit := by
  obtain ⟨data, output, next, hdata, houtput, hspec, -⟩ := parseTriggerJson_eq_ok h
  have htype : output.type = .interval := by
    rcases hother : output.type with _ | _ | _
    · exact absurd (typeOf_spec hspec) (by simp [hother, StructuredTriggerSpec.type])
    · exact absurd (typeOf_spec hspec) (by simp [hother, StructuredTriggerSpec.type])
    · rfl
  rw [triggerSpecFromLlmOutput, htype] at hspec
  dsimp only at hspec
  split at hspec
  · rename_i value unit hvalue hunit
    split at hspec
    · obtain ⟨rfl⟩ := Except.ok.inj hspec
      exact ⟨data, output, value, unit, hdata, houtput, hvalue, hunit, rfl⟩
    · exact absurd hspec (by simp)
  · exact absurd hspec (by simp)

/-- The interval of a creation is recorded as it has been given or, if it is from a reply, as its
    value times the seconds of its unit; and the column takes it, and the creation can be
    committed, iff that is less than `2^31`. -/
theorem interval_stored_iff {lib : ParseLib} {create : TaskCreate} {seconds : Int}
    {pos : 0 < seconds} (hh : createTask lib.crontab turn.toEnv user create = .ok h)
    (hspec : resolveTriggerSpec turn.toEnv create.trigger = .ok (.interval seconds pos))
    (hrow : s.row turn.taskId = none) :
    (∃ row, h.work.history = [row] ∧ row.intervalSeconds = some seconds ∧
        (fitsInteger row.intervalSeconds = true ↔ seconds < 2 ^ 31)) ∧
      (∀ dbNow, (∃ s', commit dbNow h.work s = some s') ↔ seconds < 2 ^ 31) ∧
      ∀ timezone now raw, parseTriggerJson lib timezone now raw = .ok (.interval seconds pos) →
        ∃ data output value unit, Json.loads lib.recursionLimit raw = .ok data ∧
          TriggerParseLLMOutput.modelValidate lib.lax data = .ok output ∧
            output.intervalValue = some value ∧
          output.intervalUnit = some unit ∧ seconds = value * intervalUnitSeconds unit := by
  have hfits : h.work.fits = true ↔ seconds < 2 ^ 31 := by
    rw [fits_createTask hh, ← fitsInteger_iff pos]
    refine ⟨fun hfit => hfit _ hspec, fun hfit trigger htrigger => ?_⟩
    obtain rfl := Except.ok.inj (hspec.symm.trans htrigger)
    exact hfit
  have hprepared : Prepared lib.crontab s h := prepared_createTask hrow hh
  refine ⟨?_, fun dbNow => ?_, fun _ _ _ => exists_units_of_reply⟩
  · obtain ⟨trigger, nextRunAt, row, htrigger, -, hrecorded, rfl⟩ := createTask_eq_ok hh
    obtain rfl := Except.ok.inj (hspec.symm.trans htrigger)
    rw [recordTaskCreated] at hrecorded
    obtain ⟨columns, hcolumns, rfl⟩ := Raising.map_eq_ok.1 hrecorded
    obtain rfl := Except.ok.inj hcolumns
    exact ⟨_, rfl, rfl, fitsInteger_iff pos⟩
  · rw [← hfits, ← Option.ne_none_iff_exists', ne_eq, hprepared.commits dbNow s rfl, not_not]

/-- A minute is stored. -/
theorem interval_stored_minute : ∃ h s', createTask ParseLib.sample.crontab
    (Turn.sample 0 1 .commitFirst (.response 200)).toEnv .sample
      (.sample (.interval 60 minute_pos)) = .ok h ∧ commit 0 h.work .init = some s' := by
  obtain ⟨h, hh⟩ :
    ∃ h, createTask ParseLib.sample.crontab (Turn.sample 0 1 .commitFirst (.response 200)).toEnv
      .sample (.sample (.interval 60 minute_pos)) = .ok h := ⟨_, rfl⟩
  obtain ⟨s', hs'⟩ := ((interval_stored_iff (s := .init) hh rfl rfl).2.1 0).2 (by decide)
  exact ⟨h, s', hh, hs'⟩

/-- Every interval would fit the column: one second too many does not. -/
theorem not_interval_stored : ¬∀ (lib : ParseLib) (turn : Turn) (user : CurrentUser)
    (create : TaskCreate) (h : Handled) (seconds : Int)
    (pos : 0 < seconds), createTask lib.crontab turn.toEnv user create = .ok h →
    resolveTriggerSpec turn.toEnv create.trigger = .ok (.interval seconds pos) →
    ∀ row ∈ h.work.history, fitsInteger row.intervalSeconds = true := by
  intro h
  have hfits := h .sample (.sample 0 1 .commitFirst (.response 200)) .sample
    (.sample (.interval 2147483648 (by decide))) _ 2147483648 (by decide) rfl rfl _
      List.mem_cons_self
  exact absurd hfits (by decide)

end SchedulerLm
