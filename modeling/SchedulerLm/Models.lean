import SchedulerLm.Triggers

/-!
# Rows

The rows of the two tables, `scheduled_tasks` and `task_history`, and the history
rows the service writes (`record_task_created` and its companions). The trigger of
a task is flattened into columns of the history row (`_trigger_columns`).

The columns set by the server are separate: a history row is added without its
`created_at` (`TaskHistory`), which the database sets (`TaskHistoryRow`).
-/

namespace SchedulerLm

/-- The id of a task, a UUID; `str(task_id)` is the id of its schedule. -/
abbrev TaskId := ℕ

/-- The id of a user, the `sub` claim of its token. -/
abbrev UserId := String

/-- A row of `scheduled_tasks`. -/
structure ScheduledTask where
  id : TaskId
  userId : UserId
  webhookUrl : String
  parameters : List (String × String)
  triggerType : TriggerType
  triggerConfig : TriggerConfig
  nextRunAt : Option Instant
  isActive : Bool
  createdAt : Instant
  updatedAt : Instant
  deriving DecidableEq

/-- An active task of the user `userId` with the trigger `spec`, created at `0`. -/
def ScheduledTask.sample (id : TaskId) (userId : UserId) (spec : StructuredTriggerSpec)
    (nextRunAt : Option Instant) : ScheduledTask where
  id := id
  userId := userId
  webhookUrl := "https://example.com/hook"
  parameters := []
  triggerType := spec.type
  triggerConfig := triggerConfigFromSpec spec
  nextRunAt := nextRunAt
  isActive := true
  createdAt := 0
  updatedAt := 0

/-- The task after `is_active = True` and `next_run_at = next`. -/
def ScheduledTask.activated (task : ScheduledTask) (next : Instant) : ScheduledTask :=
  { task with isActive := true, nextRunAt := some next }

/-- The task after `is_active = False` and `next_run_at = None`. -/
def ScheduledTask.deactivated (task : ScheduledTask) : ScheduledTask :=
  { task with isActive := false, nextRunAt := none }

/-- A row of `task_history`, as it is added. -/
structure TaskHistory where
  id : ℕ
  userId : UserId
  taskId : TaskId
  eventType : TaskHistoryEventType
  webhookUrl : Option String := none
  triggerType : Option TriggerType := none
  cronExpression : Option String := none
  cronTimezone : Option String := none
  intervalSeconds : Option Int := none
  onceRunAt : Option Instant := none
  executionSource : Option ExecutionSource := none
  httpStatus : Option ℕ := none
  errorMessage : Option String := none
  success : Option Bool := none
  deriving DecidableEq

/-- The value fits an INTEGER column. -/
def fitsInteger (value : Option Int) : Bool := value.all fun n => -2 ^ 31 ≤ n && n < 2 ^ 31

/-- The row fits its columns. -/
def TaskHistory.fits (row : TaskHistory) : Bool := fitsInteger row.intervalSeconds

/-- A row of `task_history`, with the time the database set. -/
structure TaskHistoryRow extends TaskHistory where
  createdAt : Instant
  deriving DecidableEq

/-- The outcome of a webhook call. -/
structure WebhookFireOutcome where
  httpStatus : Option ℕ
  errorMessage : Option String
  success : Bool
  deriving DecidableEq

/-! ## Recording history -/

/-- The columns `_trigger_columns` sets. -/
structure TriggerColumns where
  cronExpression : Option String
  cronTimezone : Option String
  intervalSeconds : Option Int
  onceRunAt : Option Instant
  deriving DecidableEq

/-- `_trigger_columns`: the fields looked up are those of the type. -/
def triggerColumns : TriggerType → TriggerConfig → Except Exn TriggerColumns
  | .cron, .cron expression timezone => .ok ⟨some expression, some timezone, none, none⟩
  | .interval, .interval seconds => .ok ⟨none, none, some seconds, none⟩
  | .once, .once runAt => .ok ⟨none, none, none, some runAt.instant⟩
  | _, _ => .error .keyError

/-- The history row of a creation or a deletion, with the snapshot of the task. -/
def recordSnapshot (event : TaskHistoryEventType) (id : ℕ) (userId : UserId)
    (task : ScheduledTask) :
    Except Exn TaskHistory :=
  (triggerColumns task.triggerType task.triggerConfig).map fun columns =>
    { id := id
      userId := userId
      taskId := task.id
      eventType := event
      webhookUrl := some task.webhookUrl
      triggerType := some task.triggerType
      cronExpression := columns.cronExpression
      cronTimezone := columns.cronTimezone
      intervalSeconds := columns.intervalSeconds
      onceRunAt := columns.onceRunAt }

/-- `record_task_created`. -/
def recordTaskCreated : ℕ → UserId → ScheduledTask → Except Exn TaskHistory :=
  recordSnapshot .taskCreated

/-- `record_task_deleted`. -/
def recordTaskDeleted : ℕ → UserId → ScheduledTask → Except Exn TaskHistory :=
  recordSnapshot .taskDeleted

/-- `record_task_lifecycle`. -/
def recordTaskLifecycle (id : ℕ) (userId : UserId) (taskId : TaskId)
    (event : TaskHistoryEventType) :
    TaskHistory :=
  { id := id, userId := userId, taskId := taskId, eventType := event }

/-- `record_execution`. -/
def recordExecution (id : ℕ) (userId : UserId) (taskId : TaskId) (source : ExecutionSource)
    (webhookUrl : String) (outcome : WebhookFireOutcome) : TaskHistory :=
  { id := id
    userId := userId
    taskId := taskId
    eventType := .execution
    webhookUrl := some webhookUrl
    executionSource := some source
    httpStatus := outcome.httpStatus
    errorMessage := outcome.errorMessage
    success := some outcome.success }

variable {event : TaskHistoryEventType} {id : ℕ} {userId : UserId} {task : ScheduledTask}
  {row : TaskHistory}

/-- The history row is about the event `event` of the task `taskId`, and belongs
    to the user `userId`. -/
def TaskHistory.Records (event : TaskHistoryEventType) (userId : UserId) (taskId : TaskId)
    (row : TaskHistory) : Prop :=
  row.eventType = event ∧ row.userId = userId ∧ row.taskId = taskId

/-- The history row of a creation or a deletion records it. -/
theorem records_recordSnapshot (h : recordSnapshot event id userId task = .ok row) :
    row.Records event userId task.id := by
  obtain ⟨columns, _, rfl⟩ := Raising.map_eq_ok.1 h
  exact ⟨rfl, rfl, rfl⟩

/-- The trigger of the task has columns, and they fit. -/
def ScheduledTask.Storable (task : ScheduledTask) : Prop :=
  ∃ columns, triggerColumns task.triggerType task.triggerConfig = .ok columns ∧
    fitsInteger columns.intervalSeconds = true

/-- The history rows of a task that has been stored fit. -/
theorem fits_recordSnapshot (h : recordSnapshot event id userId task = .ok row) :
    row.fits = true ↔ task.Storable := by
  obtain ⟨columns, hcolumns, rfl⟩ := Raising.map_eq_ok.1 h
  refine ⟨fun hfits => ⟨columns, hcolumns, hfits⟩, fun ⟨columns', hcolumns', hfits⟩ => ?_⟩
  obtain rfl := Except.ok.inj (hcolumns.symm.trans hcolumns')
  exact hfits

/-- A specification's configuration has the columns of its type. -/
theorem triggerColumns_isOk (spec : StructuredTriggerSpec) :
    ∃ columns, triggerColumns spec.type (triggerConfigFromSpec spec) = .ok columns := by
  cases spec <;> exact ⟨_, rfl⟩

end SchedulerLm
