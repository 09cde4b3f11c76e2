import SchedulerLm.Previews
import SchedulerLm.Routes

/-!
# The routes that read

`GET /tasks`, `GET /tasks/{id}/schedule` and the two routes of the history. They
change nothing: an answer depends on the rows of the user (`Query.answer_congr`),
on the clock, and on how the database orders rows with equal keys, which is free
(`QueryEnv`).
-/

namespace SchedulerLm

/-- What a query reads besides its arguments: the clock, before and after a trigger
    is built, and how the database ranks rows with equal keys. -/
structure QueryEnv where
  builtAt : Instant
  now : Instant
  taskRank : ScheduledTask → ℕ
  historyRank : TaskHistoryRow → ℕ

/-! ## Ordering -/

/-- The key `a` comes before `b`; a null comes last. -/
def SortOrder.before : SortOrder → Option Instant → Option Instant → Bool
  | .asc, some a, some b => a < b
  | .desc, some a, some b => b < a
  | _, some _, none => true
  | _, none, _ => false

/-- `ORDER BY`: rows with equal keys come by their rank. -/
def orderBy {ρ : Type*} (order : SortOrder) (key : ρ → Option Instant) (rank : ρ → ℕ)
    (rows : List ρ) : List ρ :=
  rows.mergeSort fun a b =>
    order.before (key a) (key b) || (!order.before (key b) (key a) && rank a ≤ rank b)

/-- `LIMIT` and `OFFSET`. -/
def page {ρ : Type*} (limit offset : ℕ) (rows : List ρ) : List ρ := (rows.drop offset).take limit

/-! ## Tasks -/

/-- The query of a list of tasks. -/
structure TaskListQuery where
  activeOnly : Bool := true
  triggerType : Option TriggerType := none
  sort : TaskSortField := .createdAt
  order : SortOrder := .desc
  limit : ℕ := 50
  offset : ℕ := 0

/-- The column of a sort field. -/
def TaskSortField.column (field : TaskSortField) (task : ScheduledTask) : Option Instant :=
  match field with
  | .createdAt => some task.createdAt
  | .nextRunAt => task.nextRunAt
  | .updatedAt => some task.updatedAt

/-- The filters of `list_tasks`. -/
def TaskListQuery.filters (query : TaskListQuery) (task : ScheduledTask) : Bool :=
  (!query.activeOnly || task.isActive) && query.triggerType.all fun type => task.triggerType = type

/-- A page of tasks. -/
structure TaskListResponse where
  items : List TaskResponse
  total : ℕ
  limit : ℕ
  offset : ℕ
  deriving DecidableEq

/-- `list_tasks`. -/
def listTasks (env : QueryEnv) (user : CurrentUser) (query : TaskListQuery) (s : Service) :
    TaskListResponse :=
  let rows := (applyUserScope ScheduledTask.userId (some user.userId) s.tasks.rows).filter
    query.filters
  { items := (page query.limit query.offset
      (orderBy query.order query.sort.column env.taskRank rows)).map toResponse
    total := rows.length
    limit := query.limit
    offset := query.offset }

/-- A preview of a schedule. -/
structure TaskScheduleResponse where
  triggerType : TriggerType
  isActive : Bool
  nextRunAt : Option Instant
  upcoming : List Instant
  deriving DecidableEq

/-- `get_task_schedule`. -/
def getTaskSchedule (lib : Crontab) (env : QueryEnv) (user : CurrentUser)
    (taskId : TaskId) (count : ℕ) (s : Service) : Except Failure TaskScheduleResponse :=
  (getTaskOr404 user taskId s).bind fun task =>
  ((computeUpcomingRunTimes lib env.builtAt env.now task.triggerType task.triggerConfig
    count).mapError .raised).bind fun upcoming =>
  match upcoming with
  | none => .error .hangs
  | some upcoming =>
    .ok
      { triggerType := task.triggerType
        isActive := task.isActive
        nextRunAt := (upcoming.map Datetime.instant).head?
        upcoming := upcoming.map Datetime.instant }

/-! ## History -/

/-- The query of a list of history entries; the bounds are the instants the driver
    sends. -/
structure HistoryListQuery where
  eventType : Option TaskHistoryEventType := none
  taskId : Option TaskId := none
  since : Option Instant := none
  untilTime : Option Instant := none
  order : SortOrder := .desc
  limit : ℕ := 50
  offset : ℕ := 0

/-- An entry of the history, as responses show it. -/
inductive HistoryEntry
  | taskCreated (id : ℕ) (taskId : TaskId) (createdAt : Instant) (webhookUrl : String)
      (triggerType : TriggerType) (triggerConfig : TriggerConfig)
  | taskActivated (id : ℕ) (taskId : TaskId) (createdAt : Instant)
  | taskDeactivated (id : ℕ) (taskId : TaskId) (createdAt : Instant)
  | taskDeleted (id : ℕ) (taskId : TaskId) (createdAt : Instant) (webhookUrl : String)
      (triggerType : TriggerType) (triggerConfig : TriggerConfig)
  | execution (id : ℕ) (taskId : TaskId) (createdAt : Instant) (executionSource : ExecutionSource)
      (webhookUrl : String) (httpStatus : Option ℕ) (errorMessage : Option String) (success : Bool)
  deriving DecidableEq

/-- `datetime.min`. -/
def Datetime.min : Datetime := ⟨-62135596800 * second, none⟩

/-- `value or default`, for texts: an empty text does not count either. -/
def orDefault (value : Option String) (default : String) : String :=
  match value with
  | none => default
  | some text => if text = "" then default else text

/-- `_trigger_config_from_row`, with the type it is for. -/
def triggerConfigFromRow (row : TaskHistoryRow) : Except Exn (TriggerType × TriggerConfig) :=
  match row.triggerType with
  | some .cron =>
    .ok (.cron, .cron (orDefault row.cronExpression "") (orDefault row.cronTimezone "UTC"))
  | some .interval => .ok (.interval, .interval (row.intervalSeconds.getD 0))
  | some .once => .ok (.once, .once ((row.onceRunAt.map .ofInstant).getD .min))
  | none => .error .valueError

/-- `entry_from_row`. -/
def entryFromRow (row : TaskHistoryRow) : Except Exn HistoryEntry :=
  match row.eventType with
  | .taskCreated => (triggerConfigFromRow row).map fun config =>
      .taskCreated row.id row.taskId row.createdAt (orDefault row.webhookUrl "") config.1 config.2
  | .taskActivated => .ok (.taskActivated row.id row.taskId row.createdAt)
  | .taskDeactivated => .ok (.taskDeactivated row.id row.taskId row.createdAt)
  | .taskDeleted => (triggerConfigFromRow row).map fun config =>
      .taskDeleted row.id row.taskId row.createdAt (orDefault row.webhookUrl "") config.1 config.2
  | .execution =>
    match row.executionSource with
    | none => .error .validationError
    | some source =>
      .ok (.execution row.id row.taskId row.createdAt source (orDefault row.webhookUrl "")
        row.httpStatus
        row.errorMessage (row.success.getD false))

/-- `_history_filters`: the task of the route comes before that of the query. -/
def HistoryListQuery.filters (query : HistoryListQuery) (taskId : Option TaskId)
    (row : TaskHistoryRow) : Bool :=
  ((taskId <|> query.taskId).all fun id => row.taskId = id) &&
    (query.eventType.all fun type => row.eventType = type) &&
    (query.since.all fun since => since ≤ row.createdAt) &&
    query.untilTime.all fun untilTime => row.createdAt ≤ untilTime

/-- A page of the history. -/
structure HistoryListResponse where
  items : List HistoryEntry
  total : ℕ
  limit : ℕ
  offset : ℕ
  deriving DecidableEq

/-- `_list_history`, for `list_history` and `list_task_history`. -/
def listHistory (env : QueryEnv) (user : CurrentUser) (query : HistoryListQuery)
    (taskId : Option TaskId) (s : Service) : Except Failure HistoryListResponse :=
  let rows := (applyUserScope (fun row : TaskHistoryRow => row.userId) (some user.userId)
    s.history).filter (query.filters taskId)
  (((page query.limit query.offset (orderBy query.order (fun row => some row.createdAt)
    env.historyRank rows)).mapM entryFromRow).mapError .raised).map fun items =>
    { items := items, total := rows.length, limit := query.limit, offset := query.offset }

/-! ## Queries -/

/-- The requests that read. -/
inductive Query
  | tasks (query : TaskListQuery)
  | schedule (taskId : TaskId) (count : ℕ)
  | history (query : HistoryListQuery)
  | taskHistory (taskId : TaskId) (query : HistoryListQuery)

/-- What a query answers. -/
inductive QueryResponse
  | tasks (response : TaskListResponse)
  | schedule (response : TaskScheduleResponse)
  | history (response : HistoryListResponse)
  deriving DecidableEq

/-- The answer to a query. -/
def Query.answer (lib : Crontab) (env : QueryEnv) (user : CurrentUser) (query : Query)
    (s : Service) :
    Except Failure QueryResponse :=
  match query with
  | .tasks query => .ok (.tasks (listTasks env user query s))
  | .schedule taskId count => (getTaskSchedule lib env user taskId count s).map .schedule
  | .history query => (listHistory env user query none s).map .history
  | .taskHistory taskId query => (listHistory env user query (some taskId) s).map .history

/-- The rows of the two tables the session of a user sees. -/
def Service.seenBy (s : Service) (user : CurrentUser) : List ScheduledTask × List TaskHistoryRow :=
  (applyUserScope ScheduledTask.userId (some user.userId) s.tasks.rows,
    applyUserScope (fun row : TaskHistoryRow => row.userId) (some user.userId) s.history)

variable {s t : Service} {user : CurrentUser}

theorem getTaskOr404_congr (h : s.seenBy user = t.seenBy user) (taskId : TaskId) :
    getTaskOr404 user taskId s = getTaskOr404 user taskId t := by
  rw [getTaskOr404, getTaskOr404, (Prod.mk.inj h).1]

/-- The answer to a query depends on the rows the user sees only. -/
theorem Query.answer_congr (h : s.seenBy user = t.seenBy user) (lib : Crontab) (env : QueryEnv)
    (query : Query) : query.answer lib env user s = query.answer lib env user t := by
  obtain ⟨htasks, hhistory⟩ := Prod.mk.inj h
  cases query with
  | tasks query => rw [answer, answer, listTasks, listTasks, htasks]
  | schedule taskId count =>
    rw [answer, answer, getTaskSchedule, getTaskSchedule, getTaskOr404_congr h]
  | history query => rw [answer, answer, listHistory, listHistory, hhistory]
  | taskHistory taskId query => rw [answer, answer, listHistory, listHistory, hhistory]

end SchedulerLm
