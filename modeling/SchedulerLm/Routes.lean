import SchedulerLm.Store

/-!
# The routes that write

The handlers of `POST /tasks`, `activate`, `deactivate` and `delete`. A handler
body reads the row it has loaded and the clock, and either fails, or returns its
response, having gathered a unit of work in its session and queued at most one
background job (`Handled`). Neither is done yet: `get_db` commits after the
handler, and the framework runs the job, in an order no code fixes.

Each handler has a lemma listing all it can have gathered (`createTask_eq_ok` and
its companions); proofs use these, and not the bodies.
-/

namespace SchedulerLm

open Relational

/-- An authenticated user: `get_current_user` refuses an empty id. -/
structure CurrentUser where
  userId : UserId
  nonempty : userId ≠ ""

/-- What a handler reads besides its arguments: the clock, the time of the
    database, the ids `uuid4` draws for a task and a history row, and what the text
    parser answers. -/
structure Env where
  now : Instant
  dbNow : Instant
  taskId : TaskId
  historyId : ℕ
  parse : String → String → Except String StructuredTriggerSpec

/-- A request of "alice" is handled at `now`, when `uuid4` draws `taskId`. -/
def Env.sample (now : Instant) (taskId : TaskId) : Env where
  now := now
  dbNow := now
  taskId := taskId
  historyId := 0
  parse _ _ := .error "unavailable"

def CurrentUser.sample : CurrentUser := ⟨"alice", by decide⟩

/-- How a handler fails: by an `HTTPException`, by an exception that becomes a
    500, or never ending. -/
inductive Failure
  | http (status : ℕ) (detail : String)
  | raised (e : Exn)
  | hangs
  deriving DecidableEq

/-- The body of a creation. -/
structure TaskCreate where
  webhookUrl : String
  parameters : List (String × String)
  trigger : TriggerSpec

/-- A creation with the trigger `spec`. -/
def TaskCreate.sample (spec : StructuredTriggerSpec) : TaskCreate where
  webhookUrl := "https://example.com/hook"
  parameters := []
  trigger := .structured spec

/-- A task, as responses show it. -/
structure TaskResponse where
  id : TaskId
  userId : UserId
  webhookUrl : String
  parameters : List (String × String)
  triggerType : TriggerType
  triggerConfig : TriggerConfig
  nextRunAt : Option Instant
  isActive : Bool
  createdAt : Instant
  updatedAt : Instant
  deriving DecidableEq

/-- `_to_response`. -/
def toResponse (task : ScheduledTask) : TaskResponse where
  id := task.id
  userId := task.userId
  webhookUrl := task.webhookUrl
  parameters := task.parameters
  triggerType := task.triggerType
  triggerConfig := task.triggerConfig
  nextRunAt := task.nextRunAt
  isActive := task.isActive
  createdAt := task.createdAt
  updatedAt := task.updatedAt

/-- What a handler that returns has prepared: its response (the task, unless it
    has been deleted), its session's unit of work, and its background job. -/
structure Handled where
  response : Option TaskResponse
  work : UnitOfWork
  job : Option Job

/-- An operation on an existing task. -/
inductive TaskOp
  | activate
  | deactivate
  | delete
  deriving DecidableEq

/-- The session's view of a table: `_apply_user_scope` restricts every SELECT to
    the rows of the current user, if there is one. -/
def applyUserScope {ρ : Type*} (owner : ρ → UserId) (currentUserId : Option UserId)
    (rows : List ρ) :
    List ρ :=
  match currentUserId with
  | none => rows
  | some userId => if userId = "" then rows else rows.filter fun r => owner r = userId

/-- `_get_task_or_404`. -/
def getTaskOr404 (user : CurrentUser) (taskId : TaskId) (s : Service) :
    Except Failure ScheduledTask :=
  match (applyUserScope ScheduledTask.userId (some user.userId) s.tasks.rows).find?
      fun task => task.id = taskId with
  | none => .error (.http 404 "Task not found")
  | some task => .ok task

variable (lib : Crontab)

/-- `resolve_trigger_spec`. -/
def resolveTriggerSpec (env : Env) : TriggerSpec → Except String StructuredTriggerSpec
  | .structured spec => .ok spec
  | .text text timezone => env.parse text timezone

/-- The task `create_task` inserts. -/
def newTask (env : Env) (user : CurrentUser) (body : TaskCreate) (trigger : StructuredTriggerSpec)
    (nextRunAt : Option Instant) : ScheduledTask where
  id := env.taskId
  userId := user.userId
  webhookUrl := body.webhookUrl
  parameters := body.parameters
  triggerType := trigger.type
  triggerConfig := triggerConfigFromSpec trigger
  nextRunAt := nextRunAt
  isActive := true
  createdAt := env.dbNow
  updatedAt := env.dbNow

/-- `create_task`. -/
def createTask (env : Env) (user : CurrentUser) (body : TaskCreate) : Except Failure Handled :=
  ((resolveTriggerSpec env body.trigger).mapError (.http 422)).bind fun trigger =>
  ((computeNextRunAt lib env.now trigger).mapError .raised).bind fun nextRunAt =>
  let task := newTask env user body trigger nextRunAt
  ((recordTaskCreated env.historyId user.userId task).mapError .raised).bind fun row =>
  .ok
    { response := some (toResponse task)
      work := { task := .insert task, history := [row] }
      job := some (.register task) }

/-- `deactivate_task`, on the row loaded. -/
def deactivateTask (env : Env) (user : CurrentUser) (task : ScheduledTask) : Handled :=
  if task.isActive then
    let task' := task.deactivated
    { response := some (toResponse task')
      work :=
        { task := dirty task task'
          history := [recordTaskLifecycle env.historyId user.userId task.id .taskDeactivated] }
      job := some (.unregister task.id) }
  else { response := some (toResponse task), work := {}, job := none }

/-- `activate_task`, on the row loaded. -/
def activateTask (env : Env) (user : CurrentUser) (task : ScheduledTask) : Except Failure Handled :=
  if task.isActive then .ok { response := some (toResponse task), work := {}, job := none }
  else
    ((computeNextRunAtForTask lib env.now task.triggerType task.triggerConfig).mapError
      .raised).bind fun nextRunAt =>
    match nextRunAt with
    | none => .error (.http 422 "Task cannot be activated")
    | some next =>
      if task.triggerType = .once ∧ next ≤ env.now then
        .error (.http 422 "Task cannot be activated")
      else
        let task' := task.activated next
        .ok
          { response := some (toResponse task')
            work :=
              { task := dirty task task'
                history := [recordTaskLifecycle env.historyId user.userId task.id .taskActivated] }
            job := some (.register task') }

/-- `delete_task`, on the row loaded. -/
def deleteTask (env : Env) (user : CurrentUser) (task : ScheduledTask) : Except Failure Handled :=
  ((recordTaskDeleted env.historyId user.userId task).mapError .raised).map fun row =>
    { response := none
      work := { task := .delete task.id, history := [row] }
      job := if task.isActive then some (.unregister task.id) else none }

/-- The handler of an operation, on the row loaded. -/
def TaskOp.handle (env : Env) (user : CurrentUser) (op : TaskOp) (task : ScheduledTask) :
    Except Failure Handled :=
  match op with
  | .activate => activateTask lib env user task
  | .deactivate => .ok (deactivateTask env user task)
  | .delete => deleteTask env user task

variable {lib} {env : Env} {user : CurrentUser} {body : TaskCreate} {op : TaskOp}
  {task : ScheduledTask} {h : Handled} {s : Service} {taskId : TaskId}

/-! ## Loading -/

theorem applyUserScope_user {ρ : Type*} (owner : ρ → UserId) (user : CurrentUser) (rows : List ρ) :
    applyUserScope owner (some user.userId) rows = rows.filter fun r => owner r = user.userId :=
  if_neg user.nonempty

/-- A handler loads the rows of its user only. -/
theorem getTaskOr404_eq_ok :
    getTaskOr404 user taskId s = .ok task ↔ s.row taskId = some task ∧
      task.userId = user.userId := by
  have hfind := Table.find_filter_eq_some (t := s.tasks) (k := taskId) (r := task)
    (p := fun row => decide (row.userId = user.userId))
  rw [decide_eq_true_eq] at hfind
  rw [getTaskOr404, applyUserScope_user, ← hfind, Table.find, Table.filter]
  split <;> rename_i hf <;> rw [hf] <;> simp

/-! ## What the handlers gather -/

/-- A schedule can be registered for the task. -/
def Registrable (lib : Crontab) (task : ScheduledTask) : Prop :=
  ∃ now trigger, buildTriggerFromTask lib now task.triggerType task.triggerConfig = .ok trigger

/-- All that a request of the user `owner` can have gathered: its unit of work,
    and its background job. -/
inductive Gathered (lib : Crontab) (owner : UserId) : UnitOfWork → Option Job → Prop
  | nothing : Gathered lib owner {} none
  | create {task : ScheduledTask} {historyId : ℕ} {row : TaskHistory} :
      task.userId = owner → task.isActive = true → Registrable lib task →
      recordTaskCreated historyId owner task = .ok row →
      Gathered lib owner { task := .insert task, history := [row] } (some (.register task))
  | activate {task : ScheduledTask} {next : Instant} {row : TaskHistory} :
      task.userId = owner → task.isActive = false → Registrable lib task →
      row.Records .taskActivated owner task.id →
      Gathered lib owner { task := dirty task (task.activated next), history := [row] }
        (some (.register (task.activated next)))
  | deactivate {task : ScheduledTask} {row : TaskHistory} :
      task.userId = owner → task.isActive = true → row.Records .taskDeactivated owner task.id →
      Gathered lib owner { task := dirty task task.deactivated, history := [row] }
        (some (.unregister task.id))
  | delete {task : ScheduledTask} {historyId : ℕ} {row : TaskHistory} {job : Option Job} :
      task.userId = owner → recordTaskDeleted historyId owner task = .ok row →
      job = (if task.isActive then some (.unregister task.id) else none) →
      Gathered lib owner { task := .delete task.id, history := [row] } job
  | run {taskId : TaskId} {row : TaskHistory} :
      row.Records .execution owner taskId → Gathered lib owner { history := [row] } none

/-- A creation that returns inserts its task, records it, and registers it. -/
theorem createTask_eq_ok (hh : createTask lib env user body = .ok h) :
    ∃ trigger nextRunAt row, resolveTriggerSpec env body.trigger = .ok trigger ∧
      computeNextRunAt lib env.now trigger = .ok nextRunAt ∧
      recordTaskCreated env.historyId user.userId
        (newTask env user body trigger nextRunAt) = .ok row ∧
      h = { response := some (toResponse (newTask env user body trigger nextRunAt))
            work := { task := .insert (newTask env user body trigger nextRunAt), history := [row] }
            job := some (.register (newTask env user body trigger nextRunAt)) } := by
  obtain ⟨trigger, htrigger, hh⟩ := Raising.bind_eq_ok.1 hh
  obtain ⟨nextRunAt, hnext, hh⟩ := Raising.bind_eq_ok.1 hh
  obtain ⟨row, hrow, hh⟩ := Raising.bind_eq_ok.1 hh
  exact ⟨trigger, nextRunAt, row, Raising.mapError_eq_ok.1 htrigger, Raising.mapError_eq_ok.1 hnext,
    Raising.mapError_eq_ok.1 hrow, (Except.ok.inj hh).symm⟩

/-- A creation returns when a first fire time can be computed for its trigger. -/
theorem createTask_isOk {trigger : StructuredTriggerSpec} {nextRunAt : Option Instant}
    (htrigger : resolveTriggerSpec env body.trigger = .ok trigger)
    (hnext : computeNextRunAt lib env.now trigger = .ok nextRunAt) :
    ∃ h, createTask lib env user body = .ok h := by
  obtain ⟨columns, hcolumns⟩ := triggerColumns_isOk trigger
  obtain ⟨row, hrow⟩ : ∃ row, recordTaskCreated env.historyId user.userId
      (newTask env user body trigger nextRunAt) = .ok row :=
    ⟨_, Raising.map_eq_ok.2 ⟨columns, hcolumns, rfl⟩⟩
  exact ⟨_, Raising.bind_eq_ok.2 ⟨trigger, Raising.mapError_eq_ok.2 htrigger, Raising.bind_eq_ok.2
    ⟨nextRunAt, Raising.mapError_eq_ok.2 hnext, Raising.bind_eq_ok.2
      ⟨row, Raising.mapError_eq_ok.2 hrow, rfl⟩⟩⟩⟩

/-- A task whose first fire time could be computed can be registered. -/
theorem registrable_newTask {trigger : StructuredTriggerSpec} {nextRunAt : Option Instant}
    (hnext : computeNextRunAt lib env.now trigger = .ok nextRunAt) :
    Registrable lib (newTask env user body trigger nextRunAt) := by
  obtain ⟨built, hbuilt, -⟩ := Raising.map_eq_ok.1 hnext
  exact ⟨env.now, built, (buildTriggerFromTask_of_spec hbuilt env.now).trans hbuilt⟩

theorem gathered_createTask (hh : createTask lib env user body = .ok h) :
    Gathered lib user.userId h.work h.job := by
  obtain ⟨trigger, nextRunAt, row, -, hnext, hrow, rfl⟩ := createTask_eq_ok hh
  exact .create rfl rfl (registrable_newTask hnext) hrow

/-- An activation that returns finds the task active, or activates it at a fire
    time that is not a past `once`. -/
theorem activateTask_eq_ok (hh : activateTask lib env user task = .ok h) :
    (task.isActive = true ∧ h = { response := some (toResponse task), work := {}, job := none }) ∨
      ∃ next, task.isActive = false ∧
        computeNextRunAtForTask lib env.now task.triggerType task.triggerConfig = .ok (some next) ∧
        ¬(task.triggerType = .once ∧ next ≤ env.now) ∧
        h = { response := some (toResponse (task.activated next))
              work :=
                { task := dirty task (task.activated next)
                  history :=
                    [recordTaskLifecycle env.historyId user.userId task.id .taskActivated] }
              job := some (.register (task.activated next)) } := by
  rw [activateTask] at hh
  split at hh
  · rename_i hactive
    exact .inl ⟨hactive, (Except.ok.inj hh).symm⟩
  · rename_i hactive
    obtain ⟨nextRunAt, hnext, hh⟩ := Raising.bind_eq_ok.1 hh
    rcases nextRunAt with _ | next
    · exact absurd hh (by simp)
    · refine .inr ⟨next, by simpa using hactive, Raising.mapError_eq_ok.1 hnext, ?_⟩
      dsimp only at hh
      split at hh
      · exact absurd hh (by simp)
      · rename_i hpast
        exact ⟨hpast, (Except.ok.inj hh).symm⟩

/-- An inactive task with a fire time left is activated at it. -/
theorem activateTask_of_next {next : Instant} (hactive : task.isActive = false)
    (hnext : computeNextRunAtForTask lib env.now task.triggerType task.triggerConfig =
      .ok (some next))
    (hpast : ¬(task.triggerType = .once ∧ next ≤ env.now)) :
    activateTask lib env user task = .ok
      { response := some (toResponse (task.activated next))
        work :=
          { task := dirty task (task.activated next)
            history := [recordTaskLifecycle env.historyId user.userId task.id .taskActivated] }
        job := some (.register (task.activated next)) } := by
  rw [activateTask, hactive, if_neg (by simp), hnext]
  exact if_neg hpast

/-- A task that has been stored can be deleted. -/
theorem deleteTask_isOk (hstore : task.Storable) :
    ∃ row, deleteTask env user task = .ok
      { response := none
        work := { task := .delete task.id, history := [row] }
        job := if task.isActive then some (.unregister task.id) else none } := by
  obtain ⟨columns, hcolumns, -⟩ := hstore
  obtain ⟨row, hrow⟩ : ∃ row, recordTaskDeleted env.historyId user.userId task = .ok row :=
    ⟨_, Raising.map_eq_ok.2 ⟨columns, hcolumns, rfl⟩⟩
  exact ⟨row, Raising.map_eq_ok.2 ⟨row, Raising.mapError_eq_ok.2 hrow, rfl⟩⟩

theorem registrable_of_computeNextRunAtForTask {nextRunAt : Option Instant}
    (hnext : computeNextRunAtForTask lib env.now task.triggerType task.triggerConfig =
      .ok nextRunAt) :
    Registrable lib task := by
  obtain ⟨spec, hspec, hnext⟩ := Raising.bind_eq_ok.1 hnext
  obtain ⟨built, hbuilt, -⟩ := Raising.map_eq_ok.1 hnext
  exact ⟨env.now, built, Raising.bind_eq_ok.2 ⟨spec, hspec, hbuilt⟩⟩

/-- The operations gather what `Gathered` lists, on a task of the user. -/
theorem gathered_handle (howner : task.userId = user.userId)
    (hh : op.handle lib env user task = .ok h) : Gathered lib user.userId h.work h.job := by
  cases op with
  | activate =>
    rcases activateTask_eq_ok hh with ⟨-, rfl⟩ | ⟨next, hactive, hnext, -, rfl⟩
    · exact .nothing
    · exact .activate howner hactive (registrable_of_computeNextRunAtForTask hnext) ⟨rfl, rfl, rfl⟩
  | deactivate =>
    obtain rfl := Except.ok.inj hh
    rw [deactivateTask]
    split
    · rename_i hactive
      exact .deactivate howner hactive ⟨rfl, rfl, rfl⟩
    · exact .nothing
  | delete =>
    obtain ⟨row, hrow, rfl⟩ := Raising.map_eq_ok.1 hh
    exact .delete howner (Raising.mapError_eq_ok.1 hrow) rfl

theorem dirty_ne_insert {loaded current row : ScheduledTask} :
    dirty loaded current ≠ .insert row := by
  rw [dirty]
  split <;> simp

/-- The operations add to the history of the task they are about, and insert
    nothing. -/
theorem about_of_handle (hh : op.handle lib env user task = .ok h) :
    (∀ id, h.work.taskId = some id → task.id = id) ∧ ∀ row, h.work.task ≠ .insert row := by
  cases op with
  | activate =>
    rcases activateTask_eq_ok hh with ⟨-, rfl⟩ | ⟨next, -, -, -, rfl⟩
    · exact ⟨fun id hid => absurd hid (by simp [UnitOfWork.taskId]), by simp⟩
    · exact ⟨fun id hid => Option.some.inj hid, fun row => dirty_ne_insert⟩
  | deactivate =>
    obtain rfl := Except.ok.inj hh
    rw [deactivateTask]
    split
    · exact ⟨fun id hid => Option.some.inj hid, fun row => dirty_ne_insert⟩
    · exact ⟨fun id hid => absurd hid (by simp [UnitOfWork.taskId]), by simp⟩
  | delete =>
    obtain ⟨row, hrow, rfl⟩ := Raising.map_eq_ok.1 hh
    have hrecords := records_recordSnapshot (Raising.mapError_eq_ok.1 hrow)
    exact ⟨fun id hid => hrecords.2.2.symm.trans (Option.some.inj hid), by simp⟩

/-- The history rows of the operations fit, as the row of the task has been stored. -/
theorem fits_of_handle (hh : op.handle lib env user task = .ok h) (hstore : task.Storable) :
    h.work.fits = true := by
  cases op with
  | activate =>
    rcases activateTask_eq_ok hh with ⟨-, rfl⟩ | ⟨next, -, -, -, rfl⟩ <;> rfl
  | deactivate =>
    obtain rfl := Except.ok.inj hh
    rw [deactivateTask]
    split <;> rfl
  | delete =>
    obtain ⟨row, hrow, rfl⟩ := Raising.map_eq_ok.1 hh
    have hfits := (fits_recordSnapshot (Raising.mapError_eq_ok.1 hrow)).2 hstore
    simpa [UnitOfWork.fits] using hfits

/-! ## The writes of a unit of work -/

theorem sets_dirty_activated {next : Instant} (hactive : task.isActive = false) :
    (dirty task (task.activated next)).sets = some (task.id, true) := by
  simp [dirty, ScheduledTask.activated, hactive, TaskWrite.sets]

theorem sets_dirty_deactivated (hactive : task.isActive = true) :
    (dirty task task.deactivated).sets = some (task.id, false) := by
  simp [dirty, ScheduledTask.deactivated, hactive, TaskWrite.sets]

theorem taskId_dirty {loaded current : ScheduledTask} {id : TaskId}
    (h : (dirty loaded current).taskId = some id) : loaded.id = id := by
  rw [dirty] at h
  split at h
  · exact absurd h (by simp [TaskWrite.taskId])
  · exact Option.some.inj h

/-- All a request has gathered is about the task of the row it adds. -/
theorem Gathered.about {owner : UserId} {work : UnitOfWork} {job : Option Job}
    (h : Gathered lib owner work job) :
    (∀ row ∈ work.history, work.taskId = some row.taskId) ∧
      (∀ id, work.task.taskId = some id → work.taskId = some id) ∧
      ∀ j, job = some j → work.taskId = some j.taskId := by
  refine ⟨fun row hrow => ?_, fun id hid => ?_, fun j hj => ?_⟩
  · cases h <;> simp only [List.mem_singleton, List.not_mem_nil] at hrow <;> subst hrow <;> rfl
  · cases h with
    | nothing => exact absurd hid (by simp [TaskWrite.taskId])
    | create _ _ _ hr => exact (congrArg some (records_recordSnapshot hr).2.2).trans hid
    | activate _ _ _ hr => exact congrArg some (hr.2.2.trans (taskId_dirty hid))
    | deactivate _ _ hr => exact congrArg some (hr.2.2.trans (taskId_dirty hid))
    | delete _ hr _ => exact (congrArg some (records_recordSnapshot hr).2.2).trans hid
    | run => exact absurd hid (by simp [TaskWrite.taskId])
  · cases h with
    | nothing => exact absurd hj (by simp)
    | create _ _ _ hr => exact Option.some.inj hj ▸ congrArg some (records_recordSnapshot hr).2.2
    | activate _ _ _ hr => exact Option.some.inj hj ▸ congrArg some hr.2.2
    | deactivate _ _ hr => exact Option.some.inj hj ▸ congrArg some hr.2.2
    | delete _ hr hjob =>
      rw [hjob] at hj
      split at hj
      · exact Option.some.inj hj ▸ congrArg some (records_recordSnapshot hr).2.2
      · exact absurd hj (by simp)
    | run => exact absurd hj (by simp)

/-- The write and the job of a request agree: a job puts a schedule iff the write
    makes the task active; without a job, the write can only be a deletion. -/
theorem Gathered.sets_eq {owner : UserId} {work : UnitOfWork} {job : Option Job}
    (h : Gathered lib owner work job) :
    (∃ j, job = some j ∧ work.task.sets = some (j.taskId, j.puts)) ∨
      job = none ∧ (work.task = .nothing ∨ ∃ id, work.task = .delete id) := by
  cases h with
  | nothing => exact .inr ⟨rfl, .inl rfl⟩
  | create _ hactive => exact .inl ⟨_, rfl, by rw [TaskWrite.sets, hactive]; rfl⟩
  | activate _ hactive => exact .inl ⟨_, rfl, sets_dirty_activated hactive⟩
  | deactivate _ hactive => exact .inl ⟨_, rfl, sets_dirty_deactivated hactive⟩
  | @delete task historyId row job _ _ hjob =>
    by_cases hactive : task.isActive
    · exact .inl ⟨.unregister task.id, hjob.trans (if_pos hactive), rfl⟩
    · exact .inr ⟨hjob.trans (if_neg hactive), .inr ⟨_, rfl⟩⟩
  | run => exact .inr ⟨rfl, .inl rfl⟩

/-- The jobs of requests do not raise. -/
theorem Gathered.runJob_isOk {owner : UserId} {work : UnitOfWork} {job : Job}
    (h : Gathered lib owner work (some job)) (now : Instant) (s : Service) :
    ∃ s', runJob lib now job s = .ok s' := by
  have hregister : ∀ task : ScheduledTask, Registrable lib task →
      ∃ s', runJob lib now (.register task) s = .ok s' := fun task ⟨_, _, hbuilt⟩ => by
    obtain ⟨trigger, hbuilt'⟩ := buildTriggerFromTask_isOk hbuilt now
    exact ⟨_, Raising.map_eq_ok.2 ⟨trigger, hbuilt', rfl⟩⟩
  rcases job with task | taskId
  · cases h with
    | create _ _ hreg => exact hregister _ hreg
    | activate _ _ hreg => exact hregister _ hreg
    | delete _ _ hjob => split at hjob <;> exact absurd hjob (by simp)
  · exact ⟨_, rfl⟩

end SchedulerLm
