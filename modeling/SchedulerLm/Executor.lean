import SchedulerLm.Routes

/-!
# Executions

The two ways a webhook is called: `execute_scheduled_task`, on a fire of the
scheduler, and `run_task`, on a request, by `run_task_manually`. Both load the
task without the user scope, send the GET, and add an execution to the history,
to be committed afterwards.

A scheduled execution ends without a GET when its task is gone or inactive
(`loadActive`). After the GET, a successful execution of a `once` task also
deactivates it, and then removes its schedule (`executed`).
-/

namespace SchedulerLm

/-- What comes back from a webhook: a response, or a `RequestError`. -/
inductive Answer
  | response (status : ℕ)
  | requestError (message : String)
  deriving DecidableEq

/-- The answer is a 2xx response: `raise_for_status` does not raise. -/
def Answer.isSuccess : Answer → Bool
  | .response status => 200 ≤ status && status ≤ 299
  | .requestError _ => false

/-- The outcome `fire_task_webhook` returns for an answer. -/
def Answer.outcome (answer : Answer) : WebhookFireOutcome :=
  match answer with
  | .response status =>
    if answer.isSuccess then { httpStatus := some status, errorMessage := none, success := true }
    else
      { httpStatus := some status, errorMessage := some s!"Webhook returned {status}"
        success := false }
  | .requestError message =>
    { httpStatus := none, errorMessage := some s!"Webhook request failed: {message}"
      success := false }

@[simp] theorem Answer.outcome_success (answer : Answer) :
    answer.outcome.success = answer.isSuccess := by
  rcases answer with status | message
  · rw [outcome]
    split <;> rename_i hs
    · exact hs.symm
    · exact (Bool.eq_false_iff.2 hs).symm
  · rfl

/-- The GET `fire_task_webhook` sends for a task. -/
def fireTaskWebhook (source : ExecutionSource) (task : ScheduledTask) (answer : Answer) : Get where
  userId := task.userId
  taskId := task.id
  source := source
  webhookUrl := task.webhookUrl
  parameters := task.parameters
  outcome := answer.outcome

/-- The state after a GET. -/
def Service.send (get : Get) (s : Service) : Service := { s with sent := s.sent ++ [get] }

/-! ## Scheduled executions -/

/-- A scheduler picks up a fire of the schedule of a task at `now`, with
    `coalesced` earlier ones: its time, and the state with the schedule
    advanced, or dropped. -/
def pickUp (lib : Crontab) (now : Instant) (coalesced : ℕ) (taskId : TaskId) (s : Service) :
    Option (Instant × Service) :=
  (s.schedules taskId).bind fun schedule =>
    (schedule.pick lib now coalesced).map fun picked =>
      (picked.1, { s with schedules := Function.update s.schedules taskId picked.2 })

/-- What `execute_scheduled_task` goes on with: the row, unless it is gone
    ("not found") or inactive ("skipping"). -/
def loadActive (taskId : TaskId) (s : Service) : Option ScheduledTask :=
  (s.row taskId).filter fun task => task.isActive

/-- The unit of work of `execute_scheduled_task` after its GET, and the schedule
    it removes once that is committed. -/
def executed (historyId : ℕ) (task : ScheduledTask) (outcome : WebhookFireOutcome) :
    UnitOfWork × Option TaskId :=
  let row := recordExecution historyId task.userId task.id .scheduled task.webhookUrl outcome
  if outcome.success ∧ task.triggerType = .once then
    ({ task := dirty task task.deactivated, history := [row] }, some task.id)
  else ({ history := [row] }, none)

/-! ## Manual runs -/

/-- The answer to a manual run. -/
structure TaskRunResponse where
  taskId : TaskId
  executionSource : ExecutionSource
  webhookUrl : String
  httpStatus : Option ℕ
  errorMessage : Option String
  success : Bool
  deriving DecidableEq

/-- The unit of work of `run_task` after its GET. -/
def runWork (historyId : ℕ) (user : CurrentUser) (task : ScheduledTask)
    (outcome : WebhookFireOutcome) : UnitOfWork where
  history := [recordExecution historyId user.userId task.id .manual task.webhookUrl outcome]

/-- What `run_task` answers after its commit. -/
def runResponse (task : ScheduledTask) (outcome : WebhookFireOutcome) :
    Except Failure TaskRunResponse :=
  if outcome.success then
    .ok
      { taskId := task.id
        executionSource := .manual
        webhookUrl := task.webhookUrl
        httpStatus := outcome.httpStatus
        errorMessage := outcome.errorMessage
        success := outcome.success }
  else
    match outcome.httpStatus with
    | some status => .error (.http 502 s!"Webhook returned {status}")
    | none => .error (.http 502 (outcome.errorMessage.getD "Webhook request failed"))

/-! ## What they do -/

variable {taskId id : TaskId} {historyId : ℕ} {s : Service} {task : ScheduledTask}
  {outcome : WebhookFireOutcome} {get : Get} {source : ExecutionSource} {answer : Answer}

/-- A fire that is picked up is one of a schedule, and changes nothing but it. -/
theorem pickUp_eq_some {lib : Crontab} {now : Instant} {coalesced : ℕ} {f : Instant} {s' : Service}
    (h : pickUp lib now coalesced taskId s = some (f, s')) :
    ∃ schedule left, s.schedules taskId = some schedule ∧
      schedule.pick lib now coalesced = some (f, left) ∧
      s' = { s with schedules := Function.update s.schedules taskId left } := by
  obtain ⟨schedule, hschedule, h⟩ := Option.bind_eq_some_iff.1 h
  obtain ⟨⟨f, left⟩, hpick, h⟩ := Option.map_eq_some_iff.1 h
  obtain ⟨rfl, rfl⟩ := Prod.mk.inj h
  exact ⟨schedule, left, hschedule, hpick, rfl⟩

theorem loadActive_eq_some :
    loadActive taskId s = some task ↔ s.row taskId = some task ∧ task.isActive = true := by
  rw [loadActive, Option.filter_eq_some_iff]

/-- A task is loaded to be executed iff it is active. -/
theorem isSome_loadActive : (loadActive taskId s).isSome = s.active taskId := by
  rw [loadActive, Service.active]
  rcases s.row taskId with _ | task
  · rfl
  · by_cases h : task.isActive <;> simp [h]

/-- A scheduled execution records its GET; if it was a success of a `once` task,
    it also deactivates the task and then removes its schedule. -/
theorem executed_eq (historyId : ℕ) (task : ScheduledTask) (outcome : WebhookFireOutcome) :
    ∃ row, row = recordExecution historyId task.userId task.id .scheduled task.webhookUrl outcome ∧
      ((outcome.success = true ∧ task.triggerType = .once ∧ executed historyId task outcome =
          ({ task := dirty task task.deactivated, history := [row] }, some task.id)) ∨
        (¬(outcome.success = true ∧ task.triggerType = .once) ∧
          executed historyId task outcome = ({ history := [row] }, none))) := by
  refine ⟨_, rfl, ?_⟩
  by_cases h : outcome.success = true ∧ task.triggerType = .once
  · exact .inl ⟨h.1, h.2, if_pos h⟩
  · exact .inr ⟨h, if_neg h⟩

@[simp] theorem Service.row_send : (s.send get).row id = s.row id := rfl

/-! ## The audit of a GET -/

/-- What an execution in the history says of its GET. -/
structure Audit where
  taskId : TaskId
  executionSource : Option ExecutionSource
  webhookUrl : Option String
  httpStatus : Option ℕ
  success : Option Bool
  errorMessage : Option String
  deriving DecidableEq

/-- What the history should say of a GET. -/
def Get.audit (get : Get) : Audit where
  taskId := get.taskId
  executionSource := some get.source
  webhookUrl := some get.webhookUrl
  httpStatus := get.outcome.httpStatus
  success := some get.outcome.success
  errorMessage := get.outcome.errorMessage

/-- What a row of the history says of a GET, if it is an execution. -/
def TaskHistory.audit (row : TaskHistory) : Option Audit :=
  if row.eventType = .execution then
    some
      { taskId := row.taskId
        executionSource := row.executionSource
        webhookUrl := row.webhookUrl
        httpStatus := row.httpStatus
        success := row.success
        errorMessage := row.errorMessage }
  else none

/-- The row added for a GET says what it should of the GET, as long as it names
    the URL called. -/
theorem audit_recordExecution (historyId : ℕ) (userId : UserId) (source : ExecutionSource)
    (task : ScheduledTask) (answer : Answer) {webhookUrl : String}
    (hurl : webhookUrl = task.webhookUrl) :
    (recordExecution historyId userId task.id source webhookUrl answer.outcome).audit =
      some (fireTaskWebhook source task answer).audit := by
  rw [hurl]
  rfl

end SchedulerLm
