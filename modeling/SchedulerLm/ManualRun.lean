import SchedulerLm.Sequential

/-!
# Manual runs

`run_task` in its session. It commits in the middle, and then raises if the webhook did
not answer with success, on which `get_db` rolls back: what has been committed stays
(`getDb_runTask`). So a manual run is recorded whatever the webhook answers, and nothing
else changes (`run_manually`).

The handler is written against a session (`RequestSession`): what is committed, and what has been
gathered since. The webhook is called in another session, that of `run_task_manually`,
which commits nothing.
-/

namespace SchedulerLm

/-! ## Sessions -/

/-- The session of a request: the state that is committed, and what is gathered. -/
structure RequestSession where
  service : Service
  work : UnitOfWork := {}

/-- A handler in its session. -/
abbrev Handler (α : Type) := RequestSession → RequestSession × Except Failure α

namespace Handler

variable {α β : Type}

/-- One handler, and another one if it has not raised. -/
def bind (x : Handler α) (f : α → Handler β) : Handler β := fun session =>
  match x session with
  | (session, .ok a) => f a session
  | (session, .error e) => (session, .error e)

/-- A computation that leaves the session. -/
def lift (x : Except Failure α) : Handler α := fun session => (session, x)

theorem bind_ok {x : Handler α} {f : α → Handler β} {session session' : RequestSession} {a : α}
    (h : x session = (session', .ok a)) : x.bind f session = f a session' := by
  rw [bind, h]

theorem bind_error {x : Handler α} {f : α → Handler β} {session session' : RequestSession}
    {e : Failure} (h : x session = (session', .error e)) :
    x.bind f session = (session', .error e) := by
  rw [bind, h]

end Handler

/-- `session.add`, of a history row. -/
def RequestSession.add (row : TaskHistory) (session : RequestSession) : RequestSession :=
  { session with work := { session.work with history := session.work.history ++ [row] } }

/-- `session.commit`: the flush may raise, and then everything gathered is dropped. -/
def RequestSession.commit (dbNow : Instant) : Handler Unit := fun session =>
  match SchedulerLm.commit dbNow session.work session.service with
  | none => (⟨session.service, {}⟩, .error (.raised .databaseError))
  | some service => (⟨service, {}⟩, .ok ())

/-- `get_db`: it commits what is gathered when the handler returns, and rolls it back when
    the handler raises. -/
def getDb {α : Type} (dbNow : Instant) (handler : Handler α) (s : Service) :
    Service × Except Failure α :=
  match handler ⟨s, {}⟩ with
  | (session, .error e) => (session.service, .error e)
  | (session, .ok a) =>
    match session.commit dbNow with
    | (session, .error e) => (session.service, .error e)
    | (session, .ok ()) => (session.service, .ok a)

/-! ## The handler -/

variable (turn : Turn) (user : CurrentUser) (taskId : TaskId)

/-- `run_task_manually`, in a session of its own. -/
def runTaskManually : Handler WebhookFireOutcome := fun session =>
  match session.service.row taskId with
  | none => (session, .error (.raised .valueError))
  | some target =>
    ({ session with service := session.service.send (fireTaskWebhook .manual target turn.answer) },
      .ok turn.answer.outcome)

/-- `run_task`, in the session of its request. -/
def runTaskInSession : Handler TaskRunResponse := fun session =>
  ((Handler.lift (getTaskOr404 user taskId session.service)).bind fun task =>
    (runTaskManually turn task.id).bind fun outcome session =>
      let row := recordExecution turn.historyId user.userId task.id .manual task.webhookUrl outcome
      (RequestSession.commit turn.dbNow).bind (fun _ => Handler.lift (runResponse task outcome))
        (session.add row)) session

/-- The service with one task. -/
def Service.sample (task : ScheduledTask) : Service :=
  { Service.init with
    tasks := ⟨[task], List.nodup_singleton _⟩
    issued := [task.id] }

/-- The history row of a manual run of the task, by its owner, with the given answer. -/
structure TaskHistoryRow.RecordsRun (row : TaskHistoryRow) (task : ScheduledTask)
    (answer : Answer) : Prop where
  eventType : row.eventType = .execution
  executionSource : row.executionSource = some .manual
  userId : row.userId = task.userId
  taskId : row.taskId = task.id
  webhookUrl : row.webhookUrl = some task.webhookUrl
  httpStatus : row.httpStatus = answer.outcome.httpStatus
  errorMessage : row.errorMessage = answer.outcome.errorMessage
  success : row.success = some answer.isSuccess

/-- The webhook has answered with a 2xx status. -/
def Answer.Is2xx (answer : Answer) : Prop := ∃ status, answer = .response status ∧
    200 ≤ status ∧ status < 300

/-- A manual run is answered with 200 and a success if the webhook has been, and with 502 if
    not. -/
def AnswersRun (answer : Answer) : Except Failure TaskRunResponse → Prop
  | .ok response => answer.Is2xx ∧ response.success = true
  | .error e => ¬answer.Is2xx ∧ ∃ detail, e = .http 502 detail

variable {turn user taskId} {lib : Crontab} {s : Service} {task : ScheduledTask} {answer : Answer}

/-! ## Commits -/

/-- A commit of nothing leaves everything. -/
theorem commit_nothing (dbNow : Instant) (s : Service) : commit dbNow {} s = some s := by
  simp [commit, UnitOfWork.fits, flush]

/-- The commit of a manual run adds its row. -/
theorem commit_runWork (user : CurrentUser) (task : ScheduledTask) (dbNow : Instant) (historyId : ℕ)
    (outcome : WebhookFireOutcome) (s : Service) :
    commit dbNow (runWork historyId user task outcome) s = some
      { s with
        history := s.history ++
          [{ recordExecution historyId user.userId task.id .manual task.webhookUrl outcome with
            createdAt := dbNow }] } := by
  simp [commit, UnitOfWork.fits, runWork, recordExecution, TaskHistory.fits, fitsInteger, flush]

theorem recordsRun (howner : task.userId = user.userId) (historyId : ℕ) (dbNow : Instant)
    (answer : Answer) :
    TaskHistoryRow.RecordsRun
      { recordExecution historyId user.userId task.id .manual task.webhookUrl answer.outcome with
        createdAt := dbNow } task answer where
  eventType := rfl
  executionSource := rfl
  userId := howner.symm
  taskId := rfl
  webhookUrl := rfl
  httpStatus := rfl
  errorMessage := rfl
  success := congrArg some answer.outcome_success

/-! ## Runs -/

/-- The state a manual run leaves: a GET is sent, and a row is added. -/
def afterRun (turn : Turn) (user : CurrentUser) (task : ScheduledTask) (s : Service) : Service :=
  { s.send (fireTaskWebhook .manual task turn.answer) with
    history := s.history ++
      [{ recordExecution turn.historyId user.userId task.id .manual task.webhookUrl
        turn.answer.outcome with
        createdAt := turn.dbNow }] }

/-- A run of a task of the user goes through, and what it raises comes after its commit. -/
theorem getDb_of_owned (hrow : s.row taskId = some task) (howner : task.userId = user.userId) :
    getDb turn.dbNow (runTaskInSession turn user taskId) s =
      (afterRun turn user task s, runResponse task turn.answer.outcome) := by
  obtain rfl : task.id = taskId := Relational.Table.key_of_find hrow
  have hload : getTaskOr404 user task.id s = .ok task := getTaskOr404_eq_ok.2 ⟨hrow, howner⟩
  have hcall : runTaskManually turn task.id ⟨s, {}⟩ =
      (⟨s.send (fireTaskWebhook .manual task turn.answer), {}⟩, .ok turn.answer.outcome) := by
    rw [runTaskManually, hrow]
  have hcommit : RequestSession.commit turn.dbNow
      (RequestSession.add (recordExecution turn.historyId user.userId task.id .manual
        task.webhookUrl
        turn.answer.outcome) ⟨s.send (fireTaskWebhook .manual task turn.answer), {}⟩) =
      (⟨afterRun turn user task s, {}⟩, .ok ()) := by
    have hwork := commit_runWork user task turn.dbNow turn.historyId turn.answer.outcome
      (s.send (fireTaskWebhook .manual task turn.answer))
    rw [RequestSession.commit, RequestSession.add]
    dsimp only [List.nil_append]
    rw [show
      ({ history := [recordExecution turn.historyId user.userId task.id .manual task.webhookUrl
      turn.answer.outcome] } : UnitOfWork) = runWork turn.historyId user task turn.answer.outcome
        from rfl, hwork]
    rfl
  have hhandler : runTaskInSession turn user task.id ⟨s, {}⟩ =
      (⟨afterRun turn user task s, {}⟩, runResponse task turn.answer.outcome) := by
    rw [runTaskInSession, hload]
    rw [Handler.bind_ok (show Handler.lift (.ok task) ⟨s, {}⟩ = (⟨s, {}⟩, .ok task) from rfl),
      Handler.bind_ok hcall]
    exact Handler.bind_ok hcommit
  rw [getDb, hhandler]
  -- What is left of the session is empty: whether it is rolled back or committed, nothing changes.
  rcases runResponse task turn.answer.outcome with e | response
  · rfl
  · dsimp only
    rw [RequestSession.commit, commit_nothing]

/-- What is not loaded is not found. -/
theorem getTaskOr404_eq_error {e : Failure} (h : getTaskOr404 user taskId s = .error e) :
    e = .http 404 "Task not found" := by
  rw [getTaskOr404] at h
  split at h
  · exact (Except.error.inj h).symm
  · exact absurd h (by simp)

/-- A run of another task does not get to its GET. -/
theorem getDb_of_not_loaded {e : Failure} (h : getTaskOr404 user taskId s = .error e) :
    getDb turn.dbNow (runTaskInSession turn user taskId) s =
      (s, .error (.http 404 "Task not found")) := by
  obtain rfl := getTaskOr404_eq_error h
  rw [getDb, runTaskInSession, h,
    Handler.bind_error (show Handler.lift (.error (.http 404 "Task not found")) ⟨s, {}⟩ =
      (⟨s, {}⟩, _) from rfl)]

/-- A run in its session is a run of the service. -/
theorem getDb_runTask (lib : Crontab) (turn : Turn) (user : CurrentUser) (taskId : TaskId)
    (s : Service) :
    (getDb turn.dbNow (runTaskInSession turn user taskId) s).1 =
      serve lib none turn user (.run taskId) s ∧
      (getDb turn.dbNow (runTaskInSession turn user taskId) s).2.map .run =
        respond lib turn user (.run taskId) s := by
  rcases hload : getTaskOr404 user taskId s with e | task
  · obtain rfl := getTaskOr404_eq_error hload
    have hrun : runTask turn user taskId s = .error (.http 404 "Task not found") := by
      rw [runTask, hload]
      rfl
    rw [getDb_of_not_loaded hload]
    refine ⟨?_, ?_⟩
    · simp [serve, hrun]
    · rw [respond, hrun]
      rfl
  · obtain ⟨hrow, howner⟩ := getTaskOr404_eq_ok.1 hload
    obtain rfl : task.id = taskId := Relational.Table.key_of_find hrow
    have hrun : runTask turn user task.id s =
        .ok (task, task, runWork turn.historyId user task turn.answer.outcome) :=
      runTask_eq_ok.2 ⟨hload, hrow, rfl⟩
    rw [getDb_of_owned hrow howner]
    refine ⟨?_, ?_⟩
    · simp [serve, hrun, tryCommit, commit_runWork, afterRun, Service.send]
    · rw [respond, hrun]
      simp [Except.bind, commit_runWork]

/-! ## What a manual run does -/

theorem is2xx_iff : answer.Is2xx ↔ answer.isSuccess = true := by
  cases answer with
  | response status => simp [Answer.Is2xx, Answer.isSuccess, Nat.lt_succ_iff]
  | requestError message => simp [Answer.Is2xx, Answer.isSuccess]

theorem answersRun (task : ScheduledTask) (answer : Answer) :
    AnswersRun answer (runResponse task answer.outcome) := by
  rw [runResponse, Answer.outcome_success]
  by_cases hsuccess : answer.isSuccess = true
  · rw [if_pos hsuccess]
    exact ⟨is2xx_iff.2 hsuccess, hsuccess⟩
  · rw [if_neg hsuccess]
    cases answer.outcome.httpStatus with
    | none => exact ⟨is2xx_iff.not.2 hsuccess, _, rfl⟩
    | some status => exact ⟨is2xx_iff.not.2 hsuccess, _, rfl⟩

/-- A manual run of a task of the user sends one GET and adds one row, which records it, and
    leaves everything else. A task that is not there, or of another user, is not found, and
    nothing is sent or added. -/
theorem run_manually (turn : Turn) (user : CurrentUser) (taskId : TaskId) (s : Service) :
    (∀ task, s.row taskId = some task → task.userId = user.userId →
      ∃ row response, getDb turn.dbNow (runTaskInSession turn user taskId) s =
          ({ s with
              history := s.history ++ [row]
              sent := s.sent ++ [fireTaskWebhook .manual task turn.answer] }, response) ∧
        row.RecordsRun task turn.answer ∧ AnswersRun turn.answer response) ∧
    ((∀ task, s.row taskId = some task → task.userId ≠ user.userId) →
      getDb turn.dbNow (runTaskInSession turn user taskId) s =
        (s, .error (.http 404 "Task not found"))) := by
  constructor
  · intro task hrow howner
    exact ⟨_, _, getDb_of_owned hrow howner, recordsRun howner _ _ _, answersRun task turn.answer⟩
  · intro hnot
    rcases hload : getTaskOr404 user taskId s with e | task
    · exact getDb_of_not_loaded hload
    · obtain ⟨hrow, howner⟩ := getTaskOr404_eq_ok.1 hload
      exact absurd howner (hnot task hrow)

/-- A run of a paused task whose webhook is unavailable is recorded, and answered with 502. -/
theorem run_manually_unavailable : ∃ row response,
    getDb 5 (runTaskInSession (.sample 5 2 .commitFirst (.response 503)) .sample 1)
        (.sample (.deactivated (.sample 1 "alice" (.interval 60 minute_pos) none))) =
      ({ Service.sample (.deactivated (.sample 1 "alice" (.interval 60 minute_pos) none)) with
          history := [row]
          sent := [fireTaskWebhook .manual (.deactivated
            (.sample 1 "alice" (.interval 60 minute_pos) none))
            (.response 503)] }, response) ∧
      row.RecordsRun (.deactivated (.sample 1 "alice" (.interval 60 minute_pos) none))
        (.response 503) ∧
      AnswersRun (.response 503) response :=
  (run_manually (.sample 5 2 .commitFirst (.response 503)) .sample 1
    (.sample (.deactivated (.sample 1 "alice" (.interval 60 minute_pos) none)))).1 _ rfl rfl

end SchedulerLm
