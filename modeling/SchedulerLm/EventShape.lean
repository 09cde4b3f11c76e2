import SchedulerLm.Base.Ternary
import SchedulerLm.Encodings
import SchedulerLm.Interleaving

/-!
# Rows the history can show

The table constrains its rows (`eventShape`), and the history is read back by
`entryFromRow`, with defaults where a column is null. A row that is recorded
(`Recorded`, by one of the four writers, for a task with a trigger) meets the
constraint and is read as what was recorded, so that no default is ever shown
(`isSatisfied_eventShape`, `entryFromRow_of_recorded`).

Every row of the history is recorded, under any interleaving and with any failures
(`recorded_of_run`): the tasks of the service have triggers, and so do those its
processes have loaded or are to insert (`Recording`).
-/

namespace SchedulerLm

open Ternary Transition Relational

/-! ## The constraint -/

/-- The trigger columns are those of the type. -/
def triggerShape (row : TaskHistory) : Truth :=
  .any
    [.all [.eq row.triggerType (some .cron), .isNotNull row.cronExpression,
      .isNotNull row.cronTimezone,
        .isNull row.intervalSeconds, .isNull row.onceRunAt],
      .all [.eq row.triggerType (some .interval), .isNotNull row.intervalSeconds,
        .isNull row.cronExpression, .isNull row.cronTimezone, .isNull row.onceRunAt],
      .all [.eq row.triggerType (some .once), .isNotNull row.onceRunAt, .isNull row.cronExpression,
        .isNull row.cronTimezone, .isNull row.intervalSeconds]]

/-- A creation or a deletion. -/
def snapshotShape (row : TaskHistory) : Truth :=
  .all
    [.isIn (some row.eventType) [.taskCreated, .taskDeleted], .isNotNull row.webhookUrl,
      .isNotNull row.triggerType, .isNull row.executionSource, .isNull row.httpStatus,
      .isNull row.errorMessage, .isNull row.success, triggerShape row]

/-- An activation or a deactivation. -/
def lifecycleShape (row : TaskHistory) : Truth :=
  .all
    [.isIn (some row.eventType) [.taskActivated, .taskDeactivated], .isNull row.webhookUrl,
      .isNull row.triggerType, .isNull row.cronExpression, .isNull row.cronTimezone,
      .isNull row.intervalSeconds, .isNull row.onceRunAt, .isNull row.executionSource,
      .isNull row.httpStatus, .isNull row.errorMessage, .isNull row.success]

/-- An execution. -/
def executionShape (row : TaskHistory) : Truth :=
  .all
    [.eq (some row.eventType) (some .execution), .isNotNull row.webhookUrl,
      .isNotNull row.executionSource, .isNotNull row.success, .isNull row.triggerType,
      .isNull row.cronExpression, .isNull row.cronTimezone, .isNull row.intervalSeconds,
      .isNull row.onceRunAt, .or (.eq row.success (some false)) (.isNotNull row.httpStatus)]

/-- The constraint `task_history_event_shape`. -/
def eventShape (row : TaskHistory) : Truth :=
  .any [snapshotShape row, lifecycleShape row, executionShape row]

/-! ## What is recorded -/

variable (lib : Crontab)

/-- The task has the trigger of a specification, and it can be built. -/
structure ScheduledTask.HasTrigger (task : ScheduledTask)
    (spec : StructuredTriggerSpec) : Prop where
  type : task.triggerType = spec.type
  config : task.triggerConfig = triggerConfigFromSpec spec
  built : ∃ now trigger, buildTrigger lib now spec = .ok trigger

/-- A row that is recorded, and the entry the history is to show of it, once the
    database has set the time. -/
inductive Recorded : TaskHistory → (Instant → HistoryEntry) → Prop
  | created {id : ℕ} {userId : UserId} {task : ScheduledTask} {spec : StructuredTriggerSpec}
      {row : TaskHistory} : task.HasTrigger lib spec → recordTaskCreated id userId task = .ok row →
      Recorded row fun t => .taskCreated id task.id t task.webhookUrl spec.type spec.shown
  | deleted {id : ℕ} {userId : UserId} {task : ScheduledTask} {spec : StructuredTriggerSpec}
      {row : TaskHistory} : task.HasTrigger lib spec → recordTaskDeleted id userId task = .ok row →
      Recorded row fun t => .taskDeleted id task.id t task.webhookUrl spec.type spec.shown
  | activated {id : ℕ} {userId : UserId} {taskId : TaskId} :
      Recorded (recordTaskLifecycle id userId taskId .taskActivated) fun t =>
        .taskActivated id taskId t
  | deactivated {id : ℕ} {userId : UserId} {taskId : TaskId} :
      Recorded (recordTaskLifecycle id userId taskId .taskDeactivated)
        fun t => .taskDeactivated id taskId t
  | execution {id : ℕ} {userId : UserId} {taskId : TaskId} {source : ExecutionSource}
      {webhookUrl : String} {answer : Answer} :
      Recorded (recordExecution id userId taskId source webhookUrl answer.outcome) fun t =>
        .execution id taskId t source webhookUrl answer.outcome.httpStatus
          answer.outcome.errorMessage
          answer.outcome.success

variable {lib} {row : TaskHistory} {entry : Instant → HistoryEntry} {task : ScheduledTask}
  {spec : StructuredTriggerSpec} {event : TaskHistoryEventType} {id : ℕ} {userId : UserId}

/-- A success is a 2xx response. -/
theorem status_of_success {answer : Answer} (h : answer.outcome.success = true) :
    ∃ status, answer.outcome.httpStatus = some status ∧ 200 ≤ status ∧ status ≤ 299 := by
  rw [Answer.outcome_success] at h
  rcases answer with status | message
  · refine ⟨status, ?_, by simpa [Answer.isSuccess] using h⟩
    rw [Answer.outcome, if_pos h]
  · exact absurd h (by simp [Answer.isSuccess])

/-- A snapshot has the columns of its task. -/
theorem recordSnapshot_eq (htrigger : task.HasTrigger lib spec)
    (h : recordSnapshot event id userId task = .ok row) :
    row.eventType = event ∧ row.id = id ∧ row.taskId = task.id ∧
      row.webhookUrl = some task.webhookUrl ∧ row.triggerType = some spec.type ∧
      row.columns = spec.columns ∧ row.executionSource = none ∧ row.httpStatus = none ∧
      row.errorMessage = none ∧ row.success = none := by
  obtain ⟨columns, hcolumns, rfl⟩ := Raising.map_eq_ok.1 h
  rw [htrigger.type, htrigger.config, triggerColumns_of_spec] at hcolumns
  obtain rfl := Except.ok.inj hcolumns
  exact ⟨rfl, rfl, rfl, rfl, congrArg some htrigger.type, rfl, rfl, rfl, rfl, rfl⟩

theorem holds_triggerShape (htype : row.triggerType = some spec.type)
    (hcolumns : row.columns = spec.columns) : (triggerShape row).holds = true := by
  obtain ⟨he, hz, hs, ht⟩ := TriggerColumns.mk.inj hcolumns
  rw [triggerShape, he, hz, hs, ht, htype]
  cases spec <;> rfl

theorem holds_snapshotShape (hevent : event = .taskCreated ∨ event = .taskDeleted)
    (htrigger : task.HasTrigger lib spec) (h : recordSnapshot event id userId task = .ok row) :
    (snapshotShape row).holds = true := by
  obtain ⟨he, -, -, hu, ht, hcolumns, hes, hst, hem, hsu⟩ := recordSnapshot_eq htrigger h
  have hshape := holds_triggerShape ht hcolumns
  have hin : (Truth.isIn (some row.eventType) [.taskCreated, .taskDeleted]).holds = true := by
    rw [he]
    rcases hevent with rfl | rfl <;> rfl
  rw [snapshotShape, Truth.holds_all, hu, ht, hes, hst, hem, hsu]
  simp [Truth.isNotNull, Truth.isNull, hin, hshape]

/-- A recorded row meets the constraint. -/
theorem isSatisfied_eventShape (h : Recorded lib row entry) :
    (eventShape row).isSatisfied = true := by
  cases h with
  | created htrigger h =>
    exact Truth.isSatisfied_any_of_holds (by simp) (holds_snapshotShape (.inl rfl) htrigger h)
  | deleted htrigger h =>
    exact Truth.isSatisfied_any_of_holds (by simp) (holds_snapshotShape (.inr rfl) htrigger h)
  | activated | deactivated => rfl
  | @execution id userId taskId source webhookUrl answer =>
    refine Truth.isSatisfied_any_of_holds (t := executionShape
      (recordExecution id userId taskId source webhookUrl answer.outcome)) (by simp) ?_
    -- A success has a status.
    have hstatus : (Truth.or (.eq (some answer.outcome.success) (some false))
        (.isNotNull answer.outcome.httpStatus)).holds = true := by
      by_cases hs : answer.outcome.success = true
      · obtain ⟨status, hstatus, -⟩ := status_of_success hs
        simp [hstatus, Truth.isNotNull]
      · rw [Bool.not_eq_true] at hs
        rw [hs]
        rfl
    rw [executionShape, Truth.holds_all]
    simp only [recordExecution, List.all_cons, hstatus]
    rfl

/-- The zone of a trigger that can be built has a name. -/
theorem zone_ne_empty (h : task.HasTrigger lib spec) : ∀ e z, spec = .cron e z → z ≠ "" := by
  rintro e z rfl rfl
  obtain ⟨now, trigger, h⟩ := h.built
  simp [buildTrigger, lib.zones_empty] at h

theorem orDefault_some (text : String) : orDefault (some text) "" = text := by
  rw [orDefault]
  split
  · rename_i hempty
    exact hempty.symm
  · rfl

/-- A recorded row is read as what was recorded. -/
theorem entryFromRow_of_recorded (h : Recorded lib row entry) (createdAt : Instant) :
    entryFromRow { row with createdAt := createdAt } = .ok (entry createdAt) := by
  cases h with
  | created htrigger h =>
    obtain ⟨he, hid, htask, hu, ht, hcolumns, -⟩ := recordSnapshot_eq htrigger h
    obtain ⟨hread, -⟩ : triggerConfigFromRow { row with createdAt := createdAt } = _ ∧ _ :=
      triggerConfigFromRow_of_columns (zone_ne_empty htrigger) ht hcolumns
    simp only [entryFromRow, he, hread, hid, htask, hu, orDefault_some]
    rfl
  | deleted htrigger h =>
    obtain ⟨he, hid, htask, hu, ht, hcolumns, -⟩ := recordSnapshot_eq htrigger h
    obtain ⟨hread, -⟩ : triggerConfigFromRow { row with createdAt := createdAt } = _ ∧ _ :=
      triggerConfigFromRow_of_columns (zone_ne_empty htrigger) ht hcolumns
    simp only [entryFromRow, he, hread, hid, htask, hu, orDefault_some]
    rfl
  | activated | deactivated => rfl
  | execution => simp [recordExecution, entryFromRow, orDefault_some]

/-! ## Every row is recorded -/

/-- The task has a trigger. -/
def ScheduledTask.Triggered (lib : Crontab) (task : ScheduledTask) : Prop :=
  ∃ spec, task.HasTrigger lib spec

/-- The unit of work adds rows that are recorded. -/
def UnitOfWork.Recording (lib : Crontab) (work : UnitOfWork) : Prop :=
  ∀ row ∈ work.history, ∃ entry, Recorded lib row entry

/-- An operation has loaded a task with a trigger, and what is to be committed is
    recording. -/
def Proc.Recording (lib : Crontab) (p : Proc) : Prop :=
  (∀ user op task, p = .loaded user op task → task.Triggered lib) ∧
    ∀ work, p.pending = some work → work.Recording lib

variable {s s' : Service} {p q : Proc} {o : Option Proc} {k : Choice} {work : UnitOfWork}
  {dbNow : Instant}

theorem recording_of_row {write : TaskWrite} (h : Recorded lib row entry) :
    UnitOfWork.Recording lib { task := write, history := [row] } := by
  intro r hr
  obtain rfl := List.mem_singleton.1 hr
  exact ⟨entry, h⟩

/-- A task that is created has the trigger it is created with. -/
theorem triggered_newTask {env : Env} {user : CurrentUser} {body : TaskCreate}
    {trigger : StructuredTriggerSpec} {nextRunAt : Option Instant}
    (hnext : computeNextRunAt lib env.now trigger = .ok nextRunAt) :
    (newTask env user body trigger nextRunAt).HasTrigger lib trigger := by
  obtain ⟨built, hbuilt, -⟩ := Raising.map_eq_ok.1 hnext
  exact ⟨rfl, rfl, env.now, built, hbuilt⟩

theorem triggered_of_created (h : Created lib task) : task.Triggered lib := by
  obtain ⟨env, user, body, h, hh, htask⟩ := h
  obtain ⟨trigger, nextRunAt, row, -, hnext, -, rfl⟩ := createTask_eq_ok hh
  obtain rfl := TaskWrite.insert.inj htask
  exact ⟨trigger, triggered_newTask hnext⟩

theorem triggered_apply (changes : Changes) (dbNow : Instant) (task : ScheduledTask)
    (h : task.Triggered lib) : (changes.apply dbNow task).Triggered lib := by
  obtain ⟨spec, htrigger⟩ := h
  exact ⟨spec, htrigger.type, htrigger.config, htrigger.built⟩

theorem recording_createTask {env : Env} {user : CurrentUser} {body : TaskCreate} {h : Handled}
    (hh : createTask lib env user body = .ok h) : h.work.Recording lib := by
  obtain ⟨trigger, nextRunAt, row, -, hnext, hrow, rfl⟩ := createTask_eq_ok hh
  exact recording_of_row (.created (triggered_newTask hnext) hrow)

theorem recording_handle {op : TaskOp} {env : Env} {user : CurrentUser} {h : Handled}
    (htask : task.Triggered lib) (hh : op.handle lib env user task = .ok h) :
    h.work.Recording lib := by
  have hnothing : UnitOfWork.Recording lib {} := by simp [UnitOfWork.Recording]
  cases op with
  | activate =>
    rcases activateTask_eq_ok hh with ⟨-, rfl⟩ | ⟨next, -, -, -, rfl⟩
    · exact hnothing
    · exact recording_of_row .activated
  | deactivate =>
    obtain rfl := Except.ok.inj hh
    rw [deactivateTask]
    split
    · exact recording_of_row .deactivated
    · exact hnothing
  | delete =>
    obtain ⟨row, hrow, rfl⟩ := Raising.map_eq_ok.1 hh
    obtain ⟨spec, hspec⟩ := htask
    exact recording_of_row (.deleted hspec (Raising.mapError_eq_ok.1 hrow))

/-- What a process goes on as is recording, if it was itself. -/
theorem Moves.recording (h : Moves lib s p k s' (some q)) (hp : p.Recording lib)
    (hs : ∀ id task, s.row id = some task → task.Triggered lib) : q.Recording lib := by
  -- A process that has loaded no row goes by its unit of work.
  have hpending : ∀ {q : Proc}, (∀ user op task, q ≠ .loaded user op task) →
      (∀ work, q.pending = some work → work.Recording lib) → q.Recording lib :=
    fun hne hw => ⟨fun user op task he => absurd he (hne user op task), hw⟩
  generalize ho : some q = o at h
  cases h with
  | created _ hc =>
    obtain rfl := Option.some.inj ho
    refine hpending (by simp) fun work hw => ?_
    obtain rfl := Option.some.inj hw
    exact recording_createTask hc
  | read hrow =>
    obtain rfl := Option.some.inj ho
    refine ⟨fun user op task he => ?_, fun work hw => absurd hw (by simp [Proc.pending])⟩
    obtain ⟨-, -, rfl⟩ := Proc.loaded.inj he
    exact hs _ _ hrow
  | handled hc =>
    obtain rfl := Option.some.inj ho
    refine hpending (by simp) fun work hw => ?_
    obtain rfl := Option.some.inj hw
    exact recording_handle (hp.1 _ _ _ rfl) hc
  | committed =>
    split at ho
    · exact absurd ho (by simp)
    · obtain rfl := Option.some.inj ho
      exact hpending (by simp) fun work hw => absurd hw (by simp [Proc.pending])
  | @ran work' job committed =>
    split at ho
    · exact absurd ho (by simp)
    · rename_i hcommitted
      obtain rfl := Option.some.inj ho
      rw [Bool.not_eq_true] at hcommitted
      subst hcommitted
      exact hpending (by simp) fun work hw => hp.2 work hw
  | runSent =>
    obtain rfl := Option.some.inj ho
    refine hpending (by simp) fun work hw => ?_
    obtain rfl := Option.some.inj hw
    exact recording_of_row .execution
  | @fireSent loaded answer historyId =>
    obtain rfl := Option.some.inj ho
    refine hpending (by simp) fun work hw => ?_
    obtain rfl := Option.some.inj hw
    obtain ⟨row, rfl, ⟨-, -, hx⟩ | ⟨-, hx⟩⟩ :=
      executed_eq historyId loaded answer.outcome <;> rw [hx]
    · exact recording_of_row .execution
    · exact recording_of_row .execution
  | @fireCommitted _ remove =>
    rcases remove with _ | taskId
    · exact absurd ho (by simp)
    · obtain rfl := Option.some.inj ho
      exact hpending (by simp) fun work hw => absurd hw (by simp [Proc.pending])
  | runRead | called | fireRead =>
    obtain rfl := Option.some.inj ho
    exact hpending (by simp) fun work hw => absurd hw (by simp [Proc.pending])
  | _ => exact absurd ho (by simp)

/-- What holds at any time: the tasks have triggers, and all that is in the history,
    or on its way there, is recorded. -/
structure Recording (lib : Crontab) (s : Pool Service Proc) : Prop where
  rowsAre : RowsAre (ScheduledTask.Triggered lib) s
  history : ∀ row ∈ s.shared.history, ∃ entry, Recorded lib row.toTaskHistory entry
  procs : ∀ p ∈ s.procs, p.Recording lib

theorem recording_init : Recording lib ⟨.init, []⟩ where
  rowsAre := rowsAre_of_run (fun _ => triggered_of_created) triggered_apply .nil
  history := by simp [Service.init]
  procs := by simp

theorem Recording.step {s s' : Pool Service Proc} {a : Act Arrival Choice} (h : Recording lib s)
    (hs : (interleaving lib).step s a = some s') : Recording lib s' := by
  have hrows := h.rowsAre.step (fun _ => triggered_of_created) triggered_apply hs
  cases Program.moved_of_step hs with
  | arrive ha hprocs =>
    obtain ⟨-, hh, hnew⟩ := arrive_frame ha
    refine ⟨hrows, fun row hrow => h.history row (hh ▸ hrow), fun q hq => ?_⟩
    rw [hprocs, List.mem_append, Option.mem_toList] at hq
    rcases hq with hq | hq
    · obtain ⟨hloaded, hpending⟩ := hnew q hq
      exact ⟨fun user op task he => absurd he (hloaded user op task),
        fun work hw => absurd (hpending.symm.trans hw) (by simp)⟩
    · exact h.procs q hq
  | @move n k p o rest _ hm hp hp' =>
    have hmoves := moves_of_move hm
    have hpr := h.procs p ((mem_of_perm_cons hp).2 (.inl rfl))
    refine ⟨hrows, fun row hrow => ?_, fun q hq => ?_⟩
    · rcases hmoves.tables with ⟨-, hh⟩ | ⟨work, dbNow, hw, hc⟩
      · exact h.history row (hh ▸ hrow)
      · rw [(commit_eq_some hc).2.1, List.mem_append] at hrow
        rcases hrow with hrow | hrow
        · exact h.history row hrow
        · obtain ⟨added, hadded, rfl⟩ := List.mem_map.1 hrow
          exact hpr.2 work hw added hadded
    · rcases (mem_of_perm_toList hp').1 hq with rfl | hq
      · exact hmoves.recording hpr h.rowsAre.rows
      · exact h.procs q ((mem_of_perm_cons hp).2 (.inr hq))

/-- Every row of the history is recorded, in any run. -/
theorem recorded_of_run {as : List (Act Arrival Choice)} {s : Pool Service Proc}
    (h : (interleaving lib).Run ⟨.init, []⟩ as s) :
    ∀ row ∈ s.shared.history, ∃ entry, Recorded lib row.toTaskHistory entry :=
  (h.invariant recording_init fun _ _ _ hI _ hs => hI.step hs).history

/-- A row that is recorded meets the constraint, whenever it is written, and is read
    as what was recorded. The rows of the history are recorded, in any run, and a
    success that is recorded is a 2xx response. -/
theorem history_agrees (lib : Crontab) :
    (∀ row entry, Recorded lib row entry → (eventShape row).isSatisfied = true ∧
      ∀ createdAt, entryFromRow { row with createdAt := createdAt } = .ok (entry createdAt)) ∧
    (∀ as s, (interleaving lib).Run ⟨.init, []⟩ as s →
      ∀ row ∈ s.shared.history, (eventShape row.toTaskHistory).isSatisfied = true ∧
        ∃ entry, Recorded lib row.toTaskHistory entry ∧
          entryFromRow row = .ok (entry row.createdAt)) ∧
    ∀ answer : Answer, answer.outcome.success = true →
      ∃ status, answer.outcome.httpStatus = some status ∧ 200 ≤ status ∧ status ≤ 299 := by
  refine ⟨fun row entry h => ⟨isSatisfied_eventShape h, entryFromRow_of_recorded h⟩,
    fun as s hrun row hrow => ?_, fun answer => status_of_success⟩
  obtain ⟨entry, hentry⟩ := recorded_of_run hrun row hrow
  exact ⟨isSatisfied_eventShape hentry, entry, hentry,
    entryFromRow_of_recorded hentry row.createdAt⟩

/-- A request about the task that is served at once. -/
def requested (op : TaskOp) : List (Act Arrival Choice) :=
  [.arrive (.request .sample (.task op 1)), .move 0 .read, .move 0 (.body (.sample 0 0)),
    .move 0 (.commit 0), .move 0 (.job 0)]

/-- A task is created, run, deactivated, activated and deleted. -/
def everyEvent : List (Act Arrival Choice) :=
  [.arrive (.request .sample (.create (.sample (.interval 60 minute_pos)))),
    .move 0 (.body (.sample 0 1)), .move 0 (.commit 0), .move 0 (.job 0),
    .arrive (.request .sample (.run 1)), .move 0 .read, .move 0 .read,
    .move 0 (.send (.response 200) 0), .move 0 (.commit 0)] ++
    (requested .deactivate ++ (requested .activate ++ requested .delete))

/-- Its history has a row of each kind. -/
theorem history_everyEvent : ∃ s : Pool Service Proc,
    (interleaving .never).Run ⟨.init, []⟩ everyEvent s ∧
    s.shared.history.map (·.eventType) =
      [.taskCreated, .execution, .taskDeactivated, .taskActivated, .taskDeleted] ∧
    (∀ row ∈ s.shared.history, (eventShape row.toTaskHistory).isSatisfied = true ∧
      ∃ entry, Recorded .never row.toTaskHistory entry ∧
        entryFromRow row = .ok (entry row.createdAt)) ∧
    ∃ status, (Answer.response 200).outcome.httpStatus = some status ∧ 200 ≤ status ∧
      status ≤ 299 := by
  obtain ⟨s, hs, hevents⟩ : ∃ s, (interleaving .never).exec ⟨.init, []⟩ everyEvent = some s ∧
      s.shared.history.map (·.eventType) =
        [.taskCreated, .execution, .taskDeactivated, .taskActivated, .taskDeleted] := ⟨_, rfl, rfl⟩
  have hrun := System.runWith_of_exec (D := fun _ => True) (fun _ _ => trivial) hs
  obtain ⟨-, hrows, hsuccess⟩ := history_agrees .never
  exact ⟨s, hrun, hevents, hrows _ s hrun, hsuccess (.response 200) rfl⟩

end SchedulerLm
