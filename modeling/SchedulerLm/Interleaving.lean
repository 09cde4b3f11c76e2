import SchedulerLm.Base.Pool
import SchedulerLm.Executor

/-!
# Requests and executions, interleaved

The service as a pool of processes over the two stores: the requests that write,
from their arrival to the end of their commit and of their background job, and
the executions of the fires a scheduler picks up. A process moves by one read of
a row (unlocked, of what is committed), by running its handler, by one GET, by
its commit, or by its background job. The commit and the job of a request come
in any order; a commit that raises ends the request, and drops its job if that
has not run.

Any move may also fail, which ends the process (`Choice.fail`): the unit of work
of its session is rolled back, and a job still queued is dropped.
-/

namespace SchedulerLm

open Transition Relational

/-- The requests that write. -/
inductive Request
  | create (body : TaskCreate)
  | task (op : TaskOp) (taskId : TaskId)
  | run (taskId : TaskId)

/-- How far a request, or an execution, has come. -/
inductive Proc
  /-- A request of an authenticated user, before it reads anything. -/
  | arrived (user : CurrentUser) (request : Request)
  /-- An operation on a task, with the row it has loaded. -/
  | loaded (user : CurrentUser) (op : TaskOp) (task : ScheduledTask)
  /-- A handler has returned; its unit of work may be committed, and its job may
      have run. -/
  | finishing (work : UnitOfWork) (job : Option Job) (committed ran : Bool)
  /-- `run_task` has loaded its row. -/
  | running (user : CurrentUser) (task : ScheduledTask)
  /-- `run_task_manually` has loaded its row as well, as `target`. -/
  | calling (user : CurrentUser) (task target : ScheduledTask)
  /-- A fire has been picked up. -/
  | fired (taskId : TaskId)
  /-- `execute_scheduled_task` has loaded an active row. -/
  | executing (task : ScheduledTask)
  /-- `execute_scheduled_task` has sent its GET; it is to commit, and may then
      remove a schedule. -/
  | executed (work : UnitOfWork) (remove : Option TaskId)
  /-- `execute_scheduled_task` is to remove a schedule. -/
  | removing (taskId : TaskId)

/-- What arrives: a request, or a fire a scheduler picks up. -/
inductive Arrival
  | request (user : CurrentUser) (request : Request)
  | fire (taskId : TaskId) (now : Instant) (coalesced : ℕ)

/-- How a process moves. -/
inductive Choice
  | read
  | body (env : Env)
  | send (answer : Answer) (historyId : ℕ)
  | commit (dbNow : Instant)
  | job (now : Instant)
  | fail

variable (lib : Crontab)

/-- Arrivals. -/
def arrive (s : Service) : Arrival → Option (Service × Option Proc)
  | .request user request => some (s, some (.arrived user request))
  | .fire taskId now coalesced =>
    (pickUp lib now coalesced taskId s).map fun picked => (picked.2, some (.fired taskId))

/-- What a request goes on as when its handler returns or fails. -/
def handled (s : Service) : Except Failure Handled → Service × Option Proc
  | .error _ => (s, none)
  | .ok h => (s, some (.finishing h.work h.job false false))

/-- Moves. `uuid4` draws an id it has not drawn before. -/
def move (s : Service) : Proc → Choice → Option (Service × Option Proc)
  | _, .fail => some (s, none)
  | .arrived user (.create body), .body env =>
    if env.taskId ∈ s.issued then none
    else some (handled { s with issued := env.taskId :: s.issued } (createTask lib env user body))
  | .arrived user (.task op taskId), .read =>
    match getTaskOr404 user taskId s with
    | .error _ => some (s, none)
    | .ok task => some (s, some (.loaded user op task))
  | .loaded user op task, .body env => some (handled s (op.handle lib env user task))
  | .finishing work job false ran, .commit dbNow =>
    match commit dbNow work s with
    | none => some (s, none)
    | some s' => some (s', if ran ∨ job = none then none else some (.finishing work job true ran))
  | .finishing work (some job) committed false, .job now =>
    match runJob lib now job s with
    | .error _ => some (s, none)
    | .ok s' =>
      some (s', if committed then none else some (.finishing work (some job) committed true))
  | .arrived user (.run taskId), .read =>
    match getTaskOr404 user taskId s with
    | .error _ => some (s, none)
    | .ok task => some (s, some (.running user task))
  | .running user task, .read =>
    -- `run_task_manually` raises when the row is gone by now.
    some (s, (s.row task.id).map fun target => .calling user task target)
  | .calling user task target, .send answer historyId =>
    some (s.send (fireTaskWebhook .manual target answer),
      some (.finishing (runWork historyId user task answer.outcome) none false false))
  | .fired taskId, .read => some (s, (loadActive taskId s).map .executing)
  | .executing task, .send answer historyId =>
    let after := executed historyId task answer.outcome
    some (s.send (fireTaskWebhook .scheduled task answer), some (.executed after.1 after.2))
  | .executed work remove, .commit dbNow =>
    match commit dbNow work s with
    | none => some (s, none)
    | some s' => some (s', remove.map .removing)
  | .removing taskId, .job _ => some (unregisterSchedule taskId s, none)
  | _, _ => none

/-- The program of the processes. -/
def program : Program Service Proc Arrival Choice := ⟨arrive lib, move lib⟩

/-- The service, under any interleaving. -/
abbrev interleaving : System (Pool Service Proc) (Act Arrival Choice) := (program lib).system

/-- A state that is reached, by any interleaving and with any failures, when
    nothing is pending. -/
def Reachable (s : Service) : Prop := ∃ as, (interleaving lib).Run ⟨.init, []⟩ as ⟨s, []⟩

/-! ## The moves -/

/-- The unit of work a process is still to commit. -/
def Proc.pending : Proc → Option UnitOfWork
  | .finishing work _ false _ => some work
  | .executed work _ => some work
  | _ => none

/-- All the moves. -/
inductive Moves (s : Service) : Proc → Choice → Service → Option Proc → Prop
  | failed {p : Proc} : Moves s p .fail s none
  | refused {p : Proc} {k : Choice} : p.pending = none → (∀ w j r, p ≠ .finishing w j true r) →
      Moves s p k s none
  | issued {user : CurrentUser} {body : TaskCreate} {env : Env} : env.taskId ∉ s.issued →
      Moves s (.arrived user (.create body)) (.body env)
        { s with issued := env.taskId :: s.issued } none
  | created {user : CurrentUser} {body : TaskCreate} {env : Env} {h : Handled} :
      env.taskId ∉ s.issued → createTask lib env user body = .ok h →
      Moves s (.arrived user (.create body)) (.body env)
        { s with issued := env.taskId :: s.issued } (some (.finishing h.work h.job false false))
  | read {user : CurrentUser} {op : TaskOp} {taskId : TaskId} {task : ScheduledTask} :
      s.row taskId = some task → task.userId = user.userId →
      Moves s (.arrived user (.task op taskId)) .read s (some (.loaded user op task))
  | handled {user : CurrentUser} {op : TaskOp} {task : ScheduledTask} {env : Env} {h : Handled} :
      op.handle lib env user task = .ok h →
      Moves s (.loaded user op task) (.body env) s (some (.finishing h.work h.job false false))
  | committed {work : UnitOfWork} {job : Option Job} {ran : Bool} {dbNow : Instant} {s' : Service} :
      commit dbNow work s = some s' →
      Moves s (.finishing work job false ran) (.commit dbNow) s'
        (if ran ∨ job = none then none else some (.finishing work job true ran))
  | aborted {work : UnitOfWork} {job : Option Job} {ran : Bool} {dbNow : Instant} :
      commit dbNow work s = none → Moves s (.finishing work job false ran) (.commit dbNow) s none
  | ran {work : UnitOfWork} {job : Job} {committed : Bool} {now : Instant} {s' : Service} :
      runJob lib now job s = .ok s' →
      Moves s (.finishing work (some job) committed false) (.job now) s'
        (if committed then none else some (.finishing work (some job) committed true))
  | raised {work : UnitOfWork} {job : Job} {committed : Bool} {now : Instant} {e : Exn} :
      runJob lib now job s = .error e →
      Moves s (.finishing work (some job) committed false) (.job now) s none
  | runRead {user : CurrentUser} {taskId : TaskId} {task : ScheduledTask} :
      s.row taskId = some task → task.userId = user.userId →
      Moves s (.arrived user (.run taskId)) .read s (some (.running user task))
  | called {user : CurrentUser} {task target : ScheduledTask} : s.row task.id = some target →
      Moves s (.running user task) .read s (some (.calling user task target))
  | runSent {user : CurrentUser} {task target : ScheduledTask} {answer : Answer} {historyId : ℕ} :
      Moves s (.calling user task target) (.send answer historyId)
        (s.send (fireTaskWebhook .manual target answer))
        (some (.finishing (runWork historyId user task answer.outcome) none false false))
  | fireRead {taskId : TaskId} {task : ScheduledTask} : loadActive taskId s = some task →
      Moves s (.fired taskId) .read s (some (.executing task))
  | fireSent {task : ScheduledTask} {answer : Answer} {historyId : ℕ} :
      Moves s (.executing task) (.send answer historyId)
        (s.send (fireTaskWebhook .scheduled task answer))
        (some (.executed (executed historyId task answer.outcome).1
          (executed historyId task answer.outcome).2))
  | fireCommitted {work : UnitOfWork} {remove : Option TaskId} {dbNow : Instant} {s' : Service} :
      commit dbNow work s = some s' →
      Moves s (.executed work remove) (.commit dbNow) s' (remove.map .removing)
  | fireAborted {work : UnitOfWork} {remove : Option TaskId} {dbNow : Instant} :
      commit dbNow work s = none → Moves s (.executed work remove) (.commit dbNow) s none
  | removed {taskId : TaskId} {now : Instant} :
      Moves s (.removing taskId) (.job now) (unregisterSchedule taskId s) none

variable {lib} {s s' : Service} {p q : Proc} {o : Option Proc} {k : Choice}

/-- `move` makes these moves only. -/
theorem moves_of_move (h : move lib s p k = some (s', o)) : Moves lib s p k s' o := by
  rw [move.eq_def] at h
  split at h
  case h_1 =>
    obtain ⟨rfl, rfl⟩ := Prod.mk.inj (Option.some.inj h)
    exact .failed
  case h_2 user body env =>
    split at h
    · exact absurd h (by simp)
    · rename_i hfresh
      rcases hc : createTask lib env user body with e | hd <;> rw [hc] at h <;>
        obtain ⟨rfl, rfl⟩ := Prod.mk.inj (Option.some.inj h)
      · exact .issued hfresh
      · exact .created hfresh hc
  case h_3 user op taskId =>
    split at h <;> rename_i hload <;> obtain ⟨rfl, rfl⟩ := Prod.mk.inj (Option.some.inj h)
    · exact .refused rfl (by simp)
    · exact .read (getTaskOr404_eq_ok.1 hload).1 (getTaskOr404_eq_ok.1 hload).2
  case h_4 user op task env =>
    rcases hc : op.handle lib env user task with e | hd <;> rw [hc] at h <;>
      obtain ⟨rfl, rfl⟩ := Prod.mk.inj (Option.some.inj h)
    · exact .refused rfl (by simp)
    · exact .handled hc
  case h_5 work job ran dbNow =>
    split at h <;> rename_i hc <;> obtain ⟨rfl, rfl⟩ := Prod.mk.inj (Option.some.inj h)
    · exact .aborted hc
    · exact .committed hc
  case h_6 work job committed now =>
    split at h <;> rename_i hc <;> obtain ⟨rfl, rfl⟩ := Prod.mk.inj (Option.some.inj h)
    · exact .raised hc
    · exact .ran hc
  case h_7 user taskId =>
    split at h <;> rename_i hload <;> obtain ⟨rfl, rfl⟩ := Prod.mk.inj (Option.some.inj h)
    · exact .refused rfl (by simp)
    · exact .runRead (getTaskOr404_eq_ok.1 hload).1 (getTaskOr404_eq_ok.1 hload).2
  case h_8 user task =>
    obtain ⟨rfl, rfl⟩ := Prod.mk.inj (Option.some.inj h)
    rcases hc : s.row task.id with _ | target
    · exact .refused rfl (by simp)
    · exact .called hc
  case h_9 =>
    obtain ⟨rfl, rfl⟩ := Prod.mk.inj (Option.some.inj h)
    exact .runSent
  case h_10 taskId =>
    obtain ⟨rfl, rfl⟩ := Prod.mk.inj (Option.some.inj h)
    rcases hc : loadActive taskId s with _ | task
    · exact .refused rfl (by simp)
    · exact .fireRead hc
  case h_11 =>
    obtain ⟨rfl, rfl⟩ := Prod.mk.inj (Option.some.inj h)
    exact .fireSent
  case h_12 work remove dbNow =>
    split at h <;> rename_i hc <;> obtain ⟨rfl, rfl⟩ := Prod.mk.inj (Option.some.inj h)
    · exact .fireAborted hc
    · exact .fireCommitted hc
  case h_13 =>
    obtain ⟨rfl, rfl⟩ := Prod.mk.inj (Option.some.inj h)
    exact .removed
  case h_14 => exact absurd h (by simp)

/-- A move writes to the tables by a commit of the process, or not at all. -/
theorem Moves.tables (h : Moves lib s p k s' o) :
    (s'.tasks = s.tasks ∧ s'.history = s.history) ∨
      ∃ work dbNow, p.pending = some work ∧ commit dbNow work s = some s' := by
  cases h with
  | committed hc => exact .inr ⟨_, _, rfl, hc⟩
  | fireCommitted hc => exact .inr ⟨_, _, rfl, hc⟩
  | ran hj => exact .inl ⟨(runJob_frame hj).1, (runJob_frame hj).2.1⟩
  | _ => exact .inl ⟨rfl, rfl⟩

/-! ## What holds of the processes -/

/-- The task whose row a process has loaded, or is to insert. -/
def Proc.holds : Proc → Option TaskId
  | .loaded _ _ task => some task.id
  | .finishing work _ _ _ => work.taskId
  | .running _ task => some task.id
  | .calling _ task _ => some task.id
  | .executing task => some task.id
  | .executed work _ => work.taskId
  | _ => none

/-- What holds of a process by itself. -/
def Proc.Ok (lib : Crontab) : Proc → Prop
  | .loaded user _ task => task.userId = user.userId ∧ task.Storable
  | .finishing work job _ _ => (∃ owner, Gathered lib owner work job) ∧
      (work.fits = true ∨ ∃ task, work.task = .insert task)
  | .running user task => task.userId = user.userId
  | .calling user task target => task.userId = user.userId ∧ target.id = task.id
  | .executing task => task.isActive = true
  | .executed work remove => ∃ historyId task outcome, task.isActive = true ∧
      (work, remove) = SchedulerLm.executed historyId task outcome
  | _ => True

/-- What a process goes on as is as it should be, if it was itself. -/
theorem Moves.ok (h : Moves lib s p k s' (some q)) (hp : p.Ok lib)
    (hs : ∀ id row, s.row id = some row → row.Storable) : q.Ok lib := by
  generalize ho : some q = o at h
  cases h with
  | created _ hc =>
    obtain rfl := Option.some.inj ho
    obtain ⟨trigger, nextRunAt, row, -, -, -, rfl⟩ := createTask_eq_ok hc
    exact ⟨⟨_, gathered_createTask hc⟩, .inr ⟨_, rfl⟩⟩
  | read hrow howner =>
    obtain rfl := Option.some.inj ho
    exact ⟨howner, hs _ _ hrow⟩
  | handled hc =>
    obtain rfl := Option.some.inj ho
    exact ⟨⟨_, gathered_handle hp.1 hc⟩, .inl (fits_of_handle hc hp.2)⟩
  | committed hc =>
    split at ho
    · exact absurd ho (by simp)
    · obtain rfl := Option.some.inj ho
      exact hp
  | ran hj =>
    split at ho
    · exact absurd ho (by simp)
    · obtain rfl := Option.some.inj ho
      exact hp
  | runRead _ howner =>
    obtain rfl := Option.some.inj ho
    exact howner
  | called htarget =>
    obtain rfl := Option.some.inj ho
    exact ⟨hp, Table.key_of_find htarget⟩
  | runSent =>
    obtain rfl := Option.some.inj ho
    exact ⟨⟨_, .run ⟨rfl, rfl, rfl⟩⟩, .inl rfl⟩
  | fireRead hload =>
    obtain rfl := Option.some.inj ho
    exact (loadActive_eq_some.1 hload).2
  | fireSent =>
    obtain rfl := Option.some.inj ho
    exact ⟨_, _, _, hp, rfl⟩
  | @fireCommitted _ remove =>
    rcases remove with _ | taskId
    · exact absurd ho (by simp)
    · obtain rfl := Option.some.inj ho
      trivial
  | _ => exact absurd ho (by simp)

/-- All a process is to commit is about the task it holds. -/
theorem Proc.Ok.about (hp : p.Ok lib) {work : UnitOfWork} (hw : p.pending = some work) :
    (∀ row ∈ work.history, p.holds = some row.taskId) ∧
      ∀ id, work.task.taskId = some id → p.holds = some id := by
  rcases p with _ | _ | ⟨w, j, _ | _, r⟩ | _ | _ | _ | _ | ⟨w, remove⟩ | _ <;>
    simp only [Proc.pending, reduceCtorEq] at hw
  · obtain rfl := Option.some.inj hw
    obtain ⟨⟨owner, hg⟩, -⟩ := hp
    exact ⟨hg.about.1, hg.about.2.1⟩
  · obtain rfl := Option.some.inj hw
    obtain ⟨historyId, task, outcome, -, he⟩ := hp
    obtain ⟨row, hrow, ⟨-, -, hx⟩ | ⟨-, hx⟩⟩ := executed_eq historyId task outcome <;>
      rw [hx] at he <;> obtain ⟨rfl, -⟩ := Prod.mk.inj he
    · refine ⟨fun r hr => ?_, fun id hid => ?_⟩
      · obtain rfl := List.mem_singleton.1 hr
        rfl
      · rw [← taskId_dirty hid, hrow]
        rfl
    · refine ⟨fun r hr => ?_, fun id hid => absurd hid (by simp [TaskWrite.taskId])⟩
      obtain rfl := List.mem_singleton.1 hr
      rfl

/-- A row that is inserted can be stored, if its history row fits. -/
theorem Proc.Ok.storable (hp : p.Ok lib) {work : UnitOfWork} {task : ScheduledTask}
    (hw : p.pending = some work) (htask : work.task = .insert task) (hfits : work.fits = true) :
    task.Storable := by
  rcases p with _ | _ | ⟨w, j, _ | _, r⟩ | _ | _ | _ | _ | ⟨w, remove⟩ | _ <;>
    simp only [Proc.pending, reduceCtorEq] at hw
  · obtain rfl := Option.some.inj hw
    obtain ⟨⟨owner, hg⟩, -⟩ := hp
    cases hg with
    | create _ _ _ hrow =>
      obtain rfl := TaskWrite.insert.inj htask
      exact (fits_recordSnapshot hrow).1 (by simpa [UnitOfWork.fits] using hfits)
    | activate | deactivate => exact absurd htask dirty_ne_insert
    | _ => exact absurd htask (by simp)
  · obtain rfl := Option.some.inj hw
    obtain ⟨historyId, loaded, outcome, -, he⟩ := hp
    obtain ⟨row, hrow, ⟨-, -, hx⟩ | ⟨-, hx⟩⟩ := executed_eq historyId loaded outcome <;>
      rw [hx] at he <;> obtain ⟨rfl, -⟩ := Prod.mk.inj he
    · exact absurd htask dirty_ne_insert
    · exact absurd htask (by simp)

/-- A move changes the row and the history of the task its process holds only. -/
theorem Moves.frame (h : Moves lib s p k s' o) (hp : p.Ok lib) {id : TaskId}
    (hid : p.holds ≠ some id) : s'.row id = s.row id ∧ s'.about id = s.about id := by
  rcases h.tables with ⟨ht, hh⟩ | ⟨work, dbNow, hw, hc⟩
  · rw [Service.row, ht, Service.about, hh]
    exact ⟨rfl, rfl⟩
  · obtain ⟨hrows, htask⟩ := hp.about hw
    exact commit_frame hc (fun h => hid (htask id h)) fun row hrow h => hid (h ▸ hrows row hrow)

/-- Rows that have been stored can be stored again. -/
theorem Moves.storable (h : Moves lib s p k s' o) (hp : p.Ok lib)
    (hs : ∀ id row, s.row id = some row → row.Storable) {id : TaskId} {row : ScheduledTask}
    (hrow : s'.row id = some row) : row.Storable := by
  rcases h.tables with ⟨ht, -⟩ | ⟨work, dbNow, hw, hc⟩
  · rw [Service.row, ht] at hrow
    exact hs id row hrow
  · exact rows_of_commit hc (fun task htask => hp.storable hw htask (fits_of_commit hc))
      (fun _ _ _ h => h) hs id row hrow

/-- A move puts a schedule for the task its process holds only. -/
theorem Moves.schedules (h : Moves lib s p k s' o) (hp : p.Ok lib) {id : TaskId}
    (hid : p.holds ≠ some id) : s'.schedules id = none ∨ s'.schedules id = s.schedules id := by
  cases h with
  | committed hc => exact .inr (by rw [(commit_eq_some hc).2.2.1])
  | fireCommitted hc => exact .inr (by rw [(commit_eq_some hc).2.2.1])
  | @ran work job committed now s' hj =>
    obtain ⟨⟨owner, hg⟩, -⟩ := hp
    refine .inr ((runJob_frame hj).2.2.2.2 id fun h => hid ?_)
    rw [h]
    exact hg.about.2.2 job rfl
  | @removed taskId now =>
    by_cases h : id = taskId
    · exact .inl (by rw [h]; exact Function.update_self ..)
    · exact .inr (Function.update_of_ne h _ _)
  | _ => exact .inr rfl

/-- What a process goes on as holds what it held, or a task it has read, or a new
    one. -/
theorem Moves.holds (h : Moves lib s p k s' (some q)) {id : TaskId} (hq : q.holds = some id) :
    p.holds = some id ∨ s.row id ≠ none ∧ s' = s ∨ id ∉ s.issued ∧ id ∈ s'.issued := by
  generalize ho : some q = o at h
  cases h with
  | @created user body env hd hfresh hc =>
    obtain rfl := Option.some.inj ho
    obtain ⟨trigger, nextRunAt, row, -, -, hrow, rfl⟩ := createTask_eq_ok hc
    obtain rfl : env.taskId = id :=
      (records_recordSnapshot hrow).2.2.symm.trans (Option.some.inj hq)
    exact .inr (.inr ⟨hfresh, List.mem_cons_self⟩)
  | read hrow =>
    obtain rfl := Option.some.inj ho
    obtain rfl := (Table.key_of_find hrow).symm.trans (Option.some.inj hq)
    exact .inr (.inl ⟨by rw [hrow]; simp, rfl⟩)
  | @handled user op task env hd hc =>
    obtain rfl := Option.some.inj ho
    exact .inl (congrArg some ((about_of_handle hc).1 id hq))
  | committed hc =>
    split at ho
    · exact absurd ho (by simp)
    · obtain rfl := Option.some.inj ho
      exact .inl hq
  | ran hj =>
    split at ho
    · exact absurd ho (by simp)
    · obtain rfl := Option.some.inj ho
      exact .inl hq
  | runRead hrow =>
    obtain rfl := Option.some.inj ho
    obtain rfl := (Table.key_of_find hrow).symm.trans (Option.some.inj hq)
    exact .inr (.inl ⟨by rw [hrow]; simp, rfl⟩)
  | called => obtain rfl := Option.some.inj ho; exact .inl hq
  | runSent => obtain rfl := Option.some.inj ho; exact .inl hq
  | fireRead hload =>
    obtain rfl := Option.some.inj ho
    have hrow := (loadActive_eq_some.1 hload).1
    obtain rfl := (Table.key_of_find hrow).symm.trans (Option.some.inj hq)
    exact .inr (.inl ⟨by rw [hrow]; simp, rfl⟩)
  | @fireSent task answer historyId =>
    obtain rfl := Option.some.inj ho
    obtain ⟨row, hrow, ⟨-, -, hx⟩ | ⟨-, hx⟩⟩ := executed_eq historyId task answer.outcome <;>
      rw [hx] at hq <;> exact .inl ((congrArg some (hrow ▸ rfl : task.id = row.taskId)).trans hq)
  | @fireCommitted _ remove =>
    rcases remove with _ | taskId
    · exact absurd ho (by simp)
    · obtain rfl := Option.some.inj ho
      exact absurd hq (by simp [Proc.holds])
  | _ => exact absurd ho (by simp)

theorem Moves.issued_subset (h : Moves lib s p k s' o) : s.issued ⊆ s'.issued := by
  cases h with
  | issued => exact List.subset_cons_self _ _
  | created => exact List.subset_cons_self _ _
  | committed hc => rw [(commit_eq_some hc).2.2.2.2]; exact List.Subset.refl _
  | fireCommitted hc => rw [(commit_eq_some hc).2.2.2.2]; exact List.Subset.refl _
  | ran hj => rw [(runJob_frame hj).2.2.2.1]; exact List.Subset.refl _
  | _ => exact List.Subset.refl _

/-- The task is that of a creation whose handler returns. -/
def Created (lib : Crontab) (task : ScheduledTask) : Prop :=
  ∃ env user body h, createTask lib env user body = .ok h ∧ h.work.task = .insert task

/-- A task that is created belongs to a user. -/
theorem owner_of_created {task : ScheduledTask} (h : Created lib task) : task.userId ≠ "" := by
  obtain ⟨env, user, body, hd, hh, htask⟩ := h
  obtain ⟨trigger, nextRunAt, row, -, -, -, rfl⟩ := createTask_eq_ok hh
  obtain rfl := TaskWrite.insert.inj htask
  exact user.nonempty

/-- The process is to insert the row `task`. -/
def Proc.Inserts (p : Proc) (task : ScheduledTask) : Prop :=
  ∃ work, p.pending = some work ∧ work.task = .insert task

theorem Proc.Ok.inserts (hp : p.Ok lib) {task : ScheduledTask} (h : p.Inserts task) :
    p.holds = some task.id := by
  obtain ⟨work, hw, htask⟩ := h
  exact (hp.about hw).2 task.id (by rw [htask]; rfl)

/-- What a process goes on as inserts a row only if the process did, or if it is new
    and has just been created, and then the move has not written to the tables. -/
theorem Moves.inserts (h : Moves lib s p k s' (some q)) {task : ScheduledTask}
    (hq : q.Inserts task) :
    (s'.row task.id = s.row task.id ∧ s'.about task.id = s.about task.id) ∧
      (p.Inserts task ∨ task.id ∉ s.issued ∧ Created lib task) := by
  obtain ⟨work, hw, htask⟩ := hq
  generalize ho : some q = o at h
  cases h with
  | @created user body env hd hfresh hc =>
    obtain rfl := Option.some.inj ho
    obtain rfl : hd.work = work := Option.some.inj hw
    have hcreated : Created lib task := ⟨env, user, body, hd, hc, htask⟩
    obtain ⟨trigger, nextRunAt, row, -, -, -, rfl⟩ := createTask_eq_ok hc
    obtain rfl := TaskWrite.insert.inj htask
    exact ⟨⟨rfl, rfl⟩, .inr ⟨hfresh, hcreated⟩⟩
  | handled hc =>
    obtain rfl := Option.some.inj ho
    obtain rfl := Option.some.inj hw
    exact absurd htask ((about_of_handle hc).2 task)
  | committed hc =>
    split at ho
    · exact absurd ho (by simp)
    · obtain rfl := Option.some.inj ho
      exact absurd hw (by simp [Proc.pending])
  | @ran work' job committed now s' hj =>
    split at ho
    · exact absurd ho (by simp)
    · obtain rfl := Option.some.inj ho
      obtain ⟨ht, hh, -⟩ := runJob_frame hj
      rw [Service.row, ht, Service.about, hh]
      refine ⟨⟨rfl, rfl⟩, .inl ⟨work, ?_, htask⟩⟩
      cases committed
      · exact hw
      · exact absurd hw (by simp [Proc.pending])
  | runSent =>
    obtain rfl := Option.some.inj ho
    obtain rfl := Option.some.inj hw
    exact absurd htask (by simp [runWork])
  | @fireSent loaded answer historyId =>
    obtain rfl := Option.some.inj ho
    obtain rfl := Option.some.inj hw
    obtain ⟨row, -, ⟨-, -, hx⟩ | ⟨-, hx⟩⟩ := executed_eq historyId loaded answer.outcome <;>
      rw [hx] at htask
    · exact absurd htask dirty_ne_insert
    · exact absurd htask (by simp)
  | @fireCommitted _ remove =>
    rcases remove with _ | taskId
    · exact absurd ho (by simp)
    · obtain rfl := Option.some.inj ho
      exact absurd hw (by simp [Proc.pending])
  | read | runRead | called | fireRead =>
    obtain rfl := Option.some.inj ho
    exact absurd hw (by simp [Proc.pending])
  | _ => exact absurd ho (by simp)

/-- What holds of the service at any time, whatever happens: the ids of tasks
    have been drawn, and a request that is to insert a row is the only one to
    know its id. -/
structure Sound (lib : Crontab) (s : Pool Service Proc) : Prop where
  ok : ∀ p ∈ s.procs, p.Ok lib
  storable : ∀ id row, s.shared.row id = some row → row.Storable
  row_issued : ∀ id, s.shared.row id ≠ none → id ∈ s.shared.issued
  about_issued : ∀ id, s.shared.about id ≠ [] → id ∈ s.shared.issued
  schedules_issued : ∀ id, s.shared.schedules id ≠ none → id ∈ s.shared.issued
  holds_issued : ∀ p ∈ s.procs, ∀ id, p.holds = some id → id ∈ s.shared.issued
  unborn : ∀ p ∈ s.procs, ∀ task, p.Inserts task →
    s.shared.row task.id = none ∧ s.shared.about task.id = [] ∧
      s.procs.countP (fun q => q.holds = some task.id) = 1

/-- Another process than the one that is to insert a row does not hold it. -/
theorem Sound.not_holds {s : Pool Service Proc} {rest : List Proc} {task : ScheduledTask}
    (h : Sound lib s) (hp : s.procs.Perm (p :: rest)) (hins : p.Inserts task) :
    ∀ q ∈ rest, q.holds ≠ some task.id := by
  have hpmem : p ∈ s.procs := (mem_of_perm_cons hp).2 (.inl rfl)
  have hcount := hp.countP_eq fun q => decide (q.holds = some task.id)
  rw [(h.unborn p hpmem task hins).2.2,
    List.countP_cons_of_pos (by simpa using (h.ok p hpmem).inserts hins)] at hcount
  have hzero : rest.countP (fun q => decide (q.holds = some task.id)) = 0 := by omega
  simpa using List.countP_eq_zero.1 hzero

theorem sound_init : Sound lib ⟨.init, []⟩ where
  ok := by simp
  storable _ _ h := absurd ((Table.find_empty (k := _)).symm.trans h) (Option.some_ne_none _).symm
  row_issued id h := absurd rfl h
  about_issued id h := absurd rfl h
  schedules_issued id h := absurd rfl h
  holds_issued := by simp
  unborn := by simp

theorem Sound.arrive {s s' : Pool Service Proc} {i : Arrival} {o : Option Proc} (h : Sound lib s)
    (ha : arrive lib s.shared i = some (s'.shared, o)) (hprocs : s'.procs = o.toList ++ s.procs) :
    Sound lib s' := by
  -- What arrives holds nothing, and at most advances a schedule that is there.
  obtain ⟨q, rfl, hqok, hq, hqi, ht, hh, hi, hsch⟩ : ∃ q, o = some q ∧ q.Ok lib ∧ q.holds = none ∧
      q.pending = none ∧ s'.shared.tasks = s.shared.tasks ∧ s'.shared.history = s.shared.history ∧
      s'.shared.issued = s.shared.issued ∧
      ∀ id, s'.shared.schedules id ≠ none → s.shared.schedules id ≠ none := by
    cases i with
    | request user request =>
      obtain ⟨hs, rfl⟩ := Prod.mk.inj (Option.some.inj ha)
      exact ⟨_, rfl, trivial, rfl, rfl, hs ▸ rfl, hs ▸ rfl, hs ▸ rfl, fun id => hs ▸ fun h => h⟩
    | fire taskId now coalesced =>
      obtain ⟨⟨f, after⟩, hpick, ha⟩ := Option.map_eq_some_iff.1 ha
      obtain ⟨rfl, rfl⟩ := Prod.mk.inj ha
      obtain ⟨schedule, left, hschedule, -, hafter⟩ := pickUp_eq_some hpick
      refine ⟨_, rfl, trivial, rfl, rfl, by rw [hafter], by rw [hafter], by rw [hafter],
        fun id hid => ?_⟩
      by_cases hne : id = taskId
      · rw [hne, hschedule]
        simp
      · rw [hafter] at hid
        exact fun h => hid ((Function.update_of_ne hne _ _).trans h)
  rw [Option.toList_some, List.singleton_append] at hprocs
  have hmem : ∀ p ∈ s'.procs, p = q ∨ p ∈ s.procs := fun p hp => by
    rwa [hprocs, List.mem_cons] at hp
  refine ⟨fun p hp => ?_, fun id row hrow => ?_, fun id hid => ?_, fun id hid => ?_,
    fun id hid => ?_, fun p hp id hid => ?_, fun p hp task hins => ?_⟩
  · rcases hmem p hp with rfl | hp
    · exact hqok
    · exact h.ok p hp
  · rw [Service.row, ht] at hrow
    exact h.storable id row hrow
  · rw [Service.row, ht] at hid
    exact hi ▸ h.row_issued id hid
  · rw [Service.about, hh] at hid
    exact hi ▸ h.about_issued id hid
  · exact hi ▸ h.schedules_issued id (hsch id hid)
  · rcases hmem p hp with rfl | hp
    · exact absurd (hq.symm.trans hid) (by simp)
    · exact hi ▸ h.holds_issued p hp id hid
  · rcases hmem p hp with rfl | hp
    · obtain ⟨work, hw, -⟩ := hins
      exact absurd (hqi.symm.trans hw) (by simp)
    · obtain ⟨hrow, habout, hcount⟩ := h.unborn p hp task hins
      rw [Service.row, ht, Service.about, hh, hprocs, List.countP_cons, hcount, hq]
      exact ⟨hrow, habout, by simp⟩

theorem Sound.move {s s' : Pool Service Proc} {rest : List Proc} (h : Sound lib s)
    (hm : Moves lib s.shared p k s'.shared o) (hp : s.procs.Perm (p :: rest))
    (hp' : s'.procs.Perm (o.toList ++ rest)) : Sound lib s' := by
  have hpmem : p ∈ s.procs := hp.mem_iff.2 List.mem_cons_self
  have hrest : ∀ q ∈ rest, q ∈ s.procs := fun q hq => hp.mem_iff.2 (List.mem_cons_of_mem _ hq)
  have hpok := h.ok p hpmem
  have hissued := hm.issued_subset
  refine ⟨fun q hq => ?_, fun id row hrow => ?_, fun id hid => ?_, fun id hid => ?_,
    fun id hid => ?_, fun q hq id hid => ?_, fun q hq task hins => ?_⟩
  · rcases (mem_of_perm_toList hp').1 hq with rfl | hq
    · exact hm.ok hpok h.storable
    · exact h.ok q (hrest q hq)
  · exact hm.storable hpok h.storable hrow
  · by_cases hholds : p.holds = some id
    · exact hissued (h.holds_issued p hpmem id hholds)
    · exact hissued (h.row_issued id (by rwa [(hm.frame hpok hholds).1] at hid))
  · by_cases hholds : p.holds = some id
    · exact hissued (h.holds_issued p hpmem id hholds)
    · exact hissued (h.about_issued id (by rwa [(hm.frame hpok hholds).2] at hid))
  · by_cases hholds : p.holds = some id
    · exact hissued (h.holds_issued p hpmem id hholds)
    · rcases hm.schedules hpok hholds with hnone | heq
      · exact absurd hnone hid
      · exact hissued (h.schedules_issued id (heq ▸ hid))
  · rcases (mem_of_perm_toList hp').1 hq with rfl | hq
    · rcases hm.holds hid with hholds | ⟨hrow, -⟩ | ⟨-, hnew⟩
      · exact hissued (h.holds_issued p hpmem id hholds)
      · exact hissued (h.row_issued id hrow)
      · exact hnew
    · exact hissued (h.holds_issued q (hrest q hq) id hid)
  · have hcounts := hp.countP_eq (fun q => decide (q.holds = some task.id))
    rw [List.countP_cons] at hcounts
    rw [countP_of_perm_toList _ hp']
    rcases (mem_of_perm_toList hp').1 hq with rfl | hq
    · -- The process that moved is the one to insert the row.
      have hqholds := (hm.ok hpok h.storable).inserts hins
      obtain ⟨⟨hrow, habout⟩, hold | ⟨hfresh, -⟩⟩ := hm.inserts hins
      · obtain ⟨hrow', habout', hcount⟩ := h.unborn p hpmem task hold
        refine ⟨hrow.trans hrow', habout.trans habout', ?_⟩
        simp only [hpok.inserts hold, decide_true, if_true, hcount] at hcounts
        simp only [Option.toList_some, List.countP_singleton, hqholds, decide_true, if_true]
        omega
      · have hnone : ∀ x ∈ s.procs, ¬x.holds = some task.id := fun x hx hxh =>
          hfresh (h.holds_issued x hx _ hxh)
        refine ⟨?_, ?_, ?_⟩
        · by_contra hne
          exact hfresh (h.row_issued _ (hrow ▸ hne))
        · by_contra hne
          exact hfresh (h.about_issued _ (habout ▸ hne))
        · have hzero : rest.countP (fun x => decide (x.holds = some task.id)) = 0 := by
            rw [List.countP_eq_zero]
            exact fun x hx => by simpa using hnone x (hrest x hx)
          simp [hqholds, hzero]
    · -- Another process is; so the one that moved does not hold its task.
      obtain ⟨hrow, habout, hcount⟩ := h.unborn q (hrest q hq) task hins
      have hqholds := (h.ok q (hrest q hq)).inserts hins
      have hpos : 0 < rest.countP (fun x => decide (x.holds = some task.id)) :=
        List.countP_pos_iff.2 ⟨q, hq, by simpa using hqholds⟩
      have hpholds : ¬p.holds = some task.id := by
        intro hp
        simp only [hp, decide_true, if_true] at hcounts
        omega
      obtain ⟨hrow', habout'⟩ := hm.frame hpok hpholds
      refine ⟨hrow'.trans hrow, habout'.trans habout, ?_⟩
      have ho : o.toList.countP (fun x => decide (x.holds = some task.id)) = 0 := by
        rw [List.countP_eq_zero]
        intro x hx hxh
        obtain rfl := Option.mem_toList.1 hx
        rcases hm.holds (of_decide_eq_true hxh) with hold | ⟨hne, -⟩ | ⟨hfresh, -⟩
        · exact hpholds hold
        · exact hne hrow
        · exact hfresh (h.holds_issued q (hrest q hq) _ hqholds)
      simp only [hpholds, decide_false] at hcounts
      simp at hcounts
      omega

theorem Sound.step {s s' : Pool Service Proc} {a : Act Arrival Choice} (h : Sound lib s)
    (hs : (interleaving lib).step s a = some s') : Sound lib s' := by
  cases Program.moved_of_step hs with
  | arrive ha hprocs => exact h.arrive ha hprocs
  | move _ hm hp hp' => exact h.move (moves_of_move hm) hp hp'

theorem Reachable.sound {s : Service} (h : Reachable lib s) : Sound lib ⟨s, []⟩ := by
  obtain ⟨as, h⟩ := h
  exact h.invariant sound_init fun _ _ _ hI _ hs => hI.step hs

/-! ## What creations and updates keep -/

/-- An arrival writes nothing to the tables, and what arrives has loaded nothing and
    has nothing to commit. -/
theorem arrive_frame {i : Arrival} (h : arrive lib s i = some (s', o)) :
    s'.tasks = s.tasks ∧ s'.history = s.history ∧
      ∀ q, o = some q → (∀ user op task, q ≠ .loaded user op task) ∧ q.pending = none := by
  cases i with
  | request user request =>
    obtain ⟨rfl, rfl⟩ := Prod.mk.inj (Option.some.inj h)
    refine ⟨rfl, rfl, ?_⟩
    intro q hq
    obtain rfl := Option.some.inj hq
    exact ⟨by simp, rfl⟩
  | fire taskId now coalesced =>
    obtain ⟨⟨f, after⟩, hpick, h⟩ := Option.map_eq_some_iff.1 h
    obtain ⟨rfl, rfl⟩ := Prod.mk.inj h
    obtain ⟨schedule, left, -, -, rfl⟩ := pickUp_eq_some hpick
    refine ⟨rfl, rfl, ?_⟩
    intro q hq
    obtain rfl := Option.some.inj hq
    exact ⟨by simp, rfl⟩

/-- `P` holds of the rows, and of those that are to be inserted. -/
structure RowsAre (P : ScheduledTask → Prop) (s : Pool Service Proc) : Prop where
  rows : ∀ id task, s.shared.row id = some task → P task
  inserts : ∀ p ∈ s.procs, ∀ task, p.Inserts task → P task

section

variable {P : ScheduledTask → Prop} (hcreate : ∀ task, Created lib task → P task)
  (hkeep : ∀ (changes : Changes) dbNow task, P task → P (changes.apply dbNow task))

include hcreate hkeep

theorem RowsAre.step {s s' : Pool Service Proc} {a : Act Arrival Choice} (h : RowsAre P s)
    (hs : (interleaving lib).step s a = some s') : RowsAre P s' := by
  cases Program.moved_of_step hs with
  | arrive ha hprocs =>
    obtain ⟨ht, -, hnew⟩ := arrive_frame ha
    refine ⟨fun id task hrow => ?_, fun q hq task hins => ?_⟩
    · rw [Service.row, ht] at hrow
      exact h.rows id task hrow
    · rw [hprocs, List.mem_append, Option.mem_toList] at hq
      rcases hq with hq | hq
      · obtain ⟨work, hw, -⟩ := hins
        exact absurd ((hnew q hq).2.symm.trans hw) (by simp)
      · exact h.inserts q hq task hins
  | @move n k p o rest _ hm hp hp' =>
    have hmoves := moves_of_move hm
    have hmem : p ∈ s.procs := (mem_of_perm_cons hp).2 (.inl rfl)
    refine ⟨?_, fun q hq task hins => ?_⟩
    · rcases hmoves.tables with ⟨ht, -⟩ | ⟨work, dbNow, hw, hc⟩
      · intro id task hrow
        rw [Service.row, ht] at hrow
        exact h.rows id task hrow
      · exact rows_of_commit hc (fun task htask =>
          h.inserts p hmem task ⟨work, hw, htask⟩) hkeep h.rows
    · rcases (mem_of_perm_toList hp').1 hq with rfl | hq
      · rcases (hmoves.inserts hins).2 with hold | ⟨-, hcreated⟩
        · exact h.inserts p hmem task hold
        · exact hcreate task hcreated
      · exact h.inserts q ((mem_of_perm_cons hp).2 (.inr hq)) task hins

/-- What holds of the tasks created, and is kept by updates, holds of the rows in any
    run. -/
theorem rowsAre_of_run {as : List (Act Arrival Choice)} {s : Pool Service Proc}
    (h : (interleaving lib).Run ⟨.init, []⟩ as s) : RowsAre P s := by
  refine h.invariant ⟨fun id task hrow => ?_, by simp⟩ fun _ _ _ hI _ hs => hI.step hcreate hkeep hs
  exact absurd ((Table.find_empty (k := id)).symm.trans hrow) (by simp)

end

/-! ## Requests only -/

/-- A process of a request, not of a fire. -/
def Proc.ofRequest : Proc → Bool
  | .fired _ | .executing _ | .executed _ _ | .removing _ => false
  | _ => true

/-- The action is not a fire. -/
def ofRequests : Act Arrival Choice → Bool
  | .arrive (.fire _ _ _) => false
  | _ => true

/-- The requests alone, under any interleaving. -/
abbrev requestsOnly (lib : Crontab) : System (Pool Service Proc) (Act Arrival Choice) :=
  (interleaving lib).restrict ofRequests

/-- A request goes on as a request. -/
theorem Moves.ofRequest (h : Moves lib s p k s' (some q)) (hp : p.ofRequest = true) :
    q.ofRequest = true := by
  generalize ho : some q = o at h
  cases h with
  | created | handled | read | runRead | called | runSent =>
    obtain rfl := Option.some.inj ho
    rfl
  | committed | ran =>
    split at ho
    · exact absurd ho (by simp)
    · obtain rfl := Option.some.inj ho
      rfl
  | fireRead | fireSent | fireCommitted => exact absurd hp (by simp [Proc.ofRequest])
  | _ => exact absurd ho (by simp)

theorem ofRequest_step {s s' : Pool Service Proc} {a : Act Arrival Choice}
    (h : ∀ p ∈ s.procs, p.ofRequest = true) (ha : ofRequests a = true)
    (hs : (interleaving lib).step s a = some s') : ∀ p ∈ s'.procs, p.ofRequest = true := by
  intro q hq
  cases Program.moved_of_step hs with
  | @arrive i o hi hprocs =>
    rw [hprocs, List.mem_append, Option.mem_toList] at hq
    rcases hq with rfl | hq
    · cases i with
      | request => exact Option.some.inj (Prod.mk.inj (Option.some.inj hi)).2 ▸ rfl
      | fire => exact absurd ha (by simp [ofRequests])
    · exact h q hq
  | move _ hm hp hp' =>
    rcases (mem_of_perm_toList hp').1 hq with rfl | hq
    · exact (moves_of_move hm).ofRequest (h _ ((mem_of_perm_cons hp).2 (.inl rfl)))
    · exact h q ((mem_of_perm_cons hp).2 (.inr hq))

end SchedulerLm
