import SchedulerLm.Base.Table
import SchedulerLm.Models
import Mathlib.Logic.Function.Basic

/-!
# The two stores

The state of the service: the two tables of the database, and the schedules the
scheduler holds, which no transaction spans. A request writes to the database by
the unit of work its session has gathered (`UnitOfWork`), flushed when the session
commits (`commit`), and to the scheduler by a background job (`runJob`).

* An UPDATE sets the columns whose attributes differ from those loaded
  (`dirty`), and `updated_at`; if it matches no row, the flush raises, and the
  transaction is rolled back. A DELETE matching no row is only a warning.
* The flush also raises when a value does not fit its column: the history has an
  INTEGER for the seconds of an interval.
* `register_schedule` replaces the schedule of the task, and
  `unregister_schedule` removes it, if there is one.
-/

namespace SchedulerLm

open Relational

/-- A webhook GET that was sent, for which task, at whose request, and what came
    of it. -/
structure Get where
  userId : UserId
  taskId : TaskId
  source : ExecutionSource
  webhookUrl : String
  parameters : List (String × String)
  outcome : WebhookFireOutcome
  deriving DecidableEq

/-- The state of the service. -/
structure Service where
  /-- The rows of `scheduled_tasks`. -/
  tasks : Table ScheduledTask.id
  /-- The rows of `task_history`, in the order of their commits. -/
  history : List TaskHistoryRow
  /-- The schedules of the scheduler, by their id. -/
  schedules : TaskId → Option Schedule
  /-- The webhook calls sent so far. -/
  sent : List Get
  /-- The ids drawn by `uuid4` so far. -/
  issued : List TaskId

/-- The state before any request. -/
def Service.init : Service := ⟨.empty, [], fun _ => none, [], []⟩

/-- The row with the id `id`. -/
abbrev Service.row (s : Service) (id : TaskId) : Option ScheduledTask := s.tasks.find id

@[simp] theorem row_init (id : TaskId) : Service.init.row id = none := rfl

/-- There is a row with the id `id`, and it is active. -/
def Service.active (s : Service) (id : TaskId) : Bool := (s.row id).any (·.isActive)

/-- The history of a task. -/
def Service.about (s : Service) (id : TaskId) : List TaskHistoryRow :=
  s.history.filter fun row => row.taskId = id

/-- There is a schedule with the id `id`. -/
def Service.scheduled (s : Service) (id : TaskId) : Bool := (s.schedules id).isSome

/-! ## Units of work -/

/-- The columns an UPDATE of a task sets, besides `updated_at`. -/
structure Changes where
  isActive : Option Bool
  nextRunAt : Option (Option Instant)
  deriving DecidableEq

/-- An updated row. -/
def Changes.apply (changes : Changes) (dbNow : Instant) (row : ScheduledTask) : ScheduledTask :=
  { row with
    isActive := changes.isActive.getD row.isActive
    nextRunAt := changes.nextRunAt.getD row.nextRunAt
    updatedAt := dbNow }

/-- What a session does to `scheduled_tasks` when it flushes. -/
inductive TaskWrite
  | nothing
  | insert (row : ScheduledTask)
  | update (id : TaskId) (changes : Changes)
  | delete (id : TaskId)
  deriving DecidableEq

/-- The write of a session whose object was loaded as `loaded` and is now
    `current`: an UPDATE of the columns that differ, if any. -/
def dirty (loaded current : ScheduledTask) : TaskWrite :=
  if loaded.isActive = current.isActive ∧ loaded.nextRunAt = current.nextRunAt then .nothing
  else .update loaded.id
    { isActive := if loaded.isActive = current.isActive then none else some current.isActive
      nextRunAt := if loaded.nextRunAt = current.nextRunAt then none else some current.nextRunAt }

/-- What a session has gathered: its write to `scheduled_tasks`, and the history
    rows it adds. -/
structure UnitOfWork where
  task : TaskWrite := .nothing
  history : List TaskHistory := []
  deriving DecidableEq

/-- The task whose history a unit of work adds to. -/
def UnitOfWork.taskId (work : UnitOfWork) : Option TaskId := work.history.head?.map (·.taskId)

/-- The write to `scheduled_tasks`, unless it raises. -/
def flush (dbNow : Instant) : TaskWrite → Table ScheduledTask.id → Option (Table ScheduledTask.id)
  | .nothing, t => some t
  | .insert row, t => t.insert row
  | .update id changes, t => t.modify id (changes.apply dbNow) fun _ => rfl
  | .delete id, t => some (t.delete id)

/-- The history rows fit their columns. -/
def UnitOfWork.fits (work : UnitOfWork) : Bool := work.history.all (·.fits)

/-- `session.commit()`: the flush and the commit, or `none` when the flush raises
    and everything is rolled back. -/
def commit (dbNow : Instant) (work : UnitOfWork) (s : Service) : Option Service :=
  if work.fits then
    (flush dbNow work.task s.tasks).map fun tasks =>
      { s with
        tasks := tasks
        history := s.history ++ work.history.map fun row => { row with createdAt := dbNow } }
  else none

/-- The task the write is about. -/
def TaskWrite.taskId : TaskWrite → Option TaskId
  | .nothing => none
  | .insert row => some row.id
  | .update id _ => some id
  | .delete id => some id

/-- The activity the write gives to a task, if it gives one. -/
def TaskWrite.sets : TaskWrite → Option (TaskId × Bool)
  | .nothing => none
  | .insert row => some (row.id, row.isActive)
  | .update id changes => changes.isActive.map fun b => (id, b)
  | .delete id => some (id, false)

theorem TaskWrite.taskId_of_sets {write : TaskWrite} {id : TaskId} {b : Bool}
    (h : write.sets = some (id, b)) : write.taskId = some id := by
  cases write with
  | nothing => exact absurd h (by simp [sets])
  | insert row => exact congrArg some (Prod.mk.inj (Option.some.inj h)).1
  | update i changes =>
    obtain ⟨b', -, hb⟩ := Option.map_eq_some_iff.1 h
    exact congrArg some (Prod.mk.inj hb).1
  | delete i => exact congrArg some (Prod.mk.inj (Option.some.inj h)).1

/-! ## Background jobs -/

/-- The background jobs. -/
inductive Job
  | register (task : ScheduledTask)
  | unregister (taskId : TaskId)
  deriving DecidableEq

/-- The task a job is about. -/
def Job.taskId : Job → TaskId
  | .register task => task.id
  | .unregister taskId => taskId

/-- Whether a job puts a schedule. -/
def Job.puts : Job → Bool
  | .register _ => true
  | .unregister _ => false

variable (lib : Crontab)

/-- `register_schedule`, replacing a schedule with the same id. -/
def registerSchedule (now : Instant) (task : ScheduledTask) (s : Service) : Except Exn Service :=
  (buildTriggerFromTask lib now task.triggerType task.triggerConfig).map fun trigger =>
    { s with schedules := Function.update s.schedules task.id (some (.ofTrigger lib trigger)) }

/-- `unregister_schedule`. -/
def unregisterSchedule (taskId : TaskId) (s : Service) : Service :=
  { s with schedules := Function.update s.schedules taskId none }

/-- The background job, run at `now`. -/
def runJob (now : Instant) : Job → Service → Except Exn Service
  | .register task, s => registerSchedule lib now task s
  | .unregister taskId, s => .ok (unregisterSchedule taskId s)

/-! ## What the writes do -/

variable {lib} {now dbNow : Instant} {work : UnitOfWork} {s s' : Service} {id : TaskId}
  {row : ScheduledTask} {changes : Changes}

@[simp] theorem Changes.apply_id : (changes.apply dbNow row).id = row.id := rfl

@[simp] theorem Changes.apply_userId : (changes.apply dbNow row).userId = row.userId := rfl

@[simp] theorem Changes.apply_triggerType :
    (changes.apply dbNow row).triggerType = row.triggerType := rfl

@[simp] theorem Changes.apply_triggerConfig :
    (changes.apply dbNow row).triggerConfig = row.triggerConfig := rfl

@[simp] theorem Changes.apply_isActive :
    (changes.apply dbNow row).isActive = changes.isActive.getD row.isActive := rfl

@[simp] theorem Changes.apply_nextRunAt :
    (changes.apply dbNow row).nextRunAt = changes.nextRunAt.getD row.nextRunAt := rfl

/-- A commit writes to the two tables only. -/
theorem commit_eq_some (h : commit dbNow work s = some s') :
    flush dbNow work.task s.tasks = some s'.tasks ∧
      s'.history = s.history ++ work.history.map (fun row => { row with createdAt := dbNow }) ∧
      s'.schedules = s.schedules ∧ s'.sent = s.sent ∧ s'.issued = s.issued := by
  rw [commit] at h
  split at h
  · obtain ⟨tasks, ht, rfl⟩ := Option.map_eq_some_iff.1 h
    exact ⟨ht, rfl, rfl, rfl, rfl⟩
  · exact absurd h (by simp)

theorem fits_of_commit (h : commit dbNow work s = some s') : work.fits = true := by
  rw [commit] at h
  by_contra hfits
  rw [if_neg hfits] at h
  exact absurd h (by simp)

/-- The row a write to `scheduled_tasks` leaves under an id. -/
def TaskWrite.after (dbNow : Instant) (id : TaskId) (old : Option ScheduledTask) :
    TaskWrite → Option ScheduledTask
  | .nothing => old
  | .insert row => if id = row.id then some row else old
  | .update j changes => if id = j then old.map (changes.apply dbNow) else old
  | .delete j => if id = j then none else old

/-- A commit leaves the rows its write says. -/
theorem row_of_commit (h : commit dbNow work s = some s') (id : TaskId) :
    s'.row id = work.task.after dbNow id (s.row id) := by
  have hf := (commit_eq_some h).1
  cases hw : work.task with
  | nothing =>
    rw [hw, flush, Option.some.injEq] at hf
    rw [Service.row, ← hf, TaskWrite.after]
  | insert row =>
    rw [hw] at hf
    exact Table.find_insert hf id
  | update j changes =>
    rw [hw] at hf
    rw [Service.row, Table.find_modify (fun _ => Changes.apply_id) hf id, TaskWrite.after]
    split
    · rename_i hid
      rw [hid]
    · rfl
  | delete j =>
    rw [hw, flush, Option.some.injEq] at hf
    rw [Service.row, ← hf]
    exact Table.find_delete s.tasks j id

/-- What holds of the rows, and of an inserted one, and is kept by updates, holds of
    the rows a commit leaves. -/
theorem rows_of_commit {P : ScheduledTask → Prop} (h : commit dbNow work s = some s')
    (hinsert : ∀ task, work.task = .insert task → P task)
    (hkeep : ∀ (changes : Changes) dbNow task, P task → P (changes.apply dbNow task))
    (hs : ∀ id task, s.row id = some task → P task) :
    ∀ id task, s'.row id = some task → P task := by
  intro id task hrow
  rw [row_of_commit h] at hrow
  cases htask : work.task with
  | nothing => exact hs id task (by rwa [htask] at hrow)
  | insert inserted =>
    rw [htask, TaskWrite.after] at hrow
    split at hrow
    · exact Option.some.inj hrow ▸ hinsert _ htask
    · exact hs id task hrow
  | update j changes =>
    rw [htask, TaskWrite.after] at hrow
    split at hrow
    · obtain ⟨old, hold, rfl⟩ := Option.map_eq_some_iff.1 hrow
      exact hkeep changes dbNow old (hs id old hold)
    · exact hs id task hrow
  | delete j =>
    rw [htask, TaskWrite.after] at hrow
    split at hrow
    · exact absurd hrow (by simp)
    · exact hs id task hrow

/-- A commit raises when a history row does not fit, or else when it inserts an id
    that is present, or updates a row that is gone. -/
theorem commit_eq_none : commit dbNow work s = none ↔ work.fits = true →
    (∃ row, work.task = .insert row ∧ s.row row.id ≠ none) ∨
      ∃ id changes, work.task = .update id changes ∧ s.row id = none := by
  rw [commit]
  by_cases hfits : work.fits = true
  swap
  · simp [hfits]
  rw [if_pos hfits, Option.map_eq_none_iff, forall_prop_of_true hfits]
  cases work.task with
  | nothing => simp [flush]
  | insert row => simp [flush, Table.insert_eq_none]
  | update id changes => simpa [flush] using Table.modify_eq_none fun _ => Changes.apply_id
  | delete id => simp [flush]

/-- A commit changes nothing about tasks its unit of work is not about. -/
theorem commit_frame (h : commit dbNow work s = some s') (hwrite : work.task.taskId ≠ some id)
    (hrows : ∀ row ∈ work.history, row.taskId ≠ id) :
    s'.row id = s.row id ∧ s'.about id = s.about id := by
  constructor
  · rw [row_of_commit h]
    cases hw : work.task with
    | nothing => rfl
    | insert row => exact if_neg fun hid => hwrite (by rw [hw, hid]; rfl)
    | update j changes => exact if_neg fun hid => hwrite (by rw [hw, hid]; rfl)
    | delete j => exact if_neg fun hid => hwrite (by rw [hw, hid]; rfl)
  · rw [Service.about, Service.about, (commit_eq_some h).2.1, List.filter_append,
      List.append_right_eq_self, List.filter_eq_nil_iff]
    intro row hrow
    obtain ⟨added, hadded, rfl⟩ := List.mem_map.1 hrow
    simpa using hrows added hadded

/-- A commit gives a task the activity its write sets. -/
theorem active_of_commit (h : commit dbNow work s = some s') (id : TaskId) :
    s'.active id = work.task.sets.elim (s.active id) fun set =>
      if id = set.1 then set.2 else s.active id := by
  rw [Service.active, row_of_commit h]
  cases hw : work.task with
  | nothing => rfl
  | insert row =>
    by_cases hid : id = row.id <;> simp [TaskWrite.after, TaskWrite.sets, hid, Service.active]
  | update j changes =>
    by_cases hid : id = j
    · subst hid
      -- The row is there, or the update would have raised.
      obtain ⟨row, hrow⟩ : ∃ row, s.row id = some row := by
        rw [← Option.ne_none_iff_exists']
        intro hnone
        rw [commit_eq_none.2 fun _ => .inr ⟨id, changes, hw, hnone⟩] at h
        exact absurd h (by simp)
      rcases hc : changes.isActive with _ | b <;>
        simp [TaskWrite.after, TaskWrite.sets, hrow, hc, Service.active]
    · rcases hc : changes.isActive with _ | b <;>
        simp [TaskWrite.after, TaskWrite.sets, hid, hc, Service.active]
  | delete j =>
    by_cases hid : id = j <;> simp [TaskWrite.after, TaskWrite.sets, hid, Service.active]

/-- A commit that inserts no present id and updates no missing row raises only when a
    history row does not fit. -/
theorem commit_eq_none_iff_not_fits (hinsert : ∀ row, work.task = .insert row → s.row row.id = none)
    (hupdate : ∀ id changes, work.task = .update id changes → s.row id ≠ none) :
    commit dbNow work s = none ↔ ¬work.fits = true := by
  rw [commit_eq_none]
  refine forall_congr' fun _ => iff_false_intro ?_
  rintro (⟨row, htask, hrow⟩ | ⟨id, changes, htask, hrow⟩)
  · exact hrow (hinsert row htask)
  · exact hupdate id changes htask hrow

/-- Registering a schedule changes nothing else. -/
theorem registerSchedule_eq_ok {task : ScheduledTask}
    (h : registerSchedule lib now task s = .ok s') :
    ∃ trigger, buildTriggerFromTask lib now task.triggerType task.triggerConfig = .ok trigger ∧
      s' = { s with
        schedules := Function.update s.schedules task.id (some (.ofTrigger lib trigger)) } := by
  obtain ⟨trigger, hb, rfl⟩ := Raising.map_eq_ok.1 h
  exact ⟨trigger, hb, rfl⟩

/-- A background job changes nothing but the schedule of its task. -/
theorem runJob_frame {job : Job} (h : runJob lib now job s = .ok s') :
    s'.tasks = s.tasks ∧ s'.history = s.history ∧ s'.sent = s.sent ∧ s'.issued = s.issued ∧
      ∀ id, id ≠ job.taskId → s'.schedules id = s.schedules id := by
  cases job with
  | register task =>
    obtain ⟨trigger, _, rfl⟩ := registerSchedule_eq_ok h
    exact ⟨rfl, rfl, rfl, rfl, fun id hid => Function.update_of_ne hid _ _⟩
  | unregister taskId =>
    obtain rfl := Except.ok.inj h
    exact ⟨rfl, rfl, rfl, rfl, fun id hid => Function.update_of_ne hid _ _⟩

/-- A background job puts or removes the schedule of its task. -/
theorem scheduled_of_runJob {job : Job} (h : runJob lib now job s = .ok s') (id : TaskId) :
    s'.scheduled id = if id = job.taskId then job.puts else s.scheduled id := by
  by_cases hid : id = job.taskId
  · subst hid
    rw [if_pos rfl]
    cases job with
    | register task =>
      obtain ⟨trigger, _, rfl⟩ := registerSchedule_eq_ok h
      simp [Job.taskId, Job.puts, Service.scheduled]
    | unregister taskId =>
      obtain rfl := Except.ok.inj h
      simp [Job.taskId, Job.puts, Service.scheduled, unregisterSchedule]
  · rw [if_neg hid, Service.scheduled, (runJob_frame h).2.2.2.2 id hid]
    rfl

end SchedulerLm
