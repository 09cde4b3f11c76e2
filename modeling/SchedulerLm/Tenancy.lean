import SchedulerLm.Base.Observer
import SchedulerLm.Tasks

/-!
# Tenants

What a user sees of the service: the rows of the two tables that belong to the user,
and the schedules of the tasks the user has created (`Service.tenant`). This view is
a state of the service itself, in which there is nobody else. The requests of the
user, and the executions of the user's tasks, act on it as they act on the whole
service, and everything else leaves it as it is (`separates`): so what the others do
does not matter to the user (`tenant_noninterference`).

Only the owner's session finds the row of a task, and the two executors, which are
not restricted to a user, take the owner from the row.
-/

namespace SchedulerLm

open Transition Relational

/-- The service as far as it concerns the user `u`, who has created the tasks `ids`. -/
def Service.tenant (u : UserId) (ids : List TaskId) (s : Service) : Service where
  tasks := s.tasks.filter fun task => task.userId = u
  history := s.history.filter fun row => row.userId = u
  schedules id := if id ∈ ids then s.schedules id else none
  sent := s.sent.filter fun get => get.userId = u
  issued := ids

/-- The user `u`, who makes some requests, and knows the ids of the tasks these
    create: the executions of these tasks are seen as well. -/
def tenantObserver (u : UserId) : Observer (List TaskId) Event where
  sees ids
    | .request user _ _ => user.userId = u
    | .query user _ _ => user.userId = u
    | .execute taskId _ => taskId ∈ ids
  learn ids
    | .request _ (.create _) turn => turn.taskId :: ids
    | _ => ids

/-- What an event answers to who makes it. -/
inductive Received
  | written (response : Except Failure Response)
  | read (response : Except Failure QueryResponse)
  | nothing

/-- The answer to an event in the state `s`. -/
def received (lib : Crontab) (s : Service) : Event → Received
  | .request user request turn => .written (respond lib turn user request s)
  | .query user query env => .read (query.answer lib env user s)
  | .execute _ _ => .nothing

/-- The rows of the tasks `ids`, and these rows only, belong to the user `u`. -/
structure Owned (u : UserId) (ids : List TaskId) (s : Service) : Prop where
  issued : ids ⊆ s.issued
  row : ∀ id task, s.row id = some task → (task.userId = u ↔ id ∈ ids)
  history : ∀ row ∈ s.history, row.userId = u ↔ row.taskId ∈ ids

/-- The unit of work, and the job, are the user `v`'s, on a task that is one of `ids`
    iff `v` is the user `u`. -/
structure Within (u : UserId) (ids : List TaskId) (s : Service) (v : UserId) (work : UnitOfWork)
    (job : Option Job) : Prop where
  history : ∀ row ∈ work.history, row.userId = v ∧ (row.taskId ∈ ids ↔ v = u)
  task : ∀ id, work.task.taskId = some id → (id ∈ ids ↔ v = u)
  insert : ∀ row, work.task = .insert row → row.userId = v ∧ s.row row.id = none
  job : ∀ j, job = some j → (j.taskId ∈ ids ↔ v = u)

variable {lib : Crontab} {s s' t : Service} {u v : UserId} {ids : List TaskId} {id : TaskId}
  {user : CurrentUser} {turn : Turn} {work : UnitOfWork} {job : Option Job} {dbNow now : Instant}
  {h : Handled}

/-! ## The view -/

theorem tenant_congr
    (ht : t.tasks.filter (fun task => task.userId = u) = s.tasks.filter fun task => task.userId = u)
    (hh : (t.history.filter fun row => row.userId = u) = s.history.filter fun row => row.userId = u)
    (hschedules : ∀ id ∈ ids, t.schedules id = s.schedules id)
    (hsent : (t.sent.filter fun get => get.userId = u) = s.sent.filter fun get => get.userId = u) :
    t.tenant u ids = s.tenant u ids := by
  rw [Service.tenant, Service.tenant, ht, hh, hsent]
  congr 1
  funext id
  by_cases hid : id ∈ ids
  · rw [if_pos hid, if_pos hid, hschedules id hid]
  · rw [if_neg hid, if_neg hid]

theorem row_tenant (hrow : ∀ task, s.row id = some task → task.userId = u) :
    (s.tenant u ids).row id = s.row id :=
  Table.find_filter_of_forall fun task h => decide_eq_true (hrow task h)

/-- The user's session sees the same rows in the view. -/
theorem seenBy_tenant (huser : user.userId = u) : (s.tenant u ids).seenBy user = s.seenBy user := by
  subst huser
  simp only [Service.seenBy, applyUserScope_user, Service.tenant, Table.rows_filter,
    List.filter_filter, Bool.and_self]

theorem schedules_tenant (hid : id ∈ ids) : (s.tenant u ids).schedules id =
    s.schedules id := if_pos hid

theorem Owned.congr (hI : Owned u ids s) (ht : t.tasks = s.tasks) (hh : t.history = s.history)
    (hi : t.issued = s.issued) : Owned u ids t where
  issued := hi ▸ hI.issued
  row id task hrow := hI.row id task (by rwa [Service.row, ht] at hrow)
  history row hrow := hI.history row (hh ▸ hrow)

theorem Within.congr (hw : Within u ids s v work job) (ht : t.tasks = s.tasks) :
    Within u ids t v work job where
  history := hw.history
  task := hw.task
  insert row htask := by
    rw [Service.row, ht]
    exact hw.insert row htask
  job := hw.job

/-! ## Commits -/

/-- The row a unit of work is about belongs to its user. -/
theorem Within.owner (hw : Within u ids s v work job) (hI : Owned u ids s)
    (hid : work.task.taskId = some id) {task : ScheduledTask} (hrow : s.row id = some task) :
    task.userId = u ↔ v = u :=
  (hI.row id task hrow).trans (hw.task id hid)

theorem flush_tenant {tasks : Table ScheduledTask.id} (hI : Owned u ids s)
    (hw : Within u ids s u work job) (hflush : flush dbNow work.task s.tasks = some tasks) :
    flush dbNow work.task (s.tasks.filter fun task => task.userId = u) =
      some (tasks.filter fun task => task.userId = u) := by
  have howner : ∀ id, work.task.taskId = some id → ∀ task, s.row id = some task →
      decide (task.userId = u) = true := fun id hid task hrow =>
    decide_eq_true ((hw.owner hI hid hrow).2 rfl)
  cases htask : work.task with
  | nothing =>
    rw [htask] at hflush
    obtain rfl := Option.some.inj hflush
    rfl
  | insert row =>
    rw [htask] at hflush
    exact Table.insert_filter hflush (decide_eq_true (hw.insert row htask).1)
  | update id changes =>
    rw [htask] at hflush
    exact Table.modify_filter (fun _ => Changes.apply_id)
      (fun _ => by rw [Changes.apply_userId]) hflush
      (howner id (by rw [htask]; rfl))
  | delete id =>
    rw [htask] at hflush
    obtain rfl := Option.some.inj hflush
    exact congrArg some (Table.filter_delete _ _).symm

/-- The user's commit is one on the view. -/
theorem commit_tenant (hI : Owned u ids s) (hw : Within u ids s u work job) (dbNow : Instant) :
    commit dbNow work (s.tenant u ids) = (commit dbNow work s).map (·.tenant u ids) := by
  rcases hc : commit dbNow work s with _ | s'
  · refine commit_eq_none.2 fun hfits => ?_
    rcases commit_eq_none.1 hc hfits with ⟨row, htask, hrow⟩ | ⟨id, changes, htask, hrow⟩
    · exact absurd (hw.insert row htask).2 hrow
    · refine .inr ⟨id, changes, htask, Table.find_filter_eq_none fun task h => ?_⟩
      exact absurd (hrow.symm.trans h) (by simp)
  · obtain ⟨hflush, hhistory, hschedules, hsent, hissued⟩ := commit_eq_some hc
    have hadded :
        ((work.history.map fun row => ({ row with createdAt := dbNow } : TaskHistoryRow)).filter
        fun row => row.userId = u) = work.history.map fun row =>
          { row with createdAt := dbNow } := by
      refine List.filter_eq_self.2 fun row hrow => ?_
      obtain ⟨added, hadded, rfl⟩ := List.mem_map.1 hrow
      exact decide_eq_true (hw.history added hadded).1
    rw [commit, if_pos (fits_of_commit hc)]
    simp only [Service.tenant, flush_tenant hI hw hflush, hhistory, hschedules, hsent,
      List.filter_append, hadded, Option.map_some]

/-- A commit of another user leaves the view. -/
theorem tenant_of_commit (hI : Owned u ids s) (hw : Within u ids s v work job) (hv : v ≠ u)
    (hc : commit dbNow work s = some s') : s'.tenant u ids = s.tenant u ids := by
  obtain ⟨hflush, hhistory, hschedules, hsent, -⟩ := commit_eq_some hc
  have howner : ∀ id, work.task.taskId = some id → ∀ task, s.row id = some task →
      decide (task.userId = u) = false := fun id hid task hrow =>
    decide_eq_false fun h => hv ((hw.owner hI hid hrow).1 h)
  refine tenant_congr ?_ ?_ (fun id _ => by rw [hschedules]) (by rw [hsent])
  · cases htask : work.task with
    | nothing =>
      rw [htask] at hflush
      rw [← Option.some.inj hflush]
    | insert row =>
      rw [htask] at hflush
      exact Table.filter_of_insert hflush
        (decide_eq_false fun h => hv ((hw.insert row htask).1.symm.trans h))
    | update id changes =>
      rw [htask] at hflush
      exact Table.filter_of_modify (fun _ => Changes.apply_id)
        (fun _ => by rw [Changes.apply_userId]) hflush
        (howner id (by rw [htask]; rfl))
    | delete id =>
      rw [htask] at hflush
      rw [← Option.some.inj hflush]
      exact Table.filter_of_delete (howner id (by rw [htask]; rfl))
  · rw [hhistory, List.filter_append, List.append_right_eq_self, List.filter_eq_nil_iff]
    intro row hrow
    obtain ⟨added, hadded, rfl⟩ := List.mem_map.1 hrow
    simpa [(hw.history added hadded).1] using hv

/-- A commit keeps rows with their owners. -/
theorem Owned.of_commit (hI : Owned u ids s) (hw : Within u ids s v work job)
    (hc : commit dbNow work s = some s') : Owned u ids s' where
  issued := (commit_eq_some hc).2.2.2.2 ▸ hI.issued
  row id task hrow := by
    rw [row_of_commit hc] at hrow
    cases htask : work.task with
    | nothing => exact hI.row id task (by rwa [htask] at hrow)
    | insert row =>
      rw [htask, TaskWrite.after] at hrow
      split at hrow
      · rename_i hid
        obtain rfl := Option.some.inj hrow
        rw [(hw.insert row htask).1, hid]
        exact (hw.task row.id (by rw [htask]; rfl)).symm
      · exact hI.row id task hrow
    | update j changes =>
      rw [htask, TaskWrite.after] at hrow
      split at hrow
      · obtain ⟨old, hold, rfl⟩ := Option.map_eq_some_iff.1 hrow
        exact hI.row id old hold
      · exact hI.row id task hrow
    | delete j =>
      rw [htask, TaskWrite.after] at hrow
      split at hrow
      · exact absurd hrow (by simp)
      · exact hI.row id task hrow
  history row hrow := by
    rw [(commit_eq_some hc).2.1, List.mem_append] at hrow
    rcases hrow with hrow | hrow
    · exact hI.history row hrow
    · obtain ⟨added, hadded, rfl⟩ := List.mem_map.1 hrow
      obtain ⟨howner, hid⟩ := hw.history added hadded
      rw [hid]
      exact ⟨fun h => howner.symm.trans h, fun h => howner.trans h⟩

/-! ## Jobs -/

/-- A schedule of the user put in the view. -/
theorem update_tenant (hid : id ∈ ids) (schedule : Option Schedule) :
    { s.tenant u ids with schedules := Function.update (s.tenant u ids).schedules id schedule } =
      ({ s with schedules := Function.update s.schedules id schedule } : Service).tenant u ids := by
  have hupdate : Function.update (fun j => if j ∈ ids then s.schedules j else none) id schedule =
      fun j => if j ∈ ids then Function.update s.schedules id schedule j else none := by
    funext j
    by_cases hj : j = id
    · subst hj
      rw [Function.update_self, Function.update_self, if_pos hid]
    · rw [Function.update_of_ne hj, Function.update_of_ne hj]
  simp only [Service.tenant, hupdate]

/-- The user's job is one on the view. -/
theorem runJob_tenant {job : Job} (hid : job.taskId ∈ ids) :
    runJob lib now job (s.tenant u ids) = (runJob lib now job s).map (·.tenant u ids) := by
  cases job with
  | register task =>
    rw [runJob, runJob, registerSchedule, registerSchedule]
    rcases buildTriggerFromTask lib now task.triggerType task.triggerConfig with e | trigger
    · rfl
    · exact congrArg Except.ok (update_tenant hid _)
  | unregister taskId => exact congrArg Except.ok (update_tenant hid _)

/-- A job of another user leaves the view. -/
theorem tenant_of_runJob {job : Job} (hid : job.taskId ∉ ids) (hj : runJob lib now job s = .ok s') :
    s'.tenant u ids = s.tenant u ids := by
  obtain ⟨ht, hh, hsent, -, hschedules⟩ := runJob_frame hj
  exact tenant_congr (by rw [ht]) (by rw [hh])
    (fun id hmem => hschedules id fun h => hid (h ▸ hmem)) (by rw [hsent])

/-! ## What a handler leaves -/

theorem tryJob_eq_some (hj : tryJob lib none now job s = some s') :
    (job = none ∧ s' = s) ∨ ∃ j, job = some j ∧ runJob lib now j s = .ok s' := by
  rcases job with _ | j
  · exact .inl ⟨rfl, (Option.some.inj hj).symm⟩
  · refine .inr ⟨j, rfl, ?_⟩
    rw [tryJob, if_neg (by simp)] at hj
    rcases hr : runJob lib now j s with e | t <;> rw [hr] at hj
    · exact absurd hj (by simp [Except.toOption])
    · rw [Option.some.inj hj]

/-- What one commit and one job keep holds of what a handler leaves. -/
theorem finish_keeps {P : Service → Prop} (hs : P s)
    (hjob : ∀ t t' job, P t → h.job = some job → runJob lib turn.jobNow job t = .ok t' → P t')
    (hcommit : ∀ t t', P t → t.tasks = s.tasks → commit turn.dbNow h.work t = some t' → P t') :
    P (finish lib none turn h s) := by
  have htryJob : ∀ t t', P t → tryJob lib none turn.jobNow h.job t = some t' →
      P t' ∧ t'.tasks = t.tasks := by
    intro t t' ht hj
    rcases tryJob_eq_some hj with ⟨-, rfl⟩ | ⟨job, hsome, hr⟩
    · exact ⟨ht, rfl⟩
    · exact ⟨hjob t t' job ht hsome hr, (runJob_frame hr).1⟩
  rw [finish]
  split
  · rcases hj : tryJob lib none turn.jobNow h.job s with _ | sj
    · exact hs
    · obtain ⟨hsj, ht⟩ := htryJob s sj hs hj
      rcases hc : tryCommit none turn.dbNow h.work sj with _ | sjc
      · simpa [hc] using hsj
      · simpa [hc] using hcommit sj sjc hsj ht hc
  · rcases hc : tryCommit none turn.dbNow h.work s with _ | sc
    · exact hs
    · have hsc := hcommit s sc hs rfl hc
      rcases hj : tryJob lib none turn.jobNow h.job sc with _ | scj
      · simpa [hj] using hsc
      · simpa [hj] using (htryJob sc scj hsc hj).1

/-- What a handler leaves keeps rows with their owners. -/
theorem Owned.of_finish (hI : Owned u ids s) (hw : Within u ids s v h.work h.job) :
    Owned u ids (finish lib none turn h s) := by
  refine finish_keeps hI (fun t t' job hI _ hj => ?_) fun t t' hI ht hc =>
    hI.of_commit (hw.congr ht) hc
  obtain ⟨ht, hh, -, hi, -⟩ := runJob_frame hj
  exact hI.congr ht hh hi

/-- What the handler of another user leaves has the same view. -/
theorem tenant_of_finish (hI : Owned u ids s) (hw : Within u ids s v h.work h.job) (hv : v ≠ u) :
    (finish lib none turn h s).tenant u ids = s.tenant u ids := by
  refine (finish_keeps (P := fun t => t.tenant u ids = s.tenant u ids ∧ Owned u ids t) ⟨rfl, hI⟩
    (fun t t' job ht hsome hj => ?_) fun t t' ht htasks hc => ?_).1
  · obtain ⟨htasks, hh, -, hi, -⟩ := runJob_frame hj
    exact ⟨(tenant_of_runJob (fun h => hv ((hw.job job hsome).1 h)) hj).trans ht.1,
      ht.2.congr htasks hh hi⟩
  · exact ⟨(tenant_of_commit ht.2 (hw.congr htasks) hv hc).trans ht.1,
      ht.2.of_commit (hw.congr htasks) hc⟩

/-- What the user's handler leaves, in the view. -/
theorem finish_tenant (hI : Owned u ids s) (hw : Within u ids s u h.work h.job) :
    finish lib none turn h (s.tenant u ids) = (finish lib none turn h s).tenant u ids := by
  have htryJob : ∀ t : Service, tryJob lib none turn.jobNow h.job (t.tenant u ids) =
      (tryJob lib none turn.jobNow h.job t).map (·.tenant u ids) := by
    intro t
    rcases hsome : h.job with _ | job
    · rfl
    · rw [tryJob, tryJob, if_neg (by simp), if_neg (by simp),
        runJob_tenant ((hw.job job hsome).2 rfl)]
      rcases runJob lib turn.jobNow job t <;> rfl
  have htryCommit : ∀ t : Service, t.tasks = s.tasks → t.history = s.history → t.issued = s.issued →
      tryCommit none turn.dbNow h.work (t.tenant u ids) =
        (tryCommit none turn.dbNow h.work t).map (·.tenant u ids) := fun t ht hh hi =>
    commit_tenant (hI.congr ht hh hi) (hw.congr ht) _
  rw [finish, finish]
  split
  · rw [htryJob]
    rcases hj : tryJob lib none turn.jobNow h.job s with _ | sj
    · rfl
    · obtain ⟨ht, hh, hi⟩ : sj.tasks = s.tasks ∧ sj.history = s.history ∧ sj.issued = s.issued := by
        rcases tryJob_eq_some hj with ⟨-, rfl⟩ | ⟨job, -, hr⟩
        · exact ⟨rfl, rfl, rfl⟩
        · obtain ⟨ht, hh, -, hi, -⟩ := runJob_frame hr
          exact ⟨ht, hh, hi⟩
      dsimp only [Option.map_some]
      rw [htryCommit sj ht hh hi]
      rcases tryCommit none turn.dbNow h.work sj <;> rfl
  · rw [htryCommit s rfl rfl rfl]
    rcases hc : tryCommit none turn.dbNow h.work s with _ | sc
    · rfl
    · dsimp only [Option.map_some]
      rw [htryJob]
      rcases tryJob lib none turn.jobNow h.job sc <;> rfl

/-! ## Requests -/

/-- What a request has gathered belongs to its user. -/
theorem Gathered.userId (hg : Gathered lib v work job) :
    (∀ row ∈ work.history, row.userId = v) ∧ ∀ row, work.task = .insert row → row.userId = v := by
  cases hg with
  | nothing => exact ⟨by simp, by simp⟩
  | create howner _ _ hrow =>
    refine ⟨fun row hmem => ?_, fun row htask => TaskWrite.insert.inj htask ▸ howner⟩
    exact List.mem_singleton.1 hmem ▸ (records_recordSnapshot hrow).2.1
  | activate _ _ _ hrow =>
    exact ⟨fun row hmem => List.mem_singleton.1 hmem ▸ hrow.2.1, fun row htask =>
      absurd htask dirty_ne_insert⟩
  | deactivate _ _ hrow =>
    exact ⟨fun row hmem => List.mem_singleton.1 hmem ▸ hrow.2.1, fun row htask =>
      absurd htask dirty_ne_insert⟩
  | delete _ hrow =>
    refine ⟨fun row hmem => ?_, by simp⟩
    exact List.mem_singleton.1 hmem ▸ (records_recordSnapshot hrow).2.1
  | run hrow => exact ⟨fun row hmem => List.mem_singleton.1 hmem ▸ hrow.2.1, by simp⟩

theorem within_of_gathered (hg : Gathered lib v work job)
    (hid : ∀ id, work.taskId = some id → (id ∈ ids ↔ v = u))
    (hinsert : ∀ row, work.task = .insert row → s.row row.id = none) :
    Within u ids s v work job where
  history row hrow := ⟨hg.userId.1 row hrow, hid _ (hg.about.1 row hrow)⟩
  task id htask := hid id (hg.about.2.1 id htask)
  insert row htask := ⟨hg.userId.2 row htask, hinsert row htask⟩
  job j hj := hid _ (hg.about.2.2 j hj)

/-- The handler of an operation gathers what is its user's. -/
theorem within_handle {op : TaskOp} {taskId : TaskId} (hI : Owned u ids s)
    (hh : (Request.task op taskId).handle lib turn user s = .ok h) :
    Within u ids s user.userId h.work h.job := by
  obtain ⟨task, hload, hhandle⟩ := Raising.bind_eq_ok.1 hh
  obtain ⟨hrow, howner⟩ := getTaskOr404_eq_ok.1 hload
  obtain rfl : task.id = taskId := Table.key_of_find hrow
  refine within_of_gathered (gathered_handle howner hhandle) (fun id hid => ?_) fun row htask =>
    absurd htask ((about_of_handle hhandle).2 row)
  rw [← (about_of_handle hhandle).1 id hid, ← howner]
  exact (hI.row _ task hrow).symm

/-- The handler of a creation gathers what is its user's, on the new task. -/
theorem within_createTask {body : TaskCreate} (hrow : s.row turn.taskId = none)
    (hids : turn.taskId ∈ ids ↔ user.userId = u)
    (hh : createTask lib turn.toEnv user body = .ok h) :
    Within u ids s user.userId h.work h.job := by
  have hg := gathered_createTask hh
  obtain ⟨trigger, nextRunAt, row, -, -, hr, rfl⟩ := createTask_eq_ok hh
  refine within_of_gathered hg (fun id hid => ?_) fun row htask => ?_
  · obtain rfl : turn.taskId = id := (records_recordSnapshot hr).2.2.symm.trans
      (Option.some.inj hid)
    exact hids
  · obtain rfl := TaskWrite.insert.inj htask
    exact hrow

theorem send_tenant {get : Get} (hget : get.userId = u) :
    (s.send get).tenant u ids = (s.tenant u ids).send get := by
  simp [Service.send, Service.tenant, List.filter_append, hget]

theorem tenant_of_send {get : Get} (hget : get.userId ≠ u) :
    (s.send get).tenant u ids = s.tenant u ids :=
  tenant_congr rfl rfl (fun _ _ => rfl) (by simp [Service.send, List.filter_append, hget])

theorem Owned.of_send (hI : Owned u ids s) (get : Get) : Owned u ids (s.send get) :=
  hI.congr rfl rfl rfl

/-- The state in which the handler of a creation runs. -/
def Service.issue (id : TaskId) (s : Service) : Service := { s with issued := id :: s.issued }

/-- The new id is the user's if the user is the one who creates the task. -/
theorem Owned.of_issue (hI : Owned u ids s) (hsound : Sound lib ⟨s, []⟩) (hfresh : id ∉ s.issued) :
    Owned u ids (s.issue id) ∧ Owned u (id :: ids) (s.issue id) := by
  refine ⟨⟨fun i hi => List.mem_cons_of_mem _ (hI.issued hi), hI.row, hI.history⟩,
    ⟨List.cons_subset_cons _ hI.issued, fun i task hrow => ?_, fun row hrow => ?_⟩⟩
  · have hne : i ≠ id := by
      rintro rfl
      exact hfresh (hsound.row_issued i (by rw [show s.row i = some task from hrow]; simp))
    rw [hI.row i task hrow, List.mem_cons, or_iff_right hne]
  · have hne : row.taskId ≠ id := by
      rintro rfl
      refine hfresh (hsound.about_issued _ (List.ne_nil_of_mem (a := row) ?_))
      exact List.mem_filter.2 ⟨hrow, decide_eq_true rfl⟩
    rw [hI.history row hrow, List.mem_cons, or_iff_right hne]

/-- The view of the user who creates a task, when its id has been drawn. -/
theorem issue_tenant (hsound : Sound lib ⟨s, []⟩) (hfresh : id ∉ s.issued) :
    (s.tenant u ids).issue id = (s.issue id).tenant u (id :: ids) := by
  have hschedule : s.schedules id = none := by
    by_contra hne
    exact hfresh (hsound.schedules_issued id hne)
  have hschedules : (fun i => if i ∈ ids then s.schedules i else none) =
      fun i => if i ∈ id :: ids then s.schedules i else none := by
    funext i
    by_cases hi : i = id
    · simp [hi, hschedule]
    · simp [hi]
  simp only [Service.issue, Service.tenant, hschedules]

/-- What a manual run records is its user's, and its GET is one for its user. -/
theorem within_runTask {taskId : TaskId} {task target : ScheduledTask} (hI : Owned u ids s)
    (hr : runTask turn user taskId s = .ok (task, target, work)) :
    target.userId = user.userId ∧ ∀ get, Within u ids (s.send get) user.userId work none := by
  obtain ⟨hload, htarget, rfl⟩ := runTask_eq_ok.1 hr
  obtain ⟨hrow, howner⟩ := getTaskOr404_eq_ok.1 hload
  obtain rfl : task.id = taskId := Table.key_of_find hrow
  obtain rfl := Option.some.inj (hrow.symm.trans htarget)
  have hg :
      Gathered .never user.userId (runWork turn.historyId user task turn.answer.outcome) none :=
    .run ⟨rfl, rfl, rfl⟩
  refine ⟨howner, fun get => within_of_gathered hg (fun id hid => ?_) (by simp [runWork])⟩
  obtain rfl := Option.some.inj hid
  rw [← howner]
  exact (hI.row _ task hrow).symm

theorem serve_create_eq (body : TaskCreate) (s : Service) :
    serve lib none turn user (.create body) s =
      match createTask lib turn.toEnv user body with
      | .error _ => s.issue turn.taskId
      | .ok h => finish lib none turn h (s.issue turn.taskId) := by
  rcases hc : createTask lib turn.toEnv user body with e | h <;>
    simp [serve, Request.handle, Service.issue, hc]

theorem serve_task_eq (op : TaskOp) (taskId : TaskId) (s : Service) :
    serve lib none turn user (.task op taskId) s =
      match (Request.task op taskId).handle lib turn user s with
      | .error _ => s
      | .ok h => finish lib none turn h s := by
  rcases hh : (Request.task op taskId).handle lib turn user s with e | h <;> simp [serve, hh]

theorem serve_run_eq (taskId : TaskId) (s : Service) :
    serve lib none turn user (.run taskId) s =
      match runTask turn user taskId s with
      | .error _ => s
      | .ok (_, target, work) =>
        let s' := s.send (fireTaskWebhook .manual target turn.answer)
        (commit turn.dbNow work s').getD s' := by
  rcases hr : runTask turn user taskId s with e | r <;> simp [serve, tryCommit, hr]

theorem handle_tenant {op : TaskOp} {taskId : TaskId} (huser : user.userId = u) :
    (Request.task op taskId).handle lib turn user (s.tenant u ids) =
      (Request.task op taskId).handle lib turn user s := by
  rw [Request.handle, Request.handle, getTaskOr404_congr (seenBy_tenant huser)]

theorem runTask_tenant {taskId : TaskId} (huser : user.userId = u) :
    runTask turn user taskId (s.tenant u ids) = runTask turn user taskId s := by
  rw [runTask, runTask, getTaskOr404_congr (seenBy_tenant huser)]
  rcases hload : getTaskOr404 user taskId s with e | task
  · rfl
  · obtain ⟨hrow, howner⟩ := getTaskOr404_eq_ok.1 hload
    obtain rfl : task.id = taskId := Table.key_of_find hrow
    have hsame : (s.tenant u ids).row task.id = s.row task.id := row_tenant fun task' h => by
      obtain rfl := Option.some.inj (hrow.symm.trans h)
      exact howner.trans huser
    simp only [Except.bind, hsame]

/-- A request of the user does to the view what it does to the service. -/
theorem serve_tenant {request : Request} (hI : Owned u ids s) (hsound : Sound lib ⟨s, []⟩)
    (hfresh : request.drawsFresh turn s = true) (huser : user.userId = u) :
    serve lib none turn user request (s.tenant u ids) =
      (serve lib none turn user request s).tenant u
        ((tenantObserver u).learn ids (.request user request turn)) := by
  cases request with
  | create body =>
    have hissued : turn.taskId ∉ s.issued := by simpa [Request.drawsFresh] using hfresh
    have hrow : (s.issue turn.taskId).row turn.taskId = none := by
      by_contra hne
      exact hissued (hsound.row_issued _ hne)
    have hids : turn.taskId ∈ turn.taskId :: ids ↔ user.userId = u := by simp [huser]
    rw [serve_create_eq, serve_create_eq, issue_tenant hsound hissued]
    rcases hc : createTask lib turn.toEnv user body with e | h
    · rfl
    · have hw : Within u (turn.taskId :: ids) (s.issue turn.taskId) user.userId h.work h.job :=
        within_createTask hrow hids hc
      exact finish_tenant (hI.of_issue hsound hissued).2 (huser ▸ hw)
  | task op taskId =>
    rw [serve_task_eq, serve_task_eq, handle_tenant huser]
    rcases hh : (Request.task op taskId).handle lib turn user s with e | h
    · rfl
    · have hw : Within u ids s user.userId h.work h.job := within_handle hI hh
      exact finish_tenant hI (huser ▸ hw)
  | run taskId =>
    rw [serve_run_eq, serve_run_eq, runTask_tenant huser]
    rcases hr : runTask turn user taskId s with e | ⟨task, target, work⟩
    · rfl
    · obtain ⟨htarget, hw⟩ := within_runTask hI hr
      have hget : (fireTaskWebhook .manual target turn.answer).userId = u := htarget.trans huser
      dsimp only
      rw [← send_tenant hget, commit_tenant (hI.of_send _) (huser ▸ hw _)]
      rcases commit turn.dbNow work (s.send (fireTaskWebhook .manual target turn.answer)) <;> rfl

/-- A request of another user leaves the view. -/
theorem tenant_of_serve {request : Request} (hI : Owned u ids s) (hsound : Sound lib ⟨s, []⟩)
    (hfresh : request.drawsFresh turn s = true) (huser : user.userId ≠ u) :
    (serve lib none turn user request s).tenant u ids = s.tenant u ids := by
  cases request with
  | create body =>
    have hissued : turn.taskId ∉ s.issued := by simpa [Request.drawsFresh] using hfresh
    have hrow : (s.issue turn.taskId).row turn.taskId = none := by
      by_contra hne
      exact hissued (hsound.row_issued _ hne)
    have hids : turn.taskId ∈ ids ↔ user.userId = u :=
      iff_of_false (fun h => hissued (hI.issued h)) huser
    rw [serve_create_eq]
    rcases hc : createTask lib turn.toEnv user body with e | h
    · rfl
    · exact tenant_of_finish (hI.of_issue hsound hissued).1 (within_createTask hrow hids hc) huser
  | task op taskId =>
    rw [serve_task_eq]
    rcases hh : (Request.task op taskId).handle lib turn user s with e | h
    · rfl
    · exact tenant_of_finish hI (within_handle hI hh) huser
  | run taskId =>
    rw [serve_run_eq]
    rcases hr : runTask turn user taskId s with e | ⟨task, target, work⟩
    · rfl
    · obtain ⟨htarget, hw⟩ := within_runTask hI hr
      have hget : (fireTaskWebhook .manual target turn.answer).userId ≠ u := fun h =>
        huser (htarget.symm.trans h)
      dsimp only
      rcases hc : commit turn.dbNow work (s.send (fireTaskWebhook .manual target turn.answer))
        with _ | s'
      · exact tenant_of_send hget
      · exact (tenant_of_commit (hI.of_send _) (hw _) huser hc).trans (tenant_of_send hget)

/-- A request keeps rows with their owners. -/
theorem Owned.of_serve {request : Request} {ids' : List TaskId} (hI : Owned u ids s)
    (hsound : Sound lib ⟨s, []⟩) (hfresh : request.drawsFresh turn s = true)
    (hids' : ids' = if user.userId = u then (tenantObserver u).learn ids
      (.request user request turn)
      else ids) : Owned u ids' (serve lib none turn user request s) := by
  cases request with
  | create body =>
    have hissued : turn.taskId ∉ s.issued := by simpa [Request.drawsFresh] using hfresh
    have hrow : (s.issue turn.taskId).row turn.taskId = none := by
      by_contra hne
      exact hissued (hsound.row_issued _ hne)
    obtain ⟨hother, hown⟩ := hI.of_issue hsound hissued
    obtain ⟨hI', hids⟩ : Owned u ids' (s.issue turn.taskId) ∧
        (turn.taskId ∈ ids' ↔ user.userId = u) := by
      by_cases huser : user.userId = u
      · rw [hids', if_pos huser]
        exact ⟨hown, iff_of_true List.mem_cons_self huser⟩
      · rw [hids', if_neg huser]
        exact ⟨hother, iff_of_false (fun h => hissued (hI.issued h)) huser⟩
    rw [serve_create_eq]
    rcases hc : createTask lib turn.toEnv user body with e | h
    · exact hI'
    · exact hI'.of_finish (within_createTask hrow hids hc)
  | task op taskId =>
    obtain rfl : ids' = ids := hids'.trans (ite_self _)
    rw [serve_task_eq]
    rcases hh : (Request.task op taskId).handle lib turn user s with e | h
    · exact hI
    · exact hI.of_finish (within_handle hI hh)
  | run taskId =>
    obtain rfl : ids' = ids := hids'.trans (ite_self _)
    rw [serve_run_eq]
    rcases hr : runTask turn user taskId s with e | ⟨task, target, work⟩
    · exact hI
    · dsimp only
      rcases hc : commit turn.dbNow work (s.send (fireTaskWebhook .manual target turn.answer))
        with _ | s'
      · exact hI.of_send _
      · exact (hI.of_send _).of_commit ((within_runTask hI hr).2 _) hc

/-! ## Executions -/

/-- What an execution commits belongs to the owner of its task. -/
theorem within_executed {task : ScheduledTask} (hI : Owned u ids s)
    (hrow : s.row task.id = some task) (historyId : ℕ) (outcome : WebhookFireOutcome) :
    Within u ids s task.userId (executed historyId task outcome).1 none := by
  have hid := (hI.row _ task hrow).symm
  obtain ⟨row, rfl, ⟨-, -, hx⟩ | ⟨-, hx⟩⟩ := executed_eq historyId task outcome <;> rw [hx]
  · refine ⟨fun row hmem => ?_, fun id htask => taskId_dirty htask ▸ hid, fun row htask =>
      absurd htask dirty_ne_insert, by simp⟩
    obtain rfl := List.mem_singleton.1 hmem
    exact ⟨rfl, hid⟩
  · refine ⟨fun row hmem => ?_, by simp [TaskWrite.taskId], by simp, by simp⟩
    obtain rfl := List.mem_singleton.1 hmem
    exact ⟨rfl, hid⟩

/-- The schedule an execution removes is that of its task. -/
theorem remove_executed {task : ScheduledTask} {historyId : ℕ} {outcome : WebhookFireOutcome}
    {taskId : TaskId} (h : (executed historyId task outcome).2 = some taskId) :
    taskId = task.id := by
  obtain ⟨row, -, ⟨-, -, hx⟩ | ⟨-, hx⟩⟩ := executed_eq historyId task outcome <;> rw [hx] at h
  · exact (Option.some.inj h).symm
  · exact absurd h (by simp)

theorem execute_of_load {taskId : TaskId} {fire : Fire} {task : ScheduledTask}
    (hload : loadActive taskId s = some task) :
    execute taskId fire s =
      (commit fire.dbNow (executed fire.historyId task fire.answer.outcome).1
        (s.send (fireTaskWebhook .scheduled task fire.answer))).elim
        (s.send (fireTaskWebhook .scheduled task fire.answer)) fun s' =>
          (executed fire.historyId task fire.answer.outcome).2.elim s' fun id =>
            unregisterSchedule id s' := by
  rw [execute, hload]
  dsimp only
  split <;> rename_i hc <;> rw [hc] <;> rfl

/-- An execution of a task of the user does to the view what it does to the service. -/
theorem execute_tenant {taskId : TaskId} {fire : Fire} (hI : Owned u ids s) (hid : taskId ∈ ids) :
    execute taskId fire (s.tenant u ids) = (execute taskId fire s).tenant u ids := by
  have hload : loadActive taskId (s.tenant u ids) = loadActive taskId s := by
    rw [loadActive, row_tenant fun task hrow => (hI.row taskId task hrow).2 hid, loadActive]
  rcases hl : loadActive taskId s with _ | task
  · rw [execute, hload, hl, execute, hl]
  · obtain ⟨hrow, -⟩ := loadActive_eq_some.1 hl
    obtain rfl : task.id = taskId := Table.key_of_find hrow
    have howner := (hI.row _ task hrow).2 hid
    rw [execute_of_load (hload.trans hl), execute_of_load hl, ← send_tenant howner,
      commit_tenant (hI.of_send _) (howner ▸ within_executed (hI.of_send _) hrow _ _)]
    rcases commit _ _ _ with _ | s'
    · rfl
    · rw [Option.map_some, Option.elim_some, Option.elim_some]
      rcases hr : (executed fire.historyId task fire.answer.outcome).2 with _ | id
      · rfl
      · exact update_tenant (remove_executed hr ▸ hid) none

/-- An execution of a task of another user leaves the view. -/
theorem tenant_of_execute {taskId : TaskId} {fire : Fire} (hI : Owned u ids s)
    (hid : taskId ∉ ids) :
    (execute taskId fire s).tenant u ids = s.tenant u ids := by
  rcases hl : loadActive taskId s with _ | task
  · rw [execute, hl]
  · obtain ⟨hrow, -⟩ := loadActive_eq_some.1 hl
    obtain rfl : task.id = taskId := Table.key_of_find hrow
    have howner : task.userId ≠ u := fun h => hid ((hI.row _ task hrow).1 h)
    have hsend : (s.send (fireTaskWebhook .scheduled task fire.answer)).tenant u ids =
        s.tenant u ids :=
      tenant_of_send howner
    rw [execute_of_load hl]
    rcases hc : commit _ _ _ with _ | s'
    · exact hsend
    · have hcommit : s'.tenant u ids = s.tenant u ids :=
        (tenant_of_commit (hI.of_send _) (within_executed (hI.of_send _) hrow _ _) howner
          hc).trans hsend
      rw [Option.elim_some]
      rcases hr : (executed fire.historyId task fire.answer.outcome).2 with _ | id
      · exact hcommit
      · have hj : runJob .never 0 (.unregister id) s' = .ok (unregisterSchedule id s') := rfl
        exact (tenant_of_runJob (fun h => hid (remove_executed hr ▸ h)) hj).trans hcommit

/-- An execution keeps rows with their owners. -/
theorem Owned.of_execute {taskId : TaskId} {fire : Fire} (hI : Owned u ids s) :
    Owned u ids (execute taskId fire s) := by
  rcases hl : loadActive taskId s with _ | task
  · rw [execute, hl]
    exact hI
  · obtain ⟨hrow, -⟩ := loadActive_eq_some.1 hl
    obtain rfl : task.id = taskId := Table.key_of_find hrow
    rw [execute_of_load hl]
    rcases hc : commit _ _ _ with _ | s'
    · exact hI.of_send _
    · have hcommit := (hI.of_send _).of_commit (within_executed (hI.of_send _) hrow _ _) hc
      rw [Option.elim_some]
      rcases (executed fire.historyId task fire.answer.outcome).2 with _ | id
      · exact hcommit
      · exact hcommit.congr rfl rfl rfl

/-- The fires of the user's tasks are picked up in the view. -/
theorem pickUp_tenant {taskId : TaskId} {n : ℕ} (hid : taskId ∈ ids) :
    pickUp lib now n taskId (s.tenant u ids) =
      (pickUp lib now n taskId s).map fun picked => (picked.1, picked.2.tenant u ids) := by
  rw [pickUp, pickUp, schedules_tenant hid]
  rcases s.schedules taskId with _ | schedule
  · rfl
  · rw [Option.bind_some, Option.bind_some, Option.map_map]
    rcases schedule.pick lib now n with _ | ⟨f, left⟩
    · rfl
    · exact congrArg (fun s => some (f, s)) (update_tenant hid left)

/-! ## Runs -/

theorem commit_isNone_congr (ht : t.tasks = s.tasks) :
    (commit dbNow work t).isNone = (commit dbNow work s).isNone := by
  rw [commit, commit, ht]
  split
  · rw [Option.isNone_map, Option.isNone_map]
  · rfl

/-- The user gets the same response in the view. -/
theorem respond_tenant {request : Request} (hI : Owned u ids s) (hsound : Sound lib ⟨s, []⟩)
    (hfresh : request.drawsFresh turn s = true) (huser : user.userId = u) :
    respond lib turn user request (s.tenant u ids) = respond lib turn user request s := by
  cases request with
  | create body =>
    have hissued : turn.taskId ∉ s.issued := by simpa [Request.drawsFresh] using hfresh
    have hrow : (s.issue turn.taskId).row turn.taskId = none := by
      by_contra hne
      exact hissued (hsound.row_issued _ hne)
    simp only [respond, Request.handle]
    rcases hc : createTask lib turn.toEnv user body with e | h
    · rfl
    · -- The commit sees the tables only, and these as they are when the id is drawn.
      have hw : Within u (turn.taskId :: ids) (s.issue turn.taskId) user.userId h.work h.job :=
        within_createTask hrow (by simp [huser]) hc
      have hcommit := commit_tenant (hI.of_issue hsound hissued).2 (huser ▸ hw) turn.dbNow
      have hnone : (commit turn.dbNow h.work (s.tenant u ids)).isNone =
          (commit turn.dbNow h.work s).isNone := calc
        (commit turn.dbNow h.work (s.tenant u ids)).isNone
          = (commit turn.dbNow h.work
              ((s.issue turn.taskId).tenant u (turn.taskId :: ids))).isNone :=
                commit_isNone_congr rfl
        _ = (commit turn.dbNow h.work (s.issue turn.taskId)).isNone := by
              rw [hcommit, Option.isNone_map]
        _ = (commit turn.dbNow h.work s).isNone := commit_isNone_congr rfl
      simp only [Except.bind, hnone]
  | task op taskId =>
    simp only [respond, handle_tenant huser]
    rcases hh : (Request.task op taskId).handle lib turn user s with e | h
    · rfl
    · have hw : Within u ids s user.userId h.work h.job := within_handle hI hh
      have hcommit := commit_tenant hI (huser ▸ hw) turn.dbNow
      simp only [Except.bind, hcommit, Option.isNone_map]
  | run taskId =>
    simp only [respond, runTask_tenant huser]
    rcases hr : runTask turn user taskId s with e | ⟨task, target, work⟩
    · rfl
    · have hw : Within u ids s user.userId work none :=
        ((within_runTask hI hr).2 (fireTaskWebhook .manual target turn.answer)).congr rfl
      have hcommit := commit_tenant hI (huser ▸ hw) turn.dbNow
      simp only [Except.bind, hcommit, Option.isNone_map]

/-- The views of a user separate the states of the service. -/
theorem separates (lib : Crontab) (u : UserId) :
    (sequential lib).Separates (tenantObserver u) (Service.tenant u) (received lib)
      fun ids s => Reachable lib s ∧ Owned u ids s where
  hidden := by
    rintro ids s e s' ⟨hreach, hI⟩ hsees hs
    have hreach' := reachable_step hreach hs
    cases e with
    | request user request turn =>
      have huser : user.userId ≠ u := of_decide_eq_false hsees
      simp only [sequential, Option.ite_none_right_eq_some, Option.some.injEq] at hs
      obtain ⟨hfresh, rfl⟩ := hs
      exact ⟨tenant_of_serve hI hreach.sound hfresh huser, hreach',
        hI.of_serve hreach.sound hfresh (if_neg huser).symm⟩
    | query user query env =>
      obtain rfl := Option.some.inj hs
      exact ⟨rfl, hreach, hI⟩
    | execute taskId fire =>
      have hid : taskId ∉ ids := of_decide_eq_false hsees
      obtain ⟨⟨f, picked⟩, hpick, rfl⟩ := Option.map_eq_some_iff.1 hs
      obtain ⟨schedule, left, -, -, rfl⟩ := pickUp_eq_some hpick
      have hpicked : Owned u ids { s with schedules := Function.update s.schedules taskId left } :=
        hI.congr rfl rfl rfl
      refine ⟨(tenant_of_execute hpicked hid).trans ?_, hreach', hpicked.of_execute⟩
      exact tenant_congr rfl rfl (fun id hmem =>
        Function.update_of_ne (fun h : id = taskId => hid (h ▸ hmem)) _ _) rfl
  seen := by
    rintro ids s e s' ⟨hreach, hI⟩ hsees hs
    have hreach' := reachable_step hreach hs
    cases e with
    | request user request turn =>
      have huser : user.userId = u := of_decide_eq_true hsees
      simp only [sequential, Option.ite_none_right_eq_some, Option.some.injEq] at hs
      obtain ⟨hfresh, rfl⟩ := hs
      refine ⟨?_, congrArg Received.written (respond_tenant hI hreach.sound hfresh huser), hreach',
        hI.of_serve hreach.sound hfresh (if_pos huser).symm⟩
      have hfresh' : request.drawsFresh turn (s.tenant u ids) = true := by
        cases request with
        | create body =>
          have hissued : turn.taskId ∉ s.issued := by simpa [Request.drawsFresh] using hfresh
          exact decide_eq_true fun h => hissued (hI.issued h)
        | task | run => rfl
      rw [← serve_tenant hI hreach.sound hfresh huser]
      exact if_pos hfresh'
    | query user query env =>
      have huser : user.userId = u := of_decide_eq_true hsees
      obtain rfl := Option.some.inj hs
      exact ⟨rfl, congrArg Received.read (query.answer_congr (seenBy_tenant huser) lib
        env), hreach, hI⟩
    | execute taskId fire =>
      have hid : taskId ∈ ids := of_decide_eq_true hsees
      obtain ⟨⟨f, picked⟩, hpick, rfl⟩ := Option.map_eq_some_iff.1 hs
      have hview : pickUp lib fire.now fire.coalesced taskId (s.tenant u ids) = _ :=
        pickUp_tenant hid
      obtain ⟨schedule, left, -, -, rfl⟩ := pickUp_eq_some hpick
      have hpicked : Owned u ids { s with schedules := Function.update s.schedules taskId left } :=
        hI.congr rfl rfl rfl
      refine ⟨?_, rfl, hreach', hpicked.of_execute⟩
      refine Option.map_eq_some_iff.2 ⟨_, hview.trans (congrArg _ hpick), ?_⟩
      exact execute_tenant hpicked hid

/-- The task the event creates, if it is a request of the user `u` that creates one. -/
def Event.creates (u : UserId) : Event → Option TaskId
  | .request user (.create _) turn => if user.userId = u then some turn.taskId else none
  | _ => none

/-- The tasks the user `u` has created. -/
def createdBy (u : UserId) (as : List Event) : List TaskId := as.filterMap (Event.creates u)

/-- An event that creates a task of the user is seen, and its id is learnt. -/
theorem mem_learn (e : Event) (ids : List TaskId) :
    (id ∈ if (tenantObserver u).sees ids e then (tenantObserver u).learn ids e else ids) ↔
      id ∈ ids ∨ e.creates u = some id := by
  rcases e with ⟨user, body | _ | _, turn⟩ | _ | _
  · by_cases huser : user.userId = u
    · simp [tenantObserver, Event.creates, huser, eq_comm, or_comm]
    · simp [tenantObserver, Event.creates, huser]
  all_goals simp [tenantObserver, Event.creates]

/-- The user knows the tasks it has created. -/
theorem mem_knows (as : List Event) (ids : List TaskId) :
    id ∈ (tenantObserver u).knows ids as ↔ id ∈ ids ∨ id ∈ createdBy u as := by
  induction as generalizing ids with
  | nil => simp [Observer.knows, createdBy]
  | cons e as ih =>
    have hknows : (tenantObserver u).knows ids (e :: as) = (tenantObserver u).knows
        (if (tenantObserver u).sees ids e then (tenantObserver u).learn ids e else ids) as := by
      rw [Observer.knows]
      split <;> rfl
    have hcreated : id ∈ createdBy u (e :: as) ↔ e.creates u = some id ∨ id ∈ createdBy u as := by
      rw [createdBy, createdBy, List.mem_filterMap, List.mem_filterMap, List.exists_mem_cons_iff]
    rw [hknows, ih, mem_learn, hcreated, or_assoc]

/-- Two runs that agree on the requests of the user `u`, and on the executions of the
    tasks it has created, give it the same responses, and leave the same rows of
    `u`, and the same schedules of its tasks. And in every run, the rows that belong
    to `u` are those about the tasks that `u` has created. -/
theorem tenant_noninterference {as bs : List Event} (hs : (sequential lib).Run .init as s)
    (ht : (sequential lib).Run .init bs t)
    (hsame : (tenantObserver u).purge [] as = (tenantObserver u).purge [] bs) :
    (sequential lib).outputs (tenantObserver u) (received lib) [] .init as =
        (sequential lib).outputs (tenantObserver u) (received lib) [] .init bs ∧
      (s.tasks.rows.filter fun task => task.userId = u) =
        (t.tasks.rows.filter fun task => task.userId = u) ∧
      (s.history.filter fun row => row.userId = u) = (t.history.filter fun row => row.userId = u) ∧
      (∀ id ∈ createdBy u as, s.schedules id = t.schedules id) ∧
      (∀ id task, s.row id = some task → (task.userId = u ↔ id ∈ createdBy u as)) ∧
      ∀ row ∈ s.history, row.userId = u ↔ row.taskId ∈ createdBy u as := by
  have hinit : Reachable lib .init ∧ Owned u [] .init :=
    ⟨reachable_init, ⟨List.nil_subset _, fun id task h =>
      absurd ((row_init id).symm.trans h) (by simp), fun row h => absurd h List.not_mem_nil⟩⟩
  have hs' := System.exec_of_runWith hs
  have ht' := System.exec_of_runWith ht
  obtain ⟨-, -, -, hI⟩ := (separates lib u).exec_purge hinit hs'
  obtain ⟨hview, houtputs⟩ := (separates lib u).eq_of_purge_eq hinit hinit rfl hs' ht' hsame
  have hids : ∀ id, id ∈ (tenantObserver u).knows [] as ↔ id ∈ createdBy u as := fun id => by
    simp [mem_knows]
  have hknows : (tenantObserver u).knows [] bs = (tenantObserver u).knows [] as := by
    rw [← Observer.knows_purge, ← hsame, Observer.knows_purge]
  rw [hknows] at hview
  refine ⟨houtputs, congrArg (·.tasks.rows) hview, congrArg (·.history) hview, fun id hid => ?_,
    fun id task hrow => (hI.row id task hrow).trans (hids id),
    fun row hrow => (hI.history row hrow).trans (hids _)⟩
  have hschedules := congrArg (·.schedules id) hview
  rw [← hids] at hid
  simpa [schedules_tenant hid] using hschedules

/-- Bob tries to delete and to run the task that alice has created, and creates one. -/
def othersRequests : List Event :=
  [.request ⟨"bob", by decide⟩ (.task .delete 1) (.sample 1 0 .jobFirst (.response 200)),
    .request ⟨"bob", by decide⟩ (.run 1) (.sample 2 0 .jobFirst (.response 200)),
    .request ⟨"bob", by decide⟩ (.create (.sample (.interval 60 minute_pos)))
      (.sample 3 2 .commitFirst (.response 200))]

/-- Alice creates a task. -/
def creationOfAlice : Event :=
  .request .sample (.create (.sample (.interval 60 minute_pos)))
    (.sample 0 1 .commitFirst (.response 200))

theorem tenant_othersRequests : ∃ s t : Service, t.row 2 ≠ none ∧ s.schedules 1 ≠ none ∧
    s.schedules 1 = t.schedules 1 := by
  obtain ⟨s, t, hs, ht, hrow, hschedule⟩ : ∃ s t,
      (sequential .never).Run .init [creationOfAlice] s ∧
        (sequential .never).Run .init (creationOfAlice :: othersRequests) t ∧
        t.row 2 ≠ none ∧ s.schedules 1 ≠ none := by
    refine ⟨_, _, .cons trivial rfl .nil, .cons trivial rfl <| .cons trivial rfl <|
      .cons trivial rfl <| .cons trivial rfl .nil, Option.some_ne_none _, Option.some_ne_none _⟩
  obtain ⟨-, -, -, hschedules, -⟩ := tenant_noninterference (u := "alice") hs ht rfl
  exact ⟨s, t, hrow, hschedule, hschedules 1 List.mem_cons_self⟩

end SchedulerLm
