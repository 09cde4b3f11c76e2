import SchedulerLm.Agreement
import SchedulerLm.Sequential

/-!
# Failures of a request

A request that changes the activity of a task changes both stores, one after the
other, and nothing undoes the first change when the second one raises. So, alone
and from a state in which the stores agree, a request leaves them in agreement
iff it changes nothing, or does not fail in this way (`agrees_serve_iff`).

* `Effective`: the request changes the activity of a task, or would.
* `SecondRaises`: the first of the commit and the job is done, and the second one
  raises. The commit raises by itself when the seconds of an interval do not fit
  their column in the history (`Request.fits`).
-/

namespace SchedulerLm

/-- The request changes the activity of a task: it creates one whose trigger can be
    built, or activates an inactive one that has a fire time left, or deactivates
    or deletes an active one. -/
def Effective (lib : Crontab) (turn : Turn) (user : CurrentUser) (request : Request) (s : Service) :
    Prop :=
  match request with
  | .create body => ∃ trigger nextRunAt, resolveTriggerSpec turn.toEnv body.trigger = .ok trigger ∧
      computeNextRunAt lib turn.now trigger = .ok nextRunAt
  | .task op taskId => ∃ task, s.row taskId = some task ∧ task.userId = user.userId ∧
      match op with
      | .activate => task.isActive = false ∧ ∃ next,
          computeNextRunAtForTask lib turn.now task.triggerType task.triggerConfig =
            .ok (some next) ∧ ¬(task.triggerType = .once ∧ next ≤ turn.now)
      | .deactivate => task.isActive = true
      | .delete => task.isActive = true
  | .run _ => False

/-- The seconds of an interval. -/
def StructuredTriggerSpec.intervalSeconds : StructuredTriggerSpec → Option Int
  | .interval seconds _ => some seconds
  | _ => none

/-- The trigger of a creation fits the columns of the history. -/
def Request.fits (turn : Turn) (request : Request) : Prop :=
  match request with
  | .create body => ∀ trigger, resolveTriggerSpec turn.toEnv body.trigger = .ok trigger →
      fitsInteger trigger.intervalSeconds = true
  | _ => True

/-- The first one of the commit and the job is done, and the second one raises. -/
def SecondRaises (fault : Option Fault) (order : Order) (fits : Prop) : Prop :=
  match order with
  | .jobFirst => fault = some .commit ∨ fault = none ∧ ¬fits
  | .commitFirst => fault = some .job ∧ fits

variable {lib : Crontab} {s t : Service} {fault : Option Fault} {turn : Turn} {user : CurrentUser}
  {request : Request} {h : Handled} {job : Job}

/-! ## The two effects -/

theorem agrees_iff : Agrees s ↔ ∀ id, s.scheduled id = s.active id :=
  forall_congr' fun _ => Bool.eq_iff_iff.symm

/-- Both effects together keep the agreement. -/
theorem agrees_of_both (ha : Agrees s)
    (hactive : ∀ id, t.active id = if id = job.taskId then job.puts else s.active id)
    (hscheduled : ∀ id, t.scheduled id = if id = job.taskId then job.puts else s.scheduled id) :
    Agrees t := by
  rw [agrees_iff] at ha ⊢
  intro id
  rw [hactive, hscheduled, ha]

/-- The commit without the job breaks it. -/
theorem not_agrees_of_commit (ha : Agrees s) (hchange : s.active job.taskId = !job.puts)
    (hactive : ∀ id, t.active id = if id = job.taskId then job.puts else s.active id)
    (hscheduled : ∀ id, t.scheduled id = s.scheduled id) : ¬Agrees t := by
  rw [agrees_iff] at ha ⊢
  intro hall
  have hid := hall job.taskId
  rw [hactive, if_pos rfl, hscheduled, ha, hchange] at hid
  cases hp : job.puts <;> rw [hp] at hid <;> exact absurd hid (by simp)

/-- The job without the commit breaks it. -/
theorem not_agrees_of_job (hchange : s.active job.taskId = !job.puts)
    (hactive : ∀ id, t.active id = s.active id)
    (hscheduled : ∀ id, t.scheduled id = if id = job.taskId then job.puts else s.scheduled id) :
    ¬Agrees t := by
  rw [agrees_iff]
  intro hall
  have hid := hall job.taskId
  rw [hscheduled, if_pos rfl, hactive, hchange] at hid
  cases hp : job.puts <;> rw [hp] at hid <;> exact absurd hid (by simp)

/-! ## What a handler has prepared -/

/-- What a handler has prepared in the state `s`: its job, if there is one, changes
    the activity of its task, and its commit raises only if its row does not fit. -/
structure Prepared (lib : Crontab) (s : Service) (h : Handled) : Prop where
  gathered : ∃ owner, Gathered lib owner h.work h.job
  change : ∀ job, h.job = some job → s.active job.taskId = !job.puts
  inactive : h.job = none → ∀ id, h.work.task = .delete id → s.active id = false
  commits : ∀ dbNow t, t.tasks = s.tasks → (commit dbNow h.work t = none ↔ ¬h.work.fits = true)

theorem scheduled_of_commit {dbNow : Instant} {work : UnitOfWork}
    (hc : commit dbNow work s = some t) (id : TaskId) : t.scheduled id = s.scheduled id := by
  rw [Service.scheduled, Service.scheduled, (commit_eq_some hc).2.2.1]

theorem active_of_tasks (ht : t.tasks = s.tasks) (id : TaskId) : t.active id = s.active id := by
  rw [Service.active, Service.active, Service.row, Service.row, ht]

/-- Alone, what a handler has prepared keeps the agreement, unless there is a job,
    and the second one of it and of the commit raises. -/
theorem agrees_finish_iff (ha : Agrees s) (hp : Prepared lib s h) (hf : fault ≠ some .handler) :
    Agrees (finish lib fault turn h s) ↔
      ¬(h.job.isSome = true ∧ SecondRaises fault turn.order (h.work.fits = true)) := by
  obtain ⟨⟨owner, hg⟩, hchange, hinactive, hcommits⟩ := hp
  obtain ⟨response, work, job⟩ := h
  dsimp only at *
  rcases hg.sets_eq with ⟨job, rfl, hsets⟩ | ⟨rfl, hnone⟩
  · have hchange := hchange job rfl
    have hset : ∀ {t t' : Service}, commit turn.dbNow work t = some t' →
        ∀ id, t'.active id = if id = job.taskId then job.puts else t.active id :=
      fun hc id => by rw [active_of_commit hc, hsets]; rfl
    -- `sj` is what the job leaves, `sc` what the commit leaves.
    obtain ⟨sj, hsj⟩ := hg.runJob_isOk turn.jobNow s
    have hjob := not_agrees_of_job hchange (active_of_tasks (runJob_frame hsj).1)
      (scheduled_of_runJob hsj)
    by_cases hfits : work.fits = true
    · obtain ⟨sc, hsc⟩ := Option.ne_none_iff_exists'.1 fun h =>
        (hcommits turn.dbNow s rfl).1 h hfits
      obtain ⟨sjc, hsjc⟩ := Option.ne_none_iff_exists'.1 fun h =>
        (hcommits turn.dbNow sj (runJob_frame hsj).1).1 h hfits
      obtain ⟨scj, hscj⟩ := hg.runJob_isOk turn.jobNow sc
      have hcommit := not_agrees_of_commit ha hchange (hset hsc) (scheduled_of_commit hsc)
      have hboth : Agrees sjc := agrees_of_both ha
        (fun id => by rw [hset hsjc, active_of_tasks (runJob_frame hsj).1])
        (fun id => by rw [scheduled_of_commit hsjc, scheduled_of_runJob hsj])
      have hboth' : Agrees scj := agrees_of_both ha
        (fun id => by rw [active_of_tasks (runJob_frame hscj).1, hset hsc])
        (fun id => by rw [scheduled_of_runJob hscj, scheduled_of_commit hsc])
      rcases ho : turn.order <;> rcases fault with _ | _ | _ | _ <;> first
        | exact absurd rfl hf
        | simp [finish, ho, tryJob, tryCommit, SecondRaises, Except.toOption, hfits, hsj, hsc, hsjc,
            hscj, ha, hjob, hcommit, hboth, hboth']
    · have hsc := (hcommits turn.dbNow s rfl).2 hfits
      have hsjc := (hcommits turn.dbNow sj (runJob_frame hsj).1).2 hfits
      rcases ho : turn.order <;> rcases fault with _ | _ | _ | _ <;> first
        | exact absurd rfl hf
        | simp [finish, ho, tryJob, tryCommit, SecondRaises, Except.toOption, hfits, hsj, hsc, hsjc,
            ha, hjob]
  · -- Without a job, at most an inactive task is deleted.
    have hleft : finish lib fault turn ⟨response, work, none⟩ s =
        (tryCommit fault turn.dbNow work s).getD s := by
      rw [finish]
      rcases turn.order
      · rfl
      · rcases hc : tryCommit fault turn.dbNow work s with _ | t <;> simp [tryJob]
    rw [hleft]
    refine iff_of_true ?_ (by simp)
    rcases hc : tryCommit fault turn.dbNow work s with _ | t
    · exact ha
    · rw [tryCommit] at hc
      split at hc
      · exact absurd hc (by simp)
      · rw [agrees_iff] at ha ⊢
        intro id
        rw [Option.getD_some, scheduled_of_commit hc, ha, active_of_commit hc]
        rcases hnone with hwrite | ⟨j, hwrite⟩ <;> rw [hwrite]
        · rfl
        · simp only [TaskWrite.sets, Option.elim_some]
          split
          · rename_i hid
            rw [hid, hinactive rfl j hwrite]
          · rfl

theorem active_of_row {taskId : TaskId} {task : ScheduledTask} (hrow : s.row taskId = some task) :
    s.active taskId = task.isActive := by
  rw [Service.active, hrow, Option.any_some]

/-- A creation prepares the insertion of a new task. -/
theorem prepared_createTask {body : TaskCreate} (hrow : s.row turn.taskId = none)
    (hh : createTask lib turn.toEnv user body = .ok h) : Prepared lib s h := by
  refine ⟨⟨_, gathered_createTask hh⟩, ?_, ?_, ?_⟩ <;>
    obtain ⟨trigger, nextRunAt, row, -, -, -, rfl⟩ := createTask_eq_ok hh
  · rintro job hjob
    obtain rfl := Option.some.inj hjob
    change s.active turn.taskId = false
    rw [Service.active, hrow, Option.any_none]
  · exact fun hjob => absurd hjob (by simp)
  · intro dbNow t ht
    refine commit_eq_none_iff_not_fits (fun row htask => ?_) fun id changes htask =>
      absurd htask (by simp)
    obtain rfl := TaskWrite.insert.inj htask
    rw [Service.row, ht]
    exact hrow

/-- An operation prepares a change of the row it has loaded. -/
theorem prepared_handle {op : TaskOp} {taskId : TaskId} {task : ScheduledTask}
    (hrow : s.row taskId = some task) (howner : task.userId = user.userId)
    (hh : op.handle lib turn.toEnv user task = .ok h) : Prepared lib s h := by
  obtain rfl : task.id = taskId := Relational.Table.key_of_find hrow
  refine ⟨⟨_, gathered_handle howner hh⟩, fun job hjob => ?_, fun hjob id hid => ?_,
    fun dbNow t ht => ?_⟩
  · cases op with
    | activate =>
      rcases activateTask_eq_ok hh with ⟨-, rfl⟩ | ⟨next, hactive, -, -, rfl⟩
      · exact absurd hjob (by simp)
      · obtain rfl := Option.some.inj hjob
        exact (active_of_row hrow).trans hactive
    | deactivate =>
      obtain rfl := Except.ok.inj hh
      rw [deactivateTask] at hjob
      split at hjob
      · rename_i hactive
        obtain rfl := Option.some.inj hjob
        exact (active_of_row hrow).trans hactive
      · exact absurd hjob (by simp)
    | delete =>
      obtain ⟨row, -, rfl⟩ := Raising.map_eq_ok.1 hh
      dsimp only at hjob
      split at hjob
      · rename_i hactive
        obtain rfl := Option.some.inj hjob
        exact (active_of_row hrow).trans hactive
      · exact absurd hjob (by simp)
  · -- Without a job, only a deletion of an inactive row deletes.
    cases op with
    | activate =>
      rcases activateTask_eq_ok hh with ⟨-, rfl⟩ | ⟨next, -, -, -, rfl⟩
      · exact absurd hid (by simp)
      · exact absurd hjob (by simp)
    | deactivate =>
      obtain rfl := Except.ok.inj hh
      rw [deactivateTask] at hid hjob
      split at hjob
      · exact absurd hjob (by simp)
      · rename_i hactive
        rw [if_neg hactive] at hid
        exact absurd hid (by simp)
    | delete =>
      obtain ⟨row, -, rfl⟩ := Raising.map_eq_ok.1 hh
      obtain rfl := TaskWrite.delete.inj hid
      dsimp only at hjob
      split at hjob
      · exact absurd hjob (by simp)
      · rename_i hactive
        rw [active_of_row hrow]
        simpa using hactive
  · refine commit_eq_none_iff_not_fits (fun row htask => absurd htask ((about_of_handle hh).2 row))
      fun id changes htask => ?_
    have hid : task.id = id := (about_of_handle hh).1 id
      ((gathered_handle howner hh).about.2.1 id (by rw [htask]; rfl))
    rw [Service.row, ht, ← hid]
    exact fun hnone => absurd (hrow.symm.trans hnone) (by simp)

/-! ## Effective requests -/

/-- An operation is effective iff its handler returns a job. -/
theorem effective_task_iff {op : TaskOp} {taskId : TaskId}
    (hstore : ∀ row, s.row taskId = some row → row.Storable) :
    Effective lib turn user (.task op taskId) s ↔
      ∃ h, (Request.task op taskId).handle lib turn user s = .ok h ∧ h.job.isSome = true := by
  constructor
  · rintro ⟨task, hrow, howner, hop⟩
    have hload : getTaskOr404 user taskId s = .ok task := getTaskOr404_eq_ok.2 ⟨hrow, howner⟩
    simp only [Request.handle, hload, Except.bind]
    cases op with
    | activate =>
      obtain ⟨hactive, next, hnext, hpast⟩ := hop
      exact ⟨_, activateTask_of_next hactive hnext hpast, rfl⟩
    | deactivate =>
      refine ⟨_, rfl, ?_⟩
      simp only [deactivateTask, show task.isActive = true from hop, if_true, Option.isSome_some]
    | delete =>
      obtain ⟨row, hdelete⟩ := deleteTask_isOk (hstore task hrow)
      refine ⟨_, hdelete, ?_⟩
      rw [if_pos (show task.isActive = true from hop), Option.isSome_some]
  · rintro ⟨h, hh, hjob⟩
    obtain ⟨task, hload, hh⟩ := Raising.bind_eq_ok.1 hh
    obtain ⟨hrow, howner⟩ := getTaskOr404_eq_ok.1 hload
    refine ⟨task, hrow, howner, ?_⟩
    cases op with
    | activate =>
      rcases activateTask_eq_ok hh with ⟨-, rfl⟩ | ⟨next, hactive, hnext, hpast, rfl⟩
      · exact absurd hjob (by simp)
      · exact ⟨hactive, next, hnext, hpast⟩
    | deactivate =>
      obtain rfl := Except.ok.inj hh
      by_contra hactive
      rw [deactivateTask, if_neg hactive] at hjob
      exact absurd hjob (by simp)
    | delete =>
      obtain ⟨row, -, rfl⟩ := Raising.map_eq_ok.1 hh
      by_contra hactive
      dsimp only at hjob hactive
      rw [if_neg hactive] at hjob
      exact absurd hjob (by simp)

/-- A creation whose trigger can be built is handled. -/
theorem effective_create_iff {body : TaskCreate} :
    Effective lib turn user (.create body) s ↔
      ∃ h, createTask lib turn.toEnv user body = .ok h := by
  constructor
  · rintro ⟨trigger, nextRunAt, htrigger, hnext⟩
    exact createTask_isOk htrigger hnext
  · rintro ⟨h, hh⟩
    obtain ⟨trigger, nextRunAt, -, htrigger, hnext, -, -⟩ := createTask_eq_ok hh
    exact ⟨trigger, nextRunAt, htrigger, hnext⟩

/-- The history row of a creation fits iff the seconds of its trigger do. -/
theorem fits_createTask {body : TaskCreate} (hh : createTask lib turn.toEnv user body = .ok h) :
    h.work.fits = true ↔ (Request.create body).fits turn := by
  obtain ⟨trigger, nextRunAt, row, htrigger, -, hrow, rfl⟩ := createTask_eq_ok hh
  have hfits : (fitsInteger trigger.intervalSeconds = true) ↔
      (newTask turn.toEnv user body trigger nextRunAt).Storable := by
    rw [ScheduledTask.Storable]
    cases trigger <;> simp [newTask, StructuredTriggerSpec.type, triggerConfigFromSpec,
      triggerColumns, StructuredTriggerSpec.intervalSeconds]
  simp only [UnitOfWork.fits, List.all_cons, List.all_nil, Bool.and_true, fits_recordSnapshot hrow,
    ← hfits, Request.fits, htrigger, Except.ok.injEq, forall_eq']

/-! ## What a request leaves -/

/-- There is no row yet with the id a creation draws. -/
theorem row_of_drawsFresh {body : TaskCreate} (hs : Reachable lib s)
    (hfresh : (Request.create body).drawsFresh turn s = true) : s.row turn.taskId = none := by
  by_contra hne
  exact absurd (hs.sound.row_issued _ hne) (by simpa [Request.drawsFresh] using hfresh)

theorem serve_create {body : TaskCreate} (hh : createTask lib turn.toEnv user body = .ok h) :
    serve lib none turn user (.create body) s =
      finish lib none turn h { s with issued := turn.taskId :: s.issued } := by
  simp [serve, Request.handle, hh]

theorem serve_create_of_error {body : TaskCreate} {e : Failure}
    (hh : createTask lib turn.toEnv user body = .error e) :
    serve lib none turn user (.create body) s = { s with issued := turn.taskId :: s.issued } := by
  simp [serve, Request.handle, hh]

theorem serve_task {op : TaskOp} {taskId : TaskId}
    (hh : (Request.task op taskId).handle lib turn user s = .ok h) :
    serve lib none turn user (.task op taskId) s = finish lib none turn h s := by
  simp [serve, hh]

/-! ## Failures -/

/-- Alone, from a state in which the stores agree, a request leaves them in
    agreement, with a failure or without, iff it is not one that changes the activity
    of a task and fails between its commit and its job. -/
theorem agrees_serve_iff (hs : Reachable lib s) (ha : Agrees s)
    (hfresh : request.drawsFresh turn s = true) :
    Agrees (serve lib fault turn user request s) ↔
      ¬(Effective lib turn user request s ∧ SecondRaises fault turn.order (request.fits turn)) := by
  have hsound := hs.sound
  have hissued : Agrees { s with issued := turn.taskId :: s.issued } := ha
  by_cases hf : fault = some .handler
  · have hraises : ¬SecondRaises fault turn.order (request.fits turn) := by
      rw [hf]
      cases turn.order <;> simp [SecondRaises]
    refine iff_of_true ?_ fun h => hraises h.2
    cases request with
    | create => simpa [serve, hf] using hissued
    | task | run => simpa [serve, hf] using ha
  cases request with
  | create body =>
    have hrow := row_of_drawsFresh hs hfresh
    rcases hc : createTask lib turn.toEnv user body with e | h
    · refine iff_of_true (by simpa [serve, hf, Request.handle, hc] using hissued) fun h => ?_
      obtain ⟨h, hh⟩ := effective_create_iff.1 h.1
      exact absurd (hc.symm.trans hh) (by simp)
    · have hjob : h.job.isSome = true := by
        obtain ⟨_, _, _, -, -, -, rfl⟩ := createTask_eq_ok hc
        rfl
      have hprepared : Prepared lib { s with issued := turn.taskId :: s.issued } h :=
        prepared_createTask hrow hc
      have hleft : serve lib fault turn user (.create body) s =
          finish lib fault turn h { s with issued := turn.taskId :: s.issued } := by
        simp [serve, hf, Request.handle, hc]
      rw [hleft, agrees_finish_iff hissued hprepared hf, fits_createTask hc, hjob,
        eq_self, true_and, and_iff_right (effective_create_iff.2 ⟨h, hc⟩)]
  | task op taskId =>
    have heffective : Effective lib turn user (.task op taskId) s ↔ _ :=
      effective_task_iff (hsound.storable taskId)
    rcases hh : (Request.task op taskId).handle lib turn user s with e | h
    · refine iff_of_true (by simpa [serve, hf, hh] using ha) fun h => ?_
      obtain ⟨h, hh', -⟩ := heffective.1 h.1
      exact absurd (hh.symm.trans hh') (by simp)
    · obtain ⟨task, hload, hh'⟩ := Raising.bind_eq_ok.1 hh
      obtain ⟨hrow, howner⟩ := getTaskOr404_eq_ok.1 hload
      have hfits := fits_of_handle hh' (hsound.storable _ _ hrow)
      have hjob : Effective lib turn user (.task op taskId) s ↔ h.job.isSome = true := by
        refine heffective.trans ⟨?_, fun hj => ⟨h, hh, hj⟩⟩
        rintro ⟨h', heq, hj⟩
        exact Except.ok.inj (hh.symm.trans heq) ▸ hj
      have hleft : serve lib fault turn user (.task op taskId) s = finish lib fault turn h s := by
        simp [serve, hf, hh]
      rw [hleft, agrees_finish_iff ha (prepared_handle hrow howner hh') hf, hjob, hfits, eq_self]
      exact Iff.rfl
  | run taskId =>
    refine iff_of_true ?_ fun h => h.1
    simp only [serve, hf, if_false]
    rcases hr : runTask turn user taskId s with e | ⟨task, target, work⟩
    · exact ha
    · -- A manual run writes to no task.
      obtain ⟨-, -, rfl⟩ := runTask_eq_ok.1 hr
      dsimp only
      rcases hc : tryCommit fault turn.dbNow _ _ with _ | t
      · exact ha
      · rw [tryCommit] at hc
        split at hc
        · exact absurd hc (by simp)
        · intro id
          rw [Option.getD_some, scheduled_of_commit hc, active_of_commit hc]
          exact ha id

theorem agrees_init : Agrees .init := agrees_iff.2 fun _ => rfl

theorem reachable_init : Reachable lib .init := ⟨[], .nil⟩

/-- A creation whose commit is done when its job raises. -/
theorem not_agrees_serve_creation :
    ¬Agrees (serve .never (some .job) (.sample 0 1 .commitFirst (.response 200)) .sample
      (.create (.sample (.interval 60 minute_pos))) .init) :=
  fun h => (agrees_serve_iff reachable_init agrees_init rfl).1 h
    ⟨⟨.interval 60 (by decide), some 0, rfl, rfl⟩, rfl, fun trigger htrigger =>
      Except.ok.inj htrigger ▸ rfl⟩

/-- Whatever fails, the stores would agree after a request: they do not. -/
theorem not_agrees_serve : ¬∀ (lib : Crontab) (s : Service) (fault : Option Fault) (turn : Turn)
    (user : CurrentUser) (request : Request), Reachable lib s → Agrees s →
      request.drawsFresh turn s = true → Agrees (serve lib fault turn user request s) := by
  intro h
  have hagrees := h .never .init (some .commit) (.sample 0 1 .jobFirst (.response 200)) .sample
    (.create (.sample (.interval 60 minute_pos))) reachable_init agrees_init rfl
  exact absurd ((hagrees 1).1 rfl) (by decide)

end SchedulerLm
