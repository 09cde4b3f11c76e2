import SchedulerLm.Atomicity

/-!
# One task

What the service is to one task, when things happen one at a time: a row, or none,
and a schedule, or none, which every event takes through one of a few transitions
(`TaskStep`). The service makes these transitions only (`taskStep_of_step`), so that
what they keep holds of every task after every run.
-/

namespace SchedulerLm

variable (lib : Crontab)

/-- The event neither executes the task, nor is a creation of it whose handler
    returns. -/
def Event.Elsewhere (id : TaskId) : Event → Prop
  | .execute taskId _ => taskId ≠ id
  | .request user (.create body) turn =>
    turn.taskId = id → ∀ h, createTask lib turn.toEnv user body ≠ .ok h
  | _ => True

/-- The transitions of the row and the schedule of a task. -/
inductive TaskStep (id : TaskId) :
    Event → Option ScheduledTask → Option Schedule → Option ScheduledTask → Option Schedule → Prop
  | kept {e : Event} {row : Option ScheduledTask} {schedule : Option Schedule} :
      e.Elsewhere lib id → TaskStep id e row schedule row schedule
  | created {user : CurrentUser} {body : TaskCreate} {turn : Turn} {trigger : StructuredTriggerSpec}
      {nextRunAt : Option Instant} {built : Trigger} :
      turn.taskId = id → resolveTriggerSpec turn.toEnv body.trigger = .ok trigger →
      computeNextRunAt lib turn.now trigger = .ok nextRunAt →
      buildTriggerFromTask lib turn.jobNow trigger.type
        (triggerConfigFromSpec trigger) = .ok built →
      TaskStep id (.request user (.create body) turn) none none
        (some (newTask turn.toEnv user body trigger nextRunAt)) (some (.ofTrigger lib built))
  | unfit {user : CurrentUser} {body : TaskCreate} {turn : Turn} {schedule : Option Schedule} :
      -- The commit raises, after the job or before it.
      ¬(Request.create body).fits turn →
      TaskStep id (.request user (.create body) turn) none none none schedule
  | activated {user : CurrentUser} {turn : Turn} {task : ScheduledTask} {next : Instant}
      {schedule : Option Schedule} {built : Trigger} :
      task.isActive = false →
      computeNextRunAtForTask lib turn.now task.triggerType task.triggerConfig = .ok (some next) →
      buildTriggerFromTask lib turn.jobNow task.triggerType task.triggerConfig = .ok built →
      TaskStep id (.request user (.task .activate id) turn) (some task) schedule
        (some { task.activated next with updatedAt := turn.dbNow }) (some (.ofTrigger lib built))
  | deactivated {user : CurrentUser} {turn : Turn} {task : ScheduledTask}
      {schedule : Option Schedule} :
      task.isActive = true →
      TaskStep id (.request user (.task .deactivate id) turn) (some task) schedule
        (some { task.deactivated with updatedAt := turn.dbNow }) none
  | deleted {user : CurrentUser} {turn : Turn} {task : ScheduledTask}
      {schedule schedule' : Option Schedule} :
      TaskStep id (.request user (.task .delete id) turn) (some task) schedule none schedule'
  | skipped {fire : Fire} {row : Option ScheduledTask} {schedule : Schedule} {f : Instant}
      {left : Option Schedule} :
      schedule.pick lib fire.now fire.coalesced = some (f, left) →
      (∀ task, row = some task → task.isActive = false) →
      TaskStep id (.execute id fire) row (some schedule) row left
  | finished {fire : Fire} {task : ScheduledTask} {schedule : Schedule} :
      task.isActive = true → task.triggerType = .once → fire.answer.isSuccess = true →
      TaskStep id (.execute id fire) (some task) (some schedule)
        (some { task.deactivated with updatedAt := fire.dbNow }) none
  | executed {fire : Fire} {task : ScheduledTask} {schedule : Schedule} {f : Instant}
      {left : Option Schedule} :
      schedule.pick lib fire.now fire.coalesced = some (f, left) → task.isActive = true →
      ¬(fire.answer.isSuccess = true ∧ task.triggerType = .once) →
      TaskStep id (.execute id fire) (some task) (some schedule) (some task) left

/-- What a job leaves as the schedule of its task. -/
def Job.schedule (now : Instant) : Job → Option Schedule
  | .register task =>
    (buildTriggerFromTask lib now task.triggerType task.triggerConfig).toOption.map (.ofTrigger lib)
  | .unregister _ => none

variable {lib} {s s' : Service} {turn : Turn} {user : CurrentUser} {h : Handled} {id : TaskId}

/-! ## Rows and schedules -/

theorem schedules_of_runJob {job : Job} {now : Instant} (hj : runJob lib now job s = .ok s')
    (id : TaskId) :
    s'.schedules id = if id = job.taskId then job.schedule lib now else s.schedules id := by
  by_cases hid : id = job.taskId
  · rw [if_pos hid, hid]
    cases job with
    | register task =>
      obtain ⟨trigger, hbuilt, rfl⟩ := registerSchedule_eq_ok hj
      rw [Job.schedule, hbuilt]
      exact Function.update_self ..
    | unregister taskId =>
      obtain rfl := Except.ok.inj hj
      exact Function.update_self ..
  · rw [if_neg hid]
    exact (runJob_frame hj).2.2.2.2 id hid

/-- A write leaves the rows of other tasks. -/
theorem TaskWrite.after_of_ne {write : TaskWrite} {dbNow : Instant} {old : Option ScheduledTask}
    (hne : write.taskId ≠ some id) : write.after dbNow id old = old := by
  cases write with
  | nothing => rfl
  | insert row => exact if_neg fun hid => hne (by rw [hid]; rfl)
  | update j changes => exact if_neg fun hid => hne (by rw [hid]; rfl)
  | delete j => exact if_neg fun hid => hne (by rw [hid]; rfl)

theorem after_dirty_activated {task : ScheduledTask} {next dbNow : Instant}
    (hactive : task.isActive = false) :
    (dirty task (task.activated next)).after dbNow task.id (some task) =
      some { task.activated next with updatedAt := dbNow } := by
  by_cases hnext : task.nextRunAt = some next <;>
    simp [dirty, ScheduledTask.activated, TaskWrite.after, Changes.apply, hactive, hnext]

theorem after_dirty_deactivated {task : ScheduledTask} {dbNow : Instant}
    (hactive : task.isActive = true) :
    (dirty task task.deactivated).after dbNow task.id (some task) =
      some { task.deactivated with updatedAt := dbNow } := by
  by_cases hnext : task.nextRunAt = none <;>
    simp [dirty, ScheduledTask.deactivated, TaskWrite.after, Changes.apply, hactive, hnext]

/-- What a handler has prepared is done in both stores, in either order, when its
    history row fits: the tables are those of the commit, and the schedules those of
    the job. -/
theorem Prepared.exists_commit (hp : Prepared lib s h) (turn : Turn) (hfits : h.work.fits = true) :
    ∃ sc, commit turn.dbNow h.work s = some sc ∧ (finish lib none turn h s).tasks = sc.tasks ∧
      (finish lib none turn h s).history = sc.history ∧
      ∀ id, (finish lib none turn h s).schedules id = h.job.elim (s.schedules id) fun job =>
        if id = job.taskId then job.schedule lib turn.jobNow else s.schedules id := by
  obtain ⟨sc, hsc⟩ := Option.ne_none_iff_exists'.1 fun hn =>
    (hp.commits turn.dbNow s rfl).1 hn hfits
  obtain ⟨hflush, hhistory, hschedules, -⟩ := commit_eq_some hsc
  refine ⟨sc, hsc, ?_⟩
  obtain ⟨owner, hg⟩ := hp.gathered
  rcases hjob : h.job with _ | job
  · have hleft : finish lib none turn h s = sc := by
      cases ho : turn.order <;> simp [finish, ho, hjob, tryJob, tryCommit, hsc]
    rw [hleft, hschedules]
    exact ⟨rfl, rfl, fun _ => rfl⟩
  · rw [hjob] at hg
    rcases ho : turn.order
    · obtain ⟨sj, hsj⟩ := hg.runJob_isOk turn.jobNow s
      obtain ⟨sjc, hsjc⟩ := Option.ne_none_iff_exists'.1 fun hn =>
        (hp.commits turn.dbNow sj (runJob_frame hsj).1).1 hn hfits
      have hleft : finish lib none turn h s = sjc := by
        simp [finish, ho, hjob, tryJob, tryCommit, Except.toOption, hsj, hsjc]
      obtain ⟨hflush', hhistory', hschedules', -⟩ := commit_eq_some hsjc
      rw [(runJob_frame hsj).1, hflush] at hflush'
      rw [hleft, hhistory', hhistory, (runJob_frame hsj).2.1, hschedules']
      exact ⟨(Option.some.inj hflush').symm, rfl, schedules_of_runJob hsj⟩
    · obtain ⟨scj, hscj⟩ := hg.runJob_isOk turn.jobNow sc
      have hleft : finish lib none turn h s = scj := by
        simp [finish, ho, hjob, tryJob, tryCommit, Except.toOption, hsc, hscj]
      rw [hleft]
      refine ⟨(runJob_frame hscj).1, (runJob_frame hscj).2.1, fun id => ?_⟩
      rw [schedules_of_runJob hscj, hschedules]
      rfl

/-- The row and the schedule of a task then. -/
theorem Prepared.finish_of_fits (hp : Prepared lib s h) (turn : Turn) (hfits : h.work.fits = true)
    (id : TaskId) :
    (finish lib none turn h s).row id = h.work.task.after turn.dbNow id (s.row id) ∧
      (finish lib none turn h s).schedules id = h.job.elim (s.schedules id) fun job =>
        if id = job.taskId then job.schedule lib turn.jobNow else s.schedules id := by
  obtain ⟨sc, hsc, htasks, -, hschedules⟩ := hp.exists_commit turn hfits
  rw [Service.row, htasks]
  exact ⟨row_of_commit hsc id, hschedules id⟩

/-- The history then. -/
theorem Prepared.history_finish (hp : Prepared lib s h) (turn : Turn) (hfits : h.work.fits = true) :
    (finish lib none turn h s).history =
      s.history ++ h.work.history.map fun row => { row with createdAt := turn.dbNow } := by
  obtain ⟨sc, hsc, -, hhistory, -⟩ := hp.exists_commit turn hfits
  exact hhistory.trans (commit_eq_some hsc).2.1

/-- When its history row does not fit, the tables stay as they are, and at most the
    schedule of its task changes. -/
theorem Prepared.finish_of_not_fits (hp : Prepared lib s h) (turn : Turn)
    (hfits : ¬h.work.fits = true) :
    (finish lib none turn h s).tasks = s.tasks ∧
      ∀ id, (∀ job, h.job = some job → id ≠ job.taskId) →
        (finish lib none turn h s).schedules id = s.schedules id := by
  have hsc := (hp.commits turn.dbNow s rfl).2 hfits
  obtain ⟨owner, hg⟩ := hp.gathered
  rcases hjob : h.job with _ | job
  · have hleft : finish lib none turn h s = s := by
      cases ho : turn.order <;> simp [finish, ho, hjob, tryJob, tryCommit, hsc]
    rw [hleft]
    exact ⟨rfl, fun _ _ => rfl⟩
  · rw [hjob] at hg
    rcases ho : turn.order
    · obtain ⟨sj, hsj⟩ := hg.runJob_isOk turn.jobNow s
      have hsjc := (hp.commits turn.dbNow sj (runJob_frame hsj).1).2 hfits
      have hleft : finish lib none turn h s = sj := by
        simp [finish, ho, hjob, tryJob, tryCommit, Except.toOption, hsj, hsjc]
      rw [hleft]
      exact ⟨(runJob_frame hsj).1, fun id hid => (runJob_frame hsj).2.2.2.2 id (hid job rfl)⟩
    · have hleft : finish lib none turn h s = s := by
        simp [finish, ho, tryCommit, hsc]
      rw [hleft]
      exact ⟨rfl, fun _ _ => rfl⟩

/-! ## Requests -/

theorem taskStep_create {body : TaskCreate} (hs : Reachable lib s)
    (hfresh : (Request.create body).drawsFresh turn s = true) (id : TaskId) :
    TaskStep lib id (.request user (.create body) turn) (s.row id) (s.schedules id)
      ((serve lib none turn user (.create body) s).row id)
      ((serve lib none turn user (.create body) s).schedules id) := by
  have hissued : turn.taskId ∉ s.issued := by simpa [Request.drawsFresh] using hfresh
  have hrow := row_of_drawsFresh hs hfresh
  have hschedule : s.schedules turn.taskId = none := by
    by_contra hne
    exact hissued (hs.sound.schedules_issued _ hne)
  rcases hc : createTask lib turn.toEnv user body with e | h
  · rw [serve_create_of_error hc]
    exact .kept fun _ h heq => absurd (hc.symm.trans heq) (by simp)
  · have hp : Prepared lib { s with issued := turn.taskId :: s.issued } h :=
      prepared_createTask hrow hc
    rw [serve_create hc]
    have hfitsiff := fits_createTask hc
    obtain ⟨trigger, nextRunAt, row, htrigger, hnext, -, rfl⟩ := createTask_eq_ok hc
    by_cases hfits : (Request.create body).fits turn
    · obtain ⟨hrow', hschedule'⟩ := hp.finish_of_fits turn (hfitsiff.2 hfits) id
      by_cases hid : turn.taskId = id
      · subst hid
        obtain ⟨_, _, hbuilt⟩ : Registrable lib (newTask turn.toEnv user body trigger nextRunAt) :=
          registrable_newTask hnext
        obtain ⟨built, hbuilt⟩ := buildTriggerFromTask_isOk hbuilt turn.jobNow
        have hjob : Job.schedule lib turn.jobNow
            (.register (newTask turn.toEnv user body trigger nextRunAt)) =
              some (.ofTrigger lib built) := by
          rw [Job.schedule, hbuilt]
          rfl
        rw [hrow, hschedule, hrow'.trans (if_pos rfl), hschedule'.trans ((if_pos rfl).trans hjob)]
        exact .created rfl htrigger hnext hbuilt
      · rw [hrow'.trans (if_neg (Ne.symm hid)), hschedule'.trans (if_neg (Ne.symm hid))]
        exact .kept fun h => absurd h hid
    · obtain ⟨ht, hschedules⟩ := hp.finish_of_not_fits turn (hfitsiff.not.2 hfits)
      rw [Service.row, Service.row, ht]
      by_cases hid : turn.taskId = id
      · subst hid
        rw [hschedule, show s.tasks.find turn.taskId = none from hrow]
        exact .unfit hfits
      · rw [hschedules id fun job hjob hidjob => hid ?_]
        · exact .kept fun h => absurd h hid
        · obtain rfl := Option.some.inj hjob
          exact hidjob.symm

theorem taskStep_task {op : TaskOp} {taskId : TaskId} (hs : Reachable lib s) (id : TaskId) :
    TaskStep lib id (.request user (.task op taskId) turn) (s.row id) (s.schedules id)
      ((serve lib none turn user (.task op taskId) s).row id)
      ((serve lib none turn user (.task op taskId) s).schedules id) := by
  rcases hh : (Request.task op taskId).handle lib turn user s with e | h
  · have hleft : serve lib none turn user (.task op taskId) s = s := by simp [serve, hh]
    rw [hleft]
    exact .kept trivial
  · rw [serve_task hh]
    obtain ⟨task, hload, hhandle⟩ := Raising.bind_eq_ok.1 hh
    obtain ⟨hrow, howner⟩ := getTaskOr404_eq_ok.1 hload
    obtain rfl : task.id = taskId := Relational.Table.key_of_find hrow
    obtain ⟨hrow', hschedule'⟩ := (prepared_handle hrow howner hhandle).finish_of_fits turn
      (fits_of_handle hhandle (hs.sound.storable _ _ hrow)) id
    have habout := (gathered_handle howner hhandle).about
    have htask := (about_of_handle hhandle).1
    by_cases hid : id = task.id
    · subst hid
      rw [hrow', hschedule', hrow]
      cases op with
      | activate =>
        rcases activateTask_eq_ok hhandle with ⟨-, rfl⟩ | ⟨next, hactive, hnext, -, rfl⟩
        · exact .kept trivial
        · obtain ⟨_, _, hbuilt⟩ := registrable_of_computeNextRunAtForTask hnext
          obtain ⟨built, hbuilt⟩ := buildTriggerFromTask_isOk hbuilt turn.jobNow
          have hjob : Job.schedule lib turn.jobNow (.register (task.activated next)) =
              some (.ofTrigger lib built) := by
            rw [Job.schedule, ScheduledTask.activated, hbuilt]
            rfl
          have hschedule : (if task.id = (Job.register (task.activated next)).taskId then
              Job.schedule lib turn.jobNow (.register (task.activated next))
              else s.schedules task.id) = some (.ofTrigger lib built) := (if_pos rfl).trans hjob
          rw [after_dirty_activated hactive, Option.elim_some, hschedule]
          exact .activated hactive hnext hbuilt
      | deactivate =>
        obtain rfl := Except.ok.inj hhandle
        by_cases hactive : task.isActive = true
        · rw [deactivateTask, if_pos hactive]
          dsimp only
          have hschedule : (if task.id = (Job.unregister task.id).taskId then
              Job.schedule lib turn.jobNow (.unregister task.id) else s.schedules task.id) = none :=
            if_pos rfl
          rw [after_dirty_deactivated hactive, Option.elim_some, hschedule]
          exact .deactivated hactive
        · rw [deactivateTask, if_neg hactive]
          exact .kept trivial
      | delete =>
        obtain ⟨row, -, rfl⟩ := Raising.map_eq_ok.1 hhandle
        have hafter : (TaskWrite.delete task.id).after turn.dbNow task.id (some task) = none :=
          if_pos rfl
        rw [hafter]
        exact .deleted
    · have hwrite : h.work.task.taskId ≠ some id := fun h =>
        hid (htask id (habout.2.1 id h)).symm
      have hjob : ∀ job, h.job = some job → id ≠ job.taskId := fun job hjob hj =>
        hid (hj.trans (htask _ (habout.2.2 job hjob)).symm)
      rw [hrow', hschedule', TaskWrite.after_of_ne hwrite]
      rcases hj : h.job with _ | job
      · exact .kept trivial
      · rw [Option.elim_some, if_neg (hjob job hj)]
        exact .kept trivial

/-- A manual run changes no row, and no schedule. -/
theorem serve_run (lib : Crontab) (s : Service) (turn : Turn) (user : CurrentUser)
    (taskId : TaskId) :
    (serve lib none turn user (.run taskId) s).tasks = s.tasks ∧
      (serve lib none turn user (.run taskId) s).schedules = s.schedules := by
  simp only [serve, reduceCtorEq, if_false]
  rcases hr : runTask turn user taskId s with e | ⟨task, target, work⟩
  · exact ⟨rfl, rfl⟩
  · obtain ⟨-, -, rfl⟩ := runTask_eq_ok.1 hr
    dsimp only
    rcases hc : tryCommit none turn.dbNow _ _ with _ | s'
    · exact ⟨rfl, rfl⟩
    · obtain ⟨hflush, -, hschedules, -⟩ := commit_eq_some (by simpa [tryCommit] using hc)
      exact ⟨(Option.some.inj hflush).symm, hschedules⟩

/-! ## Executions -/

/-- The commit of an execution does not raise. -/
theorem commit_executed {task : ScheduledTask} (hrow : s.row task.id = some task) (historyId : ℕ)
    (outcome : WebhookFireOutcome) (dbNow : Instant) :
    ∃ s', commit dbNow (executed historyId task outcome).1 s = some s' := by
  rw [← Option.ne_none_iff_exists']
  obtain ⟨row, hr, ⟨-, -, hx⟩ | ⟨-, hx⟩⟩ := executed_eq historyId task outcome <;> rw [hx, hr]
  · rw [Ne, commit_eq_none_iff_not_fits (fun row htask => absurd htask dirty_ne_insert)
      fun id changes htask => ?_]
    · exact fun hfits => hfits rfl
    · rw [← taskId_dirty (congrArg TaskWrite.taskId htask), hrow]
      exact Option.some_ne_none _
  · rw [Ne, commit_eq_none_iff_not_fits (fun row htask => absurd htask (by simp))
      fun id changes htask => absurd htask (by simp)]
    exact fun hfits => hfits rfl

/-- An execution deactivates its task if it was a success of a `once` task, and
    leaves it otherwise. -/
theorem execute_eq {taskId : TaskId} {task : ScheduledTask}
    (hload : loadActive taskId s = some task) (fire : Fire) (id : TaskId) :
    if fire.answer.isSuccess = true ∧ task.triggerType = .once then
      (execute taskId fire s).row id =
          (if id = taskId then some { task.deactivated with updatedAt := fire.dbNow }
            else s.row id) ∧
        (execute taskId fire s).schedules id = if id = taskId then none else s.schedules id
    else (execute taskId fire s).row id = s.row id ∧
      (execute taskId fire s).schedules id = s.schedules id := by
  obtain ⟨hrow, hactive⟩ := loadActive_eq_some.1 hload
  obtain rfl : task.id = taskId := Relational.Table.key_of_find hrow
  obtain ⟨s', hc⟩ :=
    commit_executed (s := s.send (fireTaskWebhook .scheduled task fire.answer)) hrow
    fire.historyId fire.answer.outcome fire.dbNow
  have hschedules : s'.schedules = s.schedules := (commit_eq_some hc).2.2.1
  have hrow' := row_of_commit hc id
  have hleft : execute task.id fire s =
      (executed fire.historyId task fire.answer.outcome).2.elim s' fun id =>
        unregisterSchedule id s' := by
    simp [execute, hload, hc]
  rw [hleft]
  obtain ⟨row, -, ⟨hsuccess, honce, hx⟩ | ⟨hnot, hx⟩⟩ :=
    executed_eq fire.historyId task fire.answer.outcome
  · rw [Answer.outcome_success] at hsuccess
    rw [if_pos ⟨hsuccess, honce⟩]
    rw [hx] at hrow' ⊢
    rw [Option.elim_some, unregisterSchedule, Service.row, hschedules]
    by_cases hid : id = task.id
    · subst hid
      rw [if_pos rfl, if_pos rfl]
      refine ⟨hrow'.trans ?_, Function.update_self ..⟩
      rw [Service.row_send, hrow, after_dirty_deactivated hactive]
    · rw [if_neg hid, if_neg hid]
      exact ⟨hrow'.trans (TaskWrite.after_of_ne fun h => hid (taskId_dirty h).symm),
        Function.update_of_ne hid _ _⟩
  · rw [Answer.outcome_success] at hnot
    rw [if_neg hnot, hx, Option.elim_none, hschedules, hrow', hx]
    exact ⟨rfl, rfl⟩

theorem taskStep_execute {taskId : TaskId} {fire : Fire} {picked : Instant × Service}
    (hpick : pickUp lib fire.now fire.coalesced taskId s = some picked) (id : TaskId) :
    TaskStep lib id (.execute taskId fire) (s.row id) (s.schedules id)
      ((execute taskId fire picked.2).row id) ((execute taskId fire picked.2).schedules id) := by
  obtain ⟨schedule, left, hschedule, hpicked, hs'⟩ := pickUp_eq_some hpick
  have hrow : ∀ id, picked.2.row id = s.row id := fun id => by rw [hs']
  have hload : loadActive taskId picked.2 = loadActive taskId s := by
    rw [loadActive, hrow, loadActive]
  by_cases hid : taskId = id
  · subst hid
    have hleft : picked.2.schedules taskId = left := by rw [hs']; exact Function.update_self ..
    rcases hl : loadActive taskId s with _ | task
    · rw [execute, hload, hl]
      dsimp only
      rw [hrow, hleft, hschedule]
      refine .skipped hpicked fun task htask => ?_
      rw [loadActive, Option.filter_eq_none_iff] at hl
      simpa using hl task htask
    · obtain ⟨htask, hactive⟩ := loadActive_eq_some.1 hl
      have heq := execute_eq (hload.trans hl) fire taskId
      split at heq
      · rename_i hdone
        rw [heq.1, heq.2, if_pos rfl, if_pos rfl, htask, hschedule]
        exact .finished hactive hdone.2 hdone.1
      · rename_i hnot
        rw [heq.1, heq.2, hrow, hleft, htask, hschedule]
        exact .executed hpicked hactive hnot
  · have hkeep : (execute taskId fire picked.2).row id = picked.2.row id ∧
        (execute taskId fire picked.2).schedules id = picked.2.schedules id := by
      rcases hl : loadActive taskId picked.2 with _ | task
      · rw [execute, hl]
        exact ⟨rfl, rfl⟩
      · have heq := execute_eq hl fire id
        rw [if_neg (Ne.symm hid), if_neg (Ne.symm hid)] at heq
        split at heq <;> exact heq
    have hschedules : picked.2.schedules id = s.schedules id := by
      rw [hs']
      exact Function.update_of_ne (Ne.symm hid) _ _
    rw [hkeep.1, hkeep.2, hrow, hschedules]
    exact .kept hid

/-! ## Steps -/

/-- Each step of the service is, to every task, one of its transitions. -/
theorem taskStep_of_step {e : Event} (hs : Reachable lib s)
    (h : (sequential lib).step s e = some s') (id : TaskId) :
    TaskStep lib id e (s.row id) (s.schedules id) (s'.row id) (s'.schedules id) := by
  cases e with
  | request user request turn =>
    simp only [sequential, Option.ite_none_right_eq_some, Option.some.injEq] at h
    obtain ⟨hfresh, rfl⟩ := h
    cases request with
    | create body => exact taskStep_create hs hfresh id
    | task op taskId => exact taskStep_task hs id
    | run taskId =>
      obtain ⟨ht, hschedules⟩ := serve_run lib s turn user taskId
      have hrow : (serve lib none turn user (.run taskId) s).row id = s.row id := by
        rw [Service.row, ht]
      rw [hrow, hschedules]
      exact .kept trivial
  | query user query env =>
    obtain rfl := Option.some.inj h
    exact .kept trivial
  | execute taskId fire =>
    obtain ⟨picked, hpick, rfl⟩ := Option.map_eq_some_iff.1 h
    exact taskStep_execute hpick id

end SchedulerLm
