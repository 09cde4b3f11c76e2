import SchedulerLm.EventShape
import SchedulerLm.Schedulable
import SchedulerLm.Tasks

/-!
# Pausing and resuming

A task that is created, and then activated and deactivated, one request after another. As
long as its trigger has a fire ahead (`StaysDue`), every request succeeds, and one that
finds the task as it is asked to make it does nothing at all. What is left depends on the
last request, on the one that has last made the task active, and, for the history, on how
often the activity has changed (`standing_of_requests`).

The invariant of the requests (`Standing`) says how the row, the schedule and the history of
the task stand; every request takes it on to the next one (`Standing.request`).
-/

namespace SchedulerLm

open Relational

/-! ## Sequences of requests -/

/-- The operation that makes a task active, or inactive. -/
def TaskOp.setting (active : Bool) : TaskOp := if active then .activate else .deactivate

/-- A request to make the task active, or inactive, and what it finds. -/
abbrev Setting := Bool × Turn

variable (lib : Crontab) (user : CurrentUser) (id : TaskId)

/-- The state a request leaves that makes the task active, or inactive. -/
def setActive (s : Service) (setting : Setting) : Service :=
  serve lib none setting.2 user (.task (.setting setting.1) id) s

/-- The state some requests leave, one after another. -/
def setActives (s : Service) (settings : List Setting) : Service :=
  settings.foldl (setActive lib user id) s

/-- What the last request has asked for, and `active` without any. -/
def lastOf (active : Bool) (settings : List Setting) : Bool :=
  (settings.getLast?.map Prod.fst).getD active

/-- How often `is_active` changes. -/
def changes (s : Service) : List Setting → ℕ
  | [] => 0
  | setting :: settings =>
    let s' := setActive lib user id s setting
    (if s'.active id = s.active id then 0 else 1) + changes s' settings

/-- When a request has last changed `is_active` to true, and `t` without any. -/
def since (s : Service) (t : Instant) : List Setting → Instant
  | [] => t
  | setting :: settings =>
    let s' := setActive lib user id s setting
    since s' (if s.active id = false ∧ s'.active id = true then setting.2.now else t) settings

/-- The trigger has a fire ahead whenever one of the requests asks for it. -/
def StaysDue (settings : List Setting) : StructuredTriggerSpec → Prop
  | .once runAt => ∀ setting ∈ settings, setting.2.now < runAt.instant
  | .cron expression timezone => ∀ t, ∃ f, t ≤ f ∧ lib.Matches expression timezone f
  | .interval _ _ => True

/-! ## How a task stands -/

/-- The event is an activation or a deactivation. -/
def TaskHistoryEventType.isLifecycle : TaskHistoryEventType → Bool
  | .taskActivated | .taskDeactivated => true
  | _ => false

/-- The activations and deactivations in the history of the task. -/
def Service.lifecycle (s : Service) (taskId : TaskId) : ℕ :=
  (s.about taskId).countP fun row => row.eventType.isLifecycle

/-- The row is still that of the task, but for its activity. -/
structure ScheduledTask.Keeps (row task : ScheduledTask) : Prop where
  id : row.id = task.id
  userId : row.userId = task.userId
  webhookUrl : row.webhookUrl = task.webhookUrl
  parameters : row.parameters = task.parameters
  triggerType : row.triggerType = task.triggerType
  triggerConfig : row.triggerConfig = task.triggerConfig
  createdAt : row.createdAt = task.createdAt

/-- The task, with the trigger `spec`, is active or not, since the time `t`, and its activity
    has changed `n` times. -/
structure Standing (spec : StructuredTriggerSpec) (task : ScheduledTask) (active : Bool)
    (t : Instant) (n : ℕ) (s : Service) : Prop where
  row : ∃ row, s.row task.id = some row ∧ row.Keeps task ∧ row.isActive = active ∧
    if active then ∃ next, row.nextRunAt = some next ∧ computeNextRunAt lib t spec = .ok (some next)
    else row.nextRunAt = none
  scheduled : s.scheduled task.id = active
  lifecycle : s.lifecycle task.id = n

/-- The request is answered with the task; if it repeats what has been asked for, its handler has
    prepared nothing, and everything is as it was. -/
structure Taken (active : Bool) (s : Service) (setting : Setting) : Prop where
  answers : ∃ response, respond lib setting.2 user (.task (.setting setting.1) id) s =
    .ok (.task response)
  repeated : setting.1 = active → setActive lib user id s setting = s ∧
    ∃ response, (Request.task (.setting setting.1) id).handle lib setting.2 user s =
      .ok ⟨some response, {}, none⟩

variable {lib user id} {s : Service} {turn : Turn} {setting : Setting} {settings : List Setting}
  {spec : StructuredTriggerSpec} {task row : ScheduledTask} {h : Handled} {active : Bool}
  {t : Instant} {n : ℕ}

theorem Standing.active_eq (hst : Standing lib spec task active t n s) :
    s.active task.id = active := by
  obtain ⟨row, hrow, -, rfl, -⟩ := hst.row
  exact active_of_row hrow

/-- A first fire time can be computed at any time for a trigger that can be built. -/
theorem computeNextRunAt_isOk (htrigger : task.HasTrigger lib spec) (now : Instant) :
    ∃ next, computeNextRunAt lib now spec = .ok next := by
  obtain ⟨built, trigger, hbuilt⟩ := htrigger.built
  obtain ⟨trigger', hbuilt'⟩ := buildTrigger_isOk hbuilt now
  exact ⟨_, Raising.map_eq_ok.2 ⟨trigger', hbuilt', rfl⟩⟩

/-- A trigger that stays due can be scheduled at every request. -/
theorem StaysDue.schedulable (hdue : StaysDue lib settings spec)
    (htrigger : task.HasTrigger lib spec) (hsetting : setting ∈ settings) :
    Schedulable lib setting.2.now spec := by
  obtain ⟨next, hnext⟩ := computeNextRunAt_isOk htrigger setting.2.now
  cases spec with
  | once runAt => exact schedulable_once_iff.2 (hdue setting hsetting)
  | cron expression timezone => exact (schedulable_cron_iff hnext).2 (hdue _)
  | interval seconds pos => exact schedulable_interval hnext

/-- It has a first fire time at any time. -/
theorem StaysDue.exists_next (hdue : StaysDue lib settings spec)
    (htrigger : task.HasTrigger lib spec) (now : Instant) :
    ∃ next, computeNextRunAt lib now spec = .ok (some next) := by
  obtain ⟨next, hnext⟩ := computeNextRunAt_isOk htrigger now
  cases spec with
  | once runAt =>
    exact ⟨runAt.instant, by simp [computeNextRunAt, buildTrigger, Trigger.next, Except.map]⟩
  | cron expression timezone =>
    obtain ⟨next, hnext, -⟩ := (schedulable_cron_iff hnext).2 (hdue now)
    exact ⟨next, hnext⟩
  | interval seconds pos =>
    obtain ⟨next, hnext, -⟩ := schedulable_interval hnext
    exact ⟨next, hnext⟩

theorem StaysDue.mono {settings' : List Setting} (hdue : StaysDue lib settings spec)
    (hsub : settings' ⊆ settings) : StaysDue lib settings' spec := by
  cases spec with
  | once runAt => exact fun setting hsetting => hdue setting (hsub hsetting)
  | cron expression timezone => exact hdue
  | interval seconds pos => trivial

/-! ## Requests that change nothing -/

/-- Nothing is done when nothing has been prepared. -/
theorem finish_nothing (response : Option TaskResponse) :
    finish lib none turn ⟨response, {}, none⟩ s = s := by
  have hcommit : commit turn.dbNow {} s = some s := by
    simp [commit, UnitOfWork.fits, flush]
  cases ho : turn.order <;> simp [finish, ho, tryJob, tryCommit, hcommit]

/-- A handler that finds the task as it is asked to make it prepares nothing. -/
theorem handle_setting_same {env : Env} :
    (TaskOp.setting row.isActive).handle lib env user row = .ok ⟨some (toResponse row),
      {}, none⟩ := by
  cases hactive : row.isActive with
  | true => exact if_pos hactive
  | false => exact congrArg Except.ok (if_neg (by simp [hactive]))

/-! ## Requests that change the activity -/

/-- A task with a trigger is scheduled when it is registered. -/
theorem isSome_schedule_register (htrigger : row.HasTrigger lib spec) (now : Instant) :
    ((Job.register row).schedule lib now).isSome = true := by
  obtain ⟨built, trigger, hbuilt⟩ := htrigger.built
  obtain ⟨trigger', hbuilt'⟩ := buildTrigger_isOk hbuilt now
  rw [Job.schedule, htrigger.type, htrigger.config, buildTriggerFromTask_of_spec hbuilt, hbuilt']
  rfl

/-- A row is added to the history of its task. -/
theorem lifecycle_finish {added : TaskHistory} (hp : Prepared lib s h) (hfits : h.work.fits = true)
    (hhistory : h.work.history = [added]) (htask : added.taskId = id)
    (hevent : added.eventType.isLifecycle = true) :
    (finish lib none turn h s).lifecycle id = s.lifecycle id + 1 := by
  rw [Service.lifecycle, Service.about, hp.history_finish turn hfits, hhistory, List.filter_append,
    List.countP_append]
  simp [htask, hevent, Service.lifecycle, Service.about]

/-- A handler that finds the task otherwise sets it, records that, and asks for its
    registration, or its removal. -/
theorem handle_setting_of_ne (env : Env) (user : CurrentUser) (htrigger : row.HasTrigger lib spec)
    (hdue : active = true → Schedulable lib env.now spec) (hne : active ≠ row.isActive) :
    ∃ h next event, (TaskOp.setting active).handle lib env user row = .ok h ∧
      (if active then ∃ first, next = some first ∧ computeNextRunAt lib env.now spec =
        .ok (some first)
        else next = none) ∧
      event.isLifecycle = true ∧
      h.response = some (toResponse { row with isActive := active, nextRunAt := next }) ∧
      h.work.task = dirty row { row with isActive := active, nextRunAt := next } ∧
      h.work.history = [recordTaskLifecycle env.historyId user.userId row.id event] ∧
      h.job = some (if active then .register { row with isActive := active, nextRunAt := next }
        else .unregister row.id) := by
  cases active with
  | true =>
    have hactive : row.isActive = false := by simpa using hne.symm
    obtain ⟨next, hnext, hahead⟩ := hdue rfl
    have hfirst : computeNextRunAtForTask lib env.now row.triggerType row.triggerConfig =
        .ok (some next) := by
      rw [htrigger.type, htrigger.config]
      exact (computeNextRunAtForTask_of_spec hnext env.now).trans hnext
    have hpast : ¬(row.triggerType = .once ∧ next ≤ env.now) := by
      rintro ⟨honce, hle⟩
      exact absurd (hahead (htrigger.type.symm.trans honce)) (not_lt.2 hle)
    exact ⟨_, some next, .taskActivated, activateTask_of_next hactive hfirst hpast,
      ⟨next, rfl, hnext⟩, rfl, rfl, rfl, rfl, rfl⟩
  | false =>
    have hactive : row.isActive = true := by simpa using hne.symm
    exact ⟨_, none, .taskDeactivated, congrArg Except.ok (if_pos hactive), rfl, rfl, rfl,
      rfl, rfl, rfl⟩

/-- What such a request leaves of the row. -/
theorem after_dirty_setting {next : Option Instant} {dbNow : Instant}
    (hne : active ≠ row.isActive) :
    (dirty row { row with isActive := active, nextRunAt := next }).after dbNow row.id (some row) =
      some { row with isActive := active, nextRunAt := next, updatedAt := dbNow } := by
  by_cases hnext : row.nextRunAt = next <;>
    simp [dirty, TaskWrite.after, Changes.apply, hne.symm, hnext]

/-! ## A request -/

/-- What an operation answers when its handler has returned. -/
theorem respond_task {op : TaskOp} (hh : (Request.task op id).handle lib turn user s = .ok h)
    (hcommit : commit turn.dbNow h.work s ≠ none) :
    respond lib turn user (.task op id) s = .ok (h.response.elim .deleted .task) := by
  simp [respond, hh, Except.bind, hcommit]

/-- A request that finds the task as it is asked to make it is answered with the task, prepares
    nothing, and leaves everything as it is. -/
theorem request_same (lib : Crontab) (turn : Turn) (hrow : s.row id = some row)
    (howner : row.userId = user.userId) :
    (Request.task (.setting row.isActive) id).handle lib turn user s =
      .ok ⟨some (toResponse row), {}, none⟩ ∧
      respond lib turn user (.task (.setting row.isActive) id) s = .ok (.task (toResponse row)) ∧
      serve lib none turn user (.task (.setting row.isActive) id) s = s := by
  have hh : (Request.task (.setting row.isActive) id).handle lib turn user s =
      .ok ⟨some (toResponse row), {}, none⟩ := by
    rw [Request.handle, getTaskOr404_eq_ok.2 ⟨hrow, howner⟩]
    exact handle_setting_same
  exact ⟨hh, respond_task hh (by simp [commit, UnitOfWork.fits, flush]),
    (serve_task hh).trans (finish_nothing _)⟩

/-- One that finds it otherwise is answered with the task, and sets it in both stores. -/
theorem request_of_ne (hs : Reachable lib s) (hrow : s.row id = some row)
    (howner : row.userId = user.userId) (htrigger : row.HasTrigger lib spec)
    (hdue : active = true → Schedulable lib turn.now spec) (hne : active ≠ row.isActive) :
    (∃ response, respond lib turn user (.task (.setting active) id) s = .ok (.task response)) ∧
      (∃ next, (if active then ∃ first, next = some first ∧ computeNextRunAt lib turn.now spec =
        .ok (some first)
          else next = none) ∧
        (serve lib none turn user (.task (.setting active) id) s).row id =
          some { row with isActive := active, nextRunAt := next, updatedAt := turn.dbNow }) ∧
      (serve lib none turn user (.task (.setting active) id) s).scheduled id = active ∧
      (serve lib none turn user (.task (.setting active) id) s).lifecycle id =
        s.lifecycle id + 1 := by
  obtain rfl : row.id = id := Table.key_of_find hrow
  obtain ⟨h, next, event, hrowhandle, hnext, hevent, hresponse, hwrite, hhistory, hjob⟩ :=
    handle_setting_of_ne turn.toEnv user htrigger hdue hne
  have hp := prepared_handle hrow howner hrowhandle
  have hfits := fits_of_handle hrowhandle (hs.sound.storable _ _ hrow)
  have hh : (Request.task (.setting active) row.id).handle lib turn user s = .ok h := by
    rw [Request.handle, getTaskOr404_eq_ok.2 ⟨hrow, howner⟩]
    exact hrowhandle
  obtain ⟨hrow', hschedule⟩ := hp.finish_of_fits turn hfits row.id
  rw [serve_task hh]
  refine ⟨⟨toResponse { row with isActive := active, nextRunAt := next }, ?_⟩,
    ⟨next, hnext, ?_⟩, ?_, lifecycle_finish hp hfits hhistory rfl hevent⟩
  · rw [respond_task hh fun hnone => (hp.commits turn.dbNow s rfl).1 hnone hfits, hresponse,
      Option.elim_some]
  · rw [hrow', hrow, hwrite]
    exact after_dirty_setting hne
  · rw [Service.scheduled, hschedule, hjob, Option.elim_some]
    cases active with
    | true =>
      rw [if_pos rfl, if_pos (by rfl)]
      exact isSome_schedule_register ⟨htrigger.type, htrigger.config, htrigger.built⟩ turn.jobNow
    | false => simp [Job.taskId, Job.schedule]

/-- Every request is answered with the task, and takes it on. -/
theorem Standing.request (hs : Reachable lib s) (hst : Standing lib spec task active t n s)
    (howner : task.userId = user.userId) (htrigger : task.HasTrigger lib spec)
    (hdue : Schedulable lib setting.2.now spec) :
    Taken lib user task.id active s setting ∧
      Standing lib spec task setting.1 (if active = false ∧ setting.1 = true
        then setting.2.now else t)
        (n + if setting.1 = active then 0 else 1) (setActive lib user task.id s setting) := by
  obtain ⟨b, turn⟩ := setting
  obtain ⟨row, hrow, hkeeps, hactive, hnext⟩ := hst.row
  have howner' : row.userId = user.userId := hkeeps.userId.trans howner
  by_cases hb : b = active
  · obtain ⟨hh, hrespond, hserve⟩ := request_same lib turn hrow howner'
    obtain rfl : b = row.isActive := hb.trans hactive.symm
    refine ⟨⟨⟨_, hrespond⟩, fun _ => ⟨hserve, _, hh⟩⟩, ?_⟩
    rw [setActive, hserve, if_pos hb, if_neg, hactive]
    · exact hst
    · rw [hactive]
      simp
  · have htrigger' : row.HasTrigger lib spec :=
      ⟨hkeeps.triggerType.trans htrigger.type, hkeeps.triggerConfig.trans htrigger.config,
        htrigger.built⟩
    obtain ⟨hrespond, ⟨next, hnext', hrow'⟩, hscheduled, hlifecycle⟩ :=
      request_of_ne hs hrow howner' htrigger' (fun _ => hdue) fun h => hb (h.trans hactive)
    refine ⟨⟨hrespond, fun h => absurd h hb⟩,
      ⟨_, hrow', ⟨hkeeps.id, hkeeps.userId, hkeeps.webhookUrl,
      hkeeps.parameters, hkeeps.triggerType, hkeeps.triggerConfig, hkeeps.createdAt⟩, rfl, ?_⟩,
        hscheduled, ?_⟩
    · cases b with
      | true => simpa [show active = false by simpa using Ne.symm hb] using hnext'
      | false => exact hnext'
    · rw [if_neg hb, ← hst.lifecycle]
      exact hlifecycle

/-! ## Sequences -/

/-- A task that has just been created is active, since its creation. -/
theorem standing_serve_create {body : TaskCreate} (hs : Reachable lib s)
    (hfresh : (Request.create body).drawsFresh turn s = true)
    (hspec : resolveTriggerSpec turn.toEnv body.trigger = .ok spec)
    (htask : (serve lib none turn user (.create body) s).row turn.taskId = some task)
    (hdue : StaysDue lib settings spec) :
    task.userId = user.userId ∧ task.HasTrigger lib spec ∧
      Standing lib spec task true turn.now 0 (serve lib none turn user (.create body) s) := by
  have hid : task.id = turn.taskId := Table.key_of_find htask
  have hissued : turn.taskId ∉ s.issued := by simpa [Request.drawsFresh] using hfresh
  have hrow := row_of_drawsFresh hs hfresh
  have habout : s.about turn.taskId = [] := by
    by_contra hne
    exact hissued (hs.sound.about_issued _ hne)
  rcases hc : createTask lib turn.toEnv user body with e | h
  · rw [serve_create_of_error hc] at htask
    exact absurd (hrow.symm.trans htask) (by simp)
  · have hp : Prepared lib { s with issued := turn.taskId :: s.issued } h :=
      prepared_createTask hrow hc
    have hleft : serve lib none turn user (.create body) s = _ := serve_create hc
    by_cases hfits : h.work.fits = true
    · obtain ⟨hrow', hschedule⟩ := hp.finish_of_fits turn hfits turn.taskId
      have hhistory := hp.history_finish turn hfits
      obtain ⟨trigger, nextRunAt, added, hspec', hnext, hadded, rfl⟩ := createTask_eq_ok hc
      obtain rfl := Except.ok.inj (hspec.symm.trans hspec')
      rw [hleft] at htask ⊢
      obtain rfl := Option.some.inj (htask.symm.trans (hrow'.trans (if_pos rfl)))
      have htrigger : (newTask turn.toEnv user body spec nextRunAt).HasTrigger lib spec :=
        triggered_newTask hnext
      obtain ⟨hevent, -, hadded⟩ := records_recordSnapshot hadded
      obtain ⟨next, hfirst⟩ := hdue.exists_next htrigger turn.now
      obtain rfl := Except.ok.inj (hnext.symm.trans hfirst)
      refine ⟨rfl, htrigger, ⟨_, htask, ⟨rfl, rfl, rfl, rfl, rfl, rfl, rfl⟩, rfl, next, rfl,
        hfirst⟩, ?_, ?_⟩
      · exact (congrArg Option.isSome (hschedule.trans (if_pos rfl))).trans
          (isSome_schedule_register htrigger turn.jobNow)
      · -- The history begins with the creation.
        have hcount : (serve lib none turn user (.create body) s).about turn.taskId =
            [{ added with createdAt := turn.dbNow }] := by
          rw [hleft, Service.about, hhistory, List.filter_append]
          change s.about turn.taskId ++ _ = _
          rw [habout]
          simp [hadded, newTask]
        rw [Service.lifecycle, ← hleft]
        change ((serve lib none turn user (.create body) s).about turn.taskId).countP _ = 0
        rw [hcount]
        simp [hevent, TaskHistoryEventType.isLifecycle]
    · rw [hleft, Service.row, (hp.finish_of_not_fits turn hfits).1] at htask
      exact absurd (hrow.symm.trans htask) (by simp)

theorem lastOf_cons : lastOf active (setting :: settings) = lastOf setting.1 settings := by
  rw [lastOf, lastOf, List.getLast?_cons]
  cases settings.getLast? <;> rfl

/-- The requests after one another. -/
theorem Standing.requests (hs : Reachable lib s) (hst : Standing lib spec task active t n s)
    (howner : task.userId = user.userId) (htrigger : task.HasTrigger lib spec)
    (hdue : StaysDue lib settings spec) :
    Reachable lib (setActives lib user task.id s settings) ∧
      Standing lib spec task (lastOf active settings) (since lib user task.id s t settings)
        (n + changes lib user task.id s settings) (setActives lib user task.id s settings) := by
  induction settings generalizing active t n s with
  | nil => exact ⟨hs, hst⟩
  | cons setting settings ih =>
    have hs' : Reachable lib (setActive lib user task.id s setting) := reachable_serve hs rfl
    obtain ⟨-, hst'⟩ := hst.request hs howner htrigger
      (hdue.schedulable htrigger List.mem_cons_self)
    obtain ⟨hreach, hrest⟩ := ih hs' hst' (hdue.mono (List.subset_cons_self _ _))
    refine ⟨hreach, ?_⟩
    rw [lastOf_cons, since, changes, hst.active_eq, hst'.active_eq, ← Nat.add_assoc]
    exact hrest

/-- Every request succeeds, and one that repeats what has been asked for does nothing. In the
    end the task is active iff the last request has asked for it, or there was none; its next
    fire time is that at the last change to active, or at the creation, and it is scheduled
    iff it is active; each change of its activity, and nothing else, has been recorded. -/
theorem standing_of_requests {body : TaskCreate} (hs : Reachable lib s)
    (hfresh : (Request.create body).drawsFresh turn s = true)
    (hspec : resolveTriggerSpec turn.toEnv body.trigger = .ok spec)
    (htask : (serve lib none turn user (.create body) s).row turn.taskId = some task)
    (hdue : StaysDue lib settings spec) :
    let created := serve lib none turn user (.create body) s
    (∀ before setting after, settings = before ++ setting :: after →
      Taken lib user turn.taskId (lastOf true before)
        (setActives lib user turn.taskId created before) setting) ∧
      Standing lib spec task (lastOf true settings)
        (since lib user turn.taskId created turn.now settings)
        (changes lib user turn.taskId created settings)
          (setActives lib user turn.taskId created settings) := by
  intro created
  have hcreated : Reachable lib created := reachable_serve hs hfresh
  obtain ⟨howner, htrigger, hstanding⟩ := standing_serve_create hs hfresh hspec htask hdue
  obtain hid : task.id = turn.taskId := Table.key_of_find htask
  rw [← hid]
  refine ⟨?_, ?_⟩
  · rintro before setting after rfl
    obtain ⟨hreach, hbefore⟩ := hstanding.requests hcreated howner htrigger
      (hdue.mono (List.subset_append_left before _))
    exact (hbefore.request hreach howner htrigger (hdue.schedulable htrigger (by simp))).1
  · have hend := (hstanding.requests hcreated howner htrigger hdue).2
    rw [Nat.zero_add] at hend
    exact hend

/-- Paused twice, at `5` and at `6`, and resumed at `7`. -/
def pausings : List Setting :=
  [(false, .sample 5 2 .commitFirst (.response 200)),
    (false, .sample 6 2 .jobFirst (.response 200)),
    (true, .sample 7 2 .commitFirst (.response 200))]

/-- A task for the time `100` is active again, after two changes. -/
theorem standing_resumed :
    Standing .never (.once ⟨100, some 0⟩) (.sample 1 "alice" (.once ⟨100, some 0⟩)
      (some 100)) true 7 2
      (setActives .never .sample 1
        (serve .never none (.sample 0 1 .commitFirst (.response 200)) .sample
          (.create (.sample (.once ⟨100, some 0⟩))) .init) pausings) := by
  have htask : (serve .never none (.sample 0 1 .commitFirst (.response 200)) .sample
      (.create (.sample (.once ⟨100, some 0⟩))) .init).row 1 =
        some (.sample 1 "alice" (.once ⟨100, some 0⟩) (some 100)) := rfl
  have hdue : StaysDue .never pausings (.once ⟨100, some 0⟩) := by
    change ∀ setting ∈ pausings, setting.2.now < 100
    decide
  exact (standing_of_requests reachable_init rfl rfl htask hdue).2

end SchedulerLm
