import SchedulerLm.Pausing

/-!
# Recovery

A failure, or a race of requests, can leave the stores apart: a schedule without an active
row, or an active row without a schedule. The API has no operation that compares them, and
a request that finds the row as it is asked to make it does nothing, so it does not repair
anything. But a request that changes the activity of a task sets both stores, whatever they
held before. So a task is repaired by pausing and resuming it, in either order, and stays
so (`repaired_of_requests`), as long as no request is refused; the other tasks are left as
they are.
-/

namespace SchedulerLm

/-- The stores agree on the task. -/
def Service.AgreesAt (s : Service) (id : TaskId) : Prop := s.scheduled id = s.active id

/-- The row of a task of the user is active or not. -/
structure TaskAt (lib : Crontab) (user : CurrentUser) (id : TaskId) (active : Bool)
    (s : Service) : Prop where
  reachable : Reachable lib s
  row : ∃ row, s.row id = some row ∧ row.userId = user.userId ∧ row.isActive = active

/-- The requests, one after another, are answered with the task: none is refused, as one is
    that asks for an activation without a fire ahead. -/
def Answered (lib : Crontab) (user : CurrentUser) (id : TaskId) : Service → List Setting → Prop
  | _, [] => True
  | s, setting :: settings =>
    (∃ response, respond lib setting.2 user (.task (.setting setting.1) id) s =
      .ok (.task response)) ∧ Answered lib user id (setActive lib user id s setting) settings

variable {lib : Crontab} {user : CurrentUser} {id : TaskId} {s : Service} {turn : Turn}
  {setting : Setting} {settings : List Setting} {spec : StructuredTriggerSpec} {row : ScheduledTask}
  {active : Bool} {response : Response}

theorem TaskAt.active_eq (h : TaskAt lib user id active s) : s.active id = active := by
  obtain ⟨row, hrow, -, rfl⟩ := h.row
  exact active_of_row hrow

/-- The rows of the service have triggers. -/
theorem exists_trigger (hs : Reachable lib s) (hrow : s.row id = some row) :
    ∃ spec, row.HasTrigger lib spec := by
  obtain ⟨as, hrun⟩ := hs
  exact (rowsAre_of_run (fun _ => triggered_of_created) triggered_apply hrun).rows id row hrow

/-- An inactive task is activated by a request only if its trigger can be scheduled. -/
theorem schedulable_of_respond (hrow : s.row id = some row) (howner : row.userId = user.userId)
    (htrigger : row.HasTrigger lib spec) (hactive : row.isActive = false)
    (h : respond lib turn user (.task (.setting true) id) s = .ok response) :
    Schedulable lib turn.now spec := by
  obtain ⟨next, hnext⟩ := computeNextRunAt_isOk htrigger turn.now
  obtain ⟨handled, hhandled, -⟩ := Raising.bind_eq_ok.1 h
  rw [Request.handle, getTaskOr404_eq_ok.2 ⟨hrow, howner⟩] at hhandled
  exact (activateTask_isOk_iff hnext htrigger.type htrigger.config hactive).1 ⟨handled, hhandled⟩

/-- A request about a task leaves the row and the schedule of the other ones. -/
theorem setActive_of_ne (hs : Reachable lib s) (user : CurrentUser) (setting : Setting) {j : TaskId}
    (hj : j ≠ id) :
    (setActive lib user id s setting).row j = s.row j ∧
      (setActive lib user id s setting).schedules j = s.schedules j := by
  have hstep : TaskStep lib j (.request user (.task (.setting setting.1) id) setting.2) (s.row j)
    (s.schedules j)
      ((setActive lib user id s setting).row j) ((setActive lib user id s setting).schedules j) :=
    taskStep_task hs j
  generalize hevent : Event.request user (.task (.setting setting.1) id) setting.2 = e at hstep
  generalize s.row j = before at hstep
  generalize s.schedules j = scheduled at hstep
  generalize (setActive lib user id s setting).row j = after at hstep
  generalize (setActive lib user id s setting).schedules j = left at hstep
  cases hstep with
  | kept => exact ⟨rfl, rfl⟩
  | activated | deactivated | deleted =>
    obtain ⟨-, hrequest, -⟩ := Event.request.inj hevent
    exact absurd (Request.task.inj hrequest).2.symm hj
  | created | unfit =>
    obtain ⟨-, hrequest, -⟩ := Event.request.inj hevent
    exact absurd hrequest (by simp)
  | skipped | finished | executed => exact absurd hevent (by simp)

/-- A request sets both stores, if it changes the activity of the task, and neither of them
    otherwise. -/
theorem TaskAt.request (h : TaskAt lib user id active s)
    (hanswered : respond lib setting.2 user (.task (.setting setting.1) id) s = .ok response) :
    TaskAt lib user id setting.1 (setActive lib user id s setting) ∧
      (setting.1 ≠ active ∨ s.AgreesAt id → (setActive lib user id s setting).AgreesAt id) := by
  obtain ⟨b, turn⟩ := setting
  have hreach : Reachable lib (setActive lib user id s (b, turn)) := reachable_serve h.reachable rfl
  obtain ⟨row, hrow, howner, hactive⟩ := h.row
  by_cases hb : b = row.isActive
  · subst hb
    have hsame : setActive lib user id s (row.isActive, turn) = s :=
      (request_same lib turn hrow howner).2.2
    rw [hsame]
    refine ⟨⟨h.reachable, row, hrow, howner, rfl⟩, ?_⟩
    rintro (hne | hagrees)
    · exact absurd hactive hne
    · exact hagrees
  · obtain ⟨spec, htrigger⟩ := exists_trigger h.reachable hrow
    have hdue : b = true → Schedulable lib turn.now spec := by
      rintro rfl
      exact schedulable_of_respond hrow howner htrigger (by simpa using Ne.symm hb) hanswered
    obtain ⟨-, ⟨next, -, hrow'⟩, hscheduled, -⟩ :=
      request_of_ne h.reachable hrow howner htrigger hdue hb
    refine ⟨⟨hreach, _, hrow', howner, rfl⟩, fun _ => ?_⟩
    rw [Service.AgreesAt, show (setActive lib user id s (b, turn)).active id = b
      from active_of_row hrow']
    exact hscheduled

/-- The requests after one another: once one of them has changed the activity of the task,
    the stores agree on it. -/
theorem TaskAt.requests (h : TaskAt lib user id active s)
    (hanswered : Answered lib user id s settings)
    (hmended : (∃ setting ∈ settings, setting.1 ≠ active) ∨ s.AgreesAt id) :
    TaskAt lib user id (lastOf active settings) (setActives lib user id s settings) ∧
      (setActives lib user id s settings).AgreesAt id ∧
      ∀ j, j ≠ id → (setActives lib user id s settings).row j = s.row j ∧
        (setActives lib user id s settings).schedules j = s.schedules j := by
  induction settings generalizing active s with
  | nil =>
    rcases hmended with ⟨setting, hmem, -⟩ | hagrees
    · exact absurd hmem (by simp)
    · exact ⟨h, hagrees, fun _ _ => ⟨rfl, rfl⟩⟩
  | cons setting settings ih =>
    obtain ⟨⟨response, hresponse⟩, hlater⟩ := hanswered
    obtain ⟨h', hstep⟩ := h.request hresponse
    -- If this request does not change the activity, the one that does is still to come.
    have hmended' : (∃ later ∈ settings, later.1 ≠ setting.1) ∨
        (setActive lib user id s setting).AgreesAt id := by
      by_cases hne : setting.1 = active
      · rcases hmended with ⟨later, hmem, hchange⟩ | hagrees
        · rcases List.mem_cons.1 hmem with rfl | hmem
          · exact absurd hne hchange
          · exact .inl ⟨later, hmem, hne ▸ hchange⟩
        · exact .inr (hstep (.inr hagrees))
      · exact .inr (hstep (.inl hne))
    obtain ⟨hend, hagrees, hothers⟩ := ih h' hlater hmended'
    rw [lastOf_cons]
    refine ⟨hend, hagrees, fun j hj => ?_⟩
    obtain ⟨hrow, hschedule⟩ := setActive_of_ne h.reachable user setting hj
    exact ⟨(hothers j hj).1.trans hrow, (hothers j hj).2.trans hschedule⟩

/-- However far apart the stores are on a task: after requests of its owner among which
    there is a pause and a resumption, in any order, and none of which is refused, the task is as
    the last one has asked for in both stores, and the other tasks are as they were. -/
theorem repaired_of_requests (hs : Reachable lib s) (hrow : s.row id = some row)
    (howner : row.userId = user.userId) (hanswered : Answered lib user id s settings)
    (hboth : ∀ b, ∃ setting ∈ settings, setting.1 = b) :
    let repaired := setActives lib user id s settings
    repaired.active id = lastOf row.isActive settings ∧
      repaired.scheduled id = lastOf row.isActive settings ∧
      ∀ j, j ≠ id → repaired.row j = s.row j ∧ repaired.schedules j = s.schedules j := by
  intro repaired
  have howned : TaskAt lib user id row.isActive s := ⟨hs, row, hrow, howner, rfl⟩
  obtain ⟨setting, hmem, hsetting⟩ := hboth (!row.isActive)
  have hchange : ∃ setting ∈ settings, setting.1 ≠ row.isActive :=
    ⟨setting, hmem, by simp [hsetting]⟩
  obtain ⟨hend, hagrees, hothers⟩ := howned.requests hanswered (.inl hchange)
  exact ⟨hend.active_eq, hagrees.trans hend.active_eq, hothers⟩

/-- The registration of a new task has failed after its commit. -/
def unregistered : Service :=
  serve .never (some .job) (.sample 0 1 .commitFirst (.response 200)) .sample
    (.create (.sample (.interval 60 minute_pos))) .init

/-- Resuming the task does not help, but pausing and resuming it does. -/
theorem repaired_unregistered :
    unregistered.active 1 = true ∧ unregistered.scheduled 1 = false ∧
      let settings : List Setting := [(true, .sample 5 2 .jobFirst (.response 200)),
        (false, .sample 6 2 .jobFirst (.response 200)),
        (true, .sample 7 2 .commitFirst (.response 200))]
      (setActives .never .sample 1 unregistered (settings.take 1)).scheduled 1 = false ∧
      (setActives .never .sample 1 unregistered settings).active 1 = true ∧
      (setActives .never .sample 1 unregistered settings).scheduled 1 = true ∧
      ∀ j, j ≠ 1 → (setActives .never .sample 1 unregistered settings).row j = unregistered.row j ∧
        (setActives .never .sample 1 unregistered settings).schedules j =
          unregistered.schedules j := by
  have hs : Reachable .never unregistered := reachable_serve reachable_init rfl
  have hrow : unregistered.row 1 = some (.sample 1 "alice" (.interval 60 minute_pos)
      (some 0)) := rfl
  refine ⟨rfl, rfl, rfl, repaired_of_requests hs hrow rfl ⟨⟨_, rfl⟩, ⟨_, rfl⟩, ⟨_, rfl⟩,
    trivial⟩ fun b => ?_⟩
  cases b with
  | true => exact ⟨_, List.mem_cons_self, rfl⟩
  | false => exact ⟨_, List.mem_cons_of_mem _ List.mem_cons_self, rfl⟩

end SchedulerLm
