import SchedulerLm.Tasks

/-!
# Responses to mutations

What the response to a creation, an activation or a deactivation shows, against what a list
of tasks shows right after the commit (`Shown`). A creation refreshes its task before it
responds. An activation or a deactivation responds with the object it has changed but not
flushed, and so with the `updated_at` it has loaded: its response is what is listed iff it
has changed nothing, or the database clock has not moved (`shown_iff`).
-/

namespace SchedulerLm

open Relational

/-- Whatever list the user asks for, it shows the task as the response does. -/
def Shown (user : CurrentUser) (response : TaskResponse) (s : Service) : Prop :=
  ∀ env query, ∀ item ∈ (listTasks env user query s).items, item.id = response.id → item = response

/-- The request creates a task, or finds the task as it is asked to make it, or finds that it
    was updated last at the time the database has now. -/
def LeavesUpdatedAt (turn : Turn) (request : Request) (s : Service) : Prop :=
  match request with
  | .task op taskId => ∀ task, s.row taskId = some task →
      task.isActive = decide (op = .activate) ∨ task.updatedAt = turn.dbNow
  | _ => True

variable {lib : Crontab} {s s' : Service} {turn : Turn} {user : CurrentUser} {request : Request}
  {task row : ScheduledTask} {response : TaskResponse} {h : Handled} {taskId id : TaskId}

/-! ## Lists -/

/-- A list shows rows of the user. -/
theorem exists_row_of_mem {env : QueryEnv} {query : TaskListQuery} {item : TaskResponse}
    (hitem : item ∈ (listTasks env user query s).items) :
    ∃ row, s.row row.id = some row ∧ row.userId = user.userId ∧ item = toResponse row := by
  obtain ⟨row, hrow, rfl⟩ := List.mem_map.1 hitem
  have hmem := List.mem_of_mem_drop (List.mem_of_mem_take hrow)
  rw [orderBy, List.mem_mergeSort, applyUserScope_user] at hmem
  obtain ⟨hrow, howner⟩ := List.mem_filter.1 (List.mem_filter.1 hmem).1
  exact ⟨row, Table.find_of_mem hrow, by simpa using howner, rfl⟩

/-- Every row of the user is shown by some list, of one task. -/
theorem exists_list_of_row (hrow : s.row id = some row) (howner : row.userId = user.userId)
    (env : QueryEnv) :
    ∃ offset, toResponse row ∈
      (listTasks env user { activeOnly := false, limit := 1, offset := offset } s).items := by
  have hmem : row ∈ orderBy .desc (TaskSortField.createdAt.column) env.taskRank
      ((applyUserScope ScheduledTask.userId (some user.userId) s.tasks.rows).filter
        (TaskListQuery.filters { activeOnly := false })) := by
    rw [orderBy, List.mem_mergeSort, applyUserScope_user]
    refine List.mem_filter.2 ⟨List.mem_filter.2
      ⟨Table.mem_of_find hrow, by simpa using howner⟩, rfl⟩
  obtain ⟨n, hn, hget⟩ := List.mem_iff_getElem.1 hmem
  refine ⟨n, List.mem_map.2 ⟨row, ?_, rfl⟩⟩
  change row ∈ ((orderBy .desc (TaskSortField.createdAt.column) env.taskRank
    ((applyUserScope ScheduledTask.userId (some user.userId) s.tasks.rows).filter
      (TaskListQuery.filters { activeOnly := false }))).drop n).take 1
  rw [List.drop_eq_getElem_cons hn, List.take_succ_cons, hget]
  exact List.mem_cons_self

/-- What is shown is the row. -/
theorem shown_iff_row (hrow : s.row response.id = some row) (howner : row.userId = user.userId) :
    Shown user response s ↔ toResponse row = response := by
  have hid : row.id = response.id := Table.key_of_find hrow
  constructor
  · intro h
    obtain ⟨offset, hmem⟩ := exists_list_of_row hrow howner
      ⟨0, 0, fun _ => 0, fun _ => 0⟩
    exact h _ _ _ hmem hid
  · rintro rfl env query item hitem heq
    obtain ⟨other, hother, -, rfl⟩ := exists_row_of_mem hitem
    have hothers : other.id = row.id := heq
    rw [hothers] at hother
    exact congrArg toResponse (Option.some.inj (hother.symm.trans hrow))

/-! ## What is committed -/

/-- A creation that fits leaves the task its handler has refreshed. -/
theorem row_serve_create {body : TaskCreate} (hs : Reachable lib s)
    (hfresh : (Request.create body).drawsFresh turn s = true)
    (hfits : (Request.create body).fits turn) (hh : createTask lib turn.toEnv user body = .ok h) :
    ∃ row, h.response = some (toResponse row) ∧ row.userId = user.userId ∧
      (serve lib none turn user (.create body) s).row row.id = some row := by
  have hrow := row_of_drawsFresh hs hfresh
  have hp : Prepared lib { s with issued := turn.taskId :: s.issued } h :=
    prepared_createTask hrow hh
  have hfinish := (hp.finish_of_fits turn ((fits_createTask hh).2 hfits) turn.taskId).1
  obtain ⟨trigger, nextRunAt, row, -, -, -, rfl⟩ := createTask_eq_ok hh
  refine ⟨newTask turn.toEnv user body trigger nextRunAt, rfl, rfl, ?_⟩
  rw [serve_create hh]
  exact hfinish.trans (if_pos rfl)

/-- An operation leaves of the row it has loaded what its write makes of it. -/
theorem row_serve_task {op : TaskOp} (hs : Reachable lib s) (hrow : s.row task.id = some task)
    (howner : task.userId = user.userId) (hh : op.handle lib turn.toEnv user task = .ok h) :
    (serve lib none turn user (.task op task.id) s).row task.id =
      h.work.task.after turn.dbNow task.id (some task) := by
  have hrequest : (Request.task op task.id).handle lib turn user s = .ok h := by
    rw [Request.handle, getTaskOr404_eq_ok.2 ⟨hrow, howner⟩]
    exact hh
  rw [serve_task hrequest, ((prepared_handle hrow howner hh).finish_of_fits turn
    (fits_of_handle hh (hs.sound.storable _ _ hrow)) task.id).1, hrow]

/-- A row that differs from the one shown in its `updated_at` only is shown as it is iff that
    is the same. -/
theorem toResponse_updatedAt (dbNow : Instant) (task : ScheduledTask) :
    toResponse { task with updatedAt := dbNow } = toResponse task ↔ task.updatedAt = dbNow := by
  simp [toResponse, eq_comm]

/-- The response to an activation or a deactivation shows the row as it has been loaded, but
    for what the handler has set. -/
theorem response_task_iff {op : TaskOp} (hs : Reachable lib s) (hrow : s.row task.id = some task)
    (howner : task.userId = user.userId) (hh : op.handle lib turn.toEnv user task = .ok h)
    (hresponse : h.response = some response) :
    response.id = task.id ∧ ∃ row, row.userId = user.userId ∧
      (serve lib none turn user (.task op task.id) s).row task.id = some row ∧
      (toResponse row = response ↔
        task.isActive = decide (op = .activate) ∨ task.updatedAt = turn.dbNow) := by
  have hserve := row_serve_task hs hrow howner hh
  rw [hserve]
  cases op with
  | activate =>
    rcases activateTask_eq_ok hh with ⟨hactive, rfl⟩ | ⟨next, hactive, -, -, rfl⟩
    · obtain rfl := Option.some.inj hresponse
      exact ⟨rfl, task, howner, rfl, iff_of_true rfl (.inl hactive)⟩
    · obtain rfl := Option.some.inj hresponse
      refine ⟨rfl, { task.activated next with updatedAt := turn.dbNow }, howner,
        after_dirty_activated hactive, ?_⟩
      rw [toResponse_updatedAt, hactive]
      simp [ScheduledTask.activated]
  | deactivate =>
    obtain rfl := Except.ok.inj hh
    rw [deactivateTask] at hresponse ⊢
    by_cases hactive : task.isActive = true
    · rw [if_pos hactive] at hresponse ⊢
      obtain rfl := Option.some.inj hresponse
      refine ⟨rfl, { task.deactivated with updatedAt := turn.dbNow }, howner,
        after_dirty_deactivated hactive, ?_⟩
      rw [toResponse_updatedAt, hactive]
      simp [ScheduledTask.deactivated]
    · rw [if_neg hactive] at hresponse ⊢
      obtain rfl := Option.some.inj hresponse
      exact ⟨rfl, task, howner, rfl, iff_of_true rfl (.inl (by simpa using hactive))⟩
  | delete =>
    obtain ⟨row, -, rfl⟩ := Raising.map_eq_ok.1 hh
    exact absurd hresponse (by simp)

/-! ## Responses -/

/-- A response with a task is that of a handler that has returned. -/
theorem handle_of_respond (h : respond lib turn user request s = .ok (.task response)) :
    ∃ h, request.handle lib turn user s = .ok h ∧ h.response = some response := by
  cases request with
  | run taskId =>
    obtain ⟨⟨task, target, work⟩, -, h⟩ := Raising.bind_eq_ok.1 h
    dsimp only at h
    split at h
    · exact absurd h (by simp)
    · obtain ⟨_, -, h⟩ := Raising.map_eq_ok.1 h
      exact absurd h (by simp)
  | create body | task op taskId =>
    obtain ⟨h', hh, h⟩ := Raising.bind_eq_ok.1 h
    refine ⟨h', hh, ?_⟩
    split at h
    · exact absurd h (by simp)
    · rcases hr : h'.response with _ | response' <;> rw [hr] at h
      · exact absurd h (by simp)
      · exact congrArg some (Response.task.inj (Except.ok.inj h))

/-- A response to a request that commits shows what is listed iff the request leaves the
    time of the last update. -/
theorem shown_iff (hs : Reachable lib s) (hfresh : request.drawsFresh turn s = true)
    (hfits : request.fits turn) (h : respond lib turn user request s = .ok (.task response)) :
    Shown user response (serve lib none turn user request s) ↔ LeavesUpdatedAt turn request s := by
  obtain ⟨h, hh, hresponse⟩ := handle_of_respond h
  cases request with
  | create body =>
    obtain ⟨row, hrow, howner, hserve⟩ := row_serve_create hs hfresh hfits hh
    obtain rfl := Option.some.inj (hresponse.symm.trans hrow)
    exact iff_of_true ((shown_iff_row hserve howner).2 rfl) trivial
  | task op taskId =>
    obtain ⟨task, hload, hhandle⟩ := Raising.bind_eq_ok.1 hh
    obtain ⟨hrow, howner⟩ := getTaskOr404_eq_ok.1 hload
    obtain rfl : task.id = taskId := Table.key_of_find hrow
    obtain ⟨hid, row, howner', hserve, hiff⟩ := response_task_iff hs hrow howner hhandle hresponse
    have hshown : (serve lib none turn user (.task op task.id) s).row response.id = some row := by
      rw [hid]
      exact hserve
    rw [shown_iff_row hshown howner', hiff, LeavesUpdatedAt, hrow]
    simp
  | run taskId =>
    obtain rfl := Except.ok.inj hh
    exact absurd hresponse (by simp)

/-- A task of one minute, created at `0`. -/
def minuteTask : ScheduledTask := .sample 1 "alice" (.interval 60 minute_pos) (some 0)

/-- A deactivation is shown as it is listed, if the database still has the time of the
    creation. -/
theorem shown_deactivation : Shown .sample (toResponse minuteTask.deactivated)
    (serve .never none (.sample 0 2 .commitFirst (.response 200)) .sample (.task .deactivate 1)
      (serve .never none (.sample 0 1 .commitFirst (.response 200)) .sample
        (.create (.sample (.interval 60 minute_pos))) .init)) := by
  have hs : Reachable .never (serve .never none (.sample 0 1 .commitFirst (.response 200)) .sample
      (.create (.sample (.interval 60 minute_pos))) .init) := reachable_serve reachable_init rfl
  refine (shown_iff hs rfl ?_ rfl).2 ?_
  · exact trivial
  · rintro task htask
    obtain rfl : minuteTask = task := Option.some.inj htask
    exact .inr rfl

/-- The response to a mutation would show the committed row: that to a deactivation at `5`
    shows a task last updated at `0`. -/
theorem not_shown : ¬∀ (lib : Crontab) (s : Service) (turn : Turn) (user : CurrentUser)
    (request : Request) (response : TaskResponse), Reachable lib s →
      request.drawsFresh turn s = true → request.fits turn →
    respond lib turn user request s = .ok (.task response) →
    Shown user response (serve lib none turn user request s) := by
  intro h
  have hs : Reachable .never (serve .never none (.sample 0 1 .commitFirst (.response 200)) .sample
      (.create (.sample (.interval 60 minute_pos))) .init) := reachable_serve reachable_init rfl
  have hshown := h .never _ (.sample 5 2 .commitFirst (.response 200)) .sample (.task .deactivate 1)
    (toResponse minuteTask.deactivated) hs rfl trivial rfl
  have hrow :
    (serve .never none (.sample 5 2 .commitFirst (.response 200)) .sample (.task .deactivate 1)
      (serve .never none (.sample 0 1 .commitFirst (.response 200)) .sample
        (.create (.sample (.interval 60 minute_pos))) .init)).row 1 =
      some { minuteTask.deactivated with updatedAt := 5 } := rfl
  exact absurd ((shown_iff_row hrow rfl).1 hshown) (by decide)

end SchedulerLm
