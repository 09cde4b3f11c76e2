import SchedulerLm.Base.Journal
import SchedulerLm.Identities

/-!
# Replaying the history

Every change of `scheduled_tasks` is committed together with a row of `task_history`
that tells it. So the table can be rebuilt from the history: which tasks there are,
whose they are, what they call, when they fire, and whether they are active
(`Service.rebuilt`). This holds under any interleaving and with any failures: of two
operations that have read the same row, both may be recorded, but the last one decides
both the row and what the history makes of it.

A successful execution of a `once` task is recorded as an execution only, and not as a
deactivation; that it is one follows from the trigger of its creation.

* `rebuilt_of_run`: in every state of a run, the table is what the history makes of it.
* `catchUp_of_run`: whoever knows a task in a state of a run catches up with the rows
  added since.
-/

namespace SchedulerLm

open Transition Relational

/-- What the history tells of a task. -/
structure Snapshot where
  userId : UserId
  webhookUrl : String
  triggerType : TriggerType
  columns : TriggerColumns
  isActive : Bool
  deriving DecidableEq

/-- What the history should tell of a row. -/
def ScheduledTask.snapshot (task : ScheduledTask) : Option Snapshot :=
  (triggerColumns task.triggerType task.triggerConfig).toOption.map fun columns =>
    { userId := task.userId
      webhookUrl := task.webhookUrl
      triggerType := task.triggerType
      columns := columns
      isActive := task.isActive }

/-- The task made active or inactive. -/
def Snapshot.setActive (isActive : Bool) (snapshot : Snapshot) : Snapshot :=
  { snapshot with isActive := isActive }

/-- The task after an execution that the scheduler asked for, and that succeeded. -/
def Snapshot.fired (snapshot : Snapshot) : Snapshot :=
  if snapshot.triggerType = .once then snapshot.setActive false else snapshot

/-- What a row of the history makes of its task. -/
def Snapshot.apply (now : Option Snapshot) (row : TaskHistoryRow) : Option Snapshot :=
  match row.eventType with
  | .taskCreated => row.webhookUrl.bind fun webhookUrl => row.triggerType.map fun triggerType =>
      { userId := row.userId
        webhookUrl := webhookUrl
        triggerType := triggerType
        columns := row.columns
        isActive := true }
  | .taskActivated => now.map (Snapshot.setActive true)
  | .taskDeactivated => now.map (Snapshot.setActive false)
  | .taskDeleted => none
  | .execution =>
    if row.executionSource = some .scheduled ∧ row.success = some true
      then now.map Snapshot.fired else now

/-- The task, rebuilt from its history. -/
def Service.rebuilt (s : Service) (id : TaskId) : Option Snapshot :=
  Journal.replay Snapshot.apply none (s.about id)

/-- What a request adds to the history as an execution is a manual run. -/
def Proc.RunsManually : Proc → Prop
  | .finishing work _ _ _ => ∀ row ∈ work.history,
      row.eventType = .execution → row.executionSource = some .manual
  | _ => True

variable {lib : Crontab} {known : Identities} {s s' : Service} {p q : Proc} {o : Option Proc}
  {k : Choice} {task : ScheduledTask} {id : TaskId} {work : UnitOfWork} {job : Option Job}
  {dbNow : Instant}

/-! ## Snapshots -/

/-- A row that can be stored has a snapshot. -/
theorem ScheduledTask.Storable.snapshot (h : task.Storable) :
    ∃ snapshot, task.snapshot = some snapshot := by
  obtain ⟨columns, hcolumns, -⟩ := h
  rw [ScheduledTask.snapshot, hcolumns]
  exact ⟨_, rfl⟩

/-- The snapshot of a row that can be rebuilt names its trigger. -/
theorem triggerType_of_snapshot {snapshot : Snapshot} (h : task.snapshot = some snapshot) :
    snapshot.triggerType = task.triggerType := by
  obtain ⟨columns, -, rfl⟩ := Option.map_eq_some_iff.1 h
  rfl

/-- An update that sets the activity of a row sets that of its snapshot. -/
theorem snapshot_apply {changes : Changes} {b : Bool} (hb : changes.isActive = some b)
    (old : Option ScheduledTask) :
    (old.map (changes.apply dbNow)).bind ScheduledTask.snapshot =
      (old.bind ScheduledTask.snapshot).map (Snapshot.setActive b) := by
  rcases old with _ | row
  · rfl
  · rw [Option.map_some, Option.bind_some, Option.bind_some, ScheduledTask.snapshot,
      ScheduledTask.snapshot,
      Changes.apply_triggerType, Changes.apply_triggerConfig, Option.map_map]
    congr 1
    funext columns
    rw [Changes.apply_isActive, hb]
    rfl

/-- What differs in its activity is written with the current one. -/
theorem dirty_eq_update (loaded current : ScheduledTask) (h : loaded.isActive ≠ current.isActive) :
    ∃ changes, dirty loaded current = .update loaded.id changes ∧
      changes.isActive = some current.isActive :=
  ⟨_, if_neg fun hsame => h hsame.1, if_neg h⟩

/-- A scheduled execution that has succeeded fires its task. -/
theorem Snapshot.apply_scheduled {historyId : ℕ} {userId : UserId} {webhookUrl : String}
    {outcome : WebhookFireOutcome} (now : Option Snapshot) (dbNow : Instant) :
    Snapshot.apply now
        { recordExecution historyId userId id .scheduled webhookUrl outcome
          with createdAt := dbNow } =
      if outcome.success then now.map Snapshot.fired else now := by
  simp [Snapshot.apply, recordExecution]

/-! ## The commits -/

/-- The work makes the changes its history rows tell. -/
def Tells (s : Service) (work : UnitOfWork) : Prop :=
  ∀ dbNow id, Journal.replay Snapshot.apply ((s.row id).bind ScheduledTask.snapshot)
      ((work.history.map fun row => ({ row with createdAt := dbNow } : TaskHistoryRow)).filter
        fun row => row.taskId = id) =
    (work.task.after dbNow id (s.row id)).bind ScheduledTask.snapshot

/-- A work of one row tells its change if the row tells that of its task, and the others
    are left. -/
theorem tells_of_singleton {row : TaskHistory} (hhistory : work.history = [row])
    (hother : ∀ dbNow id, id ≠ row.taskId → work.task.after dbNow id (s.row id) = s.row id)
    (hrow : ∀ dbNow, Snapshot.apply ((s.row row.taskId).bind ScheduledTask.snapshot)
        { row with createdAt := dbNow } =
      (work.task.after dbNow row.taskId (s.row row.taskId)).bind ScheduledTask.snapshot) :
        Tells s work := by
  intro dbNow id
  rw [hhistory, List.map_singleton]
  by_cases hid : row.taskId = id
  · subst hid
    rw [List.filter_cons_of_pos (by simp), List.filter_nil]
    exact hrow dbNow
  · rw [List.filter_cons_of_neg (by simpa using hid), List.filter_nil,
      hother dbNow id (Ne.symm hid)]
    rfl

/-- An update that sets the activity is told by a row that says so. -/
theorem tells_of_update {row : TaskHistory} {changes : Changes} {b : Bool}
    (hb : changes.isActive = some b) (hevent : row.eventType = if b then .taskActivated
      else .taskDeactivated) :
    Tells s { task := .update row.taskId changes, history := [row] } := by
  refine tells_of_singleton rfl (fun dbNow id hid => if_neg hid) (fun dbNow => ?_)
  rw [TaskWrite.after, if_pos rfl, snapshot_apply hb]
  cases b <;> simp only [Snapshot.apply, hevent, if_true, Bool.false_eq_true, if_false]

/-- What a request has gathered tells its changes. -/
theorem Gathered.tells {owner : UserId} (h : Gathered lib owner work job)
    (hmanual : ∀ row ∈ work.history, row.eventType = .execution →
      row.executionSource = some .manual) :
    Tells s work := by
  cases h with
  | nothing => intro dbNow id; rfl
  | @create task historyId row howner hactive _ hr =>
    obtain ⟨columns, hcolumns, rfl⟩ := Raising.map_eq_ok.1 hr
    refine tells_of_singleton rfl (fun dbNow id hid => if_neg hid) (fun dbNow => ?_)
    rw [TaskWrite.after, if_pos rfl, Option.bind_some, ScheduledTask.snapshot, hcolumns,
      howner, hactive]
    rfl
  | @activate task next row _ hactive _ hr =>
    obtain ⟨changes, hdirty, hb⟩ := dirty_eq_update task (task.activated next)
      (by simp [ScheduledTask.activated, hactive])
    obtain ⟨hevent, -, hid⟩ := hr
    rw [hdirty, ← hid]
    exact tells_of_update hb hevent
  | @deactivate task row _ hactive hr =>
    obtain ⟨changes, hdirty, hb⟩ := dirty_eq_update task task.deactivated
      (by simp [ScheduledTask.deactivated, hactive])
    obtain ⟨hevent, -, hid⟩ := hr
    rw [hdirty, ← hid]
    exact tells_of_update hb hevent
  | @delete task historyId row job _ hr _ =>
    obtain ⟨columns, hcolumns, rfl⟩ := Raising.map_eq_ok.1 hr
    refine tells_of_singleton rfl (fun dbNow id hid => if_neg hid) (fun dbNow => ?_)
    rw [TaskWrite.after, if_pos rfl]
    rfl
  | @run taskId row hr =>
    refine tells_of_singleton rfl (fun dbNow id hid => rfl) (fun dbNow => ?_)
    have hsource := hmanual row (List.mem_singleton.2 rfl) hr.1
    simp only [Snapshot.apply, hr.1, hsource, Option.some.injEq, reduceCtorEq, false_and, if_false]
    rfl

/-- What an execution of a known task is to commit tells its changes. -/
theorem Identities.Task.tells {historyId : ℕ} {outcome : WebhookFireOutcome} (h : known.Task task)
    (hactive : task.isActive = true) (hrows : ∀ id row, s.row id = some row → known.Task row) :
    Tells s (SchedulerLm.executed historyId task outcome).1 := by
  -- The row that is there by now has the trigger of the row that was loaded.
  have htype : ∀ snapshot, (s.row task.id).bind ScheduledTask.snapshot = some snapshot →
      snapshot.triggerType = task.triggerType := by
    intro snapshot hsnapshot
    obtain ⟨row, hrow, hsnapshot⟩ := Option.bind_eq_some_iff.1 hsnapshot
    have hknown := hrows _ _ hrow
    rw [Identities.Task, Table.key_of_find hrow, h] at hknown
    rw [triggerType_of_snapshot hsnapshot]
    exact (congrArg Identity.triggerType (Option.some.inj hknown)).symm
  obtain ⟨row, hrow, ⟨hsuccess, honce, hx⟩ | ⟨hnot, hx⟩⟩ :=
    executed_eq historyId task outcome <;> rw [hx]
  · obtain ⟨changes, hdirty, hb⟩ := dirty_eq_update task task.deactivated
      (by simp [ScheduledTask.deactivated, hactive])
    rw [hdirty]
    have hid : row.taskId = task.id := by rw [hrow]; rfl
    refine tells_of_singleton rfl (fun dbNow id hne => if_neg fun h => hne (h.trans hid.symm))
      (fun dbNow => ?_)
    rw [hid, TaskWrite.after, if_pos rfl, snapshot_apply hb, hrow, Snapshot.apply_scheduled,
      if_pos hsuccess]
    refine Option.map_congr fun snapshot hsnapshot => ?_
    rw [Snapshot.fired, htype snapshot hsnapshot, if_pos honce]
    rfl
  · have hid : row.taskId = task.id := by rw [hrow]; rfl
    refine tells_of_singleton rfl (fun dbNow id hne => rfl) (fun dbNow => ?_)
    rw [hid, hrow, Snapshot.apply_scheduled]
    change _ = (s.row task.id).bind ScheduledTask.snapshot
    split
    · rename_i hsuccess
      rcases hnow : (s.row task.id).bind ScheduledTask.snapshot with _ | snapshot
      · rfl
      · rw [Option.map_some, Snapshot.fired, htype snapshot hnow, if_neg fun h =>
          hnot ⟨hsuccess, h⟩]
    · rfl

/-! ## The steps -/

/-- What has no audit is not an execution. -/
theorem runsManually_of_audit {row : TaskHistory} {rows : List TaskHistory} (hrow : row ∈ rows)
    (haudit : rows.filterMap (fun row => row.audit) = []) : row.eventType ≠ .execution := by
  intro hevent
  have hnone := List.filterMap_eq_nil_iff.1 haudit row hrow
  rw [TaskHistory.audit, if_pos hevent] at hnone
  exact absurd hnone (by simp)

/-- What a process goes on as runs its task manually, if it does. -/
theorem Moves.runsManually (h : Moves lib s p k s' (some q)) (hp : p.RunsManually) :
    q.RunsManually := by
  generalize ho : some q = o at h
  cases h with
  | created _ hc =>
    obtain rfl := Option.some.inj ho
    exact fun row hrow hevent =>
      absurd hevent (runsManually_of_audit hrow (filterMap_audit_createTask hc))
  | handled hc =>
    obtain rfl := Option.some.inj ho
    exact fun row hrow hevent => absurd hevent
      (runsManually_of_audit hrow (filterMap_audit_handle hc))
  | committed | ran =>
    split at ho
    · exact absurd ho (by simp)
    · obtain rfl := Option.some.inj ho
      exact hp
  | runSent =>
    obtain rfl := Option.some.inj ho
    intro row hrow _
    obtain rfl := List.mem_singleton.1 hrow
    rfl
  | read | runRead | called | fireRead | fireSent =>
    obtain rfl := Option.some.inj ho
    trivial
  | @fireCommitted _ remove =>
    rcases remove with _ | taskId
    · exact absurd ho (by simp)
    · obtain rfl := Option.some.inj ho
      trivial
  | _ => exact absurd ho (by simp)

/-- What a process is to commit tells its changes. -/
theorem Proc.Coherent.tells (hk : p.Coherent known) (hp : p.Ok lib) (hmanual : p.RunsManually)
    (hw : p.pending = some work) (hrows : ∀ id row, s.row id = some row → known.Task row) :
    Tells s work := by
  rcases p with _ | _ | ⟨w, j, _ | _, r⟩ | _ | _ | _ | _ | ⟨w, remove⟩ | _ <;>
    simp only [Proc.pending, reduceCtorEq] at hw <;> obtain rfl := Option.some.inj hw
  · obtain ⟨⟨owner, hg⟩, -⟩ := hp
    exact hg.tells hmanual
  · obtain ⟨historyId, task, outcome, htask, hactive, he⟩ := hk
    obtain rfl : _ = (SchedulerLm.executed historyId task outcome).1 := congrArg Prod.fst he
    exact htask.tells hactive hrows

/-- What holds at any time, for the history to tell the table. -/
structure Telling (lib : Crontab) (s : Pool Service Proc) : Prop extends Consistent lib s where
  runsManually : ∀ p ∈ s.procs, p.RunsManually

theorem telling_init : Telling lib ⟨.init, []⟩ := ⟨consistent_init, by simp⟩

theorem Telling.step {s s' : Pool Service Proc} {a : Act Arrival Choice} (h : Telling lib s)
    (hs : (interleaving lib).step s a = some s') : Telling lib s' := by
  refine ⟨h.toConsistent.step hs, fun q hq => ?_⟩
  cases Program.moved_of_step hs with
  | @arrive i o ha hprocs =>
    rw [hprocs, List.mem_append, Option.mem_toList] at hq
    rcases hq with rfl | hq
    · cases i with
      | request => exact Option.some.inj (Prod.mk.inj (Option.some.inj ha)).2 ▸ trivial
      | fire =>
        obtain ⟨picked, -, ha⟩ := Option.map_eq_some_iff.1 ha
        exact Option.some.inj (Prod.mk.inj ha).2 ▸ trivial
    · exact h.runsManually q hq
  | move _ hm hp hp' =>
    rcases (mem_of_perm_toList hp').1 hq with rfl | hq
    · exact (moves_of_move hm).runsManually (h.runsManually _ ((mem_of_perm_cons hp).2 (.inl rfl)))
    · exact h.runsManually q ((mem_of_perm_cons hp).2 (.inr hq))

/-- The rows a step adds to the history tell the changes it makes. -/
theorem Telling.added {s s' : Pool Service Proc} {a : Act Arrival Choice} (h : Telling lib s)
    (hs : (interleaving lib).step s a = some s') :
    ∃ added, s'.shared.history = s.shared.history ++ added ∧
      ∀ id, Journal.replay Snapshot.apply ((s.shared.row id).bind ScheduledTask.snapshot)
        (added.filter fun row => row.taskId = id) =
          (s'.shared.row id).bind ScheduledTask.snapshot := by
  obtain ⟨known, hk⟩ := h.coherent
  -- A step that does not commit adds nothing, and changes no row.
  have hkeep : s'.shared.tasks = s.shared.tasks → s'.shared.history = s.shared.history →
      ∃ added, s'.shared.history = s.shared.history ++ added ∧
        ∀ id, Journal.replay Snapshot.apply ((s.shared.row id).bind ScheduledTask.snapshot)
          (added.filter fun row => row.taskId = id) =
            (s'.shared.row id).bind ScheduledTask.snapshot := by
    intro ht hh
    refine ⟨[], by rw [hh, List.append_nil], fun id => ?_⟩
    rw [List.filter_nil, Journal.replay_nil, Service.row, Service.row, ht]
  cases Program.moved_of_step hs with
  | arrive ha => exact hkeep (arrive_frame ha).1 (arrive_frame ha).2.1
  | @move n k p o rest _ hm hp _ =>
    have hpmem : p ∈ s.procs := (mem_of_perm_cons hp).2 (.inl rfl)
    rcases (moves_of_move hm).tables with ⟨ht, hh⟩ | ⟨work, dbNow, hw, hc⟩
    · exact hkeep ht hh
    · have htells := (hk.procs p hpmem).tells (h.sound.ok p hpmem)
        (h.runsManually p hpmem) hw hk.rows
      refine ⟨_, (commit_eq_some hc).2.1, fun id => ?_⟩
      rw [row_of_commit hc]
      exact htells dbNow id

/-! ## The runs -/

theorem explains_of_run {as : List (Act Arrival Choice)} {s : Pool Service Proc}
    (h : (interleaving lib).Run ⟨.init, []⟩ as s) (id : TaskId) :
    Journal.ExplainsAt (fun row : TaskHistoryRow => row.taskId) Snapshot.apply none s.shared.history
      (fun id => (s.shared.row id).bind ScheduledTask.snapshot) id := by
  refine Journal.explainsAt_of_run h telling_init (fun _ _ _ hI _ hs => hI.step hs) (fun id => ?_)
    (fun _ _ _ hI _ hs => hI.added hs) id
  rfl

/-- Whatever happens, the tasks are what the history makes of them: those it has
    created and not deleted, each with its snapshot. -/
theorem rebuilt_of_run {as : List (Act Arrival Choice)} {s : Pool Service Proc}
    (h : (interleaving lib).Run ⟨.init, []⟩ as s) (id : TaskId) :
    s.shared.rebuilt id = (s.shared.row id).bind ScheduledTask.snapshot ∧
      (s.shared.rebuilt id).isSome = (s.shared.row id).isSome := by
  have hrebuilt : s.shared.rebuilt id = (s.shared.row id).bind ScheduledTask.snapshot :=
    explains_of_run h id
  refine ⟨hrebuilt, ?_⟩
  have hsound : Sound lib s := h.invariant sound_init fun _ _ _ hI _ hs => hI.step hs
  rcases hrow : s.shared.row id with _ | task
  · rw [hrebuilt, hrow]
    rfl
  · obtain ⟨snapshot, hsnapshot⟩ := (hsound.storable id task hrow).snapshot
    rw [hrebuilt, hrow, Option.bind_some, hsnapshot]
    rfl

/-- Whoever knows what the history should tell of a task in a state of a run knows it in
    a later one from the rows about the task that have been added since. -/
theorem catchUp_of_run {as bs : List (Act Arrival Choice)} {s t : Pool Service Proc}
    (h : (interleaving lib).Run ⟨.init, []⟩ as s) (h' : (interleaving lib).Run s bs t)
    (id : TaskId) :
    Journal.replay Snapshot.apply ((s.shared.row id).bind ScheduledTask.snapshot)
        ((t.shared.about id).drop (s.shared.about id).length) =
      (t.shared.row id).bind ScheduledTask.snapshot :=
  (explains_of_run h id).catchUp (explains_of_run (h.append h') id) ((grows_of_run h').1.filter _)

/-- A `once` task is created, and executed with success. -/
def executedOnce : List (Act Arrival Choice) :=
  [.arrive (.request .sample (.create (.sample (.once ⟨0, some 0⟩)))),
    .move 0 (.body (.sample 0 1)), .move 0 (.commit 0), .move 0 (.job 0),
    .arrive (.fire 1 0 0), .move 0 .read, .move 0 (.send (.response 200) 0), .move 0 (.commit 0)]

/-- Its history has a creation and an execution; the task rebuilt from it is inactive,
    as the row is. -/
theorem rebuilt_executedOnce : ∃ s : Pool Service Proc,
    (interleaving .never).Run ⟨.init, []⟩ executedOnce s ∧ s.shared.active 1 = false ∧
      (s.shared.about 1).map (·.eventType) = [.taskCreated, .execution] ∧
      s.shared.rebuilt 1 = (s.shared.row 1).bind ScheduledTask.snapshot ∧
      (s.shared.rebuilt 1).isSome = (s.shared.row 1).isSome := by
  obtain ⟨s, hs, hactive, hevents⟩ :
    ∃ s, (interleaving .never).exec ⟨.init, []⟩ executedOnce = some s ∧
      s.shared.active 1 = false ∧ (s.shared.about 1).map (·.eventType) =
        [.taskCreated, .execution] :=
    ⟨_, rfl, rfl, rfl⟩
  have hrun := System.runWith_of_exec (D := fun _ => True) (fun _ _ => trivial) hs
  exact ⟨s, hrun, hactive, hevents, rebuilt_of_run hrun 1⟩

end SchedulerLm
