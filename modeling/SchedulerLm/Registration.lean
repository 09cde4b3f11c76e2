import SchedulerLm.Agreement

/-!
# Fires of a schedule just registered

A creation, or an activation, registers a schedule by its background job, which
may run before the commit; and a schedule may be due at once. An execution that
loads the task before the commit does not find it, or finds it inactive, and
drops the fire, which for a `once` task is its only one.

* `Queued`: the handler of a creation or of an activation has returned.
* `Alone`: the steps from there on, with anything happening to other tasks, and no
  other operation on this one.
* `executes_iff_committed`: a fire of the task sends its GET iff the commit is done
  when it loads the task.

The invariant (`Registering`) counts, for a `once` task, what can still lead to
its GET (`tokens`): its job, its schedule, and the fires that are under way.
-/

namespace SchedulerLm

open Transition Relational

/-- A request that makes `task` active has just been handled. -/
inductive Queued (lib : Crontab) : Pool Service Proc → ScheduledTask → Prop
  | create {s : Service} {user : CurrentUser} {body : TaskCreate} {env : Env} {h : Handled}
      {task : ScheduledTask} :
      Reachable lib s → env.taskId ∉ s.issued → createTask lib env user body = .ok h →
      h.job = some (.register task) →
      Queued lib ⟨{ s with issued := env.taskId :: s.issued },
        [.finishing h.work h.job false false]⟩ task
  | activate {s : Service} {user : CurrentUser} {row : ScheduledTask} {env : Env} {h : Handled}
      {task : ScheduledTask} :
      Reachable lib s → getTaskOr404 user row.id s = .ok row →
      (row.triggerType = .once → s.scheduled row.id = false) →
      activateTask lib env user row = .ok h → h.job = some (.register task) →
      Queued lib ⟨s, [.finishing h.work h.job false false]⟩ task

/-- The process is to commit an activation of the task. -/
def Proc.activates (id : TaskId) (p : Proc) : Bool :=
  p.pending.any fun work => work.task.sets = some (id, true)

/-- The activation of the task is not committed yet. -/
def Uncommitted (s : Pool Service Proc) (id : TaskId) : Prop := ∃ p ∈ s.procs, p.activates id = true

/-- The activation of the task, unless it is committed, does not fail and its commit
    does not raise; and no other operation loads the task. -/
def Alone (id : TaskId) (s : Pool Service Proc) : Act Arrival Choice → Prop
  | .move n .fail => ∀ p, s.procs[n]? = some p → p.activates id = false
  | .move n (.commit dbNow) => ∀ p work, s.procs[n]? = some p → p.activates id = true →
      p.pending = some work → commit dbNow work s.shared ≠ none
  | .move n .read => ∀ user op, s.procs[n]? ≠ some (.arrived user (.task op id))
  | _ => True

/-! ## Tokens -/

/-- The process can lead to a GET for the task, or has led to its deactivation. -/
def Proc.token (id : TaskId) : Proc → Bool
  | .finishing _ (some (.register task)) _ false => task.id = id
  | .fired taskId => taskId = id
  | .executing task => task.id = id
  | .executed _ (some taskId) => taskId = id
  | _ => false

/-- The schedule of the task, counted. -/
def Service.scheduleToken (s : Service) (id : TaskId) : ℕ := if s.scheduled id then 1 else 0

/-- What can lead to a GET for the task. -/
def tokens (s : Pool Service Proc) (id : TaskId) : ℕ :=
  s.shared.scheduleToken id + s.procs.countP (Proc.token id)

/-- The process does not operate on the task, except to activate it as `task`, and
    executes it as what it is. -/
def Proc.Quiet (task : ScheduledTask) : Proc → Prop
  | .loaded _ _ other => other.id ≠ task.id
  | .finishing work job _ _ => work.taskId ≠ some task.id ∨
      (work.task.sets = some (task.id, true) ∧ job = some (.register task)) ∨ work.task = .nothing
  | .executing other => other.id = task.id → other.triggerType = task.triggerType
  | .executed work remove => work.taskId = some task.id →
      work.task = .nothing ∨ (task.triggerType = .once ∧ remove = some task.id)
  | _ => True

variable {lib : Crontab} {s s' : Service} {p q : Proc} {o : Option Proc} {k : Choice}
  {task : ScheduledTask} {id : TaskId}

theorem scheduleToken_eq (h : s'.scheduled id = s.scheduled id) :
    s'.scheduleToken id = s.scheduleToken id := by
  rw [Service.scheduleToken, h, Service.scheduleToken]

theorem scheduleToken_unregister (taskId id : TaskId) (s : Service) :
    (unregisterSchedule taskId s).scheduleToken id ≤ s.scheduleToken id := by
  by_cases h : id = taskId
  · subst h
    simp [Service.scheduleToken, Service.scheduled, unregisterSchedule]
  · refine le_of_eq (scheduleToken_eq ?_)
    simp [Service.scheduled, unregisterSchedule, Function.update_of_ne h]

/-- A move makes no tokens. -/
theorem Moves.tokens_le (h : Moves lib s p k s' o) (hp : p.Ok lib) (hquiet : p.Quiet task)
    (hissued : task.id ∈ s.issued) :
    s'.scheduleToken task.id + o.toList.countP (Proc.token task.id) ≤
      s.scheduleToken task.id + [p].countP (Proc.token task.id) := by
  cases h with
  | failed | refused | issued | aborted | raised | fireAborted =>
    simp only [Option.toList_none, List.countP_nil, Nat.add_zero]
    exact Nat.le_add_right _ _
  | @created user body env h hfresh hc =>
    obtain ⟨trigger, nextRunAt, row, -, -, -, rfl⟩ := createTask_eq_ok hc
    have hne : env.taskId ≠ task.id := fun h => hfresh (h ▸ hissued)
    have hnot : Proc.token task.id (.finishing
        { task := .insert (newTask env user body trigger nextRunAt), history := [row] }
        (some (.register (newTask env user body trigger nextRunAt))) false false) = false :=
      decide_eq_false hne
    rw [Option.toList_some, List.countP_singleton, hnot]
    exact Nat.le_add_right _ _
  | @handled user op other env h hc =>
    have hnot : Proc.token task.id (.finishing h.work h.job false false) = false := by
      rcases hjob : h.job with _ | ⟨registered⟩ | ⟨taskId⟩
      · rfl
      · refine decide_eq_false fun hid => hquiet ?_
        have hwork := (gathered_handle hp.1 hc).about.2.2 _ hjob
        rw [(about_of_handle hc).1 _ hwork]
        exact hid
      · rfl
    rw [Option.toList_some, List.countP_singleton, hnot]
    exact Nat.le_add_right _ _
  | read | runRead | called | runSent => exact Nat.le_refl _
  | @committed work job ran dbNow s' hc =>
    refine Nat.add_le_add (le_of_eq (scheduleToken_eq ?_)) ?_
    · rw [Service.scheduled, (commit_eq_some hc).2.2.1, Service.scheduled]
    · split
      · simp
      · rename_i hran
        rcases job with _ | ⟨registered⟩ | ⟨taskId⟩ <;> cases ran <;> simp [Proc.token]
  | @ran work job committed now s' hj =>
    have hnot : ∀ x, (if committed then none else
        some (Proc.finishing work (some job) committed true)) = some x →
          Proc.token task.id x = false := by
      intro x hx
      split at hx
      · exact absurd hx (by simp)
      · obtain rfl := Option.some.inj hx
        cases job <;> rfl
    rw [List.countP_eq_zero.2 fun x hx => by simp [hnot x (Option.mem_toList.1 hx)], Nat.add_zero]
    by_cases hid : task.id = job.taskId
    · rcases job with registered | taskId
      · simp only [Service.scheduleToken, List.countP_singleton, Proc.token,
          show registered.id = task.id from hid.symm, decide_true, if_true]
        split <;> omega
      · rw [Service.scheduleToken, scheduled_of_runJob hj, if_pos hid]
        exact Nat.zero_le _
    · have hsame : s'.scheduleToken task.id = s.scheduleToken task.id :=
        scheduleToken_eq (by rw [scheduled_of_runJob hj, if_neg hid])
      rw [hsame]
      exact Nat.le_add_right _ _
  | @fireRead taskId loaded hload =>
    have hid := Table.key_of_find (loadActive_eq_some.1 hload).1
    simp [Proc.token, hid]
  | @fireSent loaded answer historyId =>
    obtain ⟨row, -, ⟨-, -, hx⟩ | ⟨-, hx⟩⟩ := executed_eq historyId loaded answer.outcome
    · rw [hx]
      exact Nat.le_refl _
    · rw [hx]
      exact Nat.le_add_right _ _
  | @fireCommitted work remove dbNow s' hc =>
    refine Nat.add_le_add (le_of_eq (scheduleToken_eq ?_)) ?_
    · rw [Service.scheduled, (commit_eq_some hc).2.2.1, Service.scheduled]
    · cases remove <;> simp [Proc.token]
  | removed =>
    exact (Nat.add_le_add_right (scheduleToken_unregister _ _ _) _).trans (by simp)

/-! ## The moves -/

/-- What a process goes on as is quiet, if it was itself. -/
theorem Moves.quiet (h : Moves lib s p k s' (some q)) (hp : p.Ok lib) (hquiet : p.Quiet task)
    (hissued : task.id ∈ s.issued)
    (hrow : ∀ row, s.row task.id = some row → row.triggerType = task.triggerType)
    (halone : k = .read → ∀ user op, p ≠ .arrived user (.task op task.id)) : q.Quiet task := by
  generalize ho : some q = o at h
  cases h with
  | @created user body env _ hfresh hc =>
    obtain rfl := Option.some.inj ho
    obtain ⟨trigger, nextRunAt, row, -, -, hr, rfl⟩ := createTask_eq_ok hc
    refine .inl fun hid => hfresh ?_
    have hid : env.taskId = task.id :=
      (records_recordSnapshot hr).2.2.symm.trans (Option.some.inj hid)
    rwa [hid]
  | @read user op taskId loaded hload =>
    obtain rfl := Option.some.inj ho
    intro hid
    exact halone rfl user op (by rw [← hid, ← Table.key_of_find hload])
  | @handled user op other env h hc =>
    obtain rfl := Option.some.inj ho
    exact .inl fun hid => hquiet ((about_of_handle hc).1 _ hid)
  | committed | ran =>
    split at ho
    · exact absurd ho (by simp)
    · obtain rfl := Option.some.inj ho
      exact hquiet
  | runRead | called =>
    obtain rfl := Option.some.inj ho
    trivial
  | runSent =>
    obtain rfl := Option.some.inj ho
    exact .inr (.inr rfl)
  | @fireRead taskId loaded hload =>
    obtain rfl := Option.some.inj ho
    intro hid
    have hfind := (loadActive_eq_some.1 hload).1
    refine hrow loaded ?_
    rwa [← hid, Table.key_of_find hfind]
  | @fireSent loaded answer historyId =>
    obtain rfl := Option.some.inj ho
    obtain ⟨row, hr, ⟨-, honce, hx⟩ | ⟨-, hx⟩⟩ := executed_eq historyId loaded answer.outcome <;>
      rw [hx] <;> intro hid
    · have hid : loaded.id = task.id := by rw [← Option.some.inj hid, hr]; rfl
      exact .inr ⟨(hquiet hid).symm.trans honce, congrArg some hid⟩
    · exact .inl rfl
  | @fireCommitted _ remove =>
    rcases remove with _ | taskId
    · exact absurd ho (by simp)
    · obtain rfl := Option.some.inj ho
      trivial
  | _ => exact absurd ho (by simp)

/-- The rows keep the types of their triggers. -/
theorem Moves.triggerType (h : Moves lib s p k s' o) {row : ScheduledTask}
    (hrow : s'.row id = some row) :
    (∃ old, s.row id = some old ∧ row.triggerType = old.triggerType) ∨ p.Inserts row ∧
      row.id = id := by
  rcases h.tables with ⟨ht, -⟩ | ⟨work, dbNow, hw, hc⟩
  · rw [Service.row, ht] at hrow
    exact .inl ⟨row, hrow, rfl⟩
  · rw [row_of_commit hc] at hrow
    cases htask : work.task with
    | nothing => exact .inl ⟨row, by rwa [htask] at hrow, rfl⟩
    | insert inserted =>
      rw [htask, TaskWrite.after] at hrow
      split at hrow
      · rename_i hid
        obtain rfl := Option.some.inj hrow
        exact .inr ⟨⟨work, hw, htask⟩, hid.symm⟩
      · exact .inl ⟨row, hrow, rfl⟩
    | update j changes =>
      rw [htask, TaskWrite.after] at hrow
      split at hrow
      · obtain ⟨old, hold, rfl⟩ := Option.map_eq_some_iff.1 hrow
        exact .inl ⟨old, hold, rfl⟩
      · exact .inl ⟨row, hrow, rfl⟩
    | delete j =>
      rw [htask, TaskWrite.after] at hrow
      split at hrow
      · exact absurd hrow (by simp)
      · exact .inl ⟨row, hrow, rfl⟩

theorem activates_iff : p.activates id = true ↔
    ∃ work, p.pending = some work ∧ work.task.sets = some (id, true) := by
  simp [Proc.activates, Option.any_eq_true]

theorem activates_eq_false (h : p.pending = none) : p.activates id = false := by
  rw [Proc.activates, h]
  rfl

/-- A process that activates a task holds it. -/
theorem Proc.Ok.holds_of_activates (hp : p.Ok lib) (h : p.activates id = true) :
    p.holds = some id := by
  obtain ⟨work, hw, hsets⟩ := activates_iff.1 h
  exact (hp.about hw).2 id (TaskWrite.taskId_of_sets hsets)

/-- An execution activates nothing. -/
theorem Proc.Ok.activates_executed {work : UnitOfWork} {remove : Option TaskId}
    (hp : Proc.Ok lib (.executed work remove)) :
    Proc.activates id (.executed work remove) = false := by
  rw [Bool.eq_false_iff]
  intro h
  obtain ⟨work', hw, hsets⟩ := activates_iff.1 h
  obtain rfl := Option.some.inj hw
  obtain ⟨historyId, loaded, outcome, hactive, he⟩ := hp
  obtain ⟨row, -, ⟨-, -, hx⟩ | ⟨-, hx⟩⟩ := executed_eq historyId loaded outcome <;>
    rw [hx] at he <;> obtain ⟨rfl, -⟩ := Prod.mk.inj he
  · exact absurd ((sets_dirty_deactivated hactive).symm.trans hsets) (by simp)
  · exact absurd hsets (by simp [TaskWrite.sets])

/-- A commit of a quiet process makes the task active, or inactive as its only fire
    has been executed, or leaves its activity. -/
theorem Proc.Quiet.commit {work : UnitOfWork} {dbNow : Instant} (hquiet : p.Quiet task)
    (hp : p.Ok lib) (hw : p.pending = some work) (hc : commit dbNow work s = some s') :
    (p.activates task.id = true ∧ s'.active task.id = true) ∨
      (p.activates task.id = false ∧ s'.active task.id = s.active task.id) ∨
      (task.triggerType = .once ∧ s'.active task.id = false ∧ p.activates task.id = false ∧
        p = .executed work (some task.id)) := by
  have hactive := active_of_commit hc task.id
  -- A commit about another task, or without a write, keeps the activity.
  have hother : p.holds ≠ some task.id → p.activates task.id = false ∧
      s'.active task.id = s.active task.id := fun hne => by
    refine ⟨Bool.eq_false_iff.2 fun ha => hne (hp.holds_of_activates ha), ?_⟩
    obtain ⟨hrows, htask⟩ := hp.about hw
    have hframe := commit_frame hc (fun h => hne (htask _ h)) fun row hrow h =>
      hne (h ▸ hrows row hrow)
    rw [Service.active, hframe.1, Service.active]
  have hnothing : work.task = .nothing → p.activates task.id = false ∧
      s'.active task.id = s.active task.id := fun htask => by
    refine ⟨?_, by rw [hactive, htask]; rfl⟩
    rw [Proc.activates, hw, Option.any_some, htask]
    rfl
  rcases p with _ | _ | ⟨w, job, _ | _, ran⟩ | _ | _ | _ | _ | ⟨w, remove⟩ | _ <;>
    simp only [Proc.pending, reduceCtorEq] at hw <;> obtain rfl := Option.some.inj hw
  · rcases hquiet with hne | ⟨hsets, -⟩ | htask
    · exact .inr (.inl (hother hne))
    · refine .inl ⟨activates_iff.2 ⟨w, rfl, hsets⟩, ?_⟩
      rw [hactive, hsets]
      exact if_pos rfl
    · exact .inr (.inl (hnothing htask))
  · by_cases hid : w.taskId = some task.id
    · rcases hquiet hid with htask | ⟨honce, rfl⟩
      · exact .inr (.inl (hnothing htask))
      · refine .inr (.inr ⟨honce, ?_, hp.activates_executed, rfl⟩)
        obtain ⟨historyId, loaded, outcome, hloaded, he⟩ := hp
        obtain ⟨row, -, ⟨-, -, hx⟩ | ⟨-, hx⟩⟩ := executed_eq historyId loaded outcome <;>
          rw [hx] at he <;> obtain ⟨rfl, hremove⟩ := Prod.mk.inj he
        · rw [hactive, sets_dirty_deactivated hloaded, ← Option.some.inj hremove]
          exact if_pos rfl
        · exact absurd hremove (by simp)
    · exact .inr (.inl (hother hid))

/-- What a move does to the activity of the task: it is the commit of its activation;
    or it keeps it; or it is the commit of the execution of a `once` task. -/
theorem Moves.active (h : Moves lib s p k s' o) (hp : p.Ok lib) (hquiet : p.Quiet task)
    (hissued : task.id ∈ s.issued) (hfail : k = .fail → p.activates task.id = false)
    (hcommit : ∀ dbNow work, k = .commit dbNow → p.activates task.id = true →
      p.pending = some work → commit dbNow work s ≠ none) :
    (p.activates task.id = true ∧ o.any (Proc.activates task.id) = false ∧
        s'.active task.id = true) ∨
      o.any (Proc.activates task.id) = p.activates task.id ∧
        (s'.active task.id = s.active task.id ∨
          task.triggerType = .once ∧ s'.active task.id = false ∧
            s'.scheduleToken task.id = s.scheduleToken task.id ∧
            p.token task.id = true ∧ o.any (Proc.token task.id) = false) := by
  have hnone : ∀ q : Proc, q.pending = none → q.activates task.id = false :=
    fun q => activates_eq_false
  cases h with
  | failed => exact .inr ⟨(hfail rfl).symm, .inl rfl⟩
  | refused hpend => exact .inr ⟨(hnone _ hpend).symm, .inl rfl⟩
  | issued => exact .inr ⟨rfl, .inl rfl⟩
  | @created user body env _ hfresh hc =>
    obtain ⟨trigger, nextRunAt, row, -, -, hr, rfl⟩ := createTask_eq_ok hc
    refine .inr ⟨?_, .inl rfl⟩
    rw [Option.any_some, hnone (.arrived _ _) rfl, Bool.eq_false_iff]
    intro h
    obtain ⟨work, hw, hsets⟩ := activates_iff.1 h
    obtain rfl := Option.some.inj hw
    have hid : env.taskId = task.id := (Prod.mk.inj (Option.some.inj hsets)).1
    exact hfresh (hid ▸ hissued)
  | @handled user op other env h hc =>
    refine .inr ⟨?_, .inl rfl⟩
    rw [Option.any_some, hnone (.loaded _ _ _) rfl, Bool.eq_false_iff]
    intro h
    obtain ⟨work, hw, hsets⟩ := activates_iff.1 h
    obtain rfl := Option.some.inj hw
    refine hquiet ((about_of_handle hc).1 _ ?_)
    exact (gathered_handle hp.1 hc).about.2.1 _ (TaskWrite.taskId_of_sets hsets)
  | read | runRead | called | fireRead => exact .inr ⟨rfl, .inl rfl⟩
  | @committed work job ran dbNow _ hc =>
    have ho : (if ran ∨ job = none then none else some (Proc.finishing work job true ran)).any
        (Proc.activates task.id) = false := by
      split <;> rfl
    rw [ho]
    rcases hquiet.commit hp rfl hc with ⟨ha, hactive⟩ | ⟨ha, hactive⟩ | ⟨-, -, -, hexecuted⟩
    · exact .inl ⟨ha, rfl, hactive⟩
    · exact .inr ⟨ha.symm, .inl hactive⟩
    · exact absurd hexecuted (by simp)
  | @aborted work job ran dbNow hc =>
    refine .inr ⟨?_, .inl rfl⟩
    by_contra ha
    exact hcommit dbNow work rfl (by simpa using Ne.symm ha) rfl hc
  | @ran work job committed now _ hj =>
    refine .inr ⟨?_, .inl ?_⟩
    · cases committed <;> rfl
    · rw [Service.active, Service.row, (runJob_frame hj).1, Service.active, Service.row]
  | @raised work job committed now e hj =>
    obtain ⟨⟨owner, hg⟩, -⟩ := hp
    obtain ⟨t, ht⟩ := hg.runJob_isOk now s
    exact absurd (hj.symm.trans ht) (by simp)
  | runSent => exact .inr ⟨rfl, .inl rfl⟩
  | @fireSent loaded answer historyId =>
    refine .inr ⟨?_, .inl rfl⟩
    rw [Option.any_some, hnone (.executing loaded) rfl]
    have hq : Proc.Ok lib (.executed (executed historyId loaded answer.outcome).1
        (executed historyId loaded answer.outcome).2) := ⟨historyId, loaded, _, hp, rfl⟩
    exact hq.activates_executed
  | @fireCommitted work remove dbNow _ hc =>
    have ho : (remove.map Proc.removing).any (Proc.activates task.id) = false := by
      cases remove <;> rfl
    rw [ho]
    rcases hquiet.commit hp rfl hc with ⟨ha, -⟩ | ⟨ha, hactive⟩ | ⟨honce, hactive, ha, he⟩
    · exact absurd (hp.activates_executed.symm.trans ha) (by simp)
    · exact .inr ⟨ha.symm, .inl hactive⟩
    · obtain ⟨-, rfl⟩ := Proc.executed.inj he
      refine .inr ⟨ha.symm, .inr ⟨honce, hactive, scheduleToken_eq ?_, decide_eq_true rfl, rfl⟩⟩
      rw [Service.scheduled, (commit_eq_some hc).2.2.1, Service.scheduled]
  | fireAborted => exact .inr ⟨hp.activates_executed.symm, .inl rfl⟩
  | removed => exact .inr ⟨rfl, .inl rfl⟩

/-! ## The invariant -/

/-- What holds from the end of the handler on. -/
structure Registering (lib : Crontab) (task : ScheduledTask) (s : Pool Service Proc) : Prop where
  sound : Sound lib s
  issued : task.id ∈ s.shared.issued
  quiet : ∀ p ∈ s.procs, p.Quiet task
  row : ∀ row, s.shared.row task.id = some row → row.triggerType = task.triggerType
  schedule : task.triggerType = .once → ∀ schedule, s.shared.schedules task.id = some schedule →
    ∃ d, schedule.trigger = .date d true
  tokens_le : task.triggerType = .once → tokens s task.id ≤ 1
  unique : s.procs.countP (Proc.activates task.id) ≤ 1
  before : Uncommitted s task.id → s.shared.active task.id = false
  after : ¬Uncommitted s task.id →
    s.shared.active task.id = true ∨ task.triggerType = .once ∧ tokens s task.id = 0

/-- The row a quiet process inserts under the id of the task is the task. -/
theorem Proc.Quiet.inserts {row : ScheduledTask} (hquiet : p.Quiet task) (hp : p.Ok lib)
    (hins : p.Inserts row) (hid : row.id = task.id) : row = task := by
  have hholds := hp.inserts hins
  obtain ⟨work, hw, htask⟩ := hins
  rcases p with _ | _ | ⟨w, job, _ | _, ran⟩ | _ | _ | _ | _ | ⟨w, remove⟩ | _ <;>
    simp only [Proc.pending, reduceCtorEq] at hw <;> obtain rfl := Option.some.inj hw
  · rcases hquiet with hne | ⟨-, rfl⟩ | hnothing
    · exact absurd (hholds.trans (congrArg some hid)) hne
    · obtain ⟨⟨owner, hg⟩, -⟩ := hp
      cases hg with
      | create => exact (TaskWrite.insert.inj htask).symm
      | activate => exact absurd htask dirty_ne_insert
      | delete => exact absurd htask (by simp)
    · exact absurd (hnothing.symm.trans htask) (by simp)
  · obtain ⟨historyId, loaded, outcome, -, he⟩ := hp
    obtain ⟨row, -, ⟨-, -, hx⟩ | ⟨-, hx⟩⟩ := executed_eq historyId loaded outcome <;>
      rw [hx] at he <;> obtain ⟨rfl, -⟩ := Prod.mk.inj he
    · exact absurd htask dirty_ne_insert
    · exact absurd htask (by simp)

/-- The schedule of the task is kept, or removed, or put by the job of the task. -/
theorem Moves.schedule (h : Moves lib s p k s' o) (hp : p.Ok lib) (hquiet : p.Quiet task) :
    s'.schedules task.id = s.schedules task.id ∨ s'.schedules task.id = none ∨
      ∃ now trigger, buildTriggerFromTask lib now task.triggerType task.triggerConfig =
        .ok trigger ∧ s'.schedules task.id = some (.ofTrigger lib trigger) := by
  by_cases hholds : p.holds = some task.id
  swap
  · exact (h.schedules hp hholds).symm.imp_right .inl
  cases h with
  | committed hc => exact .inl (by rw [(commit_eq_some hc).2.2.1])
  | fireCommitted hc => exact .inl (by rw [(commit_eq_some hc).2.2.1])
  | @ran work job committed now _ hj =>
    rcases job with registered | taskId
    · obtain ⟨⟨owner, hg⟩, -⟩ := hp
      obtain ⟨trigger, hbuilt, rfl⟩ := registerSchedule_eq_ok hj
      rcases hquiet with hne | ⟨-, hjob⟩ | hnothing
      · exact absurd hholds hne
      · obtain rfl := Job.register.inj (Option.some.inj hjob)
        exact .inr (.inr ⟨now, trigger, hbuilt, Function.update_self ..⟩)
      · rcases hg.sets_eq with ⟨j, -, hsets⟩ | ⟨hjob, -⟩
        · exact absurd hsets (by simp [hnothing, TaskWrite.sets])
        · exact absurd hjob (by simp)
    · obtain rfl := Except.ok.inj hj
      by_cases hid : task.id = taskId
      · exact .inr (.inl (by rw [hid]; exact Function.update_self ..))
      · exact .inl (Function.update_of_ne hid _ _)
  | @removed taskId now => exact absurd hholds (by simp [Proc.holds])
  | _ => exact .inl rfl

theorem uncommitted_iff {s : Pool Service Proc} :
    Uncommitted s id ↔ 0 < s.procs.countP (Proc.activates id) :=
  List.countP_pos_iff.symm

/-- What arrives does not touch the task; a fire that is picked up was a token as a
    schedule. -/
theorem Registering.arrive {s s' : Pool Service Proc} {i : Arrival} (h : Registering lib task s)
    (ha : arrive lib s.shared i = some (s'.shared, o)) (hprocs : s'.procs = o.toList ++ s.procs) :
    Registering lib task s' := by
  obtain ⟨q, rfl, hquiet, hactivates, ht, hissued, hschedules, htokens⟩ : ∃ q, o = some q ∧
      q.Quiet task ∧ q.activates task.id = false ∧ s'.shared.tasks = s.shared.tasks ∧
      s'.shared.issued = s.shared.issued ∧
      (task.triggerType = .once → s'.shared.schedules task.id = s.shared.schedules task.id ∨
        s'.shared.schedules task.id = none) ∧
      (task.triggerType = .once → s'.shared.scheduleToken task.id +
        [q].countP (Proc.token task.id) ≤
        s.shared.scheduleToken task.id) := by
    cases i with
    | request user request =>
      obtain ⟨hs, rfl⟩ := Prod.mk.inj (Option.some.inj ha)
      rw [← hs]
      exact ⟨_, rfl, trivial, rfl, rfl, rfl, fun _ => .inl rfl, fun _ => Nat.le_refl _⟩
    | fire taskId now coalesced =>
      obtain ⟨⟨f, after⟩, hpick, ha⟩ := Option.map_eq_some_iff.1 ha
      obtain ⟨rfl, rfl⟩ := Prod.mk.inj ha
      obtain ⟨schedule, left, hschedule, hpicked, hafter⟩ := pickUp_eq_some hpick
      refine ⟨_, rfl, trivial,
        rfl, by rw [hafter], by rw [hafter], fun honce => ?_, fun honce => ?_⟩ <;>
        rw [hafter] <;> by_cases hid : task.id = taskId
      · subst hid
        obtain ⟨d, hd⟩ := h.schedule honce schedule hschedule
        exact .inr ((Function.update_self ..).trans (pick_date hd hpicked))
      · exact .inl (Function.update_of_ne hid _ _)
      · subst hid
        obtain ⟨d, hd⟩ := h.schedule honce schedule hschedule
        obtain rfl := pick_date hd hpicked
        simp [Service.scheduleToken, Service.scheduled, hschedule, Proc.token]
      · refine Nat.le_of_eq ((Nat.add_eq_left.2 ?_).trans (scheduleToken_eq ?_))
        · simp [Proc.token, Ne.symm hid]
        · simp [Service.scheduled, Function.update_of_ne hid]
  have hcount (f : Proc → Bool) : s'.procs.countP f = [q].countP f + s.procs.countP f := by
    rw [hprocs, List.countP_append, Option.toList_some]
  have hactive : s'.shared.active task.id = s.shared.active task.id := by
    rw [Service.active, Service.row, ht, Service.active, Service.row]
  have hun : s'.procs.countP (Proc.activates task.id) =
      s.procs.countP (Proc.activates task.id) := by
    rw [hcount, List.countP_singleton, hactivates]
    simp
  have htokens : task.triggerType = .once → tokens s' task.id ≤ tokens s task.id := fun honce => by
    have hle := htokens honce
    rw [tokens, tokens, hcount]
    omega
  refine ⟨h.sound.arrive ha hprocs, hissued ▸ h.issued, fun p hp => ?_, fun row hrow => ?_,
    fun honce schedule hschedule => ?_, fun honce => (htokens honce).trans (h.tokens_le honce),
    hun ▸ h.unique, fun hpending => ?_, fun hpending => ?_⟩
  · rw [hprocs, Option.toList_some, List.singleton_append, List.mem_cons] at hp
    rcases hp with rfl | hp
    · exact hquiet
    · exact h.quiet p hp
  · rw [Service.row, ht] at hrow
    exact h.row row hrow
  · rcases hschedules honce with heq | hnone
    · exact h.schedule honce schedule (heq ▸ hschedule)
    · exact absurd (hnone.symm.trans hschedule) (by simp)
  · rw [hactive]
    exact h.before (uncommitted_iff.2 (hun ▸ uncommitted_iff.1 hpending))
  · rw [hactive]
    rcases h.after fun hb => hpending (uncommitted_iff.2 (hun.symm ▸ uncommitted_iff.1 hb)) with
      hactive | hdone
    · exact .inl hactive
    · exact .inr ⟨hdone.1, Nat.le_zero.1 (hdone.2 ▸ htokens hdone.1)⟩

theorem Registering.move {s s' : Pool Service Proc} {n : ℕ} {rest : List Proc}
    (h : Registering lib task s) (hm : Moves lib s.shared p k s'.shared o)
    (hn : s.procs[n]? = some p) (hp : s.procs.Perm (p :: rest))
    (hp' : s'.procs.Perm (o.toList ++ rest)) (halone : Alone task.id s (.move n k)) :
    Registering lib task s' := by
  have hpmem : p ∈ s.procs := (mem_of_perm_cons hp).2 (.inl rfl)
  have hpok := h.sound.ok p hpmem
  have hpquiet := h.quiet p hpmem
  have hcount (f : Proc → Bool) : s.procs.countP f = (if f p then 1 else 0) + rest.countP f := by
    rw [hp.countP_eq, List.countP_cons, Nat.add_comm]
  have hcount' (f : Proc → Bool) :
      s'.procs.countP f = (if o.any f then 1 else 0) + rest.countP f := by
    rw [countP_of_perm_toList f hp']
    rcases o with _ | q <;> simp [List.countP_singleton]
  have htokens : tokens s' task.id ≤ tokens s task.id := by
    have hle := hm.tokens_le hpok hpquiet h.issued
    rw [tokens, tokens, countP_of_perm_toList _ hp', hp.countP_eq, ← List.singleton_append,
      List.countP_append]
    omega
  have hactive := hm.active hpok hpquiet h.issued (fun hk => ?_) fun dbNow work hk ha hw => ?_
  · have hkeep : s'.shared.active task.id = s.shared.active task.id →
        ¬Uncommitted s task.id → s'.shared.active task.id = true ∨
          task.triggerType = .once ∧ tokens s' task.id = 0 := fun heq hnot => by
      rw [heq]
      exact (h.after hnot).imp_right fun ⟨honce, hzero⟩ => ⟨honce, by omega⟩
    refine ⟨h.sound.move hm hp hp', hm.issued_subset h.issued, fun q hq => ?_, fun row hrow => ?_,
      fun honce schedule hschedule => ?_, fun honce => htokens.trans (h.tokens_le honce), ?_,
      fun hun => ?_, fun hun => ?_⟩
    · rcases (mem_of_perm_toList hp').1 hq with rfl | hq
      · refine hm.quiet hpok hpquiet h.issued h.row fun hk user op he => ?_
        subst hk he
        exact halone user op hn
      · exact h.quiet q ((mem_of_perm_cons hp).2 (.inr hq))
    · rcases hm.triggerType hrow with ⟨old, hold, htype⟩ | ⟨hins, hid⟩
      · exact htype.trans (h.row old hold)
      · rw [hpquiet.inserts hpok hins hid]
    · rcases hm.schedule hpok hpquiet with heq | hnone | ⟨now, trigger, hbuilt, hput⟩
      · exact h.schedule honce schedule (heq ▸ hschedule)
      · exact absurd (hnone.symm.trans hschedule) (by simp)
      · obtain ⟨d, hd⟩ := trigger_ofTrigger_once hbuilt honce
        obtain rfl := Option.some.inj (hput.symm.trans hschedule)
        exact ⟨d, by rw [hd]⟩
    · have hunique := h.unique
      rw [hcount] at hunique
      rw [hcount']
      rcases hactive with ⟨ha, ho, -⟩ | ⟨ho, -⟩
      · rw [ho]
        simp only [Bool.false_eq_true, if_false]
        omega
      · rwa [ho]
    · have hunique := h.unique
      rw [uncommitted_iff, hcount'] at hun
      rw [hcount] at hunique
      rcases hactive with ⟨ha, ho, -⟩ | ⟨ho, hactive⟩
      · rw [ho] at hun
        rw [ha] at hunique
        simp only [Bool.false_eq_true, if_false, if_true] at hun hunique
        omega
      · rw [ho, ← hcount] at hun
        have hbefore := h.before (uncommitted_iff.2 hun)
        rcases hactive with heq | ⟨-, hfalse, -⟩
        · rw [heq, hbefore]
        · exact hfalse
    · rcases hactive with ⟨-, -, htrue⟩ | ⟨ho, hactive⟩
      · exact .inl htrue
      · rw [uncommitted_iff, hcount', ho, ← hcount, ← uncommitted_iff] at hun
        rcases hactive with heq | ⟨honce, -, hschedule, htoken, hno⟩
        · exact hkeep heq hun
        · -- The execution that is committed was the only token.
          have hone := h.tokens_le honce
          rw [tokens, hcount, htoken] at hone
          refine .inr ⟨honce, ?_⟩
          rw [tokens, hcount', hno, hschedule]
          simp only [Bool.false_eq_true, if_false, if_true] at hone ⊢
          omega
  · subst hk
    exact halone p hn
  · subst hk
    exact halone p work hn ha hw

theorem Registering.step {s s' : Pool Service Proc} {a : Act Arrival Choice}
    (h : Registering lib task s) (halone : Alone task.id s a)
    (hs : (interleaving lib).step s a = some s') : Registering lib task s' := by
  cases Program.moved_of_step hs with
  | arrive ha hprocs => exact h.arrive ha hprocs
  | move hn hm hp hp' => exact h.move (moves_of_move hm) hn hp hp' halone

/-- The invariant holds when only the request is pending, and the task is not active
    yet. -/
theorem registering_start {s : Service} {work : UnitOfWork} {job : Option Job}
    (hsound : Sound lib ⟨s, [.finishing work job false false]⟩) (hissued : task.id ∈ s.issued)
    (hjob : job = some (.register task)) (hsets : work.task.sets = some (task.id, true))
    (hrow : ∀ row, s.row task.id = some row → row.triggerType = task.triggerType)
    (hinactive : s.active task.id = false)
    (hschedule : task.triggerType = .once → s.scheduled task.id = false) :
    Registering lib task ⟨s, [.finishing work job false false]⟩ where
  sound := hsound
  issued := hissued
  quiet p hp := by
    obtain rfl := List.mem_singleton.1 hp
    exact .inr (.inl ⟨hsets, hjob⟩)
  row := hrow
  schedule honce schedule hs := by
    have hnone := hschedule honce
    rw [Service.scheduled, hs] at hnone
    exact absurd hnone (by simp)
  tokens_le honce := by
    rw [tokens, Service.scheduleToken, hschedule honce]
    exact (Nat.zero_add _).le.trans List.countP_le_length
  unique := List.countP_le_length
  before _ := hinactive
  after h := absurd ⟨_, List.mem_singleton_self _, activates_iff.2 ⟨work, rfl, hsets⟩⟩ h

theorem Queued.registering {s : Pool Service Proc} (h : Queued lib s task) :
    Registering lib task s := by
  cases h with
  | @create s user body env h _ hreach hfresh hc hjob =>
    have harrived : Sound lib ⟨s, [.arrived user (.create body)]⟩ :=
      hreach.sound.arrive (i := .request user (.create body)) rfl rfl
    have hsound : Sound lib ⟨{ s with issued := env.taskId :: s.issued },
        [.finishing h.work h.job false false]⟩ :=
      harrived.move (.created hfresh hc) (List.Perm.refl _) (List.Perm.refl _)
    obtain ⟨trigger, nextRunAt, row, -, -, -, rfl⟩ := createTask_eq_ok hc
    obtain rfl := Job.register.inj (Option.some.inj hjob)
    have hrow : s.row env.taskId = none := by
      by_contra hne
      exact hfresh (hreach.sound.row_issued _ hne)
    have hschedule : s.schedules env.taskId = none := by
      by_contra hne
      exact hfresh (hreach.sound.schedules_issued _ hne)
    refine registering_start hsound List.mem_cons_self rfl rfl (fun row h => ?_) ?_ fun _ => ?_
    · exact absurd (hrow.symm.trans h) (by simp)
    · exact congrArg (Option.any _) hrow
    · exact congrArg Option.isSome hschedule
  | @activate s user row env h _ hreach hload hschedule hc hjob =>
    have harrived : Sound lib ⟨s, [.arrived user (.task .activate row.id)]⟩ :=
      hreach.sound.arrive (i := .request user (.task .activate row.id)) rfl rfl
    obtain ⟨hrow, howner⟩ := getTaskOr404_eq_ok.1 hload
    have hloaded : Sound lib ⟨s, [.loaded user .activate row]⟩ :=
      harrived.move (.read hrow howner) (List.Perm.refl _) (List.Perm.refl _)
    have hhandled : Moves lib s (.loaded user .activate row) (.body env) s
        (some (.finishing h.work h.job false false)) := .handled hc
    have hsound : Sound lib ⟨s, [.finishing h.work h.job false false]⟩ :=
      hloaded.move hhandled (List.Perm.refl _) (List.Perm.refl _)
    rcases activateTask_eq_ok hc with ⟨-, rfl⟩ | ⟨next, hinactive, -, -, rfl⟩
    · exact absurd hjob (by simp)
    · obtain rfl := Job.register.inj (Option.some.inj hjob)
      refine registering_start hsound ?_ rfl (sets_dirty_activated hinactive) (fun row' h => ?_) ?_
        hschedule
      · exact hreach.sound.row_issued row.id (by rw [hrow]; simp)
      · obtain rfl := Option.some.inj (hrow.symm.trans h)
        rfl
      · rw [Service.active, show s.row (row.activated next).id = some row from hrow]
        exact hinactive

/-! ## Fires -/

/-- A fire of the task, loaded in any state from the end of the handler on, goes on
    to send its GET iff the request is committed. -/
theorem executes_iff_committed {s₀ s : Pool Service Proc} {as : List (Act Arrival Choice)} {n : ℕ}
    (hqueued : Queued lib s₀ task) (h : (interleaving lib).RunWith (Alone task.id) s₀ as s)
    (hn : s.procs[n]? = some (.fired task.id)) :
    (∃ loaded, move lib s.shared (.fired task.id) .read =
      some (s.shared, some (.executing loaded)) ∧
        ∀ answer historyId, ∃ q, move lib s.shared (.executing loaded) (.send answer historyId) =
          some (s.shared.send (fireTaskWebhook .scheduled loaded answer), some q)) ↔
      ¬Uncommitted s task.id := by
  have hinv := h.invariant hqueued.registering fun s a s' hI ha hs => hI.step ha hs
  have hactive : (∃ loaded, loadActive task.id s.shared = some loaded) ↔
      s.shared.active task.id = true := by
    rw [← isSome_loadActive, Option.isSome_iff_exists]
  constructor
  · rintro ⟨loaded, hmove, -⟩ hun
    obtain ⟨loaded, hload, -⟩ := Option.map_eq_some_iff.1 (Prod.mk.inj (Option.some.inj hmove)).2
    exact absurd ((hinv.before hun).symm.trans (hactive.1 ⟨loaded, hload⟩)) (by simp)
  · intro hun
    have htrue : s.shared.active task.id = true := by
      refine (hinv.after hun).resolve_right fun ⟨_, hzero⟩ => ?_
      -- The fire itself is a token.
      have hpos : 0 < s.procs.countP (Proc.token task.id) :=
        List.countP_pos_iff.2 ⟨_, List.mem_of_getElem? hn, decide_eq_true rfl⟩
      rw [tokens] at hzero
      omega
    obtain ⟨loaded, hload⟩ := hactive.2 htrue
    refine ⟨loaded, ?_, fun answer historyId => ⟨_, rfl⟩⟩
    rw [move, hload]
    rfl

/-- The handler of the creation of a task with the trigger `spec` has returned. -/
def queuedSample (spec : StructuredTriggerSpec) : Pool Service Proc where
  shared := { Service.init with issued := [1] }
  procs := (createTask .never (.sample 0 1) .sample (.sample spec)).toOption.toList.map fun h =>
    .finishing h.work h.job false false

/-- The interval task is due at once. When the commit comes first, its fire sends
    its GET. -/
theorem executes_after_commit : ∃ s loaded,
    move .never s (.fired 1) .read = some (s, some (.executing loaded)) := by
  have hqueued : Queued .never (queuedSample (.interval 60 minute_pos))
      (.sample 1 "alice" (.interval 60 minute_pos) (some 0)) :=
    @Queued.create .never .init .sample (.sample (.interval 60 minute_pos)) (.sample 0 1) _ _
      ⟨[], .nil⟩ (by simp [Service.init]) rfl rfl
  obtain ⟨s, hrun, hfired, hdone⟩ : ∃ s, (interleaving .never).RunWith (Alone 1)
      (queuedSample (.interval 60 minute_pos))
      [.move 0 (.commit 0), .move 0 (.job 0), .arrive (.fire 1 0 0)] s ∧
        s.procs[0]? = some (.fired 1) ∧ ¬Uncommitted s 1 := by
    refine ⟨_, .cons ?_ rfl <| .cons trivial rfl <| .cons trivial rfl .nil, rfl, ?_⟩
    · rintro p work hp - hw
      obtain rfl := Option.some.inj hp
      obtain rfl := Option.some.inj hw
      exact Option.some_ne_none _
    · rintro ⟨p, hp, ha⟩
      obtain rfl := List.mem_singleton.1 hp
      exact absurd ha (by simp [Proc.activates, Proc.pending])
  obtain ⟨loaded, hmove, -⟩ := (executes_iff_committed hqueued hrun hfired).2 hdone
  exact ⟨_, loaded, hmove⟩

/-- Whatever the order, the fires of a request that ends by committing would send
    their GETs: the only fire of a `once` task that is due at once is dropped, when
    the job comes before the commit. -/
theorem not_executes : ¬∀ (lib : Crontab) (s₀ s t : Pool Service Proc) (task : ScheduledTask)
    (as bs : List (Act Arrival Choice)) (n : ℕ), Queued lib s₀ task →
    (interleaving lib).RunWith (Alone task.id) s₀ as s →
    (interleaving lib).RunWith (Alone task.id) s bs t → ¬Uncommitted t task.id →
    s.procs[n]? = some (.fired task.id) →
    ∃ loaded, move lib s.shared (.fired task.id) .read =
      some (s.shared, some (.executing loaded)) := by
  intro h
  have hqueued : Queued .never (queuedSample (.once ⟨0, some 0⟩))
      (.sample 1 "alice" (.once ⟨0, some 0⟩) (some 0)) :=
    @Queued.create .never .init .sample (.sample (.once ⟨0, some 0⟩)) (.sample 0 1) _ _
      ⟨[], .nil⟩ (by simp [Service.init]) rfl rfl
  obtain ⟨s, t, hrun, hend, hdone, hfired, hdropped⟩ :
    ∃ s t, (interleaving .never).RunWith (Alone 1)
      (queuedSample (.once ⟨0, some 0⟩)) [.move 0 (.job 0), .arrive (.fire 1 0 0)] s ∧
        (interleaving .never).RunWith (Alone 1) s [.move 0 .read, .move 0 (.commit 0)] t ∧
        ¬Uncommitted t 1 ∧ s.procs[0]? = some (.fired 1) ∧
        move .never s.shared (.fired 1) .read = some (s.shared, none) := by
    refine ⟨_, _, .cons trivial rfl <| .cons trivial rfl .nil,
      .cons (fun _ _ h => absurd (Option.some.inj h) (by simp)) rfl <| .cons ?_ rfl .nil,
      ?_, rfl, rfl⟩
    · rintro p work hp - hw
      obtain rfl := Option.some.inj hp
      obtain rfl := Option.some.inj hw
      exact Option.some_ne_none _
    · rintro ⟨p, hp, -⟩
      exact absurd hp List.not_mem_nil
  obtain ⟨loaded, hmove⟩ := h _ _ _ _ _ _ _ 0 hqueued hrun hend hdone hfired
  exact absurd (hdropped.symm.trans hmove) (by simp)

end SchedulerLm
