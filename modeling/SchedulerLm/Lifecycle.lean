import SchedulerLm.Interleaving

/-!
# The lifecycle log

The history of a task, less its executions, should read as its life: created
once, then deactivated and activated in turn, and at last deleted, if it is. A
handler decides what to add on the row it has read, which may have changed when
it commits.

* `WellFormed`: the log of a task, next to its row.
* `Accurate`: a commit finds the row as its handler has read it, as far as the log
  is concerned: still with the activity that it is to change, and still there to be
  deleted.
* `wellFormed_iff_accurate`: the logs are well formed in every state of a run iff
  every step of the run is accurate.

The invariant (`Logged`) adds to the log that its length tells the activity.
-/

namespace SchedulerLm

open Transition Relational

/-- The history of a task, without its executions, in the order of the commits. -/
def Service.log (s : Service) (id : TaskId) : List TaskHistoryEventType :=
  ((s.about id).map (·.eventType)).filter (· ≠ .execution)

/-- `n` deactivations and activations, in turn. -/
def alternation (n : ℕ) : List TaskHistoryEventType :=
  (List.range n).map fun k => if k % 2 = 0 then .taskDeactivated else .taskActivated

/-- The end of a log: a deletion, if the row is gone. -/
def ending (row : Option ScheduledTask) : List TaskHistoryEventType :=
  if row.isNone then [.taskDeleted] else []

/-- The log of the task is that of its life, if it has been created. -/
def WellFormed (s : Service) (id : TaskId) : Prop :=
  (s.log id = [] ∧ s.row id = none) ∨
    ∃ n, s.log id = .taskCreated :: alternation n ++ ending (s.row id)

/-- If the step is a commit, the row it updates does not have the activity it is
    given yet, and the row it deletes is there. -/
def Accurate (s : Pool Service Proc) : Act Arrival Choice → Prop
  | .move n (.commit _) => ∀ work job ran, s.procs[n]? = some (.finishing work job false ran) →
      match work.task with
      | .update id changes =>
        ∀ row, s.shared.row id = some row → changes.isActive ≠ some row.isActive
      | .delete id => s.shared.row id ≠ none
      | _ => True
  | _ => True

/-! ## The events of a unit of work -/

/-- The event of a write, and its task. -/
def TaskWrite.event : TaskWrite → Option (TaskId × TaskHistoryEventType)
  | .nothing => none
  | .insert row => some (row.id, .taskCreated)
  | .update id changes =>
    changes.isActive.map fun b => (id, if b then .taskActivated else .taskDeactivated)
  | .delete id => some (id, .taskDeleted)

variable {lib : Crontab} {s s' : Service} {id : TaskId} {work : UnitOfWork} {job : Option Job}
  {owner : UserId} {dbNow : Instant} {n : ℕ}

theorem event_dirty_activated {task : ScheduledTask} {next : Instant}
    (hactive : task.isActive = false) :
    (dirty task (task.activated next)).event = some (task.id, .taskActivated) := by
  simp [dirty, ScheduledTask.activated, hactive, TaskWrite.event]

theorem event_dirty_deactivated {task : ScheduledTask} (hactive : task.isActive = true) :
    (dirty task task.deactivated).event = some (task.id, .taskDeactivated) := by
  simp [dirty, ScheduledTask.deactivated, hactive, TaskWrite.event]

/-- The rows a unit of work adds to the log of a task are the event of its write. -/
def UnitOfWork.Records (work : UnitOfWork) : Prop :=
  ∀ id, ((work.history.filter (·.taskId = id)).map (·.eventType)).filter (· ≠ .execution) =
    work.task.event.elim [] fun e => if e.1 = id then [e.2] else []

theorem records_singleton {task : TaskWrite} {row : TaskHistory} {event : TaskHistoryEventType}
    {taskId : TaskId} (hrow : row.Records event owner taskId) (hevent : event ≠ .execution)
    (htask : task.event = some (taskId, event)) :
    UnitOfWork.Records { task := task, history := [row] } := by
  obtain ⟨rfl, -, rfl⟩ := hrow
  intro id
  rw [htask, Option.elim_some]
  by_cases hid : row.taskId = id <;> simp [hid, hevent]

/-- Requests add the events of their writes. -/
theorem Gathered.records (h : Gathered lib owner work job) : work.Records := by
  cases h with
  | nothing => intro id; rfl
  | create _ _ _ hrow => exact records_singleton (records_recordSnapshot hrow) (by simp) rfl
  | activate _ hactive _ hrow =>
    exact records_singleton hrow (by simp) (event_dirty_activated hactive)
  | deactivate _ hactive hrow =>
    exact records_singleton hrow (by simp) (event_dirty_deactivated hactive)
  | delete _ hrow _ => exact records_singleton (records_recordSnapshot hrow) (by simp) rfl
  | @run taskId row hrow =>
    intro id
    by_cases hid : row.taskId = id <;> simp [TaskWrite.event, hid, hrow.1]

/-- A request that updates a row sets its activity. -/
theorem Gathered.update (h : Gathered lib owner work job) {id : TaskId} {changes : Changes}
    (hw : work.task = .update id changes) : ∃ b, changes.isActive = some b := by
  have hsets : ∃ set, work.task.sets = some set := by
    rcases h.sets_eq with ⟨j, -, hsets⟩ | ⟨-, hnone | ⟨j, hdelete⟩⟩
    · exact ⟨_, hsets⟩
    · exact absurd (hw.symm.trans hnone) (by simp)
    · exact absurd (hw.symm.trans hdelete) (by simp)
  obtain ⟨set, hset⟩ := hsets
  rw [hw] at hset
  obtain ⟨b, hb, -⟩ := Option.map_eq_some_iff.1 hset
  exact ⟨b, hb⟩

/-- A commit adds the event of its write to the log. -/
theorem log_of_commit (hc : commit dbNow work s = some s') (hr : work.Records) (id : TaskId) :
    s'.log id = s.log id ++ work.task.event.elim [] fun e => if e.1 = id then [e.2] else [] := by
  rw [Service.log, Service.about, (commit_eq_some hc).2.1, List.filter_append, List.map_append,
    List.filter_append, ← hr id]
  congr 1
  simp only [List.filter_map, List.map_map]
  rfl

/-! ## The invariant -/

/-- The log is well formed, and tells the activity of the row. -/
def Logged (s : Service) (id : TaskId) : Prop :=
  (s.log id = [] ∧ s.row id = none) ∨
    ∃ n, s.log id = .taskCreated :: alternation n ++ ending (s.row id) ∧
      ∀ row, s.row id = some row → row.isActive = decide (n % 2 = 0)

theorem Logged.wellFormed (h : Logged s id) : WellFormed s id :=
  h.imp_right fun ⟨n, hn, _⟩ => ⟨n, hn⟩

theorem alternation_succ (n : ℕ) :
    alternation (n + 1) = alternation n ++ [if n % 2 = 0 then .taskDeactivated
      else .taskActivated] := by
  rw [alternation, List.range_succ, List.map_append]
  rfl

theorem not_mem_alternation : .taskDeleted ∉ alternation n := by
  rw [alternation, List.mem_map]
  rintro ⟨k, -, hk⟩
  split at hk <;> exact absurd hk (by simp)

/-- A commit that finds the row as its handler has read it keeps the invariant. -/
theorem Logged.of_commit (h : Logged s id) (hc : commit dbNow work s = some s') (hr : work.Records)
    (hinsert : ∀ row, work.task = .insert row → row.isActive = true ∧
      s.row row.id = none ∧ s.log row.id = [])
    (hupdate : ∀ j changes, work.task = .update j changes → (∃ b, changes.isActive = some b) ∧
      ∀ row, s.row j = some row → changes.isActive ≠ some row.isActive)
    (hdelete : ∀ j, work.task = .delete j → s.row j ≠ none) : Logged s' id := by
  have hlog := log_of_commit hc hr id
  have hrow := row_of_commit hc id
  cases hw : work.task with
  | nothing =>
    rw [hw] at hlog hrow
    simpa [Logged, hlog, hrow, TaskWrite.event, TaskWrite.after] using h
  | insert row =>
    rw [hw] at hlog hrow
    by_cases hid : id = row.id
    · subst hid
      obtain ⟨hactive, -, hempty⟩ := hinsert row hw
      refine .inr ⟨0, ?_, fun r hr => ?_⟩
      · simp [hlog, hrow, hempty, TaskWrite.event, TaskWrite.after, alternation, ending]
      · rw [hrow, TaskWrite.after, if_pos rfl] at hr
        exact Option.some.inj hr ▸ hactive
    · simpa [Logged, hlog, hrow, TaskWrite.event, TaskWrite.after, hid, Ne.symm hid] using h
  | update j changes =>
    rw [hw] at hlog hrow
    obtain ⟨⟨b, hb⟩, hflip⟩ := hupdate j changes hw
    by_cases hid : id = j
    · subst hid
      -- The row is there, or the update would have raised.
      rcases hold : s.row id with _ | row
      · rw [commit_eq_none.2 fun _ => .inr ⟨id, changes, hw, hold⟩] at hc
        exact absurd hc (by simp)
      · rcases h with ⟨-, hnone⟩ | ⟨n, hn, hpar⟩
        · exact absurd (hold.symm.trans hnone) (by simp)
        · have hne : b ≠ decide (n % 2 = 0) := fun he =>
            hflip row hold (by rw [hb, he, hpar row hold])
          rw [hold, ending, Option.isNone_some, if_neg (by simp), List.append_nil] at hn
          rw [hold, TaskWrite.after, if_pos rfl, Option.map_some] at hrow
          refine .inr ⟨n + 1, ?_, fun r hr => ?_⟩
          · rw [hlog, hn, hrow, alternation_succ]
            rcases Nat.mod_two_eq_zero_or_one n with hm | hm <;>
              simp_all [TaskWrite.event, ending]
          · obtain rfl := Option.some.inj (hrow.symm.trans hr)
            rw [Changes.apply_isActive, hb, Option.getD_some]
            rcases Nat.mod_two_eq_zero_or_one n with hm | hm <;>
              simp_all [Nat.add_mod]
    · simpa [Logged, hlog, hrow, TaskWrite.event, TaskWrite.after, hid, Ne.symm hid, hb] using h
  | delete j =>
    rw [hw] at hlog hrow
    by_cases hid : id = j
    · subst hid
      obtain ⟨row, hold⟩ := Option.ne_none_iff_exists'.1 (hdelete id hw)
      rcases h with ⟨-, hnone⟩ | ⟨n, hn, -⟩
      · exact absurd hnone (hdelete id hw)
      · rw [hold, ending, Option.isNone_some, if_neg (by simp), List.append_nil] at hn
        rw [TaskWrite.after, if_pos rfl] at hrow
        refine .inr ⟨n, ?_, fun r hr => absurd (hrow.symm.trans hr) (by simp)⟩
        rw [hlog, hn, hrow]
        simp [TaskWrite.event, ending]
    · simpa [Logged, hlog, hrow, TaskWrite.event, TaskWrite.after, hid, Ne.symm hid] using h

/-- A commit of an update that finds its row with the activity it gives leaves a
    log that is not well formed. -/
theorem Logged.not_wellFormed_update (h : Logged s id) (hc : commit dbNow work s = some s')
    (hr : work.Records) {changes : Changes} (hw : work.task = .update id changes)
    {row : ScheduledTask} (hold : s.row id = some row) (hb : changes.isActive = some row.isActive) :
    ¬WellFormed s' id := by
  have hlog := log_of_commit hc hr id
  have hrow := row_of_commit hc id
  rw [hw] at hlog hrow
  rw [hold, TaskWrite.after, if_pos rfl, Option.map_some] at hrow
  rcases h with ⟨-, hnone⟩ | ⟨n, hn, hpar⟩
  · exact absurd (hold.symm.trans hnone) (by simp)
  · rw [hold, ending, Option.isNone_some, if_neg (by simp), List.append_nil] at hn
    rw [hn] at hlog
    rintro (⟨-, hnone⟩ | ⟨m, hm⟩)
    · exact absurd (hrow.symm.trans hnone) (by simp)
    · rw [hlog, hrow, ending, Option.isNone_some, if_neg (by simp), List.append_nil,
        List.cons_append, TaskWrite.event, hb, Option.map_some, Option.elim_some, if_pos rfl] at hm
      have hm := (List.cons.inj hm).2
      obtain rfl : n + 1 = m := by simpa [alternation] using congrArg List.length hm
      rw [alternation_succ] at hm
      have hlast := (List.append_cancel_left hm)
      rw [hpar row hold] at hlast
      rcases Nat.mod_two_eq_zero_or_one n with hn2 | hn2 <;> simp [hn2] at hlast

/-- A commit of a deletion that finds no row leaves a log that is not well formed. -/
theorem Logged.not_wellFormed_delete (h : Logged s id) (hc : commit dbNow work s = some s')
    (hr : work.Records) (hw : work.task = .delete id) (hold : s.row id = none) :
    ¬WellFormed s' id := by
  have hlog := log_of_commit hc hr id
  have hrow := row_of_commit hc id
  rw [hw] at hlog hrow
  rw [TaskWrite.after, if_pos rfl] at hrow
  rw [TaskWrite.event, Option.elim_some, if_pos rfl] at hlog
  rintro (⟨hempty, -⟩ | ⟨m, hm⟩)
  · exact absurd (hlog.symm.trans hempty) (by simp)
  · rw [hlog, hrow, ending, Option.isNone_none, if_pos rfl] at hm
    have hm := List.append_cancel_right hm
    rcases h with ⟨hempty, -⟩ | ⟨n, hn, -⟩
    · exact absurd (hempty.symm.trans hm) (by simp)
    · rw [hn, hold, ending, Option.isNone_none, if_pos rfl, List.cons_append] at hm
      have hmem : .taskDeleted ∈ alternation m := by
        rw [← (List.cons.inj hm).2]
        simp
      exact not_mem_alternation hmem

/-! ## Runs -/

theorem Logged.congr (ht : s'.tasks = s.tasks) (hh : s'.history = s.history) (h : Logged s id) :
    Logged s' id := by
  rwa [Logged, Service.log, Service.about, hh, Service.row, ht]

/-- What the moves of requests keep. -/
structure LoggedPool (lib : Crontab) (s : Pool Service Proc) : Prop where
  sound : Sound lib s
  ofRequest : ∀ p ∈ s.procs, p.ofRequest = true
  logged : ∀ id, Logged s.shared id

/-- An accurate step keeps the logs. -/
theorem LoggedPool.step {s s' : Pool Service Proc} {a : Act Arrival Choice} (h : LoggedPool lib s)
    (ha : Accurate s a) (hs : (requestsOnly lib).step s a = some s') : LoggedPool lib s' := by
  obtain ⟨hreq, hs⟩ := System.restrict_step.1 hs
  refine ⟨h.sound.step hs, ofRequest_step h.ofRequest hreq hs, fun id => ?_⟩
  cases Program.moved_of_step hs with
  | @arrive i o hi hprocs =>
    cases i with
    | request => exact (Prod.mk.inj (Option.some.inj hi)).1 ▸ h.logged id
    | fire => exact absurd hreq (by simp [ofRequests])
  | @move n k p o rest hn hm hp hp' =>
    obtain ⟨sh', procs'⟩ := s'
    have hpmem : p ∈ s.procs := (mem_of_perm_cons hp).2 (.inl rfl)
    have hpok := h.sound.ok p hpmem
    cases moves_of_move hm with
    | @committed work job ran dbNow _ hc =>
      obtain ⟨⟨owner, hg⟩, -⟩ := hpok
      have hacc := ha work job ran hn
      refine (h.logged id).of_commit hc hg.records (fun row hw => ?_) (fun j changes hw => ?_)
        fun j hw => ?_
      · obtain ⟨hrow, habout, -⟩ := h.sound.unborn _ hpmem row ⟨work, rfl, hw⟩
        refine ⟨?_, hrow, by rw [Service.log, habout]; rfl⟩
        cases hg with
        | create _ hactive => exact TaskWrite.insert.inj hw ▸ hactive
        | activate | deactivate => exact absurd hw dirty_ne_insert
        | _ => exact absurd hw (by simp)
      · rw [hw] at hacc
        exact ⟨hg.update hw, hacc⟩
      · rw [hw] at hacc
        exact hacc
    | ran hj => exact (h.logged id).congr (runJob_frame hj).1 (runJob_frame hj).2.1
    | fireCommitted => exact absurd (h.ofRequest _ hpmem) (by simp [Proc.ofRequest])
    | _ => exact (h.logged id).congr rfl rfl

/-- A step that is not accurate leaves a log that is not well formed. -/
theorem LoggedPool.not_wellFormed {s s' : Pool Service Proc} {a : Act Arrival Choice}
    (h : LoggedPool lib s) (ha : ¬Accurate s a) (hs : (requestsOnly lib).step s a = some s') :
    ¬∀ id, WellFormed s'.shared id := by
  obtain ⟨-, hs⟩ := System.restrict_step.1 hs
  cases Program.moved_of_step hs with
  | arrive => exact absurd trivial ha
  | @move n k p o rest hn hm hp hp' =>
    have hm := moves_of_move hm
    rcases k with _ | _ | _ | dbNow | _ | _
    case commit =>
      -- The step is the commit of a request, and does not raise.
      simp only [Accurate, not_forall] at ha
      obtain ⟨work, job, ran, hn', ha⟩ := ha
      obtain rfl := Option.some.inj (hn.symm.trans hn')
      have hpmem := (mem_of_perm_cons hp).2 (.inl rfl)
      obtain ⟨⟨owner, hg⟩, hfits⟩ := h.sound.ok _ hpmem
      obtain ⟨sh', procs'⟩ := s'
      have hfits' : (∀ row, work.task ≠ .insert row) → work.fits = true := fun hne =>
        hfits.resolve_right fun ⟨row, hins⟩ => hne row hins
      rcases htask : work.task with _ | row | ⟨j, changes⟩ | j <;> rw [htask] at ha
      · exact absurd trivial ha
      · exact absurd trivial ha
      · simp only [not_forall, not_not] at ha
        obtain ⟨row, hrow, hb⟩ := ha
        cases hm with
        | committed hc =>
          exact fun hall => (h.logged j).not_wellFormed_update hc hg.records htask hrow hb (hall j)
        | aborted hc =>
          rcases commit_eq_none.1 hc (hfits' (by simp [htask]))
            with ⟨row', hins, -⟩ | ⟨i, ch, hupd, hnone⟩
          · exact absurd (htask.symm.trans hins) (by simp)
          · obtain ⟨rfl, -⟩ := TaskWrite.update.inj (htask.symm.trans hupd)
            exact absurd (hrow.symm.trans hnone) (by simp)
        | refused hpend => exact absurd hpend (by simp [Proc.pending])
      · rw [not_not] at ha
        cases hm with
        | committed hc =>
          exact fun hall => (h.logged j).not_wellFormed_delete hc hg.records htask ha (hall j)
        | aborted hc =>
          rcases commit_eq_none.1 hc (hfits' (by simp [htask]))
            with ⟨row', hins, -⟩ | ⟨i, ch, hupd, -⟩
          · exact absurd (htask.symm.trans hins) (by simp)
          · exact absurd (htask.symm.trans hupd) (by simp)
        | refused hpend => exact absurd hpend (by simp [Proc.pending])
    all_goals exact absurd trivial ha

/-- In a run of requests, under any interleaving and with any failures, the log of
    every task is well formed in every state iff every step is accurate. -/
theorem wellFormed_iff_accurate {as : List (Act Arrival Choice)} {s : Pool Service Proc}
    (h : (requestsOnly lib).Run ⟨.init, []⟩ as s) :
    (∀ bs t, bs <+: as → (requestsOnly lib).Run ⟨.init, []⟩ bs t →
      ∀ id, WellFormed t.shared id) ↔
      (requestsOnly lib).RunWith Accurate ⟨.init, []⟩ as s :=
  System.holds_iff_runWith (I := LoggedPool lib) ⟨sound_init, by simp, fun _ => .inl ⟨rfl, rfl⟩⟩
    (fun _ hI id => (hI.logged id).wellFormed) (fun _ _ _ hI hC hs => hI.step hC hs)
    (fun _ _ _ hI hC hs => hI.not_wellFormed hC hs) h

/-- A creation. -/
def creation : List (Act Arrival Choice) :=
  [.arrive (.request .sample (.create (.sample (.interval 60 minute_pos)))),
    .move 0 (.body (.sample 0 1)), .move 0 (.commit 0), .move 0 (.job 0)]

/-- A creation, and then a deactivation. -/
def pausing : List (Act Arrival Choice) :=
  creation ++
    [.arrive (.request .sample (.task .deactivate 1)), .move 0 .read, .move 0 (.body (.sample 0 0)),
      .move 0 (.commit 0), .move 0 (.job 0)]

/-- The deactivation is committed while the row is active. -/
theorem wellFormed_pausing : ∃ s, (requestsOnly .never).Run ⟨.init, []⟩ pausing s ∧
    s.shared.log 1 = [.taskCreated, .taskDeactivated] ∧ WellFormed s.shared 1 := by
  obtain ⟨s, hs, hlog⟩ : ∃ s, (requestsOnly .never).RunWith Accurate ⟨.init, []⟩ pausing s ∧
      s.shared.log 1 = [.taskCreated, .taskDeactivated] := by
    refine ⟨_, .cons trivial rfl <| .cons trivial rfl <| .cons ?_ rfl <| .cons trivial rfl <|
      .cons trivial rfl <| .cons trivial rfl <| .cons trivial rfl <| .cons ?_ rfl <|
      .cons trivial rfl .nil, rfl⟩
    · rintro work job ran hn
      obtain ⟨rfl, -⟩ := Proc.finishing.inj (Option.some.inj hn)
      trivial
    · rintro work job ran hn
      obtain ⟨rfl, -⟩ := Proc.finishing.inj (Option.some.inj hn)
      rintro row hrow
      obtain rfl := Option.some.inj hrow
      decide
  exact ⟨s, hs.run, hlog, (wellFormed_iff_accurate hs.run).2 hs _ s List.prefix_rfl hs.run 1⟩

/-- Two deactivations that both read the task active. -/
def deactivations : List (Act Arrival Choice) :=
  creation ++
    [.arrive (.request .sample (.task .deactivate 1)),
      .arrive (.request .sample (.task .deactivate 1)),
      .move 0 .read, .move 1 .read, .move 0 (.body (.sample 0 0)), .move 1 (.body (.sample 0 0)),
      .move 0 (.commit 0), .move 1 (.commit 0)]

/-- Under any interleaving, the logs would be well formed: they are not. -/
theorem not_wellFormed : ¬∀ (lib : Crontab) (as : List (Act Arrival Choice))
    (s : Pool Service Proc),
    (requestsOnly lib).Run ⟨.init, []⟩ as s → ∀ id, WellFormed s.shared id := by
  intro h
  obtain ⟨s, hs, hlog, hrow⟩ :
    ∃ s, (requestsOnly .never).exec ⟨.init, []⟩ deactivations = some s ∧
      s.shared.log 1 = [.taskCreated, .taskDeactivated, .taskDeactivated] ∧
      (s.shared.row 1).isNone = false := ⟨_, rfl, rfl, rfl⟩
  have hrun := System.runWith_of_exec (D := fun _ => True) (fun _ _ => trivial) hs
  rcases h _ _ _ hrun 1 with ⟨hempty, -⟩ | ⟨n, hn⟩
  · exact absurd (hlog.symm.trans hempty) (by simp)
  · rw [hlog, ending, hrow, if_neg (by simp), List.append_nil] at hn
    obtain rfl : n = 2 := by simpa [alternation] using congrArg List.length hn
    exact absurd hn (by decide)

end SchedulerLm
