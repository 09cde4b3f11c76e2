import SchedulerLm.Interleaving
import Mathlib.Algebra.Order.Group.Multiset

/-!
# The audit of webhook calls

Every GET should end up in the history, as an execution that says what came of
it. The row is added after the GET, and committed together with whatever else the
execution changes: when a `once` task succeeds, its deactivation. If the task has
been deleted meanwhile, the deactivation matches no row, and the audit is rolled
back with it.

* `Audited`: task by task, the executions in the history are those of the GETs.
* `Kept`: a deactivation by an execution finds its row.
* `audited_iff_kept`: when nothing is pending, the GETs are audited iff every step
  has kept its own.

The invariant (`accounts`): the GETs sent are those in the history, those a
process is still to commit, and those lost.
-/

namespace SchedulerLm

open Transition Relational

/-- The executions of the task in the history are those of its GETs. -/
def Audited (s : Service) : Prop :=
  ∀ id, ((s.sent.filter fun get => get.taskId = id).map Get.audit).Perm
    ((s.about id).filterMap fun row => row.audit)

/-- There is no outage. -/
def noOutage : Act Arrival Choice → Bool
  | .move _ .fail => false
  | _ => true

/-- If the step is the commit of an execution, the row it updates, if it does, is
    there. -/
def Kept (s : Pool Service Proc) : Act Arrival Choice → Prop
  | .move n (.commit _) => ∀ work remove, s.procs[n]? = some (.executed work remove) →
      ∀ id changes, work.task = .update id changes → s.shared.row id ≠ none
  | _ => True

/-- The audits a process is still to commit. -/
def Proc.owed (p : Proc) : List Audit :=
  (p.pending.elim [] fun work => work.history).filterMap fun row => row.audit

/-- The audits in the history, and those still to be committed. -/
def audits (s : Pool Service Proc) : Multiset Audit :=
  ↑(s.shared.history.filterMap fun row => row.audit) + ↑(s.procs.flatMap Proc.owed)

variable {lib : Crontab} {s s' : Service} {p q : Proc} {o : Option Proc} {k : Choice}

/-! ## The URL called -/

/-- A process that calls a task calls the URL it is to record. -/
def Proc.SameUrl (s : Service) : Proc → Prop
  | .running _ task => ∀ row, s.row task.id = some row → row.webhookUrl = task.webhookUrl
  | .calling _ task target => target.webhookUrl = task.webhookUrl
  | _ => True

/-- A move of another process keeps the URL of a row. -/
theorem Moves.webhookUrl (h : Moves lib s p k s' o) {id : TaskId} {row' : ScheduledTask}
    (hrow : s'.row id = some row') (hinsert : ∀ task, p.Inserts task → task.id ≠ id) :
    ∃ row, s.row id = some row ∧ row'.webhookUrl = row.webhookUrl := by
  rcases h.tables with ⟨ht, -⟩ | ⟨work, dbNow, hw, hc⟩
  · exact ⟨row', by rwa [Service.row, ht] at hrow, rfl⟩
  · rw [row_of_commit hc] at hrow
    cases htask : work.task with
    | nothing => exact ⟨row', by rwa [htask] at hrow, rfl⟩
    | insert task =>
      rw [htask, TaskWrite.after, if_neg (hinsert task ⟨work, hw, htask⟩).symm] at hrow
      exact ⟨row', hrow, rfl⟩
    | update j changes =>
      rw [htask, TaskWrite.after] at hrow
      split at hrow
      · obtain ⟨row, hold, rfl⟩ := Option.map_eq_some_iff.1 hrow
        exact ⟨row, hold, rfl⟩
      · exact ⟨row', hrow, rfl⟩
    | delete j =>
      rw [htask, TaskWrite.after] at hrow
      split at hrow
      · exact absurd hrow (by simp)
      · exact ⟨row', hrow, rfl⟩

/-- What a process goes on as calls the URL it is to record. -/
theorem Moves.sameUrl (h : Moves lib s p k s' (some q)) (hp : p.SameUrl s) : q.SameUrl s' := by
  generalize ho : some q = o at h
  cases h with
  | created | read | handled | runSent | fireRead | fireSent =>
    obtain rfl := Option.some.inj ho
    trivial
  | committed | ran =>
    split at ho
    · exact absurd ho (by simp)
    · obtain rfl := Option.some.inj ho
      trivial
  | runRead hrow =>
    obtain rfl := Option.some.inj ho
    intro row hrow'
    obtain rfl := Table.key_of_find hrow
    rw [Option.some.inj (hrow.symm.trans hrow')]
  | called htarget =>
    obtain rfl := Option.some.inj ho
    exact hp _ htarget
  | @fireCommitted _ remove =>
    rcases remove with _ | taskId
    · exact absurd ho (by simp)
    · obtain rfl := Option.some.inj ho
      trivial
  | _ => exact absurd ho (by simp)

/-- What holds of the processes at any time. -/
structure Calling (lib : Crontab) (s : Pool Service Proc) : Prop where
  sound : Sound lib s
  sameUrl : ∀ p ∈ s.procs, p.SameUrl s.shared

theorem Calling.step {s s' : Pool Service Proc} {a : Act Arrival Choice} (h : Calling lib s)
    (hs : (interleaving lib).step s a = some s') : Calling lib s' := by
  refine ⟨h.sound.step hs, fun q hq => ?_⟩
  cases Program.moved_of_step hs with
  | @arrive i o hi hprocs =>
    have ht : s'.shared.tasks = s.shared.tasks ∧ ∀ x, o = some x → x.SameUrl s'.shared := by
      cases i with
      | request user request =>
        obtain ⟨hsh, rfl⟩ := Prod.mk.inj (Option.some.inj hi)
        exact ⟨by rw [hsh], fun x hx => Option.some.inj hx ▸ trivial⟩
      | fire taskId now coalesced =>
        obtain ⟨⟨f, after⟩, hpick, hi⟩ := Option.map_eq_some_iff.1 hi
        obtain ⟨rfl, rfl⟩ := Prod.mk.inj hi
        obtain ⟨schedule, left, -, -, hafter⟩ := pickUp_eq_some hpick
        exact ⟨by rw [hafter], fun x hx => Option.some.inj hx ▸ trivial⟩
    rw [hprocs, List.mem_append, Option.mem_toList] at hq
    rcases hq with hq | hq
    · exact ht.2 q hq
    · have hq := h.sameUrl q hq
      cases q <;> first | trivial | simpa [Proc.SameUrl, Service.row, ht.1] using hq
  | @move n k p o rest hn hm hp hp' =>
    have hm := moves_of_move hm
    rcases (mem_of_perm_toList hp').1 hq with rfl | hq
    · exact hm.sameUrl (h.sameUrl p ((mem_of_perm_cons hp).2 (.inl rfl)))
    · have hqs := (mem_of_perm_cons hp).2 (.inr hq)
      have hq' := h.sameUrl q hqs
      cases q with
      | running user task =>
        intro row' hrow'
        have hother : ∀ task', p.Inserts task' → task'.id ≠ task.id := fun task' hins hid =>
          h.sound.not_holds hp hins _ hq (congrArg some hid.symm)
        obtain ⟨row, hrow, hurl⟩ := hm.webhookUrl hrow' hother
        exact hurl.trans (hq' row hrow)
      | calling => exact hq'
      | _ => trivial

/-! ## Accounts -/

/-- The audits of the GETs that were sent. -/
def Service.sentAudits (s : Service) : Multiset Audit := ↑(s.sent.map Get.audit)

/-- The audits in the history. -/
def Service.recorded (s : Service) : Multiset Audit := ↑(s.history.filterMap fun row => row.audit)

theorem sentAudits_send (get : Get) : (s.send get).sentAudits = s.sentAudits + {get.audit} := by
  rw [Service.sentAudits, Service.send, List.map_append, ← Multiset.coe_add]
  rfl

/-- A commit records the audits of its unit of work. -/
theorem recorded_of_commit {work : UnitOfWork} {dbNow : Instant}
    (hc : commit dbNow work s = some s') :
    s'.recorded = s.recorded + ↑(work.history.filterMap fun row => row.audit) := by
  rw [Service.recorded, (commit_eq_some hc).2.1, List.filterMap_append, List.filterMap_map,
    ← Multiset.coe_add]
  rfl

theorem audit_eq_none {row : TaskHistory} {event : TaskHistoryEventType} {owner : UserId}
    {taskId : TaskId} (h : row.Records event owner taskId) (hevent : event ≠ .execution) :
    row.audit = none := if_neg (h.1 ▸ hevent)

/-- The handlers add no executions. -/
theorem filterMap_audit_createTask {env : Env} {user : CurrentUser} {body : TaskCreate}
    {h : Handled} (hh : createTask lib env user body = .ok h) :
    h.work.history.filterMap (·.audit) = [] := by
  obtain ⟨trigger, nextRunAt, row, -, -, hrow, rfl⟩ := createTask_eq_ok hh
  simp [audit_eq_none (records_recordSnapshot hrow)]

theorem filterMap_audit_handle {env : Env} {user : CurrentUser} {op : TaskOp} {task : ScheduledTask}
    {h : Handled} (hh : op.handle lib env user task = .ok h) :
    h.work.history.filterMap (·.audit) = [] := by
  cases op with
  | activate =>
    rcases activateTask_eq_ok hh with ⟨-, rfl⟩ | ⟨next, -, -, -, rfl⟩ <;> rfl
  | deactivate =>
    obtain rfl := Except.ok.inj hh
    rw [deactivateTask]
    split <;> rfl
  | delete =>
    obtain ⟨row, hrow, rfl⟩ := Raising.map_eq_ok.1 hh
    simp [audit_eq_none (records_recordSnapshot (Raising.mapError_eq_ok.1 hrow))]

/-- Only manual runs gather executions, and they write to no task. -/
theorem Gathered.audits {owner : UserId} {work : UnitOfWork} {job : Option Job}
    (h : Gathered lib owner work job) :
    work.history.filterMap (·.audit) = [] ∨ work.task = .nothing ∧ job = none := by
  cases h with
  | nothing => exact .inl rfl
  | create _ _ _ hrow => exact .inl (by simp [audit_eq_none (records_recordSnapshot hrow)])
  | activate _ _ _ hrow => exact .inl (by simp [audit_eq_none hrow])
  | deactivate _ _ hrow => exact .inl (by simp [audit_eq_none hrow])
  | delete _ hrow _ => exact .inl (by simp [audit_eq_none (records_recordSnapshot hrow)])
  | run => exact .inr ⟨rfl, rfl⟩

theorem accounts_send (m n : Multiset Audit) (audit : Audit) :
    m + {audit} + (n + ↑([] : List Audit)) = m + (n + ↑[audit]) + 0 := by
  rw [Multiset.coe_nil, add_zero, add_zero, add_assoc, add_comm {audit} n]
  rfl

/-- The move, if it is the commit of an execution, finds the row it updates. -/
def Proc.Keeps (s : Service) (p : Proc) : Prop :=
  ∀ work remove, p = .executed work remove → ∀ id changes, work.task = .update id changes →
    s.row id ≠ none

/-- A move sends a GET it then owes, or records what it owes, or loses it: only a
    commit of an execution whose row is gone does that. -/
theorem Moves.accounts (h : Moves lib s p k s' o) (hp : p.Ok lib) (hurl : p.SameUrl s)
    (hk : k ≠ .fail) :
    ∃ lost : Multiset Audit, s'.sentAudits + (s.recorded + ↑p.owed) =
        s.sentAudits + (s'.recorded + ↑(o.elim [] Proc.owed)) + lost ∧
      (lost = 0 ↔ ((∃ dbNow, k = .commit dbNow) → p.Keeps s)) := by
  cases h with
  | failed => exact absurd rfl hk
  | refused hpend =>
    refine ⟨0, by simp [Proc.owed, hpend], iff_of_true rfl fun _ work remove hp => ?_⟩
    exact absurd hpend (by simp [hp, Proc.pending])
  | issued =>
    exact ⟨0, (add_zero _).symm, iff_of_true rfl fun _ work remove hp => absurd hp (by simp)⟩
  | created _ hc =>
    refine ⟨0, ?_, iff_of_true rfl fun _ work remove hp => absurd hp (by simp)⟩
    simp [Proc.owed, Proc.pending, filterMap_audit_createTask hc]
    rfl
  | handled hc =>
    refine ⟨0, ?_, iff_of_true rfl fun _ work remove hp => absurd hp (by simp)⟩
    simp [Proc.owed, Proc.pending, filterMap_audit_handle hc]
  | read | runRead | called | fireRead | removed =>
    exact ⟨0, (add_zero _).symm, iff_of_true rfl fun _ work remove hp => absurd hp (by simp)⟩
  | @committed work job ran dbNow s' hc =>
    refine ⟨0, ?_, iff_of_true rfl fun _ work remove hp => absurd hp (by simp)⟩
    have hsent : s'.sentAudits = s.sentAudits := by
      rw [Service.sentAudits, (commit_eq_some hc).2.2.2.1]; rfl
    rw [hsent, recorded_of_commit hc]
    split <;> simp [Proc.owed, Proc.pending]
  | @aborted work job ran dbNow hc =>
    refine ⟨0, ?_, iff_of_true rfl fun _ work remove hp => absurd hp (by simp)⟩
    obtain ⟨⟨owner, hg⟩, hfits⟩ := hp
    rcases hg.audits with hnone | ⟨htask, -⟩
    · simp [Proc.owed, Proc.pending, hnone]
    · -- An execution alone writes to no task, so its commit does not raise.
      have hfits : work.fits = true := by
        refine hfits.resolve_right ?_
        rintro ⟨row, hins⟩
        simp [htask] at hins
      rcases commit_eq_none.1 hc hfits with ⟨row, hins, -⟩ | ⟨id, changes, hupd, -⟩
      · exact absurd (htask.symm.trans hins) (by simp)
      · exact absurd (htask.symm.trans hupd) (by simp)
  | @ran work job committed now s' hj =>
    refine ⟨0, ?_, iff_of_true rfl fun _ work remove hp => absurd hp (by simp)⟩
    obtain ⟨-, hh, hsent, -⟩ := runJob_frame hj
    rw [Service.sentAudits, Service.sentAudits, hsent, Service.recorded, Service.recorded,
      hh, add_zero]
    cases committed <;> rfl
  | @raised work job committed now e hj =>
    refine ⟨0, ?_, iff_of_true rfl fun _ work remove hp => absurd hp (by simp)⟩
    obtain ⟨⟨owner, hg⟩, -⟩ := hp
    rcases hg.audits with hnone | ⟨-, hjob⟩
    · cases committed <;> simp [Proc.owed, Proc.pending, hnone]
    · exact absurd hjob (by simp)
  | @runSent user task target answer historyId =>
    refine ⟨0, ?_, iff_of_true rfl fun _ work remove hp => absurd hp (by simp)⟩
    have haudit := audit_recordExecution historyId user.userId .manual target answer
      (show task.webhookUrl = target.webhookUrl from hurl.symm)
    rw [hp.2] at haudit
    simp only [sentAudits_send, Proc.owed, Proc.pending, Option.elim_none,
      Option.elim_some, runWork, List.filterMap_cons, haudit, List.filterMap_nil]
    exact accounts_send _ _ _
  | @fireSent task answer historyId =>
    refine ⟨0, ?_, iff_of_true rfl fun _ work remove hp => absurd hp (by simp)⟩
    have haudit := audit_recordExecution historyId task.userId .scheduled task answer rfl
    obtain ⟨row, hrow, ⟨-, -, hx⟩ | ⟨-, hx⟩⟩ := executed_eq historyId task answer.outcome <;>
      simp only [sentAudits_send, Proc.owed, Proc.pending, Option.elim_none, Option.elim_some, hx,
        List.filterMap_cons, hrow, haudit, List.filterMap_nil] <;>
      exact accounts_send _ _ _
  | @fireCommitted work remove dbNow s' hc =>
    refine ⟨0, ?_, iff_of_true rfl fun _ work' remove' hp' id changes hupd hnone => ?_⟩
    · have hsent : s'.sentAudits = s.sentAudits := by
        rw [Service.sentAudits, (commit_eq_some hc).2.2.2.1]; rfl
      rw [hsent, recorded_of_commit hc]
      cases remove <;> simp [Proc.owed, Proc.pending]
    · obtain ⟨rfl, rfl⟩ := Proc.executed.inj hp'
      rw [commit_eq_none.2 fun _ => .inr ⟨id, changes, hupd, hnone⟩] at hc
      exact absurd hc (by simp)
  | @fireAborted work remove dbNow hc =>
    -- The one audit it owes is lost.
    obtain ⟨historyId, task, outcome, -, he⟩ := hp
    obtain ⟨row, hrow, ⟨-, -, hx⟩ | ⟨-, hx⟩⟩ := executed_eq historyId task outcome <;>
      rw [hx] at he <;> obtain ⟨rfl, rfl⟩ := Prod.mk.inj he
    · obtain ⟨audit, haudit⟩ : ∃ audit, row.audit = some audit := ⟨_, by rw [hrow]; rfl⟩
      refine ⟨{audit}, by simp [Proc.owed, Proc.pending, haudit, add_assoc],
        iff_of_false (by simp) ?_⟩
      intro hkeeps
      rcases commit_eq_none.1 hc (by rw [hrow]; rfl)
        with ⟨row', hins, -⟩ | ⟨id, changes, hupd, hnone⟩
      · exact dirty_ne_insert hins
      · exact hkeeps ⟨_, rfl⟩ _ _ rfl id changes hupd hnone
    · rcases commit_eq_none.1 hc (by rw [hrow]; rfl) with ⟨row', hins, -⟩ | ⟨id, changes, hupd, -⟩
      · exact absurd hins (by simp)
      · exact absurd hupd (by simp)

/-! ## Runs -/

theorem audits_of_perm {s : Pool Service Proc} {o : Option Proc} {rest : List Proc}
    (hp : s.procs.Perm (o.toList ++ rest)) :
    audits s = s.shared.recorded + (↑(o.elim [] Proc.owed) + ↑(rest.flatMap Proc.owed)) := by
  have hflat : (s.procs.flatMap Proc.owed).Perm ((o.toList ++ rest).flatMap Proc.owed) :=
    hp.flatMap_right _
  rw [audits, Multiset.coe_eq_coe.2 hflat, List.flatMap_append, ← Multiset.coe_add]
  cases o <;> simp [Service.recorded]

/-- The step is kept iff its process keeps what it owes. -/
theorem kept_move_iff {s : Pool Service Proc} {n : ℕ} (hn : s.procs[n]? = some p) :
    Kept s (.move n k) ↔ ((∃ dbNow, k = .commit dbNow) → p.Keeps s.shared) := by
  cases k with
  | commit dbNow =>
    simp only [Kept, Proc.Keeps, hn, Option.some.injEq]
    exact ⟨fun h _ => h, fun h => h ⟨dbNow, rfl⟩⟩
  | _ => exact iff_of_true trivial fun ⟨_, hk⟩ => absurd hk (by simp)

/-- A step sends GETs it then owes, or records what is owed, or loses some of it, if
    it does not keep it. -/
theorem Calling.accounts {s s' : Pool Service Proc} {a : Act Arrival Choice} (h : Calling lib s)
    (hs : ((interleaving lib).restrict noOutage).step s a = some s') :
    ∃ lost : Multiset Audit, s'.shared.sentAudits + audits s =
        s.shared.sentAudits + audits s' + lost ∧ (lost = 0 ↔ Kept s a) := by
  obtain ⟨hout, hs⟩ := System.restrict_step.1 hs
  cases Program.moved_of_step hs with
  | @arrive i o hi hprocs =>
    -- Nothing is sent, owed or recorded by what arrives.
    refine ⟨0, ?_, iff_of_true rfl trivial⟩
    have hnew : s'.shared.sentAudits = s.shared.sentAudits ∧
      s'.shared.recorded = s.shared.recorded ∧
        o.elim [] Proc.owed = [] := by
      cases i with
      | request user request =>
        obtain ⟨hsh, rfl⟩ := Prod.mk.inj (Option.some.inj hi)
        rw [← hsh]
        exact ⟨rfl, rfl, rfl⟩
      | fire taskId now coalesced =>
        obtain ⟨⟨f, after⟩, hpick, hi⟩ := Option.map_eq_some_iff.1 hi
        obtain ⟨rfl, rfl⟩ := Prod.mk.inj hi
        obtain ⟨schedule, left, -, -, hafter⟩ := pickUp_eq_some hpick
        rw [hafter]
        exact ⟨rfl, rfl, rfl⟩
    have hs' := audits_of_perm (List.Perm.of_eq hprocs)
    rw [hs', hnew.1, hnew.2.1, hnew.2.2, Multiset.coe_nil, zero_add, add_zero]
    rfl
  | @move n k p o rest hn hm hp hp' =>
    have hpmem : p ∈ s.procs := (mem_of_perm_cons hp).2 (.inl rfl)
    obtain ⟨lost, hbal, hlost⟩ := (moves_of_move hm).accounts (h.sound.ok p hpmem)
      (h.sameUrl p hpmem) (by rintro rfl; exact absurd hout (by simp [noOutage]))
    refine ⟨lost, ?_, hlost.trans (kept_move_iff hn).symm⟩
    rw [audits_of_perm (o := some p) hp, audits_of_perm hp', Option.elim_some]
    generalize (rest.flatMap Proc.owed : Multiset Audit) = r
    calc s'.shared.sentAudits + (s.shared.recorded + (↑p.owed + r))
        = s'.shared.sentAudits + (s.shared.recorded + ↑p.owed) + r := by simp only [add_assoc]
      _ = s.shared.sentAudits + (s'.shared.recorded + ↑(o.elim [] Proc.owed)) + lost + r := by
        rw [hbal]
      _ = s.shared.sentAudits + (s'.shared.recorded + (↑(o.elim [] Proc.owed) + r)) + lost := by
        rw [add_right_comm]
        simp only [add_assoc]

/-- After a run, the GETs sent are those in the history, those still owed, and those
    lost; none is lost iff every step has kept its own. -/
theorem exists_lost {as : List (Act Arrival Choice)} {s : Pool Service Proc}
    (h : ((interleaving lib).restrict noOutage).Run ⟨.init, []⟩ as s) :
    Calling lib s ∧ ∃ lost : Multiset Audit, s.shared.sentAudits = audits s + lost ∧
      (lost = 0 ↔ ((interleaving lib).restrict noOutage).RunWith Kept ⟨.init, []⟩ as s) := by
  induction h with
  | nil =>
    exact ⟨⟨sound_init, by simp⟩, 0, rfl, iff_of_true rfl .nil⟩
  | @snoc as s s' a h _ hs ih =>
    obtain ⟨hcalling, lost, hsent, hlost⟩ := ih
    obtain ⟨new, hbal, hnew⟩ := hcalling.accounts hs
    refine ⟨hcalling.step (System.restrict_step.1 hs).2, lost + new, ?_, ?_⟩
    · refine add_right_cancel (b := audits s) ?_
      rw [hbal, hsent]
      simp only [add_assoc, add_comm, add_left_comm]
    · rw [← Multiset.card_eq_zero, Multiset.card_add, Nat.add_eq_zero_iff, Multiset.card_eq_zero,
        Multiset.card_eq_zero, hlost, hnew]
      refine ⟨fun h => .snoc h.1 h.2 hs, fun h' => ?_⟩
      obtain ⟨t, ht, hkept, -⟩ := h'.of_snoc
      obtain rfl := ht.unique h
      exact ⟨ht, hkept⟩

/-! ## Task by task -/

theorem filter_map_audit (sent : List Get) (id : TaskId) :
    (sent.map Get.audit).filter (·.taskId = id) = (sent.filter (·.taskId = id)).map Get.audit := by
  rw [List.filter_map]
  rfl

theorem filter_filterMap_audit (s : Service) (id : TaskId) :
    (s.history.filterMap fun row => row.audit).filter (·.taskId = id) =
      (s.about id).filterMap fun row => row.audit := by
  rw [Service.about, List.filter_filterMap, List.filterMap_filter]
  refine List.filterMap_congr fun row _ => ?_
  by_cases hevent : row.eventType = .execution <;> by_cases hid : row.taskId = id <;>
    simp [TaskHistory.audit, hevent, hid]

/-- With requests and executions interleaved in any way, and without an outage, the
    GETs are audited when nothing is pending iff no execution deactivates a task that
    is gone when it commits. -/
theorem audited_iff_kept {as : List (Act Arrival Choice)} {s : Service}
    (h : ((interleaving lib).restrict noOutage).Run ⟨.init, []⟩ as ⟨s, []⟩) :
    Audited s ↔ ((interleaving lib).restrict noOutage).RunWith Kept ⟨.init, []⟩ as ⟨s, []⟩ := by
  obtain ⟨-, lost, hsent, hlost⟩ := exists_lost h
  obtain ⟨lost, rfl⟩ : ∃ l : List Audit, ↑l = lost := Quot.exists_rep lost
  rw [← hlost, Multiset.coe_eq_zero]
  have hperm :
      (s.sent.map Get.audit).Perm ((s.history.filterMap fun row => row.audit) ++ lost) := by
    rw [← Multiset.coe_eq_coe, ← Multiset.coe_add]
    simpa [audits, Service.sentAudits] using hsent
  have hpart : ∀ id, ((s.sent.filter fun get => get.taskId = id).map Get.audit).Perm
      (((s.about id).filterMap fun row => row.audit) ++ lost.filter (·.taskId = id)) := fun id => by
    have hfilter := hperm.filter (·.taskId = id)
    rwa [filter_map_audit, List.filter_append, filter_filterMap_audit] at hfilter
  constructor
  · -- The task of a lost audit has more GETs than executions.
    intro haudited
    refine List.eq_nil_iff_forall_not_mem.2 fun audit hmem => ?_
    have hlen := (haudited audit.taskId).length_eq.symm.trans (hpart audit.taskId).length_eq
    rw [List.length_append] at hlen
    have hnil : lost.filter (·.taskId = audit.taskId) = [] := List.length_eq_zero_iff.1 (by omega)
    exact List.filter_eq_nil_iff.1 hnil audit hmem (by simp)
  · rintro rfl id
    simpa using hpart id

/-- A task is created, and run by hand. -/
def manualRun : List (Act Arrival Choice) :=
  [.arrive (.request .sample (.create (.sample (.interval 60 minute_pos)))),
    .move 0 (.body (.sample 0 1)), .move 0 (.commit 0), .move 0 (.job 0),
    .arrive (.request .sample (.run 1)), .move 0 .read, .move 0 .read,
    .move 0 (.send (.response 200) 0), .move 0 (.commit 0)]

theorem audited_manualRun : ∃ s, s.sent.length = 1 ∧ Audited s := by
  obtain ⟨s, hs, hsent⟩ : ∃ s : Service, ((interleaving .never).restrict noOutage).RunWith Kept
      ⟨.init, []⟩ manualRun ⟨s, []⟩ ∧ s.sent.length = 1 := by
    refine ⟨_, .cons trivial rfl <| .cons trivial rfl <| .cons ?_ rfl <| .cons trivial rfl <|
      .cons trivial rfl <| .cons trivial rfl <| .cons trivial rfl <| .cons trivial rfl <|
      .cons ?_ rfl .nil, rfl⟩ <;> rintro _ _ ⟨⟩
  exact ⟨s, hsent, (audited_iff_kept hs.run).2 hs⟩

/-- A `once` task is deleted while its execution waits for the answer to its GET. -/
def deletedMeanwhile : List (Act Arrival Choice) :=
  [.arrive (.request .sample (.create (.sample (.once ⟨0, some 0⟩)))),
    .move 0 (.body (.sample 0 1)), .move 0 (.commit 0), .move 0 (.job 0),
    .arrive (.fire 1 0 0), .move 0 .read,
    .arrive (.request .sample (.task .delete 1)), .move 0 .read, .move 0 (.body (.sample 0 0)),
    .move 0 (.commit 0), .move 0 (.job 0),
    .move 0 (.send (.response 200) 0), .move 0 (.commit 0)]

/-- Under any interleaving, the GETs would be audited when nothing is pending: they
    are not. -/
theorem not_audited : ¬∀ (lib : Crontab) (as : List (Act Arrival Choice)) (s : Service),
    ((interleaving lib).restrict noOutage).Run ⟨.init, []⟩ as ⟨s, []⟩ → Audited s := by
  intro h
  obtain ⟨⟨s, _⟩, hs, rfl, hsent, hhistory⟩ :
      ∃ s, ((interleaving .never).restrict noOutage).exec ⟨.init, []⟩ deletedMeanwhile = some s ∧
        s.procs = [] ∧ (s.shared.sent.filter fun get => get.taskId = 1).length = 1 ∧
        ((s.shared.about 1).filterMap fun row => row.audit) = [] := ⟨_, rfl, rfl, rfl, rfl⟩
  have hperm := h _ _ _ (System.runWith_of_exec (D := fun _ => True) (fun _ _ => trivial) hs) 1
  dsimp only at hsent hhistory
  rw [hhistory, List.perm_nil, List.map_eq_nil_iff] at hperm
  rw [hperm] at hsent
  exact absurd hsent (by simp)

end SchedulerLm
