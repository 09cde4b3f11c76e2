import SchedulerLm.Causes
import SchedulerLm.Registration

/-!
# After a deletion, and after a pause

The service promises that a task that is deleted, or paused, is no longer executed. The
scheduler may still hold its schedule, and fires may be under way; but an execution
loads the row before it sends its call, and a deleted row does not come back, as no id
is drawn twice.

* `calls_after_deletion`: once a task has been deleted, its row never comes back, and the
  only calls sent for it are those of processes that had loaded it before.
* `calls_after_pausing`: once a task is inactive, and until an activation of it is
  committed, it stays inactive, and the only scheduled calls sent for it are those of
  executions that had loaded it before.
-/

namespace SchedulerLm

open Transition Relational

/-- The task is gone, and nobody is to insert it. -/
structure Gone (id : TaskId) (s : Pool Service Proc) : Prop where
  issued : id ∈ s.shared.issued
  row : s.shared.row id = none
  inserts : ∀ p ∈ s.procs, ∀ task, p.Inserts task → task.id ≠ id

/-- The process is to send a call for the task. -/
def Proc.underWay (id : TaskId) (p : Proc) : Bool := p.target.any fun task => task.id = id

/-- The process is to send a scheduled call for the task. -/
def Proc.fires (id : TaskId) : Proc → Bool
  | .executing task => task.id = id
  | _ => false

/-- The calls sent for a task. -/
def Service.callsFor (id : TaskId) (s : Service) : ℕ := s.sent.countP fun get => get.taskId = id

/-- The scheduled calls sent for a task. -/
def Service.firesFor (id : TaskId) (s : Service) : ℕ :=
  s.sent.countP fun get => get.taskId = id ∧ get.source = .scheduled

/-- The step does not commit an activation of the task. -/
def NoActivation (id : TaskId) (s : Pool Service Proc) : Act Arrival Choice → Prop
  | .move n (.commit _) => ∀ p, s.procs[n]? = some p → p.activates id = false
  | _ => True

variable {lib : Crontab} {s s' : Service} {p q : Proc} {o : Option Proc} {k : Choice} {id : TaskId}

/-! ## Deleted tasks -/

/-- A row that is there is inserted by nobody. -/
theorem Sound.inserts_ne {s : Pool Service Proc} (h : Sound lib s) (hrow : s.shared.row id ≠ none) :
    id ∈ s.shared.issued ∧ ∀ p ∈ s.procs, ∀ task, p.Inserts task → task.id ≠ id := by
  refine ⟨h.row_issued id hrow, fun p hp task hins hid => hrow ?_⟩
  rw [← hid]
  exact (h.unborn p hp task hins).1

/-- An id that has been drawn is inserted by those only that were to insert it. -/
theorem inserts_of_step {s s' : Pool Service Proc} {a : Act Arrival Choice}
    (hs : (interleaving lib).step s a = some s') (hissued : id ∈ s.shared.issued)
    (hinserts : ∀ p ∈ s.procs, ∀ task, p.Inserts task → task.id ≠ id) :
    id ∈ s'.shared.issued ∧ ∀ p ∈ s'.procs, ∀ task, p.Inserts task → task.id ≠ id := by
  cases Program.moved_of_step hs with
  | @arrive i o ha hprocs =>
    refine ⟨?_, fun q hq task hins => ?_⟩
    · cases i with
      | request => exact (Prod.mk.inj (Option.some.inj ha)).1 ▸ hissued
      | fire =>
        obtain ⟨⟨f, after⟩, hpick, ha⟩ := Option.map_eq_some_iff.1 ha
        obtain ⟨rfl, -⟩ := Prod.mk.inj ha
        obtain ⟨schedule, left, -, -, hafter⟩ := pickUp_eq_some hpick
        exact hafter ▸ hissued
    · rw [hprocs, List.mem_append, Option.mem_toList] at hq
      rcases hq with hq | hq
      · obtain ⟨work, hw, -⟩ := hins
        exact absurd (((arrive_frame ha).2.2 q hq).2.symm.trans hw) (by simp)
      · exact hinserts q hq task hins
  | @move n k p o rest _ hm hp hp' =>
    have hm := moves_of_move hm
    refine ⟨hm.issued_subset hissued, fun q hq task hins => ?_⟩
    rcases (mem_of_perm_toList hp').1 hq with rfl | hq
    · rcases (hm.inserts hins).2 with hold | ⟨hfresh, -⟩
      · exact hinserts p ((mem_of_perm_cons hp).2 (.inl rfl)) task hold
      · exact fun hid => hfresh (hid ▸ hissued)
    · exact hinserts q ((mem_of_perm_cons hp).2 (.inr hq)) task hins

/-- A row that nobody inserts does not come back. -/
theorem Gone.step {s s' : Pool Service Proc} {a : Act Arrival Choice} (h : Gone id s)
    (hs : (interleaving lib).step s a = some s') : Gone id s' := by
  obtain ⟨hissued, hinserts⟩ := inserts_of_step hs h.issued h.inserts
  refine ⟨hissued, ?_, hinserts⟩
  cases Program.moved_of_step hs with
  | arrive ha => rw [Service.row, (arrive_frame ha).1, ← Service.row, h.row]
  | @move n k p o rest _ hm hp _ =>
    rcases (moves_of_move hm).tables with ⟨ht, -⟩ | ⟨work, dbNow, hw, hc⟩
    · rw [Service.row, ht, ← Service.row, h.row]
    · rw [row_of_commit hc, h.row]
      cases htask : work.task with
      | nothing => rfl
      | insert task =>
        exact if_neg (Ne.symm (h.inserts p ((mem_of_perm_cons hp).2 (.inl rfl)) task
          ⟨work, hw, htask⟩))
      | update j changes =>
        rw [TaskWrite.after]
        split <;> rfl
      | delete j =>
        rw [TaskWrite.after]
        split <;> rfl

/-- A task whose row has been there, and is not any more, is gone. -/
theorem gone_of_run {s t : Pool Service Proc} {as : List (Act Arrival Choice)} (h : Sound lib s)
    (hr : (interleaving lib).Run s as t) (hrow : s.shared.row id ≠ none)
    (hgone : t.shared.row id = none) :
    Gone id t := by
  obtain ⟨hissued, hinserts⟩ := hr.invariant
    (I := fun t => id ∈ t.shared.issued ∧ ∀ p ∈ t.procs, ∀ task, p.Inserts task → task.id ≠ id)
    (h.inserts_ne hrow) fun _ _ _ hI _ hs => inserts_of_step hs hI.1 hI.2
  exact ⟨hissued, hgone, hinserts⟩

theorem callsFor_send (get : Get) :
    (s.send get).callsFor id = s.callsFor id + if get.taskId = id then 1 else 0 := by
  rw [Service.callsFor, Service.send, List.countP_append, List.countP_singleton, Service.callsFor]
  simp only [decide_eq_true_eq]

/-- No move puts a call for a task that is not there under way. -/
theorem Moves.callsFor_le (h : Moves lib s p k s' o) (hrow : s.row id = none) :
    s'.callsFor id + o.elim 0 (fun q => if q.underWay id then 1 else 0) ≤
      s.callsFor id + if p.underWay id then 1 else 0 := by
  -- What a process goes on to call is a row that is there.
  have hnew : ∀ q, o = some q → q.underWay id = false := by
    rintro q rfl
    rw [Bool.eq_false_iff]
    intro hway
    obtain ⟨task, htarget, hid⟩ := (Option.any_eq_true _ _).1 hway
    obtain ⟨j, hj⟩ := h.target htarget
    have hkey : j = id := (Table.key_of_find hj).symm.trans (of_decide_eq_true hid)
    exact absurd (hj.symm.trans (hkey ▸ hrow)) (by simp)
  have hzero : o.elim 0 (fun q => if q.underWay id then 1 else 0) = 0 := by
    rcases o with _ | q
    · rfl
    · rw [Option.elim_some, hnew q rfl]
      rfl
  rw [hzero, Nat.add_zero]
  rcases h.sent with hsent | ⟨task, source, answer, htarget, rfl⟩
  · rw [Service.callsFor, hsent]
    exact Nat.le_add_right _ _
  · rw [callsFor_send]
    refine Nat.add_le_add_left ?_ _
    rw [Proc.underWay, htarget, Option.any_some]
    simp only [decide_eq_true_eq]
    exact Nat.le_refl _

/-- Once a task has been deleted, its row never comes back, and the only calls sent for it
    are those that were under way. -/
theorem calls_after_deletion {as bs cs : List (Act Arrival Choice)} {s t u : Pool Service Proc}
    (h : (interleaving lib).Run ⟨.init, []⟩ as s) (h' : (interleaving lib).Run s bs t)
    (h'' : (interleaving lib).Run t cs u) (hrow : s.shared.row id ≠ none)
    (hgone : t.shared.row id = none) :
    u.shared.row id = none ∧
      u.shared.callsFor id ≤ t.shared.callsFor id + t.procs.countP (Proc.underWay id) := by
  have hsound : Sound lib s := h.invariant sound_init fun _ _ _ hI _ hs => hI.step hs
  have ht := gone_of_run hsound h' hrow hgone
  refine ⟨(h''.invariant ht fun _ _ _ hI _ hs => hI.step hs).row, ?_⟩
  have hle : Pool.account (Service.callsFor id) (fun p => if p.underWay id then 1 else 0) u ≤
      Pool.account (Service.callsFor id) (fun p => if p.underWay id then 1 else 0) t :=
    h''.le_start ht (fun _ _ _ hI _ hs => hI.step hs) fun s a s' hI _ hs => by
      refine Program.account_step_antitone hs (fun i o ha => ?_) fun p k o _ hm =>
        (moves_of_move hm).callsFor_le hI.row
      rw [Service.callsFor, (arrive_grows ha).1]
      rcases arrive_eq_some ha with ⟨user, request, -, rfl⟩ | ⟨taskId, now, coalesced, -, rfl⟩ <;>
        exact Nat.le_refl _
  rw [Pool.account, Pool.account, Pool.credit_countP, Pool.credit_countP] at hle
  exact (Nat.le_add_right _ _).trans hle

/-! ## Paused tasks -/

/-- A move makes a task active by the commit of an activation of it only. -/
theorem Moves.active_eq_false (h : Moves lib s p k s' o) (hpaused : s.active id = false)
    (hno : ∀ dbNow, k = .commit dbNow → p.activates id = false) : s'.active id = false := by
  have hcommit : ∀ work dbNow, k = .commit dbNow → p.pending = some work →
    commit dbNow work s = some s' →
      s'.active id = false := by
    intro work dbNow hk hw hc
    rw [active_of_commit hc]
    rcases hsets : work.task.sets with _ | ⟨j, b⟩
    · exact hpaused
    · rw [Option.elim_some]
      split
      · rename_i hid
        obtain rfl := hid
        cases b
        · rfl
        · exact absurd (activates_iff.2 ⟨work, hw, hsets⟩) (by simp [hno dbNow hk])
      · exact hpaused
  cases h with
  | committed hc => exact hcommit _ _ rfl rfl hc
  | fireCommitted hc => exact hcommit _ _ rfl rfl hc
  | ran hj =>
    rw [Service.active, Service.row, (runJob_frame hj).1, ← Service.row, ← Service.active, hpaused]
  | _ => exact hpaused

theorem active_of_step {s s' : Pool Service Proc} {a : Act Arrival Choice}
    (hs : (interleaving lib).step s a = some s') (hpaused : s.shared.active id = false)
    (hno : NoActivation id s a) : s'.shared.active id = false := by
  cases Program.moved_of_step hs with
  | arrive ha =>
    rw [Service.active, Service.row, (arrive_frame ha).1, ← Service.row, ← Service.active, hpaused]
  | @move n k p o rest hn hm _ _ =>
    refine (moves_of_move hm).active_eq_false hpaused fun dbNow hk => ?_
    subst hk
    exact hno p hn

theorem firesFor_send (get : Get) :
    (s.send get).firesFor id = s.firesFor id + if get.taskId = id ∧ get.source = .scheduled then 1
      else 0 := by
  rw [Service.firesFor, Service.send, List.countP_append, List.countP_singleton, Service.firesFor]
  simp only [decide_eq_true_eq]

/-- No move executes a task that is inactive, unless it has been loaded. -/
theorem Moves.firesFor_le (h : Moves lib s p k s' o) (hpaused : s.active id = false) :
    s'.firesFor id + o.elim 0 (fun q => if q.fires id then 1 else 0) ≤
      s.firesFor id + if p.fires id then 1 else 0 := by
  cases h with
  | failed | refused | issued | aborted | raised | fireAborted | removed =>
    exact Nat.le_add_right _ _
  | created | read | handled | runRead | called => exact Nat.add_le_add_left (Nat.zero_le _) _
  | committed hc =>
    rw [Service.firesFor, (commit_eq_some hc).2.2.2.1]
    refine Nat.add_le_add_left ?_ _
    split <;> exact Nat.zero_le _
  | ran hj =>
    rw [Service.firesFor, (runJob_frame hj).2.2.1]
    refine Nat.add_le_add_left ?_ _
    split <;> exact Nat.zero_le _
  | @fireCommitted _ remove _ _ hc =>
    rw [Service.firesFor, (commit_eq_some hc).2.2.2.1]
    refine Nat.add_le_add_left ?_ _
    cases remove <;> exact Nat.zero_le _
  | @fireRead taskId task hload =>
    -- The execution loads an active task, so another one.
    have hne : task.id ≠ id := by
      rintro rfl
      obtain rfl := Table.key_of_find (loadActive_eq_some.1 hload).1
      rw [← isSome_loadActive, hload] at hpaused
      exact absurd hpaused (by simp)
    rw [Option.elim_some, Proc.fires, if_neg (by simpa using hne)]
    exact Nat.le_add_right _ _
  | runSent =>
    rw [firesFor_send, if_neg (by simp [fireTaskWebhook])]
    exact Nat.le_add_right _ _
  | @fireSent task answer historyId =>
    rw [firesFor_send, Nat.add_assoc]
    refine Nat.add_le_add_left ?_ _
    simp [fireTaskWebhook, Proc.fires]

/-- Once a task is inactive, and as long as no activation of it is committed, it stays
    inactive, and the only scheduled calls sent for it are those of executions that had
    loaded it. -/
theorem calls_after_pausing {s t : Pool Service Proc} {as : List (Act Arrival Choice)}
    (h : (interleaving lib).RunWith (NoActivation id) s as t)
    (hpaused : s.shared.active id = false) :
    t.shared.active id = false ∧
      t.shared.firesFor id ≤ s.shared.firesFor id + s.procs.countP (Proc.fires id) := by
  have hkeep := h.invariant (I := fun t : Pool Service Proc => t.shared.active id = false) hpaused
    fun _ _ _ hI hC hs => active_of_step hs hI hC
  refine ⟨hkeep, ?_⟩
  have hle : Pool.account (Service.firesFor id) (fun p => if p.fires id then 1 else 0) t ≤
      Pool.account (Service.firesFor id) (fun p => if p.fires id then 1 else 0) s :=
    h.le_start (I := fun t : Pool Service Proc => t.shared.active id = false) hpaused
      (fun _ _ _ hI hC hs => active_of_step hs hI hC) fun s a s' hI _ hs => by
        refine Program.account_step_antitone hs (fun i o ha => ?_) fun p k o _ hm =>
          (moves_of_move hm).firesFor_le hI
        rw [Service.firesFor, (arrive_grows ha).1]
        rcases arrive_eq_some ha with ⟨user, request, -, rfl⟩ | ⟨taskId, now, coalesced, -, rfl⟩ <;>
          exact Nat.le_refl _
  rw [Pool.account, Pool.account, Pool.credit_countP, Pool.credit_countP] at hle
  exact (Nat.le_add_right _ _).trans hle

/-! ## Both, in runs -/

/-- A minute task is created, and a fire of it is loaded. -/
def loadedFire : List (Act Arrival Choice) :=
  creation ++ [.arrive (.fire 1 0 0), .move 0 .read]

/-- Its owner deletes it meanwhile. -/
def deletion : List (Act Arrival Choice) :=
  [.arrive (.request .sample (.task .delete 1)), .move 0 .read, .move 0 (.body (.sample 0 0)),
    .move 0 (.commit 0), .move 0 (.job 0)]

/-- The execution sends its call, and no other one is sent. -/
theorem calls_after_deletion_of_loaded : ∃ s t u : Pool Service Proc,
    (interleaving .never).Run ⟨.init, []⟩ loadedFire s ∧ (interleaving .never).Run s deletion t ∧
    (interleaving .never).Run t [.move 0 (.send (.response 200) 0), .move 0 (.commit 0)] u ∧
    u.shared.callsFor 1 = 1 ∧ t.shared.callsFor 1 + t.procs.countP (Proc.underWay 1) = 1 ∧
    u.shared.row 1 = none ∧
      u.shared.callsFor 1 ≤ t.shared.callsFor 1 + t.procs.countP (Proc.underWay 1) := by
  obtain ⟨s, t, u, hs, ht, hu, hrow, hgone, hcalls, hway⟩ : ∃ s t u,
      (interleaving .never).exec ⟨.init, []⟩ loadedFire = some s ∧
      (interleaving .never).exec s deletion = some t ∧
      (interleaving .never).exec t [.move 0 (.send (.response 200) 0),
        .move 0 (.commit 0)] = some u ∧
      (s.shared.row 1).isSome = true ∧ t.shared.row 1 = none ∧ u.shared.callsFor 1 = 1 ∧
      t.shared.callsFor 1 + t.procs.countP (Proc.underWay 1) = 1 :=
    ⟨_, _, _, rfl, rfl, rfl, rfl, rfl, rfl, rfl⟩
  have hruns := System.runWith_of_exec (D := fun _ => True) (fun _ _ => trivial) hs
  have hrunt := System.runWith_of_exec (D := fun _ => True) (fun _ _ => trivial) ht
  have hrunu := System.runWith_of_exec (D := fun _ => True) (fun _ _ => trivial) hu
  refine ⟨s, t, u, hruns, hrunt, hrunu, hcalls, hway,
    calls_after_deletion hruns hrunt hrunu ?_ hgone⟩
  exact Option.isSome_iff_ne_none.1 hrow

/-- A fire is picked up after its task has been paused: it is skipped. -/
theorem calls_after_pausing_of_fired : ∃ s t : Pool Service Proc,
    (interleaving .never).exec ⟨.init, []⟩ (creation ++
      [.arrive (.request .sample (.task .deactivate 1)),
      .move 0 .read, .move 0 (.body (.sample 0 0)), .move 0 (.commit 0)]) = some s ∧
    (interleaving .never).RunWith (NoActivation 1) s [.arrive (.fire 1 0 0), .move 0 .read] t ∧
    t.shared.active 1 = false ∧
      t.shared.firesFor 1 ≤ s.shared.firesFor 1 + s.procs.countP (Proc.fires 1) := by
  obtain ⟨s, t, hs, ht, hactive⟩ : ∃ s t,
      (interleaving .never).exec ⟨.init, []⟩ (creation ++
        [.arrive (.request .sample (.task .deactivate 1)),
        .move 0 .read, .move 0 (.body (.sample 0 0)), .move 0 (.commit 0)]) = some s ∧
      (interleaving .never).RunWith (NoActivation 1) s [.arrive (.fire 1 0 0), .move 0 .read] t ∧
      s.shared.active 1 = false := ⟨_, _, rfl, .cons trivial rfl <| .cons trivial rfl .nil, rfl⟩
  exact ⟨s, t, hs, ht, calls_after_pausing ht hactive⟩

end SchedulerLm
