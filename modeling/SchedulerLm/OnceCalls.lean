import SchedulerLm.Replay
import SchedulerLm.Silence

/-!
# How often a `once` task is executed

A `once` task has one fire time, but it may be activated again, and two activations may
cross. Still, every execution is paid for: a schedule of a `once` task is dropped when it
is picked up, and only the registration after its creation, or after a requested
activation, puts another one. So a `once` task is never executed more often than one time
for its creation, and one time for each activation its owner has requested
(`once_calls_le`), under any interleaving and with any failures.
-/

namespace SchedulerLm

open Transition Relational

/-- What arrives asks for an activation of the task `id` of the user `u`. -/
def Arrival.activates (u : UserId) (id : TaskId) : Arrival → Bool
  | .request user (.task .activate taskId) => user.userId = u ∧ taskId = id
  | _ => false

/-- The process may still lead to an execution of the task `id` of the user `u`. -/
def Proc.chance (u : UserId) (id : TaskId) : Proc → Bool
  | .arrived user (.task .activate taskId) => user.userId = u ∧ taskId = id
  | .loaded _ .activate task => task.id = id
  | .finishing _ (some (.register task)) _ false => task.id = id
  | .fired taskId => taskId = id
  | .executing task => task.id = id
  | _ => false

/-- The executions of the task, and those that its schedule, or its creation, may still
    lead to. -/
def Service.chances (id : TaskId) (s : Service) : ℕ :=
  s.firesFor id + s.scheduleToken id + if id ∈ s.issued then 0 else 1

/-- The task `id`, if there is one, is a `once` task of the user `u`. -/
def IsOnce (lib : Crontab) (u : UserId) (id : TaskId) (s : Pool Service Proc) : Prop :=
  ∀ known, Coherent lib known s → ∀ i, known id = some i → i.triggerType = .once ∧ i.userId = u

variable {lib : Crontab} {known : Identities} {s s' : Service} {p q : Proc} {o : Option Proc}
  {k : Choice} {u : UserId} {id : TaskId}

/-! ## The schedule -/

/-- The schedule of a `once` task is dropped when it is picked up. -/
theorem Identities.Scheduled.dropped {schedule : Schedule} {now f : Instant} {n : ℕ}
    {left : Option Schedule} (h : known.Scheduled lib id schedule)
    (honce : ∀ i, known id = some i → i.triggerType = .once)
    (hpick : schedule.pick lib now n = some (f, left)) : left = none := by
  obtain ⟨i, hi, registered, trigger, m, hbuilt, rfl⟩ := h
  obtain ⟨d, hd⟩ := trigger_ofTrigger_once hbuilt (honce i hi)
  -- An exhausted date stays exhausted.
  have hexhausted : ∀ m, ((Schedule.advance lib)^[m] (.ofTrigger lib trigger)).trigger =
      .date d true := by
    intro m
    induction m with
    | zero => rw [Function.iterate_zero_apply, hd]
    | succ m ih =>
      rw [Function.iterate_succ_apply', Schedule.advance, ih]
      rfl
  exact pick_date (hexhausted m) hpick

theorem chances_congr (hsent : s'.sent = s.sent) (hscheduled : s'.scheduled id = s.scheduled id)
    (hissued : s'.issued = s.issued) : s'.chances id = s.chances id := by
  rw [Service.chances, Service.firesFor, hsent, scheduleToken_eq hscheduled, hissued]
  rfl

theorem chances_send_manual (get : Get) (h : get.source = .manual) :
    (s.send get).chances id = s.chances id := by
  rw [Service.chances, firesFor_send, if_neg (by simp [h]), Service.chances]
  rfl

theorem chances_of_commit {work : UnitOfWork} {dbNow : Instant}
    (hc : commit dbNow work s = some s') :
    s'.chances id = s.chances id := by
  obtain ⟨-, -, hschedules, hsent, hissued⟩ := commit_eq_some hc
  exact chances_congr hsent (by rw [Service.scheduled, hschedules, Service.scheduled]) hissued

/-! ## What the moves spend -/

/-- An operation prepares the registration of its task if it activates it, and no
    other. -/
theorem chance_of_handle {op : TaskOp} {env : Env} {user : CurrentUser} {task : ScheduledTask}
    {h : Handled} (hh : op.handle lib env user task = .ok h)
    (hchance : Proc.chance u id (.finishing h.work h.job false false) = true) :
    Proc.chance u id (.loaded user op task) = true := by
  cases op with
  | activate =>
    rcases activateTask_eq_ok hh with ⟨-, rfl⟩ | ⟨next, -, -, -, rfl⟩
    · exact absurd hchance (by simp [Proc.chance])
    · exact hchance
  | deactivate =>
    obtain rfl := Except.ok.inj hh
    rw [deactivateTask] at hchance
    split at hchance <;> exact absurd hchance (by simp [Proc.chance])
  | delete =>
    obtain ⟨row, -, rfl⟩ := Raising.map_eq_ok.1 hh
    by_cases hactive : task.isActive <;> exact absurd hchance (by simp [Proc.chance, hactive])

/-- A commit does not change what the job of the process leads to. -/
theorem chance_committed {work : UnitOfWork} {job : Option Job} {ran : Bool} :
    Proc.chance u id (.finishing work job true ran) =
      Proc.chance u id (.finishing work job false ran) := by
  rcases job with _ | _ | _ <;> cases ran <;> rfl

/-- A process that has registered its task has spent its chance. -/
theorem chance_of_ran {work : UnitOfWork} {job : Job} {committed : Bool} :
    (if committed then none else some (Proc.finishing work (some job) committed true)).elim 0
      (fun q => if q.chance u id then 1 else 0) = 0 := by
  cases committed <;> cases job <;> rfl

/-- Those that go on with a chance had it. -/
theorem chance_le (hchances : s'.chances id = s.chances id)
    (h : ∀ q, o = some q → q.chance u id = true → p.chance u id = true) :
    s'.chances id + o.elim 0 (fun q => if q.chance u id then 1 else 0) ≤
      s.chances id + if p.chance u id then 1 else 0 := by
  rw [hchances]
  refine Nat.add_le_add_left ?_ _
  rcases o with _ | q
  · exact Nat.zero_le _
  · rw [Option.elim_some]
    by_cases hq : q.chance u id = true
    · rw [if_pos hq, if_pos (h q rfl hq)]
    · rw [if_neg hq]
      exact Nat.zero_le _

/-- A move spends the chance of its process, or that of the schedule, or of the creation. -/
theorem Moves.chances_le (h : Moves lib s p k s' o)
    (hrows : ∀ row, s.row id = some row → row.userId = u) :
    s'.chances id + o.elim 0 (fun q => if q.chance u id then 1 else 0) ≤
      s.chances id + if p.chance u id then 1 else 0 := by
  cases h with
  | failed | refused | aborted | raised | fireAborted => exact chance_le rfl (by simp)
  | @issued user body env hfresh =>
    have hissued : (if id ∈ env.taskId :: s.issued then 0 else 1) ≤ if id ∈ s.issued then 0
        else 1 := by
      by_cases hid : id ∈ s.issued
      · rw [if_pos hid, if_pos (List.mem_cons_of_mem _ hid)]
      · rw [if_neg hid]
        split <;> decide
    exact (Nat.add_le_add_left hissued _).trans (Nat.le_add_right _ _)
  | @created user body env h hfresh hc =>
    obtain ⟨trigger, nextRunAt, row, -, -, -, rfl⟩ := createTask_eq_ok hc
    rw [Option.elim_some]
    by_cases hid : env.taskId = id
    · subst hid
      -- The creation has been paid for by the id, which had not been drawn.
      have hnew : Proc.chance u env.taskId (.finishing
          { task := .insert (newTask env user body trigger nextRunAt), history := [row] }
          (some (.register (newTask env user body trigger nextRunAt))) false false) = true :=
        decide_eq_true rfl
      rw [if_pos hnew, Service.chances, if_pos List.mem_cons_self, Service.chances, if_neg hfresh]
      exact Nat.le_add_right _ _
    · have hnew : ¬Proc.chance u id (.finishing
          { task := .insert (newTask env user body trigger nextRunAt), history := [row] }
          (some (.register (newTask env user body trigger nextRunAt))) false false) = true :=
        fun h => hid (of_decide_eq_true h)
      rw [if_neg hnew, Service.chances, Service.chances]
      simp only [List.mem_cons, show ¬id = env.taskId from fun h => hid h.symm, false_or]
      exact Nat.le_add_right _ _
  | @read user op taskId task hrow howner =>
    refine chance_le rfl fun q hq hchance => ?_
    obtain rfl := Option.some.inj hq
    obtain rfl := Table.key_of_find hrow
    cases op with
    | activate =>
      obtain rfl : task.id = id := of_decide_eq_true hchance
      exact decide_eq_true ⟨howner ▸ hrows task hrow, rfl⟩
    | deactivate | delete => exact absurd hchance (by simp [Proc.chance])
  | handled hc =>
    refine chance_le rfl fun q hq hchance => ?_
    obtain rfl := Option.some.inj hq
    exact chance_of_handle hc hchance
  | committed hc =>
    refine chance_le (chances_of_commit hc) fun q hq hchance => ?_
    split at hq
    · exact absurd hq (by simp)
    · obtain rfl := Option.some.inj hq
      exact chance_committed.symm.trans hchance
  | @ran work job committed now s' hj =>
    rw [chance_of_ran, Nat.add_zero]
    obtain ⟨-, -, hsent, hissued, -⟩ := runJob_frame hj
    by_cases hid : id = job.taskId
    · have hscheduled := (scheduled_of_runJob hj id).trans (if_pos hid)
      rw [Service.chances, Service.firesFor, hsent, hissued, Service.chances, Service.firesFor]
      rcases job with task | taskId
      · have hp :
            Proc.chance u id (.finishing work (some (.register task)) committed false) = true :=
          decide_eq_true hid.symm
        have htoken : s'.scheduleToken id ≤ 1 := by
          rw [Service.scheduleToken]
          split <;> decide
        rw [if_pos hp]
        omega
      · have htoken : s'.scheduleToken id = 0 := if_neg (by rw [hscheduled]; simp [Job.puts])
        omega
    · rw [chances_congr hsent (by rw [scheduled_of_runJob hj, if_neg hid]) hissued]
      exact Nat.le_add_right _ _
  | runRead | called =>
    refine chance_le rfl fun q hq hchance => ?_
    obtain rfl := Option.some.inj hq
    exact absurd hchance (by simp [Proc.chance])
  | runSent =>
    refine chance_le (chances_send_manual _ rfl) fun q hq hchance => ?_
    obtain rfl := Option.some.inj hq
    exact absurd hchance (by simp [Proc.chance])
  | @fireRead taskId task hload =>
    refine chance_le rfl fun q hq hchance => ?_
    obtain rfl := Option.some.inj hq
    obtain rfl := Table.key_of_find (loadActive_eq_some.1 hload).1
    exact hchance
  | @fireSent task answer historyId =>
    rw [Option.elim_some, Service.chances, firesFor_send, Service.chances]
    change _ + s.scheduleToken id + (if id ∈ s.issued then 0 else 1) + 0 ≤ _
    have hpaid : (if (fireTaskWebhook .scheduled task answer).taskId = id ∧
        (fireTaskWebhook .scheduled task answer).source = .scheduled then 1 else 0) =
        if Proc.chance u id (.executing task) then 1
          else 0 := by simp [fireTaskWebhook, Proc.chance]
    omega
  | @fireCommitted work remove dbNow s' hc =>
    refine chance_le (chances_of_commit hc) fun q hq hchance => ?_
    obtain ⟨taskId, -, rfl⟩ := Option.map_eq_some_iff.1 hq
    exact absurd hchance (by simp [Proc.chance])
  | @removed taskId now =>
    have htoken := scheduleToken_unregister taskId id s
    rw [Service.chances, Service.chances]
    change s.firesFor id + _ + (if id ∈ s.issued then 0 else 1) + 0 ≤ _
    omega

/-- What arrives brings what it asks for; a fire is paid for by the schedule. -/
theorem arrive_chances_le {i : Arrival} (h : arrive lib s i = some (s', o))
    (hschedule : ∀ schedule, s.schedules id = some schedule → known.Scheduled lib id schedule)
    (honce : ∀ i, known id = some i → i.triggerType = .once) :
    s'.chances id + o.elim 0 (fun q => if q.chance u id then 1 else 0) ≤
      s.chances id + if i.activates u id then 1 else 0 := by
  cases i with
  | request user request =>
    obtain ⟨rfl, rfl⟩ := Prod.mk.inj (Option.some.inj h)
    refine Nat.add_le_add_left ?_ _
    rcases request with _ | ⟨_ | _ | _, _⟩ | _ <;> exact Nat.le_refl _
  | fire taskId now coalesced =>
    obtain ⟨⟨f, after⟩, hpick, h⟩ := Option.map_eq_some_iff.1 h
    obtain ⟨rfl, rfl⟩ := Prod.mk.inj h
    obtain ⟨schedule, left, hput, hpicked, rfl⟩ := pickUp_eq_some hpick
    by_cases hid : taskId = id
    · subst hid
      obtain rfl := (hschedule schedule hput).dropped honce hpicked
      have hbefore : s.scheduleToken taskId = 1 := if_pos (by rw [Service.scheduled, hput]; rfl)
      have hafter : Service.scheduleToken
          { s with schedules := Function.update s.schedules taskId none } taskId = 0 :=
        if_neg (by simp [Service.scheduled])
      have hcredit : (if Proc.chance u taskId (.fired taskId) then 1 else 0) = 1 :=
        if_pos (decide_eq_true rfl)
      rw [Option.elim_some, hcredit, Service.chances, hafter, Service.chances, hbefore]
      change s.firesFor taskId + 0 + (if taskId ∈ s.issued then 0 else 1) + 1 ≤ _
      omega
    · have hcredit : (if Proc.chance u id (.fired taskId) then 1 else 0) = 0 :=
        if_neg fun h => hid (of_decide_eq_true h)
      have hsame :
          Service.chances id { s with schedules := Function.update s.schedules taskId left } =
          s.chances id := by
        refine chances_congr rfl ?_ rfl
        simp [Service.scheduled, Function.update_of_ne (Ne.symm hid)]
      rw [Option.elim_some, hcredit]
      exact hsame.le.trans (Nat.le_add_right _ _)

/-! ## The runs -/

/-- What a task is, it has been. -/
theorem isOnce_of_step {s s' : Pool Service Proc} {a : Act Arrival Choice} (h : Consistent lib s)
    (hs : (interleaving lib).step s a = some s') (honce : IsOnce lib u id s') :
    IsOnce lib u id s := by
  intro known hk i hi
  obtain ⟨known', hsub, hk'⟩ := hk.step h.sound hs
  exact honce known' hk' i (hsub id i hi)

theorem chances_of_step {s s' : Pool Service Proc} {a : Act Arrival Choice} (h : Consistent lib s)
    (hs : (interleaving lib).step s a = some s') (honce : IsOnce lib u id s) :
    Pool.account (Service.chances id) (fun p => if p.chance u id then 1 else 0) s' ≤
      Pool.account (Service.chances id) (fun p => if p.chance u id then 1 else 0) s +
        a.cost fun i => if i.activates u id then 1 else 0 := by
  obtain ⟨known, hk⟩ := h.coherent
  refine Program.account_step_le hs (fun i o ha => ?_) fun p k o hp hm => ?_
  · exact arrive_chances_le ha (hk.schedules id) fun i hi => (honce known hk i hi).1
  · refine (moves_of_move hm).chances_le fun row hrow => ?_
    have hknown := hk.rows id row hrow
    rw [Identities.Task, Table.key_of_find hrow] at hknown
    exact (honce known hk _ hknown).2

open Classical in
/-- A `once` task is executed at most one time for its creation, and one time for each
    activation that its owner has requested. -/
theorem once_calls_le {as : List (Act Arrival Choice)} {s : Pool Service Proc}
    (h : (interleaving lib).Run ⟨.init, []⟩ as s) {row : TaskHistoryRow}
    (hrow : row ∈ s.shared.history) (honce : row.triggerType = some .once) :
    s.shared.firesFor row.taskId ≤
      1 + as.countP (Act.arrives (Arrival.activates row.userId row.taskId)) := by
  -- The task is a `once` task in the last state, so in every one.
  have hlast : IsOnce lib row.userId row.taskId s := by
    intro known hk i hi
    obtain ⟨j, hj, howner, -, htype⟩ := hk.history row hrow
    obtain rfl := Option.some.inj (hi.symm.trans hj)
    exact ⟨(htype .once honce).1.symm, howner.symm⟩
  let measure (s : Pool Service Proc) : ℕ := if IsOnce lib row.userId row.taskId s then
    Pool.account (Service.chances row.taskId) (fun p => if p.chance row.userId row.taskId then 1
      else 0) s else 0
  have hle : measure s ≤ measure ⟨.init, []⟩ +
      (as.map (Act.cost fun i => if i.activates row.userId row.taskId then 1 else 0)).sum :=
    h.le_cost consistent_init (fun _ _ _ hI _ hs => hI.step hs) fun s a s' hI _ hs => by
      by_cases hs' : IsOnce lib row.userId row.taskId s'
      · have hbefore := isOnce_of_step hI hs hs'
        simp only [measure, if_pos hs', if_pos hbefore]
        exact chances_of_step hI hs hbefore
      · simp only [measure, if_neg hs']
        exact Nat.zero_le _
  have hstart : measure ⟨.init, []⟩ ≤ 1 := by
    simp only [measure]
    split
    · exact Nat.le_refl _
    · exact Nat.zero_le _
  rw [Act.sum_cost] at hle
  simp only [measure, if_pos hlast] at hle
  have hfires : s.shared.firesFor row.taskId ≤ Pool.account (Service.chances row.taskId)
      (fun p => if p.chance row.userId row.taskId then 1 else 0) s :=
    (Nat.le_add_right _ _).trans ((Nat.le_add_right _ _).trans (Nat.le_add_right _ _))
  exact hfires.trans (hle.trans (Nat.add_le_add_right hstart _))

/-- A `once` task is created, executed, and not activated: it has been executed once. -/
theorem once_calls_executedOnce : ∃ s : Pool Service Proc,
    (interleaving .never).Run ⟨.init, []⟩ executedOnce s ∧ s.shared.firesFor 1 = 1 ∧
      s.shared.firesFor 1 ≤ 1 + executedOnce.countP
        (Act.arrives (Arrival.activates "alice" 1)) := by
  obtain ⟨s, hs, hfires, row, hrow, honce, hid, huser⟩ : ∃ s,
      (interleaving .never).exec ⟨.init, []⟩ executedOnce = some s ∧ s.shared.firesFor 1 = 1 ∧
      ∃ row ∈ s.shared.history, row.triggerType = some .once ∧ row.taskId = 1 ∧
        row.userId = "alice" :=
    ⟨_, rfl, rfl, _, List.mem_cons_self, rfl, rfl, rfl⟩
  have hrun := System.runWith_of_exec (D := fun _ => True) (fun _ _ => trivial) hs
  refine ⟨s, hrun, hfires, ?_⟩
  have hle := once_calls_le hrun hrow honce
  rwa [hid, huser] at hle

end SchedulerLm
