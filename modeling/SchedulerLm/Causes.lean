import SchedulerLm.Base.Accounting
import SchedulerLm.Identities

/-!
# Causes

Nothing happens that nobody has asked for, and nothing happens twice: under any
interleaving and with any failures, every webhook call has a cause of its own, a
manual run requested by the owner of the task, or a fire picked up by a scheduler
(`calls_le`), and every row of the history has one, a request of its user for what the
row tells, or a fire (`records_le`). All of a task is its owner's: the tokens of the calls
for it, and the rows about it.

The causes are counted against the actions of the run: an arrival gives a process its
credit, which the process spends by its call, or by its row, at most once.
-/

namespace SchedulerLm

open Transition Relational

/-! ## Calls -/

/-- At whose request, for which task, and with whose token a call is made. -/
structure Caller where
  taskId : TaskId
  source : ExecutionSource
  userId : UserId
  deriving DecidableEq

/-- The caller of a call. -/
def Get.caller (get : Get) : Caller := ⟨get.taskId, get.source, get.userId⟩

/-- What arrives may lead to a call of the caller. -/
def Arrival.mayCall (caller : Caller) : Arrival → Bool
  | .request user (.run taskId) =>
    caller.source = .manual ∧ taskId = caller.taskId ∧ user.userId = caller.userId
  | .fire taskId _ _ => caller.source = .scheduled ∧ taskId = caller.taskId
  | _ => false

/-- The process may still make a call of the caller. -/
def Proc.mayCall (caller : Caller) : Proc → Bool
  | .arrived user (.run taskId) =>
    caller.source = .manual ∧ taskId = caller.taskId ∧ user.userId = caller.userId
  | .running user task =>
    caller.source = .manual ∧ task.id = caller.taskId ∧ user.userId = caller.userId
  | .calling user _ target =>
    caller.source = .manual ∧ target.id = caller.taskId ∧ user.userId = caller.userId
  | .fired taskId => caller.source = .scheduled ∧ taskId = caller.taskId
  | .executing task => caller.source = .scheduled ∧ task.id = caller.taskId
  | _ => false

/-- The calls of the caller that have been sent. -/
def Service.calls (caller : Caller) (s : Service) : ℕ :=
  s.sent.countP fun get => get.caller = caller

/-! ## Records -/

/-- What a row of the history tells: whose event of which task and, of an execution, its source. -/
structure Entry where
  userId : UserId
  taskId : TaskId
  eventType : TaskHistoryEventType
  source : Option ExecutionSource
  deriving DecidableEq

/-- What the row tells. -/
def TaskHistory.entry (row : TaskHistory) : Entry :=
  ⟨row.userId, row.taskId, row.eventType, row.executionSource⟩

/-- The event of an operation. -/
def TaskOp.event : TaskOp → TaskHistoryEventType
  | .activate => .taskActivated
  | .deactivate => .taskDeactivated
  | .delete => .taskDeleted

/-- What arrives may lead to a row with the entry. -/
def Arrival.mayRecord (entry : Entry) : Arrival → Bool
  | .request user (.create _) =>
    user.userId = entry.userId ∧ entry.eventType = .taskCreated ∧ entry.source = none
  | .request user (.task op taskId) =>
    user.userId = entry.userId ∧ taskId = entry.taskId ∧ entry.eventType = op.event ∧
      entry.source = none
  | .request user (.run taskId) =>
    user.userId = entry.userId ∧ taskId = entry.taskId ∧ entry.eventType = .execution ∧
      entry.source = some .manual
  | .fire taskId _ _ =>
    taskId = entry.taskId ∧ entry.eventType = .execution ∧ entry.source = some .scheduled

/-- The rows with the entry that the process may still commit. -/
def Proc.mayRecord (entry : Entry) : Proc → ℕ
  | .arrived user request => if Arrival.mayRecord entry (.request user request) then 1 else 0
  | .loaded user op task =>
    if Arrival.mayRecord entry (.request user (.task op task.id)) then 1 else 0
  | .running user task => if Arrival.mayRecord entry (.request user (.run task.id)) then 1 else 0
  | .calling user task _ => if Arrival.mayRecord entry (.request user (.run task.id)) then 1 else 0
  | .finishing work _ false _ => work.history.countP fun row => row.entry = entry
  | .fired taskId => if Arrival.mayRecord entry (.fire taskId 0 0) then 1 else 0
  | .executing task => if Arrival.mayRecord entry (.fire task.id 0 0) then 1 else 0
  | .executed work _ => work.history.countP fun row => row.entry = entry
  | _ => 0

/-- The rows with the entry in the history. -/
def Service.records (entry : Entry) (s : Service) : ℕ :=
  s.history.countP fun row => row.entry = entry

variable {lib : Crontab} {known : Identities} {s s' : Service} {p q : Proc} {o : Option Proc}
  {k : Choice} {caller : Caller} {entry : Entry}

/-! ## What the moves spend -/

/-- A process that calls for its user calls a task of that user. -/
theorem owner_of_calling {user : CurrentUser} {task target : ScheduledTask}
    (hok : Proc.Ok lib (.calling user task target))
    (hp : Proc.Coherent known (.calling user task target)) :
    target.userId = user.userId := by
  obtain ⟨howner, hid⟩ := hok
  obtain ⟨htask, htarget⟩ := hp
  rw [Identities.Task, hid, htask] at htarget
  rw [← howner]
  exact (congrArg Identity.userId (Option.some.inj htarget)).symm

theorem calls_send (get : Get) :
    (s.send get).calls caller = s.calls caller + if get.caller = caller then 1 else 0 := by
  rw [Service.calls, Service.send, List.countP_append, List.countP_singleton, Service.calls]
  simp only [decide_eq_true_eq]

/-- The call a process sends is one it may make. -/
theorem calls_send_le {get : Get} (hmay : get.caller = caller → p.mayCall caller = true)
    (hafter : q.mayCall caller = false) :
    (s.send get).calls caller + (some q).elim 0 (fun q => if q.mayCall caller then 1 else 0) ≤
      s.calls caller + if p.mayCall caller then 1 else 0 := by
  rw [calls_send, Option.elim_some, hafter, Nat.add_assoc]
  refine Nat.add_le_add_left ?_ _
  by_cases hget : get.caller = caller
  · rw [if_pos hget, hmay hget]
    exact Nat.le_refl _
  · rw [if_neg hget]
    exact Nat.zero_le _

/-- A move spends the credit of its process for a call. -/
theorem Moves.spends_calls (h : Moves lib s p k s' o) (hok : p.Ok lib) (hp : p.Coherent known) :
    s'.calls caller + o.elim 0 (fun q => if q.mayCall caller then 1 else 0) ≤
      s.calls caller + if p.mayCall caller then 1 else 0 := by
  cases h with
  | failed | refused | issued | aborted | raised | fireAborted | removed =>
    exact Nat.le_add_right _ _
  | created | read | handled => exact Nat.add_le_add_left (Nat.zero_le _) _
  | committed hc =>
    rw [Service.calls, (commit_eq_some hc).2.2.2.1]
    refine Nat.add_le_add_left ?_ _
    split <;> exact Nat.zero_le _
  | ran hj =>
    rw [Service.calls, (runJob_frame hj).2.2.1]
    refine Nat.add_le_add_left ?_ _
    split <;> exact Nat.zero_le _
  | @fireCommitted _ remove _ _ hc =>
    rw [Service.calls, (commit_eq_some hc).2.2.2.1]
    refine Nat.add_le_add_left ?_ _
    cases remove <;> exact Nat.zero_le _
  | runRead hrow =>
    obtain rfl := Table.key_of_find hrow
    exact Nat.le_refl _
  | called htarget =>
    have hid := Table.key_of_find htarget
    simp only [Option.elim_some, Proc.mayCall, hid]
    exact Nat.le_refl _
  | @runSent user task target answer historyId =>
    refine calls_send_le (fun hget => ?_) rfl
    obtain rfl := hget
    exact decide_eq_true ⟨rfl, rfl, (owner_of_calling hok hp).symm⟩
  | fireRead hload =>
    have hid := Table.key_of_find (loadActive_eq_some.1 hload).1
    simp only [Option.elim_some, Proc.mayCall, hid]
    exact Nat.le_refl _
  | fireSent =>
    refine calls_send_le (fun hget => ?_) rfl
    obtain rfl := hget
    exact decide_eq_true ⟨rfl, rfl⟩

/-- At most one row with the entry is added, where it may be. -/
theorem countP_entry_le {rows : List TaskHistory} {may : Bool} (hlength : rows.length ≤ 1)
    (hmay : ∀ row ∈ rows, row.entry = entry → may = true) :
    rows.countP (fun row => row.entry = entry) ≤ if may then 1 else 0 := by
  cases may with
  | true => exact List.countP_le_length.trans hlength
  | false =>
    rw [List.countP_eq_zero.2 fun row hrow h =>
      absurd (hmay row hrow (of_decide_eq_true h)) (by simp)]
    exact Nat.zero_le _

/-- A snapshot is of no execution. -/
theorem entry_recordSnapshot {event : TaskHistoryEventType} {historyId : ℕ} {userId : UserId}
    {task : ScheduledTask} {row : TaskHistory}
    (h : recordSnapshot event historyId userId task = .ok row) :
    row.entry = ⟨userId, task.id, event, none⟩ := by
  obtain ⟨columns, -, rfl⟩ := Raising.map_eq_ok.1 h
  rfl

/-- An operation adds at most one row, of its own event. -/
theorem entry_of_handle {op : TaskOp} {env : Env} {user : CurrentUser} {task : ScheduledTask}
    {h : Handled} (hh : op.handle lib env user task = .ok h) :
    h.work.history.length ≤ 1 ∧ ∀ row ∈ h.work.history,
      row.entry = ⟨user.userId, task.id, op.event, none⟩ := by
  cases op with
  | activate =>
    rcases activateTask_eq_ok hh with ⟨-, rfl⟩ | ⟨next, -, -, -, rfl⟩
    · exact ⟨Nat.zero_le _, by simp⟩
    · exact ⟨Nat.le_refl _, fun row hrow => List.mem_singleton.1 hrow ▸ rfl⟩
  | deactivate =>
    obtain rfl := Except.ok.inj hh
    rw [deactivateTask]
    split
    · exact ⟨Nat.le_refl _, fun row hrow => List.mem_singleton.1 hrow ▸ rfl⟩
    · exact ⟨Nat.zero_le _, by simp⟩
  | delete =>
    obtain ⟨row, hr, rfl⟩ := Raising.map_eq_ok.1 hh
    refine ⟨Nat.le_refl _, fun row' hrow => ?_⟩
    obtain rfl := List.mem_singleton.1 hrow
    exact entry_recordSnapshot (Raising.mapError_eq_ok.1 hr)

theorem records_of_commit {work : UnitOfWork} {dbNow : Instant}
    (hc : commit dbNow work s = some s') :
    s'.records entry = s.records entry + work.history.countP fun row => row.entry = entry := by
  rw [Service.records, (commit_eq_some hc).2.1, List.countP_append, List.countP_map,
    Service.records]
  rfl

/-- A move spends the credit of its process for a row. -/
theorem Moves.spends_records (h : Moves lib s p k s' o) :
    s'.records entry + o.elim 0 (Proc.mayRecord entry) ≤ s.records entry + p.mayRecord entry := by
  cases h with
  | failed | refused | issued | aborted | raised | fireAborted | removed =>
    exact Nat.le_add_right _ _
  | @created user body env h _ hc =>
    refine Nat.add_le_add_left ?_ _
    obtain ⟨trigger, nextRunAt, row, -, -, hr, rfl⟩ := createTask_eq_ok hc
    refine countP_entry_le (Nat.le_refl _) fun row' hrow hentry => ?_
    obtain rfl := List.mem_singleton.1 hrow
    rw [← hentry, entry_recordSnapshot hr]
    exact decide_eq_true ⟨rfl, rfl, rfl⟩
  | read hrow | runRead hrow =>
    obtain rfl := Table.key_of_find hrow
    exact Nat.le_refl _
  | @handled user op task env h hc =>
    refine Nat.add_le_add_left ?_ _
    obtain ⟨hlength, hentries⟩ := entry_of_handle hc
    refine countP_entry_le hlength fun row hrow hentry => ?_
    rw [← hentry, hentries row hrow]
    exact decide_eq_true ⟨rfl, rfl, rfl, rfl⟩
  | @committed work job ran dbNow s' hc =>
    rw [records_of_commit hc, Nat.add_assoc]
    refine Nat.add_le_add_left ?_ _
    split
    · exact Nat.le_refl _
    · exact Nat.le_refl _
  | @ran work job committed now s' hj =>
    rw [Service.records, (runJob_frame hj).2.1]
    refine Nat.add_le_add_left ?_ _
    cases committed
    · exact Nat.le_refl _
    · exact Nat.zero_le _
  | called => exact Nat.le_refl _
  | @runSent user task target answer historyId =>
    refine Nat.add_le_add_left (countP_entry_le (Nat.le_refl _) fun row hrow hentry => ?_) _
    obtain rfl := List.mem_singleton.1 hrow
    obtain rfl := hentry
    exact decide_eq_true ⟨rfl, rfl, rfl, rfl⟩
  | fireRead hload =>
    obtain rfl := Table.key_of_find (loadActive_eq_some.1 hload).1
    exact Nat.le_refl _
  | @fireSent task answer historyId =>
    refine Nat.add_le_add_left ?_ _
    obtain ⟨row, hr, ⟨-, -, hx⟩ | ⟨-, hx⟩⟩ := executed_eq historyId task answer.outcome <;>
      rw [Option.elim_some, hx] <;>
      refine countP_entry_le (Nat.le_refl _) fun row' hrow hentry => ?_ <;>
      obtain rfl := List.mem_singleton.1 hrow <;> rw [← hentry, hr] <;>
        exact decide_eq_true ⟨rfl, rfl, rfl⟩
  | @fireCommitted work remove dbNow s' hc =>
    rw [records_of_commit hc, Nat.add_assoc]
    refine Nat.add_le_add_left ?_ _
    cases remove <;> exact Nat.le_refl _

/-! ## What arrives -/

/-- What arrives has sent nothing and recorded nothing. -/
theorem arrive_grows {i : Arrival} (h : arrive lib s i = some (s', o)) :
    s'.sent = s.sent ∧ s'.history = s.history := by
  cases i with
  | request user request =>
    obtain ⟨rfl, -⟩ := Prod.mk.inj (Option.some.inj h)
    exact ⟨rfl, rfl⟩
  | fire taskId now coalesced =>
    obtain ⟨⟨f, after⟩, hpick, h⟩ := Option.map_eq_some_iff.1 h
    obtain ⟨rfl, -⟩ := Prod.mk.inj h
    obtain ⟨schedule, left, -, -, rfl⟩ := pickUp_eq_some hpick
    exact ⟨rfl, rfl⟩

/-- What arrives as a process. -/
theorem arrive_eq_some {i : Arrival} (h : arrive lib s i = some (s', o)) :
    (∃ user request, i = .request user request ∧ o = some (.arrived user request)) ∨
      ∃ taskId now coalesced, i = .fire taskId now coalesced ∧ o = some (.fired taskId) := by
  cases i with
  | request user request =>
    obtain ⟨-, rfl⟩ := Prod.mk.inj (Option.some.inj h)
    exact .inl ⟨user, request, rfl, rfl⟩
  | fire taskId now coalesced =>
    obtain ⟨picked, -, h⟩ := Option.map_eq_some_iff.1 h
    obtain ⟨-, rfl⟩ := Prod.mk.inj h
    exact .inr ⟨taskId, now, coalesced, rfl, rfl⟩

/-- What arrives may make the call it arrives for. -/
theorem arrive_mayCall {i : Arrival} (h : arrive lib s i = some (s', o)) (caller : Caller) :
    o.elim 0 (fun q => if q.mayCall caller then 1 else 0) = if i.mayCall caller then 1 else 0 := by
  rcases arrive_eq_some h with ⟨user, request, rfl, rfl⟩ | ⟨taskId, now, coalesced, rfl, rfl⟩
  · cases request <;> rfl
  · rfl

/-- What arrives may commit the row it arrives for. -/
theorem arrive_mayRecord {i : Arrival} (h : arrive lib s i = some (s', o)) (entry : Entry) :
    o.elim 0 (Proc.mayRecord entry) = if i.mayRecord entry then 1 else 0 := by
  rcases arrive_eq_some h with ⟨user, request, rfl, rfl⟩ | ⟨taskId, now, coalesced,
    rfl, rfl⟩ <;> rfl

/-! ## The runs -/

theorem calls_le_arrivals {as : List (Act Arrival Choice)} {s : Pool Service Proc}
    (h : (interleaving lib).Run ⟨.init, []⟩ as s) (caller : Caller) :
    s.shared.calls caller ≤ as.countP (Act.arrives (Arrival.mayCall caller)) := by
  have hle : Pool.account (Service.calls caller) (fun p => if p.mayCall caller then 1 else 0) s ≤
      0 + (as.map (Act.cost fun i => if i.mayCall caller then 1 else 0)).sum :=
    h.le_cost consistent_init (fun _ _ _ hI _ hs => hI.step hs) fun s a s' hI _ hs => by
      obtain ⟨known, hk⟩ := hI.coherent
      refine Program.account_step_le hs (fun i o ha => ?_) fun p k o hp hm => ?_
      · rw [Service.calls, (arrive_grows ha).1, arrive_mayCall ha, Service.calls]
      · exact (moves_of_move hm).spends_calls (hI.sound.ok p hp) (hk.procs p hp)
  rw [Act.sum_cost, Nat.zero_add] at hle
  exact (Nat.le_add_right _ _).trans hle

theorem records_le_arrivals {as : List (Act Arrival Choice)} {s : Pool Service Proc}
    (h : (interleaving lib).Run ⟨.init, []⟩ as s) (entry : Entry) :
    s.shared.records entry ≤ as.countP (Act.arrives (Arrival.mayRecord entry)) := by
  have hle : Pool.account (Service.records entry) (Proc.mayRecord entry) s ≤
      0 + (as.map (Act.cost fun i => if i.mayRecord entry then 1 else 0)).sum :=
    h.le_cost (I := fun _ => True) trivial (fun _ _ _ _ _ _ => trivial) fun s a s' _ _ hs => by
      refine Program.account_step_le hs (fun i o ha => ?_) fun p k o hp hm =>
        (moves_of_move hm).spends_records
      rw [Service.records, (arrive_grows ha).2, arrive_mayRecord ha, Service.records]
  rw [Act.sum_cost, Nat.zero_add] at hle
  exact (Nat.le_add_right _ _).trans hle

/-- The user is the owner of the task. -/
def Identities.Owns (known : Identities) (userId : UserId) (taskId : TaskId) : Prop :=
  ∃ i, known taskId = some i ∧ userId = i.userId

/-- The calls that have been sent are made with tokens of the owners. -/
theorem Coherent.owns_of_calls {s : Pool Service Proc} (h : Coherent lib known s)
    (hcalls : 0 < s.shared.calls caller) : known.Owns caller.userId caller.taskId := by
  obtain ⟨get, hget, hcaller⟩ := List.countP_pos_iff.1 hcalls
  obtain rfl := of_decide_eq_true hcaller
  obtain ⟨i, hi, howner, -⟩ := h.sent get hget
  exact ⟨i, hi, howner⟩

/-- The rows of the history belong to the owners. -/
theorem Coherent.owns_of_records {s : Pool Service Proc} (h : Coherent lib known s)
    (hrecords : 0 < s.shared.records entry) : known.Owns entry.userId entry.taskId := by
  obtain ⟨row, hrow, hentry⟩ := List.countP_pos_iff.1 hrecords
  obtain rfl := of_decide_eq_true hentry
  obtain ⟨i, hi, howner, -⟩ := h.history row hrow
  exact ⟨i, hi, howner⟩

/-- Every call has a cause of its own: there are at most as many calls, for a task, from
    a source, with the token of a user, as manual runs that user has requested, or as fires
    that have been picked up; and all of them have the token of the owner. -/
theorem calls_le {as : List (Act Arrival Choice)} {s : Pool Service Proc}
    (h : (interleaving lib).Run ⟨.init, []⟩ as s) : ∃ known, Coherent lib known s ∧
      ∀ caller, s.shared.calls caller ≤ as.countP (Act.arrives (Arrival.mayCall caller)) ∧
        (0 < s.shared.calls caller → known.Owns caller.userId caller.taskId) := by
  obtain ⟨-, known, -, hknown⟩ := coherent_init.run sound_init h
  exact ⟨known, hknown, fun caller => ⟨calls_le_arrivals h caller, hknown.owns_of_calls⟩⟩

/-- Every row of the history has a cause of its own: there are at most as many rows with
    an entry as requests of its user, or fires, that may lead to it; and all about a task
    belong to its owner. -/
theorem records_le {as : List (Act Arrival Choice)} {s : Pool Service Proc}
    (h : (interleaving lib).Run ⟨.init, []⟩ as s) : ∃ known, Coherent lib known s ∧
      ∀ entry, s.shared.records entry ≤ as.countP (Act.arrives (Arrival.mayRecord entry)) ∧
        (0 < s.shared.records entry → known.Owns entry.userId entry.taskId) := by
  obtain ⟨-, known, -, hknown⟩ := coherent_init.run sound_init h
  exact ⟨known, hknown, fun entry => ⟨records_le_arrivals h entry, hknown.owns_of_records⟩⟩

/-- A task is created and run once: no more than one call, at the request of its owner. -/
theorem calls_manualRun : ∃ s : Pool Service Proc,
    (interleaving .never).Run ⟨.init, []⟩ manualRun s ∧
    s.shared.calls ⟨1, .manual, "alice"⟩ = 1 ∧ ∃ known, Coherent .never known s ∧
      ∀ caller, s.shared.calls caller ≤ manualRun.countP (Act.arrives (Arrival.mayCall caller)) ∧
        (0 < s.shared.calls caller → known.Owns caller.userId caller.taskId) := by
  obtain ⟨s, hs, hcalls⟩ : ∃ s, (interleaving .never).exec ⟨.init, []⟩ manualRun = some s ∧
      s.shared.calls ⟨1, .manual, "alice"⟩ = 1 := ⟨_, rfl, rfl⟩
  have hrun := System.runWith_of_exec (D := fun _ => True) (fun _ _ => trivial) hs
  exact ⟨s, hrun, hcalls, calls_le hrun⟩

/-- Two deactivations are requested, and both are recorded. -/
theorem records_deactivations : ∃ s : Pool Service Proc,
    (interleaving .never).Run ⟨.init, []⟩ deactivations s ∧
    s.shared.records ⟨"alice", 1, .taskDeactivated, none⟩ = 2 ∧ ∃ known, Coherent .never known s ∧
      ∀ entry, s.shared.records entry ≤ deactivations.countP
        (Act.arrives (Arrival.mayRecord entry)) ∧
        (0 < s.shared.records entry → known.Owns entry.userId entry.taskId) := by
  obtain ⟨s, hs, hrecords⟩ : ∃ s, (interleaving .never).exec ⟨.init, []⟩ deactivations = some s ∧
      s.shared.records ⟨"alice", 1, .taskDeactivated, none⟩ = 2 := ⟨_, rfl, rfl⟩
  have hrun := System.runWith_of_exec (D := fun _ => True) (fun _ _ => trivial) hs
  exact ⟨s, hrun, hrecords, records_le hrun⟩

end SchedulerLm
