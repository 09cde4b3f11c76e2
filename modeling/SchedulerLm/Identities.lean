import SchedulerLm.Audit
import SchedulerLm.Encodings
import SchedulerLm.Tokens

/-!
# The identities of tasks

What of a task never changes, from its creation on, under any interleaving and with
any failures: its owner, the URL and the parameters of its calls, its trigger, and
when it was created (`Identity`). An id names one task only, for `uuid4` draws it
once. So all that is ever about a task agrees, wherever it is: the row, the history,
the calls that have been sent, the schedule (`Coherent`).

* `coherent_of_run`: in every state of a run, all that is about a task agrees with
  its identity.
* `permanent_of_run`: in any run, the history and the calls sent only grow, and a
  row keeps its identity as long as it is there.

The identities are a ghost: they are not part of the state, and grow as handlers
create tasks, whether or not the creations are committed.
-/

namespace SchedulerLm

open Transition Relational

/-- What of a task never changes. -/
structure Identity where
  userId : UserId
  webhookUrl : String
  parameters : List (String × String)
  triggerType : TriggerType
  triggerConfig : TriggerConfig
  createdAt : Instant
  deriving DecidableEq

/-- The identity of a row. -/
def ScheduledTask.identity (task : ScheduledTask) : Identity where
  userId := task.userId
  webhookUrl := task.webhookUrl
  parameters := task.parameters
  triggerType := task.triggerType
  triggerConfig := task.triggerConfig
  createdAt := task.createdAt

/-- A schedule after its next fire time has been taken. -/
def Schedule.advance (lib : Crontab) (schedule : Schedule) : Schedule :=
  .ofTrigger lib schedule.trigger

/-- The identities of the tasks created so far. -/
abbrev Identities := TaskId → Option Identity

namespace Identities

variable (known : Identities)

/-- The identities are among those of `known'`. -/
def Among (known' : Identities) : Prop := ∀ id i, known id = some i → known' id = some i

/-- The row is that of a known task. -/
def Task (task : ScheduledTask) : Prop := known task.id = some task.identity

/-- The history row is about a known task: it belongs to its owner, and the URL and
    the trigger it names, if it does, are those of the task. -/
def Row (row : TaskHistory) : Prop :=
  ∃ i, known row.taskId = some i ∧ row.userId = i.userId ∧
    (∀ url, row.webhookUrl = some url → url = i.webhookUrl) ∧
    ∀ type, row.triggerType = some type →
      type = i.triggerType ∧ triggerColumns i.triggerType i.triggerConfig = .ok row.columns

/-- The call is made for a known task: with a token of its owner, to its URL, with its
    parameters. -/
def Call (get : Get) : Prop :=
  ∃ i, known get.taskId = some i ∧ get.userId = i.userId ∧ get.webhookUrl = i.webhookUrl ∧
    get.parameters = i.parameters

/-- The schedule is that of a known task: it was put with its trigger, and has been
    advanced some times. -/
def Scheduled (lib : Crontab) (id : TaskId) (schedule : Schedule) : Prop :=
  ∃ i, known id = some i ∧ ∃ registered trigger n,
    buildTriggerFromTask lib registered i.triggerType i.triggerConfig = .ok trigger ∧
    schedule = (Schedule.advance lib)^[n] (.ofTrigger lib trigger)

end Identities

/-- All a process has of tasks, and is to add to the history, is of known tasks. -/
def Proc.Coherent (known : Identities) : Proc → Prop
  | .loaded _ _ task => known.Task task
  | .finishing work job _ _ => (∀ task, work.task = .insert task → known.Task task) ∧
      (∀ task, job = some (.register task) → known.Task task) ∧ ∀ row ∈ work.history, known.Row row
  | .running _ task => known.Task task
  | .calling _ task target => known.Task task ∧ known.Task target
  | .executing task => known.Task task
  | .executed work remove => ∃ historyId task outcome, known.Task task ∧ task.isActive = true ∧
      (work, remove) = SchedulerLm.executed historyId task outcome
  | _ => True

/-- All that is about a task agrees with its identity. -/
structure Coherent (lib : Crontab) (known : Identities) (s : Pool Service Proc) : Prop where
  issued : ∀ id, known id ≠ none → id ∈ s.shared.issued
  rows : ∀ id task, s.shared.row id = some task → known.Task task
  history : ∀ row ∈ s.shared.history, known.Row row.toTaskHistory
  sent : ∀ get ∈ s.shared.sent, known.Call get
  schedules : ∀ id schedule, s.shared.schedules id = some schedule → known.Scheduled lib id schedule
  procs : ∀ p ∈ s.procs, p.Coherent known

variable {lib : Crontab} {known known' : Identities} {s s' : Service} {p q : Proc} {o : Option Proc}
  {k : Choice} {task : ScheduledTask} {id : TaskId}

/-! ## What keeps the identity -/

theorem Identities.Task.apply (h : known.Task task) (changes : Changes) (dbNow : Instant) :
    known.Task (changes.apply dbNow task) := h

theorem Identities.Among.refl : known.Among known := fun _ _ h => h

theorem Identities.Among.trans {known'' : Identities} (h : known.Among known')
    (h' : known'.Among known'') :
    known.Among known'' := fun id i hi => h' id i (h id i hi)

theorem Identities.Task.mono (hk : known.Task task) (h : known.Among known') :
    known'.Task task := h _ _ hk

theorem Identities.Row.mono {row : TaskHistory} (hk : known.Row row) (h : known.Among known') :
    known'.Row row := by
  obtain ⟨i, hi, hrow⟩ := hk
  exact ⟨i, h _ _ hi, hrow⟩

theorem Identities.Call.mono {get : Get} (hk : known.Call get) (h : known.Among known') :
    known'.Call get := by
  obtain ⟨i, hi, hget⟩ := hk
  exact ⟨i, h _ _ hi, hget⟩

theorem Identities.Scheduled.mono {schedule : Schedule} (hk : known.Scheduled lib id schedule)
    (h : known.Among known') : known'.Scheduled lib id schedule := by
  obtain ⟨i, hi, hschedule⟩ := hk
  exact ⟨i, h _ _ hi, hschedule⟩

theorem Proc.Coherent.mono (hk : p.Coherent known) (h : known.Among known') :
    p.Coherent known' := by
  cases p with
  | loaded | running | executing => exact Identities.Task.mono hk h
  | calling => exact ⟨hk.1.mono h, hk.2.mono h⟩
  | finishing =>
    exact ⟨fun task ht => (hk.1 task ht).mono h, fun task ht => (hk.2.1 task ht).mono h,
      fun row hr => (hk.2.2 row hr).mono h⟩
  | executed =>
    obtain ⟨historyId, task, outcome, ht, hactive, he⟩ := hk
    exact ⟨historyId, task, outcome, ht.mono h, hactive, he⟩
  | arrived | fired | removing => trivial

/-- A new task is known. -/
theorem Identities.among_update (hid : known id = none) (i : Identity) :
    known.Among (Function.update known id (some i)) := by
  intro j i' hj
  have hne : j ≠ id := fun h => absurd ((h ▸ hj).symm.trans hid) (by simp)
  rw [Function.update_of_ne hne, hj]

/-! ## What is recorded -/

/-- The snapshot of a known task. -/
theorem Identities.Task.recordSnapshot {event : TaskHistoryEventType} {historyId : ℕ}
    {row : TaskHistory} (h : known.Task task)
    (hr : recordSnapshot event historyId task.userId task = .ok row) :
    known.Row row := by
  obtain ⟨columns, hcolumns, rfl⟩ := Raising.map_eq_ok.1 hr
  refine ⟨task.identity, h, rfl, ?_, ?_⟩
  · intro url hurl
    exact (Option.some.inj hurl).symm
  · intro type htype
    exact ⟨(Option.some.inj htype).symm, hcolumns⟩

theorem Identities.Task.recordTaskLifecycle (h : known.Task task) (historyId : ℕ)
    (event : TaskHistoryEventType) :
    known.Row (recordTaskLifecycle historyId task.userId task.id event) :=
  ⟨task.identity, h, rfl, fun _ hurl => absurd hurl (by simp [SchedulerLm.recordTaskLifecycle]),
    fun _ htype => absurd htype (by simp [SchedulerLm.recordTaskLifecycle])⟩

theorem Identities.Task.recordExecution (h : known.Task task) (historyId : ℕ)
    (source : ExecutionSource) (outcome : WebhookFireOutcome) :
    known.Row (recordExecution historyId task.userId task.id source task.webhookUrl outcome) := by
  refine ⟨task.identity, h, rfl, fun url hurl => (Option.some.inj hurl).symm, fun _ htype => ?_⟩
  exact absurd htype (by simp [SchedulerLm.recordExecution])

/-- A call for a known task. -/
theorem Identities.Task.call (h : known.Task task) (source : ExecutionSource) (answer : Answer) :
    known.Call (fireTaskWebhook source task answer) := ⟨task.identity, h, rfl, rfl, rfl⟩

/-- An execution of a known task adds a row about it. -/
theorem Identities.Task.executed {historyId : ℕ} {outcome : WebhookFireOutcome} {row : TaskHistory}
    (h : known.Task task) (hrow : row ∈ (executed historyId task outcome).1.history) :
    known.Row row := by
  obtain ⟨row', hrow', ⟨-, -, hx⟩ | ⟨-, hx⟩⟩ := executed_eq historyId task outcome <;>
    rw [hx] at hrow <;> obtain rfl := List.mem_singleton.1 hrow <;> rw [hrow'] <;>
    exact h.recordExecution historyId .scheduled outcome

/-- An execution inserts nothing. -/
theorem executed_ne_insert {historyId : ℕ} {outcome : WebhookFireOutcome} {row : ScheduledTask} :
    (executed historyId task outcome).1.task ≠ .insert row := by
  obtain ⟨row', -, ⟨-, -, hx⟩ | ⟨-, hx⟩⟩ := executed_eq historyId task outcome <;> rw [hx]
  · exact dirty_ne_insert
  · simp

/-- The operations on a known task are about it. -/
theorem Identities.Task.handle {op : TaskOp} {env : Env} {user : CurrentUser} {h : Handled}
    (hk : known.Task task) (howner : task.userId = user.userId)
    (hh : op.handle lib env user task = .ok h) :
    (∀ registered, h.job = some (.register registered) → known.Task registered) ∧
      ∀ row ∈ h.work.history, known.Row row := by
  cases op with
  | activate =>
    rcases activateTask_eq_ok hh with ⟨-, rfl⟩ | ⟨next, -, -, -, rfl⟩
    · exact ⟨by simp, by simp⟩
    · refine ⟨fun registered hr => ?_, fun row hr => ?_⟩
      · obtain rfl := Job.register.inj (Option.some.inj hr)
        exact hk
      · obtain rfl := List.mem_singleton.1 hr
        rw [← howner]
        exact hk.recordTaskLifecycle _ _
  | deactivate =>
    obtain rfl := Except.ok.inj hh
    rw [deactivateTask]
    split
    · refine ⟨by simp, fun row hr => ?_⟩
      obtain rfl := List.mem_singleton.1 hr
      rw [← howner]
      exact hk.recordTaskLifecycle _ _
    · exact ⟨by simp, by simp⟩
  | delete =>
    obtain ⟨row, hrow, rfl⟩ := Raising.map_eq_ok.1 hh
    refine ⟨fun registered hr => ?_, fun row' hr => ?_⟩
    · dsimp only at hr
      split at hr <;> exact absurd hr (by simp)
    · obtain rfl := List.mem_singleton.1 hr
      exact hk.recordSnapshot (howner ▸ Raising.mapError_eq_ok.1 hrow)

/-! ## The moves -/

/-- What a process goes on as has tasks that are known, the one it has created among
    them. -/
theorem Moves.coherent (h : Moves lib s p k s' o) (hok : p.Ok lib) (hp : p.Coherent known)
    (hissued : ∀ id, known id ≠ none → id ∈ s.issued)
    (hrows : ∀ id task, s.row id = some task → known.Task task) :
    ∃ known', known.Among known' ∧ (∀ id, known' id ≠ none → id ∈ s'.issued) ∧
      ∀ q, o = some q → q.Coherent known' := by
  have hsubset := h.issued_subset
  -- All the moves but a creation leave the identities as they are.
  have hsame : (∀ q, o = some q → q.Coherent known) → ∃ known', known.Among known' ∧
      (∀ id, known' id ≠ none → id ∈ s'.issued) ∧ ∀ q, o = some q → q.Coherent known' :=
    fun hq => ⟨known, .refl, fun id hid => hsubset (hissued id hid), hq⟩
  cases h with
  | failed | refused | issued | aborted | raised | fireAborted | removed =>
    exact hsame (by simp)
  | @created user body env h hfresh hc =>
    obtain ⟨trigger, nextRunAt, row, -, -, hr, rfl⟩ := createTask_eq_ok hc
    have hnone : known env.taskId = none := by
      by_contra hne
      exact hfresh (hissued _ hne)
    let task := newTask env user body trigger nextRunAt
    have hnew : Identities.Task (Function.update known env.taskId (some task.identity)) task :=
      Function.update_self ..
    refine ⟨_, Identities.among_update hnone task.identity, fun id hid => ?_, fun q hq => ?_⟩
    · by_cases hne : id = env.taskId
      · rw [hne]
        exact List.mem_cons_self
      · rw [Function.update_of_ne hne] at hid
        exact hsubset (hissued id hid)
    · obtain rfl := Option.some.inj hq
      refine ⟨fun task ht => ?_, fun task ht => ?_, fun row' hr' => ?_⟩
      · obtain rfl := TaskWrite.insert.inj ht
        exact hnew
      · obtain rfl := Job.register.inj (Option.some.inj ht)
        exact hnew
      · obtain rfl := List.mem_singleton.1 hr'
        exact hnew.recordSnapshot hr
  | read hrow | runRead hrow =>
    refine hsame fun q hq => ?_
    obtain rfl := Option.some.inj hq
    exact hrows _ _ hrow
  | handled hc =>
    refine hsame fun q hq => ?_
    obtain rfl := Option.some.inj hq
    obtain ⟨hjob, hhistory⟩ := Identities.Task.handle hp hok.1 hc
    exact ⟨fun task ht => absurd ht ((about_of_handle hc).2 task), hjob, hhistory⟩
  | committed | ran =>
    refine hsame fun q hq => ?_
    split at hq
    · exact absurd hq (by simp)
    · obtain rfl := Option.some.inj hq
      exact hp
  | called htarget =>
    refine hsame fun q hq => ?_
    obtain rfl := Option.some.inj hq
    exact ⟨hp, hrows _ _ htarget⟩
  | @runSent user task target answer historyId =>
    refine hsame fun q hq => ?_
    obtain rfl := Option.some.inj hq
    refine ⟨by simp [runWork], by simp, fun row hr => ?_⟩
    obtain rfl := List.mem_singleton.1 hr
    rw [← hok.1]
    exact hp.1.recordExecution historyId .manual answer.outcome
  | fireRead hload =>
    refine hsame fun q hq => ?_
    obtain rfl := Option.some.inj hq
    exact hrows _ _ (loadActive_eq_some.1 hload).1
  | fireSent =>
    refine hsame fun q hq => ?_
    obtain rfl := Option.some.inj hq
    exact ⟨_, _, _, hp, hok, rfl⟩
  | @fireCommitted _ remove =>
    refine hsame fun q hq => ?_
    rcases remove with _ | taskId
    · exact absurd hq (by simp)
    · obtain rfl := Option.some.inj hq
      trivial

/-- The history rows a process is to commit are about known tasks. -/
theorem Proc.Coherent.pending (hp : p.Coherent known) {work : UnitOfWork}
    (hw : p.pending = some work) :
    (∀ task, work.task = .insert task → known.Task task) ∧ ∀ row ∈ work.history, known.Row row := by
  rcases p with _ | _ | ⟨w, j, _ | _, r⟩ | _ | _ | _ | _ | ⟨w, remove⟩ | _ <;>
    simp only [Proc.pending, reduceCtorEq] at hw <;> obtain rfl := Option.some.inj hw
  · exact ⟨hp.1, hp.2.2⟩
  · obtain ⟨historyId, task, outcome, ht, -, he⟩ := hp
    obtain rfl : _ = (SchedulerLm.executed historyId task outcome).1 := congrArg Prod.fst he
    exact ⟨fun inserted hi => absurd hi executed_ne_insert, fun row hr => ht.executed hr⟩

theorem schedules_unregisterSchedule (id : TaskId) (s : Service) :
    (unregisterSchedule id s).schedules id = none := Function.update_self ..

/-- A move puts the schedule of a task its process has to register, or none. -/
theorem Moves.scheduled (h : Moves lib s p k s' o) (hp : p.Coherent known) {schedule : Schedule}
    (hs : s'.schedules id = some schedule) :
    s.schedules id = some schedule ∨ known.Scheduled lib id schedule := by
  cases h with
  | committed hc | fireCommitted hc =>
    rw [(commit_eq_some hc).2.2.1] at hs
    exact .inl hs
  | @ran work job committed now s' hj =>
    by_cases hid : id = job.taskId
    · subst hid
      rcases job with task | taskId
      · obtain ⟨trigger, hbuilt, rfl⟩ := registerSchedule_eq_ok hj
        have hput := (Function.update_self task.id (some (Schedule.ofTrigger lib trigger))
          s.schedules).symm.trans hs
        exact .inr ⟨task.identity, hp.2.1 task rfl, now, trigger, 0, hbuilt,
          (Option.some.inj hput).symm⟩
      · obtain rfl := Except.ok.inj hj
        exact absurd ((schedules_unregisterSchedule taskId s).symm.trans hs) (by simp)
    · rw [(runJob_frame hj).2.2.2.2 id hid] at hs
      exact .inl hs
  | @removed taskId now =>
    by_cases hid : id = taskId
    · subst hid
      exact absurd ((schedules_unregisterSchedule id s).symm.trans hs) (by simp)
    · exact .inl ((Function.update_of_ne hid _ _).symm.trans hs)
  | _ => exact .inl hs

/-- A schedule that is picked up is advanced, unless it is dropped. -/
theorem pick_advance {schedule left : Schedule} {now f : Instant} {n : ℕ}
    (h : schedule.pick lib now n = some (f, some left)) :
    ∃ m, left = (Schedule.advance lib)^[m] schedule := by
  induction n generalizing schedule with
  | zero =>
    obtain ⟨due, -, h⟩ := Option.bind_eq_some_iff.1 h
    split at h
    · obtain ⟨-, hleft⟩ := Prod.mk.inj (Option.some.inj h)
      obtain ⟨-, -, rfl⟩ := Option.map_eq_some_iff.1 hleft
      exact ⟨1, rfl⟩
    · exact absurd h (by simp)
  | succ n ih =>
    obtain ⟨due, -, h⟩ := Option.bind_eq_some_iff.1 h
    split at h
    · obtain ⟨m, hm⟩ := ih h
      exact ⟨m + 1, hm⟩
    · exact absurd h (by simp)

/-! ## The steps -/

theorem coherent_init : Coherent lib (fun _ => none) ⟨.init, []⟩ where
  issued _ h := absurd rfl h
  rows _ _ h := absurd ((Table.find_empty (k := _)).symm.trans h) (by simp)
  history := by simp [Service.init]
  sent := by simp [Service.init]
  schedules _ _ h := absurd h (by simp [Service.init])
  procs := by simp

theorem Coherent.arrive {s s' : Pool Service Proc} {i : Arrival} {o : Option Proc}
    (h : Coherent lib known s) (ha : arrive lib s.shared i = some (s'.shared, o))
    (hprocs : s'.procs = o.toList ++ s.procs) : Coherent lib known s' := by
  -- What arrives has no task yet, and at most advances a schedule.
  obtain ⟨q, rfl, hq, ht, hh, hsent, hi, hsch⟩ : ∃ q, o = some q ∧ q.Coherent known ∧
      s'.shared.tasks = s.shared.tasks ∧ s'.shared.history = s.shared.history ∧
      s'.shared.sent = s.shared.sent ∧ s'.shared.issued = s.shared.issued ∧
      ∀ id schedule, s'.shared.schedules id = some schedule → known.Scheduled lib id schedule := by
    cases i with
    | request user request =>
      obtain ⟨hs, rfl⟩ := Prod.mk.inj (Option.some.inj ha)
      exact ⟨_, rfl, trivial, hs ▸ rfl, hs ▸ rfl, hs ▸ rfl, hs ▸ rfl, hs ▸ h.schedules⟩
    | fire taskId now coalesced =>
      obtain ⟨⟨f, after⟩, hpick, ha⟩ := Option.map_eq_some_iff.1 ha
      obtain ⟨rfl, rfl⟩ := Prod.mk.inj ha
      obtain ⟨schedule, left, hschedule, hpicked, hafter⟩ := pickUp_eq_some hpick
      refine ⟨_, rfl, trivial, by rw [hafter], by rw [hafter], by rw [hafter], by rw [hafter],
        fun id schedule' hid => ?_⟩
      rw [hafter] at hid
      by_cases hne : id = taskId
      · subst hne
        obtain rfl : left = some schedule' :=
          (Function.update_self id left s.shared.schedules).symm.trans hid
        obtain ⟨i, hi, registered, trigger, n, hbuilt, rfl⟩ := h.schedules id schedule hschedule
        obtain ⟨m, rfl⟩ := pick_advance hpicked
        exact ⟨i, hi, registered, trigger, m + n, hbuilt, (Function.iterate_add_apply _ m n _).symm⟩
      · exact h.schedules id schedule' ((Function.update_of_ne hne _ _).symm.trans hid)
  refine ⟨hi ▸ h.issued, fun id task hrow => ?_, hh ▸ h.history, hsent ▸ h.sent, hsch,
    fun p hp => ?_⟩
  · rw [Service.row, ht] at hrow
    exact h.rows id task hrow
  · rw [hprocs, Option.toList_some, List.singleton_append, List.mem_cons] at hp
    rcases hp with rfl | hp
    · exact hq
    · exact h.procs p hp

theorem Coherent.move {s s' : Pool Service Proc} {rest : List Proc} (h : Coherent lib known s)
    (hsound : Sound lib s) (hm : Moves lib s.shared p k s'.shared o) (hp : s.procs.Perm (p :: rest))
    (hp' : s'.procs.Perm (o.toList ++ rest)) :
    ∃ known', known.Among known' ∧ Coherent lib known' s' := by
  have hpmem : p ∈ s.procs := (mem_of_perm_cons hp).2 (.inl rfl)
  have hpk := h.procs p hpmem
  obtain ⟨known', hsub, hissued, hq⟩ := hm.coherent (hsound.ok p hpmem) hpk h.issued h.rows
  refine ⟨known', hsub, hissued, fun id task hrow => ?_, fun row hrow => ?_, fun get hget => ?_,
    fun id schedule hid => ?_, fun q hqmem => ?_⟩
  · refine Identities.Task.mono ?_ hsub
    rcases hm.tables with ⟨ht, -⟩ | ⟨work, dbNow, hw, hc⟩
    · rw [Service.row, ht] at hrow
      exact h.rows id task hrow
    · exact rows_of_commit hc (hpk.pending hw).1 (fun changes dbNow task ht =>
        ht.apply changes dbNow)
        h.rows id task hrow
  · refine Identities.Row.mono ?_ hsub
    rcases hm.tables with ⟨-, hh⟩ | ⟨work, dbNow, hw, hc⟩
    · exact h.history row (hh ▸ hrow)
    · rw [(commit_eq_some hc).2.1] at hrow
      rcases List.mem_append.1 hrow with hrow | hrow
      · exact h.history row hrow
      · obtain ⟨added, hadded, rfl⟩ := List.mem_map.1 hrow
        exact (hpk.pending hw).2 added hadded
  · refine Identities.Call.mono ?_ hsub
    rcases hm.sent with hsent | ⟨task, source, answer, htarget, hsent⟩
    · exact h.sent get (hsent ▸ hget)
    · rw [hsent] at hget
      rcases List.mem_append.1 hget with hget | hget
      · exact h.sent get hget
      · obtain rfl := List.mem_singleton.1 hget
        have htask : known.Task task := by
          cases p with
          | calling => exact Option.some.inj htarget ▸ hpk.2
          | executing => exact Option.some.inj htarget ▸ hpk
          | _ => exact absurd htarget (by simp [Proc.target])
        exact htask.call source answer
  · rcases hm.scheduled hpk hid with hid | hid
    · exact (h.schedules id schedule hid).mono hsub
    · exact hid.mono hsub
  · rcases (mem_of_perm_toList hp').1 hqmem with rfl | hqmem
    · exact hq q rfl
    · exact (h.procs q ((mem_of_perm_cons hp).2 (.inr hqmem))).mono hsub

theorem Coherent.step {s s' : Pool Service Proc} {a : Act Arrival Choice} (h : Coherent lib known s)
    (hsound : Sound lib s) (hs : (interleaving lib).step s a = some s') :
    ∃ known', known.Among known' ∧ Coherent lib known' s' := by
  cases Program.moved_of_step hs with
  | arrive ha hprocs => exact ⟨known, .refl, h.arrive ha hprocs⟩
  | move _ hm hp hp' => exact h.move hsound (moves_of_move hm) hp hp'

/-! ## The runs -/

/-- What holds of the service at any time. -/
structure Consistent (lib : Crontab) (s : Pool Service Proc) : Prop where
  sound : Sound lib s
  coherent : ∃ known, Coherent lib known s

theorem consistent_init : Consistent lib ⟨.init, []⟩ := ⟨sound_init, _, coherent_init⟩

theorem Consistent.step {s s' : Pool Service Proc} {a : Act Arrival Choice} (h : Consistent lib s)
    (hs : (interleaving lib).step s a = some s') : Consistent lib s' := by
  obtain ⟨known, hk⟩ := h.coherent
  obtain ⟨known', -, hk'⟩ := hk.step h.sound hs
  exact ⟨h.sound.step hs, known', hk'⟩

/-- The identities only grow in a run. -/
theorem Coherent.run {s t : Pool Service Proc} {as : List (Act Arrival Choice)}
    (h : Coherent lib known s) (hsound : Sound lib s) (hr : (interleaving lib).Run s as t) :
    Sound lib t ∧ ∃ known', known.Among known' ∧ Coherent lib known' t := by
  refine hr.invariant (I := fun t => Sound lib t ∧ ∃ known', known.Among known' ∧
    Coherent lib known' t)
    ⟨hsound, known, .refl, h⟩ fun t a t' hI _ hs => ?_
  obtain ⟨hsound, known', hsub, h'⟩ := hI
  obtain ⟨known'', hsub', h''⟩ := h'.step hsound hs
  exact ⟨hsound.step hs, known'', hsub.trans hsub', h''⟩

/-- Whatever happens, all that is about a task agrees with its identity. -/
theorem coherent_of_run {as : List (Act Arrival Choice)} {s : Pool Service Proc}
    (h : (interleaving lib).Run ⟨.init, []⟩ as s) : ∃ known, Coherent lib known s := by
  obtain ⟨-, known, -, hc⟩ := coherent_init.run sound_init h
  exact ⟨known, hc⟩

/-- A task that has been called is known by its id, and its only history row, of its
    creation, agrees with the call. -/
theorem coherent_manualRun : ∃ s : Pool Service Proc,
    (interleaving .never).Run ⟨.init, []⟩ manualRun s ∧
    s.shared.sent.length = 1 ∧ ∃ known, Coherent .never known s := by
  obtain ⟨s, hs, hsent⟩ : ∃ s, (interleaving .never).exec ⟨.init, []⟩ manualRun = some s ∧
      s.shared.sent.length = 1 := ⟨_, rfl, rfl⟩
  have hrun := System.runWith_of_exec (D := fun _ => True) (fun _ _ => trivial) hs
  exact ⟨s, hrun, hsent, coherent_of_run hrun⟩

/-- A step adds to the history, and to the calls sent, at their ends. -/
theorem grows_of_step {s s' : Pool Service Proc} {a : Act Arrival Choice}
    (hs : (interleaving lib).step s a = some s') :
    s.shared.history <+: s'.shared.history ∧ s.shared.sent <+: s'.shared.sent := by
  cases Program.moved_of_step hs with
  | @arrive i o ha =>
    refine ⟨(arrive_frame ha).2.1 ▸ List.prefix_rfl, ?_⟩
    cases i with
    | request user request => exact (Prod.mk.inj (Option.some.inj ha)).1 ▸ List.prefix_rfl
    | fire taskId now coalesced =>
      obtain ⟨⟨f, after⟩, hpick, ha⟩ := Option.map_eq_some_iff.1 ha
      obtain ⟨rfl, -⟩ := Prod.mk.inj ha
      obtain ⟨schedule, left, -, -, hafter⟩ := pickUp_eq_some hpick
      exact hafter ▸ List.prefix_rfl
  | move _ hm =>
    have hm := moves_of_move hm
    constructor
    · rcases hm.tables with ⟨-, hh⟩ | ⟨work, dbNow, -, hc⟩
      · exact hh ▸ List.prefix_rfl
      · exact (commit_eq_some hc).2.1 ▸ List.prefix_append _ _
    · rcases hm.sent with hsent | ⟨task, source, answer, -, hsent⟩
      · exact hsent ▸ List.prefix_rfl
      · exact hsent ▸ List.prefix_append _ _

theorem grows_of_run {bs : List (Act Arrival Choice)} {s t : Pool Service Proc}
    (h : (interleaving lib).Run s bs t) :
    s.shared.history <+: t.shared.history ∧ s.shared.sent <+: t.shared.sent :=
  h.invariant (I := fun t => s.shared.history <+: t.shared.history ∧
    s.shared.sent <+: t.shared.sent)
    ⟨List.prefix_rfl, List.prefix_rfl⟩ fun _ _ _ hI _ hs =>
      ⟨hI.1.trans (grows_of_step hs).1, hI.2.trans (grows_of_step hs).2⟩

/-- From any state reached, the history and the calls sent only grow, and the rows
    keep their identities. -/
theorem permanent_of_run {as bs : List (Act Arrival Choice)} {s t : Pool Service Proc}
    (h : (interleaving lib).Run ⟨.init, []⟩ as s) (h' : (interleaving lib).Run s bs t) :
    s.shared.history <+: t.shared.history ∧ s.shared.sent <+: t.shared.sent ∧
      ∀ id old new, s.shared.row id = some old → t.shared.row id = some new →
        new.identity = old.identity := by
  obtain ⟨hhistory, hsent⟩ := grows_of_run h'
  refine ⟨hhistory, hsent, fun id old new hold hnew => ?_⟩
  obtain ⟨hsound, known, -, hc⟩ := coherent_init.run sound_init h
  obtain ⟨-, known', hsub, hc'⟩ := hc.run hsound h'
  have hbefore := (hc.rows id old hold).mono hsub
  have hafter := hc'.rows id new hnew
  rw [Identities.Task, Table.key_of_find hold] at hbefore
  rw [Identities.Task, Table.key_of_find hnew, hbefore] at hafter
  exact (Option.some.inj hafter).symm

/-- A task is paused by its owner: the row is still that of the task created. -/
theorem permanent_deactivated : ∃ s t : Pool Service Proc,
    (interleaving .never).Run ⟨.init, []⟩ creation s ∧
    (interleaving .never).Run s (deactivations.drop 4) t ∧ t.shared.active 1 = false ∧
      s.shared.history <+: t.shared.history ∧ s.shared.sent <+: t.shared.sent ∧
      ∀ id old new, s.shared.row id = some old → t.shared.row id = some new →
        new.identity = old.identity := by
  obtain ⟨s, t, hs, ht, hactive⟩ :
    ∃ s t, (interleaving .never).exec ⟨.init, []⟩ creation = some s ∧
      (interleaving .never).exec s (deactivations.drop 4) = some t ∧ t.shared.active 1 = false :=
    ⟨_, _, rfl, rfl, rfl⟩
  have hrun := System.runWith_of_exec (D := fun _ => True) (fun _ _ => trivial) hs
  have hrun' := System.runWith_of_exec (D := fun _ => True) (fun _ _ => trivial) ht
  exact ⟨s, t, hrun, hrun', hactive, permanent_of_run hrun hrun'⟩

end SchedulerLm
