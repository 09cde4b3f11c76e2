import SchedulerLm.Base.Serial
import SchedulerLm.Causes
import SchedulerLm.ManualRun
import SchedulerLm.Tasks

/-!
# The part of a task

What the service has of one task (`TaskPart`), in both stores and outside. Every
process is about one task (`Proc.stage`), once it is known: a creation draws it, and
a request that has nothing to commit has done with it. A process changes the part of its
task only, and depends on it only (`separated`); and each goes on as one that does
(`Moves.whole`).

Of the history, the times of the commits are left out: a creation inserts its task at
the time of its own transaction.
-/

namespace SchedulerLm

open Transition Relational

/-- What the service has of a task: its row, its schedule, its history without the times
    of the commits, the calls sent for it, and whether its id has been drawn. -/
structure TaskPart where
  row : Option ScheduledTask
  schedule : Option Schedule
  history : List TaskHistory
  sent : List Get
  issued : Bool
  deriving DecidableEq

/-- The part of a task. -/
def Service.part (id : TaskId) (s : Service) : TaskPart where
  row := s.row id
  schedule := s.schedules id
  history := (s.about id).map (·.toTaskHistory)
  sent := s.sent.filter fun get => get.taskId = id
  issued := s.issued.contains id

/-- The task of what arrives; a creation has none yet. -/
def Arrival.on : Arrival → Option TaskId
  | .request _ (.create _) => none
  | .request _ (.task _ taskId) => some taskId
  | .request _ (.run taskId) => some taskId
  | .fire taskId _ _ => some taskId

/-- What a process is to the tasks. -/
def Proc.stage : Proc → Stage TaskId
  | .arrived _ (.create _) => .fresh
  | .arrived _ (.task _ taskId) => .on taskId
  | .arrived _ (.run taskId) => .on taskId
  | .loaded _ _ task => .on task.id
  | .finishing work _ _ _ => work.taskId.elim .spent .on
  | .running _ task => .on task.id
  | .calling _ task _ => .on task.id
  | .fired taskId => .on taskId
  | .executing task => .on task.id
  | .executed work _ => work.taskId.elim .spent .on
  | .removing taskId => .on taskId

/-- The task a creation draws. -/
def Choice.draws : Choice → Option TaskId
  | .body env => some env.taskId
  | _ => none

/-- The clock of the process, where it is read. -/
def Choice.clock : Choice → Option Instant
  | .body env => some env.now
  | .job now => some now
  | _ => none

/-- What holds of every process: all it has is about one task, and it goes on after its
    commit for a job only. -/
def Proc.Whole (lib : Crontab) (p : Proc) : Prop :=
  p.Ok lib ∧ ∀ work ran, p ≠ .finishing work none true ran

/-- The parts of the tasks, without failures. -/
def taskSeparation (lib : Crontab) : Separation Service Proc Arrival Choice TaskId TaskPart where
  part := Service.part
  arrivesOn := Arrival.on
  stage := Proc.stage
  draws := Choice.draws
  Allowed k := k ≠ .fail
  Ok := Proc.Whole lib

variable {lib : Crontab} {s s' t : Service} {p q : Proc} {o : Option Proc} {k : Choice}
  {id : TaskId} {work : UnitOfWork} {dbNow now : Instant}

/-! ## What the operations do to a part -/

theorem part_issue (taskId : TaskId) :
    Service.part id { s with issued := taskId :: s.issued } =
      { s.part id with issued := id == taskId || (s.part id).issued } := by
  rw [Service.part, List.contains_cons]
  rfl

theorem part_send (get : Get) : (s.send get).part id =
    { s.part id with sent := (s.part id).sent ++ if get.taskId = id then [get] else [] } := by
  simp only [Service.part, Service.send, Service.about, List.filter_append, List.filter_singleton]
  by_cases hid : get.taskId = id <;> simp [hid]

theorem part_commit (h : commit dbNow work s = some s') : s'.part id =
    { s.part id with
      row := work.task.after dbNow id (s.part id).row
      history := (s.part id).history ++ work.history.filter fun row => row.taskId = id } := by
  obtain ⟨-, hhistory, hschedules, hsent, hissued⟩ := commit_eq_some h
  have habout : (s'.about id).map (·.toTaskHistory) = (s.about id).map (·.toTaskHistory) ++
      work.history.filter fun row => row.taskId = id := by
    rw [Service.about, hhistory, List.filter_append, List.map_append, Service.about,
      List.filter_map, List.map_map]
    congr 1
    exact List.map_id _
  rw [Service.part, habout, row_of_commit h, hschedules, hsent, hissued]
  rfl

theorem part_runJob {job : Job} (h : runJob lib now job s = .ok s') : s'.part id =
    { s.part id with
      schedule := if id = job.taskId then job.schedule lib now else (s.part id).schedule } := by
  obtain ⟨htasks, hhistory, hsent, hissued, -⟩ := runJob_frame h
  rw [Service.part, Service.row, htasks, Service.about, hhistory, hsent, hissued,
    schedules_of_runJob h]
  rfl

theorem part_unregister (taskId : TaskId) : (unregisterSchedule taskId s).part id =
    { s.part id with schedule := if id = taskId then none else (s.part id).schedule } := by
  have hj : runJob .never 0 (.unregister taskId) s = .ok (unregisterSchedule taskId s) := rfl
  rw [part_runJob hj]
  rfl

/-! ## What a process is about -/

/-- The unit of work is about the task only. -/
def UnitOfWork.About (id : TaskId) (work : UnitOfWork) : Prop :=
  (∀ row ∈ work.history, row.taskId = id) ∧ ∀ i, work.task.taskId = some i → i = id

theorem UnitOfWork.about_nothing : UnitOfWork.About id {} :=
  ⟨fun _ hrow => absurd hrow List.not_mem_nil, fun _ hi => absurd hi (by simp [TaskWrite.taskId])⟩

/-- All that a request has gathered is about one task, or it has gathered nothing. -/
theorem Gathered.whole {owner : UserId} {job : Option Job} (h : Gathered lib owner work job) :
    (∃ i, work.taskId = some i ∧ work.About i ∧ ∀ j, job = some j → j.taskId = i) ∨
      work = {} ∧ job = none := by
  obtain ⟨hrows, hwrite, hjob⟩ := h.about
  cases hid : work.taskId with
  | some i =>
    rw [hid] at hrows hwrite hjob
    exact .inl ⟨i, rfl, ⟨fun row hrow => (Option.some.inj (hrows row hrow)).symm,
      fun j hj => (Option.some.inj (hwrite j hj)).symm⟩, fun j hj =>
        (Option.some.inj (hjob j hj)).symm⟩
  | none =>
    cases h with
    | nothing => exact .inr ⟨rfl, rfl⟩
    | create | activate | deactivate | delete | run =>
      exact absurd hid (by simp [UnitOfWork.taskId])

/-- So is all of an execution, and the schedule it removes. -/
theorem about_executed {historyId : ℕ} {task : ScheduledTask} {outcome : WebhookFireOutcome} :
    (executed historyId task outcome).1.taskId = some task.id ∧
      (executed historyId task outcome).1.About task.id ∧
      ∀ i, (executed historyId task outcome).2 = some i → i = task.id := by
  obtain ⟨row, hrow, ⟨-, -, hx⟩ | ⟨-, hx⟩⟩ := executed_eq historyId task outcome <;>
    rw [hx, hrow] <;>
    refine ⟨rfl, ⟨fun r hr => List.mem_singleton.1 hr ▸ rfl, fun i hi => ?_⟩, fun i hi => ?_⟩
  · exact (taskId_dirty hi).symm
  · exact (Option.some.inj hi).symm
  · exact absurd hi (by simp [TaskWrite.taskId])
  · exact absurd hi (by simp)

theorem target_finishing (job : Option Job) (committed ran : Bool) :
    (taskSeparation lib).target (.finishing work job committed ran) k = work.taskId := by
  cases hid : work.taskId <;> simp [Separation.target, taskSeparation, Proc.stage, hid]

theorem target_executed (remove : Option TaskId) :
    (taskSeparation lib).target (.executed work remove) k = work.taskId := by
  cases hid : work.taskId <;> simp [Separation.target, taskSeparation, Proc.stage, hid]

/-! ## Moves leave the other parts -/

/-- A commit leaves the parts its unit of work is not about. -/
theorem part_commit_of_ne (h : commit dbNow work s = some s') {i : TaskId} (habout : work.About i)
    (hne : i ≠ id) : s'.part id = s.part id := by
  have hrow : work.task.after dbNow id (s.row id) = s.row id :=
    TaskWrite.after_of_ne fun hid => hne (habout.2 id hid).symm
  have hnone : (work.history.filter fun row => row.taskId = id) = [] := by
    refine List.filter_eq_nil_iff.2 fun row hmem => ?_
    simpa [habout.1 row hmem] using hne
  rw [part_commit h, hnone, List.append_nil]
  change { s.part id with row := work.task.after dbNow id (s.row id) } = s.part id
  rw [hrow]
  rfl

/-- A move leaves the parts of other tasks. -/
theorem Moves.part_of_ne (h : Moves lib s p k s' o) (hw : p.Whole lib)
    (ht : (taskSeparation lib).target p k ≠ some id) : s'.part id = s.part id := by
  cases h with
  | @issued user body env | @created user body env =>
    have hne : (id == env.taskId) = false := beq_false_of_ne fun hid => ht (congrArg some hid.symm)
    rw [part_issue, hne, Bool.false_or]
  | committed hc =>
    obtain ⟨⟨owner, hg⟩, -⟩ := hw.1
    rw [target_finishing] at ht
    rcases hg.whole with ⟨i, hi, habout, -⟩ | ⟨rfl, -⟩
    · exact part_commit_of_ne hc habout fun hid => ht (hid ▸ hi)
    · rw [part_commit hc]
      exact congrArg (fun history => { s.part id with history := history }) (List.append_nil _)
  | @ran work job committed now s' hj =>
    obtain ⟨⟨owner, hg⟩, -⟩ := hw.1
    rw [target_finishing] at ht
    rcases hg.whole with ⟨i, hi, -, hjob⟩ | ⟨-, hnone⟩
    · have hne : id ≠ job.taskId := fun hid => ht (by rw [hi, ← hjob job rfl, hid])
      rw [part_runJob hj, if_neg hne]
    · exact absurd hnone (by simp)
  | @runSent user task target answer historyId =>
    have hne : (fireTaskWebhook .manual target answer).taskId ≠ id := fun hid =>
      ht (congrArg some (hw.1.2.symm.trans hid))
    rw [part_send, if_neg hne, List.append_nil]
  | @fireSent task answer historyId =>
    have hne : (fireTaskWebhook .scheduled task answer).taskId ≠ id :=
      fun hid => ht (congrArg some hid)
    rw [part_send, if_neg hne, List.append_nil]
  | fireCommitted hc =>
    obtain ⟨historyId, task, outcome, -, he⟩ := hw.1
    obtain rfl : _ = (executed historyId task outcome).1 := congrArg Prod.fst he
    rw [target_executed, about_executed.1] at ht
    exact part_commit_of_ne hc about_executed.2.1 fun hid => ht (congrArg some hid)
  | @removed taskId now =>
    rw [part_unregister, if_neg fun hid => ht (congrArg some hid.symm)]
  | _ => rfl

/-! ## Moves depend on the part of their task -/

theorem row_congr (hpart : s.part id = t.part id) : s.row id = t.row id :=
  congrArg TaskPart.row hpart

/-- A handler loads the same row, or none. -/
theorem getTaskOr404_of_part (user : CurrentUser) (hpart : s.part id = t.part id) :
    (∃ task, getTaskOr404 user id s = .ok task ∧ getTaskOr404 user id t = .ok task) ∨
      ∃ e e', getTaskOr404 user id s = .error e ∧ getTaskOr404 user id t = .error e' := by
  have hiff : ∀ task, getTaskOr404 user id s = .ok task ↔ getTaskOr404 user id t = .ok task :=
    fun task => by
    rw [getTaskOr404_eq_ok, getTaskOr404_eq_ok, row_congr hpart]
  cases hs : getTaskOr404 user id s with
  | ok task => exact .inl ⟨task, rfl, (hiff task).1 hs⟩
  | error e =>
    cases ht : getTaskOr404 user id t with
    | ok task => exact absurd (hs.symm.trans ((hiff task).2 ht)) (by simp)
    | error e' => exact .inr ⟨e, e', rfl, rfl⟩

/-- Whether a commit raises depends on the part its unit of work is about, and so does
    what it makes of it. -/
theorem commit_of_part (dbNow : Instant) (habout : work.About id) (hpart : s.part id = t.part id) :
    (commit dbNow work s = none → commit dbNow work t = none) ∧
      ∀ s', commit dbNow work s = some s' → ∃ t', commit dbNow work t = some t' ∧
        s'.part id = t'.part id := by
  have hiff : commit dbNow work s = none ↔ commit dbNow work t = none := by
    rw [commit_eq_none, commit_eq_none]
    refine forall_congr' fun _ => or_congr (exists_congr fun row => and_congr_right fun htask => ?_)
      (exists_congr fun i => exists_congr fun changes => and_congr_right fun htask => ?_)
    · rw [habout.2 row.id (by rw [htask]; rfl), row_congr hpart]
    · rw [habout.2 i (by rw [htask]; rfl), row_congr hpart]
  refine ⟨hiff.1, fun s' hs => ?_⟩
  obtain ⟨t', ht⟩ := Option.ne_none_iff_exists'.1 fun hnone => by
    exact absurd ((hiff.2 hnone).symm.trans hs) (by simp)
  exact ⟨t', ht, by rw [part_commit hs, part_commit ht, hpart]⟩

/-- A job raises or not, whatever the state is. -/
theorem runJob_of_part (lib : Crontab) (now : Instant) (job : Job) (hpart : s.part id = t.part id) :
    (∀ e, runJob lib now job s = .error e → runJob lib now job t = .error e) ∧
      ∀ s', runJob lib now job s = .ok s' → ∃ t', runJob lib now job t = .ok t' ∧
        s'.part id = t'.part id := by
  cases job with
  | unregister taskId =>
    refine ⟨fun e h => absurd h (by simp [runJob]), fun s' h => ⟨_, rfl, ?_⟩⟩
    obtain rfl := Except.ok.inj h
    rw [part_unregister, part_unregister, hpart]
  | register task =>
    rw [runJob, registerSchedule]
    cases hb : buildTriggerFromTask lib now task.triggerType task.triggerConfig with
    | error e' =>
      refine ⟨fun e h => ?_, fun s' h => absurd h (by simp [Except.map])⟩
      rw [runJob, registerSchedule, hb]
      exact h
    | ok trigger =>
      refine ⟨fun e h => absurd h (by simp [Except.map]), fun s' h => ?_⟩
      obtain ⟨t', ht⟩ : ∃ t', runJob lib now (.register task) t = .ok t' := by
        rw [runJob, registerSchedule, hb]
        exact ⟨_, rfl⟩
      have hs : runJob lib now (.register task) s = .ok s' := by
        rw [runJob, registerSchedule, hb]
        exact h
      exact ⟨t', ht, by rw [part_runJob hs, part_runJob ht, hpart]⟩

/-- A move depends on the part of its task only, and so does what it makes of it. -/
theorem move_of_part (h : move lib s p k = some (s', o)) (hw : p.Whole lib) (hk : k ≠ .fail)
    (ht : (taskSeparation lib).target p k = some id) (hpart : s.part id = t.part id) :
    ∃ t', move lib t p k = some (t', o) ∧ s'.part id = t'.part id := by
  rw [move.eq_def] at h
  split at h
  case h_1 => exact absurd rfl hk
  case h_2 user body env =>
    obtain rfl : env.taskId = id := Option.some.inj ht
    split at h
    · exact absurd h (by simp)
    · rename_i hfresh
      -- Whether the id has been drawn before is in the part of its task.
      have hissued : s.issued.contains env.taskId = t.issued.contains env.taskId :=
        congrArg TaskPart.issued hpart
      have hfresh' : env.taskId ∉ t.issued := by
        rwa [← List.contains_iff_mem, hissued, List.contains_iff_mem] at hfresh
      have hafter : Service.part env.taskId { s with issued := env.taskId :: s.issued } =
          Service.part env.taskId { t with issued := env.taskId :: t.issued } := by
        rw [part_issue, part_issue, hpart]
      refine ⟨{ t with issued := env.taskId :: t.issued }, ?_, ?_⟩ <;>
        rcases hc : createTask lib env user body with e | hd <;> rw [hc] at h <;>
        obtain ⟨rfl, rfl⟩ := Prod.mk.inj (Option.some.inj h)
      · rw [move, if_neg hfresh', hc]
        rfl
      · rw [move, if_neg hfresh', hc]
        rfl
      · exact hafter
      · exact hafter
  case h_3 user op taskId =>
    obtain rfl : taskId = id := Option.some.inj ht
    rcases getTaskOr404_of_part user hpart with ⟨task, hs, hload⟩ | ⟨e, e', hs, hload⟩ <;>
      rw [hs] at h <;>
      obtain ⟨rfl, rfl⟩ := Prod.mk.inj (Option.some.inj h) <;> exact ⟨t, by rw [move, hload], hpart⟩
  case h_4 user op task env =>
    rcases hc : op.handle lib env user task with e | hd <;> rw [hc] at h <;>
      obtain ⟨rfl, rfl⟩ := Prod.mk.inj (Option.some.inj h)
    · exact ⟨t, by rw [move, hc]; rfl, hpart⟩
    · exact ⟨t, by rw [move, hc]; rfl, hpart⟩
  case h_5 work job ran dbNow =>
    rw [target_finishing] at ht
    obtain ⟨⟨owner, hg⟩, -⟩ := hw.1
    -- A request that has gathered nothing may commit as well.
    have habout : work.About id := by
      rcases hg.whole with ⟨i, hi, habout, -⟩ | ⟨rfl, -⟩
      · exact Option.some.inj (hi.symm.trans ht) ▸ habout
      · exact UnitOfWork.about_nothing
    obtain ⟨hraises, hcommits⟩ := commit_of_part dbNow habout hpart
    split at h <;> rename_i hc <;> obtain ⟨rfl, rfl⟩ := Prod.mk.inj (Option.some.inj h)
    · exact ⟨t, by rw [move, hraises hc], hpart⟩
    · obtain ⟨t', hc', hpart'⟩ := hcommits _ hc
      exact ⟨t', by rw [move, hc'], hpart'⟩
  case h_6 work job committed now =>
    obtain ⟨hraises, hruns⟩ := runJob_of_part lib now job hpart
    split at h <;> rename_i hj <;> obtain ⟨rfl, rfl⟩ := Prod.mk.inj (Option.some.inj h)
    · exact ⟨t, by rw [move, hraises _ hj], hpart⟩
    · obtain ⟨t', hj', hpart'⟩ := hruns _ hj
      exact ⟨t', by rw [move, hj'], hpart'⟩
  case h_7 user taskId =>
    obtain rfl : taskId = id := Option.some.inj ht
    rcases getTaskOr404_of_part user hpart with ⟨task, hs, hload⟩ | ⟨e, e', hs, hload⟩ <;>
      rw [hs] at h <;>
      obtain ⟨rfl, rfl⟩ := Prod.mk.inj (Option.some.inj h) <;> exact ⟨t, by rw [move, hload], hpart⟩
  case h_8 user task =>
    obtain rfl : task.id = id := Option.some.inj ht
    obtain ⟨rfl, rfl⟩ := Prod.mk.inj (Option.some.inj h)
    exact ⟨t, by rw [move, row_congr hpart], hpart⟩
  case h_9 user task target answer historyId =>
    obtain ⟨rfl, rfl⟩ := Prod.mk.inj (Option.some.inj h)
    exact ⟨_, by rw [move], by rw [part_send, part_send, hpart]⟩
  case h_10 taskId =>
    obtain rfl : taskId = id := Option.some.inj ht
    obtain ⟨rfl, rfl⟩ := Prod.mk.inj (Option.some.inj h)
    exact ⟨t, by rw [move, loadActive, loadActive, row_congr hpart], hpart⟩
  case h_11 task answer historyId =>
    obtain ⟨rfl, rfl⟩ := Prod.mk.inj (Option.some.inj h)
    exact ⟨_, by rw [move], by rw [part_send, part_send, hpart]⟩
  case h_12 work remove dbNow =>
    rw [target_executed] at ht
    obtain ⟨historyId, task, outcome, -, he⟩ := hw.1
    obtain rfl : work = (executed historyId task outcome).1 := congrArg Prod.fst he
    obtain rfl := Option.some.inj (about_executed.1.symm.trans ht)
    obtain ⟨hraises, hcommits⟩ := commit_of_part dbNow about_executed.2.1 hpart
    split at h <;> rename_i hc <;> obtain ⟨rfl, rfl⟩ := Prod.mk.inj (Option.some.inj h)
    · exact ⟨t, by rw [move, hraises hc], hpart⟩
    · obtain ⟨t', hc', hpart'⟩ := hcommits _ hc
      exact ⟨t', by rw [move, hc'], hpart'⟩
  case h_13 taskId now =>
    obtain ⟨rfl, rfl⟩ := Prod.mk.inj (Option.some.inj h)
    exact ⟨_, by rw [move], by rw [part_unregister, part_unregister, hpart]⟩
  case h_14 => exact absurd h (by simp)

/-! ## Arrivals -/

variable {i : Arrival}

theorem part_pickUp {coalesced : ℕ} {taskId : TaskId} {f : Instant}
    (h : pickUp lib now coalesced taskId s = some (f, s')) : s'.part id =
      { s.part id with schedule := if id = taskId then s'.schedules taskId
        else (s.part id).schedule } := by
  obtain ⟨schedule, left, -, -, rfl⟩ := pickUp_eq_some h
  by_cases hid : id = taskId
  · subst hid
    rw [if_pos rfl]
    rfl
  · have hother : Function.update s.schedules taskId left id = s.schedules id :=
      Function.update_of_ne hid _ _
    rw [if_neg hid]
    exact congrArg (fun x : Option Schedule => { s.part id with schedule := x }) hother

theorem pickUp_of_part {coalesced : ℕ} {f : Instant}
    (h : pickUp lib now coalesced id s = some (f, s')) (hpart : s.part id = t.part id) :
    ∃ t', pickUp lib now coalesced id t = some (f, t') ∧ s'.part id = t'.part id := by
  obtain ⟨schedule, left, hschedule, hpick, rfl⟩ := pickUp_eq_some h
  have hschedule' : t.schedules id = some schedule :=
    (congrArg TaskPart.schedule hpart).symm.trans hschedule
  have hpicked : pickUp lib now coalesced id t =
      some (f, { t with schedules := Function.update t.schedules id left }) := by
    rw [pickUp, hschedule', Option.bind_some, hpick]
    rfl
  have hleft : Function.update s.schedules id left id = Function.update t.schedules id left id := by
    rw [Function.update_self, Function.update_self]
  refine ⟨_, hpicked, ?_⟩
  rw [part_pickUp h, part_pickUp hpicked, hpart, if_pos rfl, if_pos rfl]
  exact congrArg (fun x : Option Schedule => { t.part id with schedule := x }) hleft

/-! ## Processes stay on their task -/

theorem stage_of_arrive (h : arrive lib s i = some (s', o)) :
    ∃ p, o = some p ∧ p.stage = i.on.elim .fresh .on := by
  cases i with
  | request user request =>
    obtain ⟨-, rfl⟩ := Prod.mk.inj (Option.some.inj h)
    exact ⟨_, rfl, by cases request <;> rfl⟩
  | fire taskId now coalesced =>
    obtain ⟨picked, -, h⟩ := Option.map_eq_some_iff.1 h
    obtain ⟨-, rfl⟩ := Prod.mk.inj h
    exact ⟨_, rfl, rfl⟩

/-- A process goes on as one on the task it has moved for, if it is to do anything. -/
theorem Moves.stage (h : Moves lib s p k s' (some q)) (hw : p.Whole lib) :
    q.stage = .spent ∨ ∃ id, q.stage = .on id ∧ (taskSeparation lib).target p k = some id := by
  generalize ho : some q = o at h
  cases h with
  | @created user body env h hfresh hc =>
    obtain rfl := Option.some.inj ho
    obtain ⟨trigger, nextRunAt, row, -, -, hrow, rfl⟩ := createTask_eq_ok hc
    exact .inr ⟨env.taskId, congrArg Stage.on (records_recordSnapshot hrow).2.2, rfl⟩
  | read hrow | runRead hrow =>
    obtain rfl := Option.some.inj ho
    exact .inr ⟨_, rfl, congrArg some (Table.key_of_find hrow).symm⟩
  | @handled user op task env h hc =>
    obtain rfl := Option.some.inj ho
    cases hid : h.work.taskId with
    | none => exact .inl (by rw [Proc.stage, hid]; rfl)
    | some id =>
      exact .inr ⟨id, by rw [Proc.stage, hid]; rfl, congrArg some ((about_of_handle hc).1 id hid)⟩
  | @committed work job ran | @ran work job committed =>
    split at ho
    · exact absurd ho (by simp)
    · obtain rfl := Option.some.inj ho
      rw [target_finishing]
      cases hid : work.taskId with
      | none => exact .inl (by rw [Proc.stage, hid]; rfl)
      | some id => exact .inr ⟨id, by rw [Proc.stage, hid]; rfl, rfl⟩
  | called =>
    obtain rfl := Option.some.inj ho
    exact .inr ⟨_, rfl, rfl⟩
  | runSent =>
    obtain rfl := Option.some.inj ho
    exact .inr ⟨_, rfl, rfl⟩
  | fireRead hload =>
    obtain rfl := Option.some.inj ho
    exact .inr ⟨_, rfl, congrArg some (Table.key_of_find (loadActive_eq_some.1 hload).1).symm⟩
  | @fireSent task answer historyId =>
    obtain rfl := Option.some.inj ho
    exact .inr ⟨task.id, by rw [Proc.stage, about_executed.1]; rfl, rfl⟩
  | @fireCommitted work remove =>
    obtain ⟨historyId, task, outcome, -, he⟩ := hw.1
    obtain rfl : work = (executed historyId task outcome).1 := congrArg Prod.fst he
    obtain rfl : remove = (executed historyId task outcome).2 := congrArg Prod.snd he
    rw [target_executed, about_executed.1]
    cases hr : (executed historyId task outcome).2 with
    | none => exact absurd ho (by simp [hr])
    | some i =>
      rw [hr] at ho
      obtain rfl := Option.some.inj ho
      exact .inr ⟨i, rfl, congrArg some (about_executed.2.2 i hr).symm⟩
  | _ => exact absurd ho (by simp)

/-- A process whose unit of work is empty has its commit left, which does nothing. -/
theorem Proc.Whole.ends (hw : p.Whole lib) (hst : p.stage = .spent) (s : Service) :
    move lib s p (.commit 0) = some (s, none) := by
  cases p with
  | finishing work job committed ran =>
    obtain ⟨⟨⟨owner, hg⟩, -⟩, hlast⟩ := hw
    rcases hg.whole with ⟨i, hi, -⟩ | ⟨rfl, rfl⟩
    · exact absurd hst (by simp [Proc.stage, hi])
    · cases committed with
      | true => exact absurd rfl (hlast {} ran)
      | false =>
        rw [move, commit_nothing]
        simp
  | executed work remove =>
    obtain ⟨⟨historyId, task, outcome, -, he⟩, -⟩ := hw
    obtain rfl : work = (SchedulerLm.executed historyId task outcome).1 := congrArg Prod.fst he
    exact absurd hst (by simp [Proc.stage, about_executed.1])
  | arrived user request => cases request <;> exact absurd hst (by simp [Proc.stage])
  | _ => exact absurd hst (by simp [Proc.stage])

/-- The processes act on the part of one task each. -/
theorem separated (lib : Crontab) : (taskSeparation lib).Separated (program lib) Choice.clock where
  arrive_stage h := stage_of_arrive h
  arrive_fresh := by
    intro s s' i o h hon
    rcases i with ⟨user, request⟩ | ⟨taskId, now, coalesced⟩
    · obtain ⟨rfl, rfl⟩ := Prod.mk.inj (Option.some.inj h)
      exact ⟨rfl, fun t => rfl⟩
    · exact absurd hon (by simp [taskSeparation, Arrival.on])
  arrive_frame := by
    intro s s' i o id h hon
    rcases i with ⟨user, request⟩ | ⟨taskId, now, coalesced⟩
    · obtain ⟨rfl, rfl⟩ := Prod.mk.inj (Option.some.inj h)
      rfl
    · obtain ⟨⟨f, after⟩, hpick, h⟩ := Option.map_eq_some_iff.1 h
      obtain ⟨rfl, rfl⟩ := Prod.mk.inj h
      have hne : id ≠ taskId := fun hid => hon (congrArg some hid.symm)
      change after.part id = s.part id
      rw [part_pickUp hpick, if_neg hne]
  arrive_part := by
    intro s s' t i o id h hon hpart
    rcases i with ⟨user, request⟩ | ⟨taskId, now, coalesced⟩
    · obtain ⟨rfl, rfl⟩ := Prod.mk.inj (Option.some.inj h)
      exact ⟨t, rfl, hpart⟩
    · obtain rfl : taskId = id := Option.some.inj hon
      obtain ⟨⟨f, after⟩, hpick, h⟩ := Option.map_eq_some_iff.1 h
      obtain ⟨rfl, rfl⟩ := Prod.mk.inj h
      obtain ⟨t', hpick', hpart'⟩ := pickUp_of_part hpick hpart
      exact ⟨t', Option.map_eq_some_iff.2 ⟨_, hpick', rfl⟩, hpart'⟩
  move_draws := by
    intro s s' p k o h hk hst
    cases p with
    | arrived user request =>
      cases request with
      | create body =>
        cases k with
        | body env => exact Option.some_ne_none _
        | fail => exact absurd rfl hk
        | _ => exact absurd h (by simp [program, move])
      | _ => exact absurd hst (by simp [taskSeparation, Proc.stage])
    | finishing work | executed work =>
      cases hid : work.taskId <;> exact absurd hst (by simp [taskSeparation, Proc.stage, hid])
    | _ => exact absurd hst (by simp [taskSeparation, Proc.stage])
  move_stage h hw _ := (moves_of_move h).stage hw
  move_frame h hw _ ht := (moves_of_move h).part_of_ne hw ht
  move_part h hw hk ht hpart := move_of_part h hw hk ht hpart
  spent_ends hw hst := ⟨.commit 0, by simp [taskSeparation], rfl, fun s => ⟨s, hw.ends hst s⟩⟩

/-! ## Processes stay whole -/

theorem whole_of_arrive (h : arrive lib s i = some (s', o)) : ∀ q, o = some q → q.Whole lib := by
  cases i with
  | request user request =>
    obtain ⟨-, rfl⟩ := Prod.mk.inj (Option.some.inj h)
    exact fun q hq => Option.some.inj hq ▸ ⟨trivial, by simp⟩
  | fire taskId now coalesced =>
    obtain ⟨picked, -, h⟩ := Option.map_eq_some_iff.1 h
    obtain ⟨-, rfl⟩ := Prod.mk.inj h
    exact fun q hq => Option.some.inj hq ▸ ⟨trivial, by simp⟩

theorem Moves.whole (h : Moves lib s p k s' (some q)) (hw : p.Whole lib)
    (hs : ∀ id row, s.row id = some row → row.Storable) : q.Whole lib := by
  refine ⟨h.ok hw.1 hs, fun work ran hq => ?_⟩
  generalize ho : some q = o at h
  cases h with
  | @committed _ job =>
    split at ho
    · exact absurd ho (by simp)
    · rename_i hgoes
      exact hgoes (.inr (Proc.finishing.inj ((Option.some.inj ho).symm.trans hq)).2.1)
  | ran =>
    split at ho
    · exact absurd ho (by simp)
    · exact absurd ((Option.some.inj ho).symm.trans hq) (by simp)
  | fireCommitted =>
    obtain ⟨_, -, rfl⟩ := Option.map_eq_some_iff.1 ho.symm
    exact absurd hq (by simp)
  | failed | refused | issued | aborted | raised | fireAborted | removed =>
    exact absurd ho (by simp)
  | _ => exact absurd ((Option.some.inj ho).symm.trans hq) (by simp)

end SchedulerLm
