import SchedulerLm.Interleaving
import SchedulerLm.Queries

/-!
# Requests and executions, one at a time

The service when each request, and each execution, ends before the next thing
happens: the state a request leaves (`serve`) and what it answers (`respond`),
with the commit and the background job in either order, and with a failure at
one point, if there is one; the state an execution leaves (`execute`); and the
runs of these (`sequential`), without failures.

This is the case of the interleavings in which nothing overlaps
(`reachable_serve`, `reachable_of_run`).
-/

namespace SchedulerLm

open Transition

/-- The order of the commit and the background job of a request. -/
inductive Order
  | jobFirst
  | commitFirst
  deriving DecidableEq

/-- Where a request fails: in its handler, at the commit, or in the call of the
    scheduler by the background job. -/
inductive Fault
  | handler
  | commit
  | job
  deriving DecidableEq

/-- The later one of the commit and the job. -/
def Order.second : Order → Fault
  | .jobFirst => .commit
  | .commitFirst => .job

/-- Everything a request finds: what its handler reads, when its job runs, in which
    order, and what a webhook answers. -/
structure Turn extends Env where
  jobNow : Instant
  now_le_jobNow : now ≤ jobNow
  order : Order
  answer : Answer

/-- A request at `now` in the given order, when `uuid4` draws `taskId` and the webhook
    answers with `answer`. -/
def Turn.sample (now : Instant) (taskId : TaskId) (order : Order) (answer : Answer) : Turn where
  toEnv := .sample now taskId
  jobNow := now
  now_le_jobNow := le_refl now
  order := order
  answer := answer

/-- Everything an execution finds: when its fire is picked up, with how many earlier
    ones, and what the webhook answers. -/
structure Fire where
  now : Instant
  coalesced : ℕ
  answer : Answer
  historyId : ℕ
  dbNow : Instant

/-- What a request that writes answers. -/
inductive Response
  | task (response : TaskResponse)
  | deleted
  | run (response : TaskRunResponse)
  deriving DecidableEq

variable (lib : Crontab)

/-! ## A request -/

/-- The commit, unless it raises. -/
def tryCommit (fault : Option Fault) (dbNow : Instant) (work : UnitOfWork) (s : Service) :
    Option Service :=
  if fault = some .commit then none else commit dbNow work s

/-- The background job, if there is one, unless it raises. -/
def tryJob (fault : Option Fault) (now : Instant) (job : Option Job) (s : Service) :
    Option Service :=
  match job with
  | none => some s
  | some job => if fault = some .job then none else (runJob lib now job s).toOption

/-- What is left when a handler has returned: `get_db` rolls back when the job
    raises before it commits, and a job that is to run after the commit is dropped
    when that raises. -/
def finish (fault : Option Fault) (turn : Turn) (h : Handled) (s : Service) : Service :=
  match turn.order with
  | .jobFirst =>
    match tryJob lib fault turn.jobNow h.job s with
    | none => s
    | some s' => (tryCommit fault turn.dbNow h.work s').getD s'
  | .commitFirst =>
    match tryCommit fault turn.dbNow h.work s with
    | none => s
    | some s' => (tryJob lib fault turn.jobNow h.job s').getD s'

/-- The handler of a request, except `run_task`, whose GET is in its middle. -/
def Request.handle (turn : Turn) (user : CurrentUser) (request : Request) (s : Service) :
    Except Failure Handled :=
  match request with
  | .create body => createTask lib turn.toEnv user body
  | .task op taskId => (getTaskOr404 user taskId s).bind (op.handle lib turn.toEnv user)
  | .run _ => .ok { response := none, work := {}, job := none }

/-- `run_task`, up to its commit: the task it is about, the task it calls, and its
    unit of work. -/
def runTask (turn : Turn) (user : CurrentUser) (taskId : TaskId) (s : Service) :
    Except Failure (ScheduledTask × ScheduledTask × UnitOfWork) :=
  (getTaskOr404 user taskId s).bind fun task =>
  match s.row task.id with
  | none => .error (.raised .valueError)
  | some target => .ok (task, target, runWork turn.historyId user task turn.answer.outcome)

/-- The state a request leaves, with a failure at `fault`. -/
def serve (fault : Option Fault) (turn : Turn) (user : CurrentUser) (request : Request)
    (s : Service) :
    Service :=
  let s := match request with
    | .create _ => { s with issued := turn.taskId :: s.issued }
    | _ => s
  if fault = some .handler then s
  else
    match request with
    | .run taskId =>
      match runTask turn user taskId s with
      | .error _ => s
      | .ok (_, target, work) =>
        let s' := s.send (fireTaskWebhook .manual target turn.answer)
        (tryCommit fault turn.dbNow work s').getD s'
    | request =>
      match request.handle lib turn user s with
      | .error _ => s
      | .ok h => finish lib fault turn h s

/-- What a request answers, without a failure. Its commit comes before the answer,
    unless the job comes before the commit. -/
def respond (turn : Turn) (user : CurrentUser) (request : Request) (s : Service) :
    Except Failure Response :=
  match request with
  | .run taskId =>
    (runTask turn user taskId s).bind fun (task, _, work) =>
    if (commit turn.dbNow work s).isNone then .error (.raised .databaseError)
    else (runResponse task turn.answer.outcome).map .run
  | request =>
    (request.handle lib turn user s).bind fun h =>
    if turn.order = .commitFirst ∧ (commit turn.dbNow h.work s).isNone then
      .error (.raised .databaseError)
    else .ok (h.response.elim .deleted .task)

/-! ## An execution -/

/-- The state `execute_scheduled_task` leaves. -/
def execute (taskId : TaskId) (fire : Fire) (s : Service) : Service :=
  match loadActive taskId s with
  | none => s
  | some task =>
    let s' := s.send (fireTaskWebhook .scheduled task fire.answer)
    let after := executed fire.historyId task fire.answer.outcome
    match commit fire.dbNow after.1 s' with
    | none => s'
    | some s'' => after.2.elim s'' fun taskId => unregisterSchedule taskId s''

/-! ## Runs -/

/-- What happens next. -/
inductive Event
  | request (user : CurrentUser) (request : Request) (turn : Turn)
  | query (user : CurrentUser) (query : Query) (env : QueryEnv)
  | execute (taskId : TaskId) (fire : Fire)

/-- The id a request draws has not been drawn before. -/
def Request.drawsFresh (request : Request) (turn : Turn) (s : Service) : Bool :=
  match request with
  | .create _ => turn.taskId ∉ s.issued
  | _ => true

/-- The service, one thing at a time. -/
def sequential : System Service Event where
  step s
    | .request user request turn =>
      if request.drawsFresh turn s then some (serve lib none turn user request s) else none
    | .query _ _ _ => some s
    | .execute taskId fire =>
      (pickUp lib fire.now fire.coalesced taskId s).map fun picked => execute taskId fire picked.2

variable {lib} {s s' t : Service} {p q : Proc} {k : Choice} {fault : Option Fault} {turn : Turn}
  {user : CurrentUser} {request : Request} {e : Event}

/-- A manual run that returns is of a task of the user, and records its GET. -/
theorem runTask_eq_ok {taskId : TaskId} {task target : ScheduledTask} {work : UnitOfWork} :
    runTask turn user taskId s = .ok (task, target, work) ↔ getTaskOr404 user taskId s = .ok task ∧
      s.row task.id = some target ∧ work = runWork turn.historyId user task
        turn.answer.outcome := by
  rw [runTask, Raising.bind_eq_ok]
  constructor
  · rintro ⟨task', hload, hr⟩
    split at hr
    · exact absurd hr (by simp)
    · rename_i hrow
      obtain ⟨rfl, rfl, rfl⟩ := Prod.mk.inj (Except.ok.inj hr) |>.imp_right Prod.mk.inj
      exact ⟨hload, hrow, rfl⟩
  · rintro ⟨hload, hrow, rfl⟩
    exact ⟨task, hload, by rw [hrow]⟩

/-! ## Nothing overlaps -/

/-- Alone, the process `p` can lead from `s` to `t`. -/
def Ends (lib : Crontab) (s : Service) (p : Proc) (t : Service) : Prop :=
  ∃ as, (interleaving lib).Run ⟨s, [p]⟩ as ⟨t, []⟩

theorem step_move {o : Option Proc} (h : move lib s p k = some (s', o)) :
    (interleaving lib).step ⟨s, [p]⟩ (.move 0 k) = some ⟨s', o.toList⟩ := by
  have hstep : (interleaving lib).step ⟨s, [p]⟩ (.move 0 k) =
      (move lib s p k).map fun r => ⟨r.1, Pool.replace [p] 0 r.2⟩ := rfl
  rw [hstep, h]
  cases o <;> rfl

theorem Ends.last (h : move lib s p k = some (t, none)) : Ends lib s p t :=
  ⟨[.move 0 k], .cons trivial (step_move h) .nil⟩

theorem Ends.next (h : move lib s p k = some (s', some q)) (hq : Ends lib s' q t) :
    Ends lib s p t := by
  obtain ⟨as, hq⟩ := hq
  exact ⟨.move 0 k :: as, .cons trivial (step_move h) hq⟩

/-- A process can fail at any time. -/
theorem Ends.fail : Ends lib s p s := .last (k := .fail) (by rw [move])

/-- The commit of a request whose job has run, or that has none. -/
theorem Ends.lastCommit {work : UnitOfWork} {job : Option Job} {ran : Bool} {dbNow : Instant}
    (hran : ran = true ∨ job = none) :
    Ends lib s (.finishing work job false ran) ((tryCommit fault dbNow work s).getD s) := by
  rw [tryCommit]
  split
  · exact .fail
  · refine .last (k := .commit dbNow) ?_
    rw [move]
    rcases commit dbNow work s with _ | s'
    · rfl
    · simp [hran]

/-- The job of a request that has committed. -/
theorem Ends.lastJob {work : UnitOfWork} {job : Job} {now : Instant} :
    Ends lib s (.finishing work (some job) true false)
      ((tryJob lib fault now (some job) s).getD s) := by
  rw [tryJob]
  split
  · exact .fail
  · refine .last (k := .job now) ?_
    rw [move]
    rcases runJob lib now job s with _ | s' <;> rfl

theorem Ends.finish (h : Handled) :
    Ends lib s (.finishing h.work h.job false false) (finish lib fault turn h s) := by
  obtain ⟨response, work, job⟩ := h
  rw [SchedulerLm.finish]
  split <;> dsimp only
  · rcases job with _ | job
    · exact .lastCommit (.inr rfl)
    · rcases hj : tryJob lib fault turn.jobNow (some job) s with _ | s'
      · exact .fail
      · rw [tryJob] at hj
        split at hj
        · exact absurd hj (by simp)
        · rcases hr : runJob lib turn.jobNow job s with e | t <;> rw [hr] at hj
          · exact absurd hj (by simp [Except.toOption])
          · obtain rfl := Option.some.inj hj
            exact .next (k := .job turn.jobNow) (by rw [move, hr]; rfl) (.lastCommit (.inl rfl))
  · rcases hc : tryCommit fault turn.dbNow work s with _ | s'
    · exact .fail
    · rw [tryCommit] at hc
      split at hc
      · exact absurd hc (by simp)
      · rcases job with _ | job
        · exact .last (k := .commit turn.dbNow) (by rw [move, hc]; rfl)
        · exact .next (k := .commit turn.dbNow) (by rw [move, hc]; rfl) .lastJob

/-- What a request leaves is what its process can lead to, alone. -/
theorem ends_serve (hfresh : request.drawsFresh turn s = true) :
    Ends lib s (.arrived user request) (serve lib fault turn user request s) := by
  cases request with
  | create body =>
    have hissued : turn.taskId ∉ s.issued := by simpa [Request.drawsFresh] using hfresh
    rcases hc : createTask lib turn.toEnv user body with e | h
    · refine .last (k := .body turn.toEnv) ?_
      rw [move, if_neg hissued, hc]
      simp [handled, serve, Request.handle, hc]
    · have hbody : move lib s (.arrived user (.create body)) (.body turn.toEnv) =
          some ({ s with issued := turn.taskId :: s.issued },
            some (.finishing h.work h.job false false)) := by
        rw [move, if_neg hissued, hc]
        rfl
      refine .next hbody ?_
      by_cases hf : fault = some .handler
      · simpa [serve, hf] using Ends.fail
      · simpa [serve, hf, Request.handle, hc] using Ends.finish h
  | task op taskId =>
    by_cases hf : fault = some .handler
    · simpa [serve, hf] using Ends.fail
    · rcases hload : getTaskOr404 user taskId s with e | task
      · refine .last (k := .read) ?_
        rw [move, hload]
        simp [serve, hf, Request.handle, hload, Except.bind]
      · refine .next (k := .read) (q := .loaded user op task) (by rw [move, hload]) ?_
        rcases hh : op.handle lib turn.toEnv user task with e | h
        · refine .last (k := .body turn.toEnv) ?_
          rw [move, hh]
          simp [handled, serve, hf, Request.handle, hload, Except.bind, hh]
        · refine .next (k := .body turn.toEnv) (q := .finishing h.work h.job false false)
            (by rw [move, hh]; rfl) ?_
          simpa [serve, hf, Request.handle, hload, Except.bind, hh] using Ends.finish h
  | run taskId =>
    by_cases hf : fault = some .handler
    · simpa [serve, hf] using Ends.fail
    · rcases hload : getTaskOr404 user taskId s with e | task
      · refine .last (k := .read) ?_
        rw [move, hload]
        simp [serve, hf, runTask, hload, Except.bind]
      · refine .next (k := .read) (q := .running user task) (by rw [move, hload]) ?_
        rcases htarget : s.row task.id with _ | target
        · refine .last (k := .read) ?_
          rw [move, htarget]
          simp [serve, hf, runTask, hload, Except.bind, htarget]
        · refine .next (k := .read) (q := .calling user task target) (by rw [move, htarget]; rfl) ?_
          refine .next (k := .send turn.answer turn.historyId) (by rw [move]) ?_
          simpa [serve, hf, runTask, hload, Except.bind, htarget] using Ends.lastCommit (.inr rfl)

/-- What an execution leaves is what its process can lead to, alone. -/
theorem ends_execute (taskId : TaskId) (fire : Fire) :
    Ends lib s (.fired taskId) (execute taskId fire s) := by
  rcases hload : loadActive taskId s with _ | task
  · refine .last (k := .read) ?_
    rw [move, hload]
    simp [execute, hload]
  · refine .next (k := .read) (q := .executing task) (by rw [move, hload]; rfl) ?_
    refine .next (k := .send fire.answer fire.historyId) (by rw [move]) ?_
    rcases hc : commit fire.dbNow (executed fire.historyId task fire.answer.outcome).1
        (s.send (fireTaskWebhook .scheduled task fire.answer)) with _ | s'
    · refine .last (k := .commit fire.dbNow) ?_
      rw [move, hc]
      simp [execute, hload, hc]
    · rcases hr : (executed fire.historyId task fire.answer.outcome).2 with _ | remove
      · refine .last (k := .commit fire.dbNow) ?_
        rw [move, hc]
        simp [execute, hload, hc, hr]
      · refine .next (k := .commit fire.dbNow) (q := .removing remove)
          (by rw [move, hc]; rfl) (.last (k := .job 0) ?_)
        rw [move]
        simp [execute, hload, hc, hr]

/-- A request that is served alone, with a failure or without, is an interleaving. -/
theorem reachable_serve (hs : Reachable lib s) (hfresh : request.drawsFresh turn s = true) :
    Reachable lib (serve lib fault turn user request s) := by
  obtain ⟨as, hs⟩ := hs
  obtain ⟨bs, hbs⟩ : Ends lib s (.arrived user request) (serve lib fault turn user request s) :=
    ends_serve hfresh
  exact ⟨_, hs.append (.cons (a := .arrive (.request user request)) trivial rfl hbs)⟩

/-- Every event is an interleaving. -/
theorem reachable_step (hs : Reachable lib s) (h : (sequential lib).step s e = some t) :
    Reachable lib t := by
  cases e with
  | request user request turn =>
    simp only [sequential, Option.ite_none_right_eq_some, Option.some.injEq] at h
    exact h.2 ▸ reachable_serve hs h.1
  | query user query env =>
    exact Option.some.inj h ▸ hs
  | execute taskId fire =>
    obtain ⟨⟨f, s'⟩, hpick, rfl⟩ := Option.map_eq_some_iff.1 h
    obtain ⟨as, hs⟩ := hs
    obtain ⟨bs, hbs⟩ : Ends lib s' (.fired taskId) (execute taskId fire s') :=
      ends_execute taskId fire
    refine ⟨_, hs.append (.cons (a := .arrive (.fire taskId fire.now fire.coalesced))
      trivial ?_ hbs)⟩
    have harrive :
      (interleaving lib).step ⟨s, []⟩ (.arrive (.fire taskId fire.now fire.coalesced)) =
        (arrive lib s (.fire taskId fire.now fire.coalesced)).map
          fun r => ⟨r.1, r.2.toList ++ []⟩ := rfl
    rw [harrive, arrive, hpick]
    rfl

theorem reachable_of_run {as : List Event} (h : (sequential lib).Run .init as s) :
    Reachable lib s :=
  h.invariant ⟨[], .nil⟩ fun _ _ _ hI _ hs => reachable_step hI hs

end SchedulerLm
