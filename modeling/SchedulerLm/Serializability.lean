import SchedulerLm.Sequential
import SchedulerLm.TaskParts

/-!
# Serializability

Requests and executions of different tasks may overlap as they like, if those of one task
do not: what an interleaving leaves of every task is what serving the same requests and
fires one at a time leaves (`serializable_of_run`). So all that goes wrong under
concurrency goes wrong between two processes on one task.

What arrives and its process, alone, come to what `sequential` does by one event
(`serves`), except that a creation does not draw the times of its row and of its history
row from one transaction.
-/

namespace SchedulerLm

open Transition Relational

/-- What an event serves. -/
def Event.origin : Event → Option Arrival
  | .request user r _ => some (.request user r)
  | .query _ _ _ => none
  | .execute taskId fire => some (.fire taskId fire.now fire.coalesced)

variable {lib : Crontab} {s t u : Service} {p : Proc} {cs : List Choice} {work : UnitOfWork}
  {job : Option Job} {user : CurrentUser} {request : Request} {taskId : TaskId} {env : Env}
  {answer : Answer}

/-! ## Alone -/

/-- The choices end the process, from `s` in `u`, without failing. -/
def AloneTo (lib : Crontab) (cs : List Choice) (s : Service) (p : Proc) (u : Service) : Prop :=
  (program lib).alone cs s p = some (u, none) ∧ ∀ k ∈ cs, k ≠ .fail

/-- A process that ends alone makes a move, and ends by it, or goes on and ends. -/
theorem AloneTo.move (h : AloneTo lib cs s p u) : ∃ k rest s' o, cs = k :: rest ∧ k ≠ .fail ∧
    move lib s p k = some (s', o) ∧ o.elim (u = s') fun q => AloneTo lib rest s' q u := by
  obtain ⟨k, rest, rfl, ⟨hm, -⟩ | ⟨s', q, hm, hrest⟩⟩ := Program.alone_eq_end h.1
  · exact ⟨k, rest, u, none, rfl, h.2 k List.mem_cons_self, hm, rfl⟩
  · exact ⟨k, rest, s', some q, rfl, h.2 k List.mem_cons_self, hm, hrest,
      fun k hk => h.2 k (List.mem_cons_of_mem _ hk)⟩

/-! ## Executions -/

theorem eq_of_removing (h : AloneTo lib cs s (.removing taskId) u) :
    u = unregisterSchedule taskId s := by
  obtain ⟨k, rest, s', o, rfl, hk, hm, hend⟩ := h.move
  cases k with
  | job now =>
    obtain ⟨rfl, rfl⟩ := Prod.mk.inj (Option.some.inj hm)
    exact hend
  | fail => exact absurd rfl hk
  | _ => exact absurd hm (by simp [move])

theorem eq_of_executed {remove : Option TaskId} (h : AloneTo lib cs s (.executed work remove) u) :
    ∃ dbNow, u = (commit dbNow work s).elim s fun s' => remove.elim s' fun id =>
      unregisterSchedule id s' := by
  obtain ⟨k, rest, s', o, rfl, hk, hm, hend⟩ := h.move
  cases k with
  | commit dbNow =>
    refine ⟨dbNow, ?_⟩
    rw [move] at hm
    split at hm <;> rename_i hc <;> obtain ⟨rfl, rfl⟩ :=
      Prod.mk.inj (Option.some.inj hm) <;> rw [hc]
    · exact hend
    · cases remove with
      | none => exact hend
      | some id => exact eq_of_removing hend
  | fail => exact absurd rfl hk
  | _ => exact absurd hm (by simp [move])

/-- An execution alone, after its fire has been picked up. -/
theorem eq_of_fired (now : Instant) (coalesced : ℕ) (h : AloneTo lib cs s (.fired taskId) u) :
    ∃ fire : Fire, fire.now = now ∧ fire.coalesced = coalesced ∧ u = execute taskId fire s := by
  obtain ⟨k, rest, s', o, rfl, hk, hm, hend⟩ := h.move
  cases k with
  | read =>
    obtain ⟨rfl, rfl⟩ := Prod.mk.inj (Option.some.inj hm)
    rcases hload : loadActive taskId s with _ | task <;> rw [hload] at hend
    · exact ⟨⟨now, coalesced, .response 200, 0, 0⟩, rfl, rfl, by rw [execute, hload]; exact hend⟩
    · obtain ⟨k, rest, s', o, rfl, hk, hm, hend⟩ := AloneTo.move hend
      cases k with
      | send answer historyId =>
        obtain ⟨rfl, rfl⟩ := Prod.mk.inj (Option.some.inj hm)
        obtain ⟨dbNow, rfl⟩ := eq_of_executed hend
        refine ⟨⟨now, coalesced, answer, historyId, dbNow⟩, rfl, rfl, ?_⟩
        simp only [execute, hload]
        cases commit dbNow (executed historyId task answer.outcome).1
          (s.send (fireTaskWebhook .scheduled task answer)) <;> rfl
      | fail => exact absurd rfl hk
      | _ => exact absurd hm (by simp [move])
  | fail => exact absurd rfl hk
  | _ => exact absurd hm (by simp [move])

/-! ## Requests -/

/-- A request whose commit is all that is left. -/
theorem eq_of_lastCommit {ran : Bool} (hran : ran = true ∨ job = none)
    (h : AloneTo lib cs s (.finishing work job false ran) u) :
    ∃ dbNow, u = (tryCommit none dbNow work s).getD s := by
  obtain ⟨k, rest, s', o, rfl, hk, hm, hend⟩ := h.move
  cases k with
  | commit dbNow =>
    refine ⟨dbNow, ?_⟩
    rw [move] at hm
    rw [tryCommit, if_neg (by simp)]
    split at hm <;> rename_i hc <;> obtain ⟨rfl, rfl⟩ :=
      Prod.mk.inj (Option.some.inj hm) <;> rw [hc]
    · exact hend
    · rw [if_pos hran] at hend
      exact hend
  | job now => rcases hran with rfl | rfl <;> exact absurd hm (by simp [move])
  | fail => exact absurd rfl hk
  | _ => exact absurd hm (by simp [move])

/-- A request whose job is all that is left. -/
theorem eq_of_lastJob {job : Job} (h : AloneTo lib cs s (.finishing work (some job) true false) u) :
    ∃ now ∈ cs.filterMap Choice.clock, u = (tryJob lib none now (some job) s).getD s := by
  obtain ⟨k, rest, s', o, rfl, hk, hm, hend⟩ := h.move
  cases k with
  | job now =>
    refine ⟨now, List.mem_cons_self, ?_⟩
    rw [move] at hm
    rw [tryJob, if_neg (by simp)]
    split at hm <;> rename_i hj <;> obtain ⟨rfl, rfl⟩ :=
      Prod.mk.inj (Option.some.inj hm) <;> rw [hj] <;>
      exact hend
  | fail => exact absurd rfl hk
  | _ => exact absurd hm (by simp [move])

/-- The end of a request alone, whose handler has returned at `env.now`. -/
theorem eq_of_finishing (response : Option TaskResponse) (env : Env) (answer : Answer)
    (h : AloneTo lib cs s (.finishing work job false false) u)
    (hclock : ∀ now ∈ cs.filterMap Choice.clock, env.now ≤ now) :
    ∃ turn : Turn, turn.toEnv = { env with dbNow := turn.dbNow } ∧ turn.answer = answer ∧
      u = finish lib none turn ⟨response, work, job⟩ s := by
  cases job with
  | none =>
    obtain ⟨dbNow, rfl⟩ := eq_of_lastCommit (.inr rfl) h
    refine ⟨⟨{ env with dbNow := dbNow }, env.now, le_refl _, .commitFirst, answer⟩, rfl, rfl, ?_⟩
    rw [finish]
    cases tryCommit none dbNow work s <;> rfl
  | some job =>
    obtain ⟨k, rest, s', o, rfl, hk, hm, hend⟩ := h.move
    cases k with
    | commit dbNow =>
      -- The job runs after the commit, or is dropped with it.
      rw [move] at hm
      split at hm <;> rename_i hc <;> obtain ⟨rfl, rfl⟩ := Prod.mk.inj (Option.some.inj hm)
      · refine ⟨⟨{ env with dbNow := dbNow }, env.now, le_refl _, .commitFirst, answer⟩,
          rfl, rfl, ?_⟩
        simp only [finish, tryCommit, hc]
        exact hend
      · obtain ⟨now, hnow, rfl⟩ := eq_of_lastJob hend
        refine ⟨⟨{ env with dbNow := dbNow }, now, hclock now hnow, .commitFirst, answer⟩,
          rfl, rfl, ?_⟩
        simp only [finish, tryCommit, hc]
        rfl
    | job now =>
      -- The job has run, or raised, before the commit.
      have hnow : env.now ≤ now := hclock now List.mem_cons_self
      rw [move] at hm
      split at hm <;> rename_i hj <;> obtain ⟨rfl, rfl⟩ := Prod.mk.inj (Option.some.inj hm)
      · refine ⟨⟨env, now, hnow, .jobFirst, answer⟩, rfl, rfl, ?_⟩
        simp only [finish, tryJob, hj]
        exact hend
      · obtain ⟨dbNow, rfl⟩ := eq_of_lastCommit (.inl rfl) hend
        refine ⟨⟨{ env with dbNow := dbNow }, now, hnow, .jobFirst, answer⟩, rfl, rfl, ?_⟩
        simp only [finish, tryJob, hj]
        rfl
    | fail => exact absurd rfl hk
    | _ => exact absurd hm (by simp [move])

/-- The handlers of operations do not read the time of their transaction. -/
theorem handle_dbNow (op : TaskOp) (task : ScheduledTask) (dbNow : Instant) :
    op.handle lib { env with dbNow := dbNow } user task = op.handle lib env user task := by
  cases op <;> rfl

/-- An operation on a task, alone. -/
theorem eq_of_task {op : TaskOp} (h : AloneTo lib cs s (.arrived user (.task op taskId)) u)
    (hclock : (cs.filterMap Choice.clock).Pairwise (· ≤ ·)) :
    ∃ turn : Turn, u = serve lib none turn user (.task op taskId) s := by
  obtain ⟨k, rest, s', o, rfl, hk, hm, hend⟩ := h.move
  cases k with
  | read =>
    rw [move] at hm
    split at hm <;> rename_i hload <;> obtain ⟨rfl, rfl⟩ := Prod.mk.inj (Option.some.inj hm)
    · refine ⟨.sample 0 0 .commitFirst (.response 200), ?_⟩
      simpa [serve, Request.handle, hload, Except.bind] using hend
    · rename_i task
      obtain ⟨k, rest, s', o, rfl, hk, hm, hend⟩ := AloneTo.move hend
      cases k with
      | body env =>
        rw [move] at hm
        rcases hh : op.handle lib env user task with e | ⟨response, work, job⟩ <;> rw [hh] at hm <;>
          obtain ⟨rfl, rfl⟩ := Prod.mk.inj (Option.some.inj hm)
        · refine ⟨⟨env, env.now, le_refl _, .commitFirst, .response 200⟩, ?_⟩
          simpa [serve, Request.handle, hload, Except.bind, hh] using hend
        · obtain ⟨turn, henv, -, rfl⟩ := eq_of_finishing response env (.response 200) hend
            (List.pairwise_cons.1 hclock).1
          have hh' : op.handle lib turn.toEnv user task = .ok ⟨response, work, job⟩ := by
            rw [henv, handle_dbNow, hh]
          exact ⟨turn, by simp [serve, Request.handle, hload, Except.bind, hh']⟩
      | fail => exact absurd rfl hk
      | _ => exact absurd hm (by simp [move])
  | fail => exact absurd rfl hk
  | _ => exact absurd hm (by simp [move])

/-- A manual run, alone. -/
theorem eq_of_run (h : AloneTo lib cs s (.arrived user (.run taskId)) u) :
    ∃ turn : Turn, u = serve lib none turn user (.run taskId) s := by
  obtain ⟨k, rest, s', o, rfl, hk, hm, hend⟩ := h.move
  cases k with
  | read =>
    rw [move] at hm
    split at hm <;> rename_i hload <;> obtain ⟨rfl, rfl⟩ := Prod.mk.inj (Option.some.inj hm)
    · refine ⟨.sample 0 0 .commitFirst (.response 200), ?_⟩
      simpa [serve, runTask, hload, Except.bind] using hend
    · rename_i task
      obtain ⟨k, rest, s', o, rfl, hk, hm, hend⟩ := AloneTo.move hend
      cases k with
      | read =>
        obtain ⟨rfl, rfl⟩ := Prod.mk.inj (Option.some.inj hm)
        rcases htarget : s.row task.id with _ | target <;> rw [htarget] at hend
        · refine ⟨.sample 0 0 .commitFirst (.response 200), ?_⟩
          simpa [serve, runTask, hload, htarget, Except.bind] using hend
        · obtain ⟨k, rest, s', o, rfl, hk, hm, hend⟩ := AloneTo.move hend
          cases k with
          | send answer historyId =>
            obtain ⟨rfl, rfl⟩ := Prod.mk.inj (Option.some.inj hm)
            obtain ⟨dbNow, rfl⟩ := eq_of_lastCommit (.inr rfl) hend
            refine ⟨⟨⟨0, dbNow, 0, historyId, fun _ _ => .error ""⟩, 0, le_refl _,
              .commitFirst, answer⟩, ?_⟩
            simp [serve, runTask, hload, htarget, Except.bind]
          | fail => exact absurd rfl hk
          | _ => exact absurd hm (by simp [move])
      | fail => exact absurd rfl hk
      | _ => exact absurd hm (by simp [move])
  | fail => exact absurd rfl hk
  | _ => exact absurd hm (by simp [move])

/-! ## Creations -/

/-- The row of a creation does not depend on when it is committed, and neither does
    whether it is. -/
theorem commit_insert {row : ScheduledTask} (hinsert : work.task = .insert row)
    (dbNow dbNow' : Instant) (s : Service) : commit dbNow work s = none ∧
      commit dbNow' work s = none ∨
      ∃ t t', commit dbNow work s = some t ∧ commit dbNow' work s = some t' ∧
        ∀ id, t.part id = t'.part id := by
  have hiff : commit dbNow work s = none ↔ commit dbNow' work s =
      none := by rw [commit_eq_none, commit_eq_none]
  rcases hc : commit dbNow work s with _ | t
  · exact .inl ⟨rfl, hiff.1 hc⟩
  · rcases hc' : commit dbNow' work s with _ | t'
    · exact absurd (hc.symm.trans (hiff.2 hc')) (by simp)
    · refine .inr ⟨t, t', rfl, rfl, fun id => ?_⟩
      rw [part_commit hc, part_commit hc', hinsert]
      rfl

/-- What a creation leaves does not depend on the time of its transaction, but for the
    times of the history. -/
theorem part_finish (turn turn' : Turn) {h : Handled} {row : ScheduledTask}
    (hinsert : h.work.task = .insert row) (horder : turn'.order = turn.order)
    (hnow : turn'.jobNow = turn.jobNow) (id : TaskId) :
    (finish lib none turn h s).part id = (finish lib none turn' h s).part id := by
  have hcommit := fun s => commit_insert hinsert turn.dbNow turn'.dbNow s
  rw [finish, finish, horder, hnow]
  cases turn.order with
  | jobFirst =>
    rcases hj : tryJob lib none turn.jobNow h.job s with _ | s'
    · rfl
    · rcases hcommit s' with ⟨hc, hc'⟩ | ⟨t, t', hc, hc', hpart⟩ <;>
        simp only [tryCommit, hc, hc']
      exact hpart id
  | commitFirst =>
    rcases hcommit s with ⟨hc, hc'⟩ | ⟨t, t', hc, hc', hpart⟩ <;>
      simp only [tryCommit, hc, hc', reduceCtorEq, ↓reduceIte]
    cases hjob : h.job with
    | none => exact hpart id
    | some job =>
      obtain ⟨hraises, hruns⟩ := runJob_of_part lib turn.jobNow job (hpart id)
      rcases hj : runJob lib turn.jobNow job t with e | t₁
      · simpa [tryJob, hj, hraises e hj, Except.toOption] using hpart id
      · obtain ⟨t₁', hj', hpart'⟩ := hruns t₁ hj
        simpa [tryJob, hj, hj', Except.toOption] using hpart'

/-- A creation, alone. -/
theorem part_of_create {body : TaskCreate} (h : AloneTo lib cs s (.arrived user (.create body)) u)
    (hclock : (cs.filterMap Choice.clock).Pairwise (· ≤ ·)) :
    ∃ turn : Turn, turn.taskId ∉ s.issued ∧
      ∀ id, u.part id = (serve lib none turn user (.create body) s).part id := by
  obtain ⟨k, rest, s', o, rfl, hk, hm, hend⟩ := h.move
  cases k with
  | body env =>
    rw [move] at hm
    split at hm
    · exact absurd hm (by simp)
    · rename_i hfresh
      rcases hh : createTask lib env user body with e | hd <;> rw [hh] at hm <;>
        obtain ⟨rfl, rfl⟩ := Prod.mk.inj (Option.some.inj hm)
      · obtain rfl := hend
        exact ⟨⟨env, env.now, le_refl _, .commitFirst, .response 200⟩, hfresh,
          fun id => by simp [serve, Request.handle, hh]⟩
      · obtain ⟨turn, henv, -, rfl⟩ := eq_of_finishing hd.response env (.response 200) hend
          (List.pairwise_cons.1 hclock).1
        have hnow : env.now ≤ turn.jobNow := congrArg Env.now henv ▸ turn.now_le_jobNow
        obtain ⟨trigger, nextRunAt, row, -, -, -, hhd⟩ := createTask_eq_ok hh
        have hinsert :
            hd.work.task = .insert (newTask env user body trigger nextRunAt) := by rw [hhd]
        -- The row has the time at which it was made, not that of the commit.
        let turn' : Turn := ⟨env, turn.jobNow, hnow, turn.order, turn.answer⟩
        have hserve : serve lib none turn' user (.create body) s =
            finish lib none turn' hd { s with issued := env.taskId :: s.issued } := by
          simp [serve, Request.handle, turn', hh]
        exact ⟨turn', hfresh,
          fun id => by rw [hserve]; exact part_finish turn turn' hinsert rfl rfl id⟩
  | fail => exact absurd rfl hk
  | _ => exact absurd hm (by simp [move])

/-! ## Serializability -/

/-- `sequential` serves what arrives as its process does alone. -/
theorem serves (lib : Crontab) :
    (taskSeparation lib).Serves (program lib) Choice.clock (· ≤ ·)
      (sequential lib) Event.origin := by
  intro s i s₀ p cs u ha halone hallowed hclock
  have h : AloneTo lib cs s₀ p u := ⟨halone, hallowed⟩
  cases i with
  | request user request =>
    obtain ⟨rfl, hp⟩ := Prod.mk.inj (Option.some.inj ha)
    obtain rfl := Option.some.inj hp
    suffices hserved : ∃ turn : Turn, request.drawsFresh turn s = true ∧
        ∀ id, u.part id = (serve lib none turn user request s).part id by
      obtain ⟨turn, hfresh, hpart⟩ := hserved
      exact ⟨.request user request turn, _, if_pos hfresh, rfl, hpart⟩
    cases request with
    | create body =>
      obtain ⟨turn, hfresh, hpart⟩ := part_of_create h hclock
      exact ⟨turn, decide_eq_true hfresh, hpart⟩
    | task op taskId =>
      obtain ⟨turn, rfl⟩ := eq_of_task h hclock
      exact ⟨turn, rfl, fun _ => rfl⟩
    | run taskId =>
      obtain ⟨turn, rfl⟩ := eq_of_run h
      exact ⟨turn, rfl, fun _ => rfl⟩
  | fire taskId now coalesced =>
    obtain ⟨picked, hpick, ha⟩ := Option.map_eq_some_iff.1 ha
    obtain ⟨rfl, hp⟩ := Prod.mk.inj ha
    obtain rfl := Option.some.inj hp
    obtain ⟨fire, rfl, rfl, rfl⟩ := eq_of_fired now coalesced h
    exact ⟨.execute taskId fire, _, Option.map_eq_some_iff.2 ⟨picked, hpick, rfl⟩, rfl,
      fun _ => rfl⟩

/-- The processes of the pool are sound, and whole. -/
structure SoundWhole (lib : Crontab) (s : Pool Service Proc) : Prop where
  sound : Sound lib s
  whole : ∀ p ∈ s.procs, p.Whole lib

theorem SoundWhole.step {s s' : Pool Service Proc} {a : Act Arrival Choice} (h : SoundWhole lib s)
    (hs : (interleaving lib).step s a = some s') : SoundWhole lib s' := by
  refine ⟨h.sound.step hs, fun q hq => ?_⟩
  cases Program.moved_of_step hs with
  | arrive ha hprocs =>
    rw [hprocs] at hq
    rcases List.mem_append.1 hq with hnew | hold
    · exact whole_of_arrive ha q (Option.mem_toList.1 hnew)
    · exact h.whole q hold
  | move _ hm hp hp' =>
    rcases (mem_of_perm_toList hp').1 hq with hnew | hrest
    · subst hnew
      exact (moves_of_move hm).whole (h.whole _ (hp.mem_iff.2 List.mem_cons_self)) h.sound.storable
    · exact h.whole q (hp.mem_iff.2 (List.mem_cons_of_mem _ hrest))

/-- Processes of different tasks may overlap: what is left of every task is what serving
    the same requests and fires one at a time leaves, if no two processes of one task
    overlap, none fails, and the clocks do not go back. -/
theorem serializable_of_run {as : List (Act Arrival Choice)}
    (h : (interleaving lib).RunWith (taskSeparation lib).Apart ⟨.init, []⟩ as ⟨s, []⟩)
    (hclock : (as.filterMap (stampOf Choice.clock)).Pairwise (· ≤ ·)) :
    ∃ es t, (sequential lib).Run .init es t ∧ (∀ id, s.part id = t.part id) ∧
      (es.filterMap Event.origin).Perm (as.filterMap Act.arrival) :=
  (separated lib).serializable (I := SoundWhole lib) (serves lib) h hclock ⟨sound_init, by simp⟩
    (fun _ _ _ hI hs => hI.step hs) fun _ hI => hI.whole

/-- Two creations that overlap: the job of the second one runs between the commit and the
    job of the first one. -/
def twoCreations : List (Act Arrival Choice) :=
  [.arrive (.request .sample (.create (.sample (.interval 60 minute_pos)))),
    .arrive (.request .sample (.create (.sample (.interval 60 minute_pos)))),
    .move 0 (.body (.sample 0 1)), .move 1 (.body (.sample 0 2)), .move 0 (.commit 0),
    .move 1 (.job 0), .move 0 (.job 0), .move 0 (.commit 0)]

/-- A process that has a task is apart, wherever it goes on. -/
theorem apart_of_on {s : Pool Service Proc} {n : ℕ} {k : Choice} {p : Proc} {id : TaskId}
    (hk : k ≠ .fail) (hn : s.procs[n]? = some p) (hst : p.stage = .on id) :
    (taskSeparation lib).Apart s (.move n k) := by
  refine ⟨hk, fun q j hq hfresh => ?_⟩
  obtain rfl := Option.some.inj (hn.symm.trans hq)
  exact absurd (hst.symm.trans hfresh) (by simp)

theorem serializable_twoCreations : ∃ s, (interleaving .never).RunWith (taskSeparation .never).Apart
      ⟨.init, []⟩ twoCreations ⟨s, []⟩ ∧ s.row 1 ≠ none ∧ s.row 2 ≠ none ∧
    ∃ es t, (sequential .never).Run .init es t ∧ (∀ id, s.part id = t.part id) ∧
      (es.filterMap Event.origin).Perm (twoCreations.filterMap Act.arrival) := by
  obtain ⟨s, hs, hone, htwo⟩ : ∃ s, (interleaving .never).RunWith (taskSeparation .never).Apart
      ⟨.init, []⟩ twoCreations ⟨s, []⟩ ∧ s.row 1 ≠ none ∧ s.row 2 ≠ none := by
    refine ⟨_, .cons ?_ rfl <| .cons ?_ rfl <| .cons ?_ rfl <| .cons ?_ rfl <| .cons ?_ rfl <|
      .cons ?_ rfl <|
      .cons ?_ rfl <| .cons ?_ rfl .nil, ?_, ?_⟩
    · exact fun k hk => absurd hk (Option.some_ne_none k).symm
    · exact fun k hk => absurd hk (Option.some_ne_none k).symm
    · refine ⟨by simp [taskSeparation], fun p k _ _ _ q hq => ?_⟩
      rcases List.mem_pair.1 hq with rfl | rfl <;> simp [taskSeparation, Proc.stage]
    · refine ⟨by simp [taskSeparation], fun p k _ _ hd q hq => ?_⟩
      obtain rfl : 2 = k := Option.some.inj hd
      rcases List.mem_pair.1 hq with rfl | rfl
      · exact fun hst => absurd (Stage.on.inj hst) (by decide)
      · simp [taskSeparation, Proc.stage]
    · exact apart_of_on (by simp) rfl rfl
    · exact apart_of_on (by simp) rfl rfl
    · exact apart_of_on (by simp) rfl rfl
    · exact apart_of_on (by simp) rfl rfl
    · exact Option.some_ne_none _
    · exact Option.some_ne_none _
  exact ⟨s, hs, hone, htwo, serializable_of_run hs (by decide)⟩

end SchedulerLm
