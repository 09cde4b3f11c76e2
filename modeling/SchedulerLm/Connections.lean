import SchedulerLm.Base.Connections
import SchedulerLm.RowSecurity

/-!
# Sessions on pooled connections

All sessions of the service share the connections of one engine: those of the requests
(`get_db`), those of the scheduler (`execute_scheduled_task`, `run_task_manually`), and
others, which set nothing: that of `/health`, and those of the scheduler's own data store.
The policies read what a session has set with `set_config(..., true)`, which holds until the
end of its transaction. No session executes a statement after that: only `run_task` commits
by itself, as the last thing it does.

A connection is not as new afterwards: a setting that has been null is empty from then on.
That is no user's name, so whatever session has used a connection before, and whatever the
others do meanwhile, each statement is confined to the rows its own session may touch
(`confined_of_run`).

All this is about a database role that does not bypass row-level security, as a superuser
does; the role `docker-compose.yml` creates is one.
-/

namespace SchedulerLm

open Ternary RowPolicies Transition

/-- Whose a session is. -/
inductive SessionRole
  | user (userId : UserId)
  | scheduler
  | other
  deriving DecidableEq

/-- What a session sets when its transaction begins. -/
def SessionRole.rls : SessionRole → Settings → Settings
  | .user userId => setUserRls userId
  | .scheduler => setSchedulerRls
  | .other => id

/-- A setting after a transaction: what it was before, or empty if it was null and has been
    set. -/
def afterTransaction (outer current : Option String) : Option String :=
  current.map fun _ => outer.getD ""

/-- `set_config(..., true)` on the connections of the pool. -/
def setConfig : Connections.Protocol SessionRole Settings where
  fresh := ⟨none, none⟩
  enter := SessionRole.rls
  leave outer current :=
    { currentUserId := afterTransaction outer.currentUserId current.currentUserId
      isScheduler := afterTransaction outer.isScheduler current.isScheduler }

/-- The statement does what its session may do, whatever rows it finds. One of a user
    returns and changes rows of the user only, and would do the same without the others.
    One of the scheduler has all the tasks. Any other one has no row that belongs to
    anyone. -/
structure Executed.Confined (e : Connections.Executed SessionRole Settings Sql) : Prop where
  settings : ∃ base : Settings, base.Cleared ∧ e.settings = e.role.rls base
  user : ∀ userId, e.role = .user userId → ∀ db reply db', e.statement.run e.settings db =
    some (reply, db') → Isolated userId reply ∧ db'.others userId = db.others userId ∧
      e.statement.run e.settings (db.own userId) = some (reply, db'.own userId)
  scheduler : e.role = .scheduler → ∀ st, e.statement = .tasks st →
    ∀ db, e.statement.Admitted e.settings db
  other : e.role = .other → ∀ db reply db', e.statement.run e.settings db = some (reply, db') →
    Isolated "" reply ∧ db'.others "" = db.others ""

variable {base : Settings} {outer current : Option String} {userId : UserId} {q : Sql}
  {db db' : Database} {reply : Reply}

/-! ## What a transaction leaves -/

theorem all_afterTransaction (h : outer.all (· = "") = true) (current : Option String) :
    (afterTransaction outer current).all (· = "") = true := by
  cases current with
  | none => rfl
  | some value =>
    cases outer with
    | none => simp [afterTransaction]
    | some found => exact h

/-- A transaction leaves a connection with settings that are null or empty. -/
theorem keeps_setConfig : setConfig.Keeps Settings.Cleared where
  fresh := ⟨rfl, rfl⟩
  leave _ _ h := ⟨all_afterTransaction h.1 _, all_afterTransaction h.2 _⟩

/-! ## What a statement touches -/

/-- Under cleared settings, the policies let no row pass but those of the empty user. -/
theorem holds_of_cleared {ρ : Type*} (hbase : base.Cleared) (owner : ρ → UserId) (row : ρ) :
    ((ofCurrentUser owner base row).holds = true → owner row = "") ∧
      (ofScheduler base row).holds = false := by
  obtain ⟨huser, hscheduler⟩ := hbase
  constructor
  · rcases h : base.currentUserId with _ | value
    · simp [ofCurrentUser, h, Truth.eq, Truth.holds]
    · rw [h] at huser
      have hvalue : value = "" := by simpa using huser
      simp [ofCurrentUser, h, hvalue, Truth.eq]
  · rcases h : base.isScheduler with _ | value
    · simp [ofScheduler, h, Truth.eq, Truth.holds]
    · rw [h] at hscheduler
      have hvalue : value = "" := by simpa using hscheduler
      simp [ofScheduler, h, hvalue, Truth.eq]

theorem confined_scheduledTasks_of_cleared (hbase : base.Cleared) :
    Confined scheduledTasksPolicies base fun row => row.userId = "" := by
  intro p hp row hpass
  obtain ⟨huser, hscheduler⟩ := holds_of_cleared hbase ScheduledTask.userId row
  rcases List.mem_pair.1 hp with rfl | rfl
  · exact decide_eq_true
      (huser (by simpa [Policy.passes, Policy.checks, scheduledTasksUserAll] using hpass))
  · simp [Policy.passes, Policy.checks, scheduledTasksScheduler, hscheduler] at hpass

theorem confined_taskHistory_of_cleared (hbase : base.Cleared) :
    Confined taskHistoryPolicies base fun row => row.userId = "" := by
  intro p hp row hpass
  obtain ⟨huser, hscheduler⟩ := holds_of_cleared hbase TaskHistoryRow.owner row
  rw [taskHistoryPolicies, List.mem_cons, List.mem_pair] at hp
  rcases hp with rfl | rfl | rfl
  · exact decide_eq_true
      (huser (by simpa [Policy.passes, Policy.checks, taskHistoryUserSelect] using hpass))
  · exact decide_eq_true
      (huser (by simpa [Policy.passes, Policy.checks, taskHistoryUserInsert] using hpass))
  · simp [Policy.passes, Policy.checks, taskHistorySchedulerInsert, hscheduler] at hpass

/-- A statement of a session that has set nothing has no row that belongs to anyone. -/
theorem run_of_cleared (hbase : base.Cleared) (h : q.run base db = some (reply, db')) :
    Isolated "" reply ∧ db'.others "" = db.others "" := by
  cases q with
  | tasks st =>
    obtain ⟨⟨rows, left⟩, hrun, h⟩ := Option.map_eq_some_iff.1 h
    obtain ⟨rfl, rfl⟩ := Prod.mk.inj h
    obtain ⟨hrows, hothers⟩ := Statement.run_others (confined_scheduledTasks_of_cleared hbase) hrun
    refine ⟨⟨fun row hrow => of_decide_eq_true (hrows row hrow), by simp⟩, ?_⟩
    rw [Database.others, Database.others, hothers]
  | history st =>
    obtain ⟨⟨rows, left⟩, hrun, h⟩ := Option.map_eq_some_iff.1 h
    obtain ⟨rfl, rfl⟩ := Prod.mk.inj h
    obtain ⟨hrows, hothers⟩ := Statement.run_others (confined_taskHistory_of_cleared hbase) hrun
    refine ⟨⟨by simp, fun row hrow => of_decide_eq_true (hrows row hrow)⟩, ?_⟩
    rw [Database.others, Database.others, hothers]

/-! ## The runs -/

/-- Whichever connections the sessions take, and however they interleave, commit, fail and
    give them back, every statement is confined to what its own session may touch, for a
    role that the policies apply to. -/
theorem confined_of_run {as : List (Act SessionRole (Connections.Choice Sql))}
    {s : Pool (Connections.State SessionRole Settings Sql)
      (Connections.Session SessionRole Settings)}
    (h : (Connections.system setConfig).Run ⟨.init, []⟩ as s) :
    ∀ e ∈ s.shared.executed, Executed.Confined e := by
  intro e he
  obtain ⟨base, hbase, hsettings⟩ := Connections.executed_of_run keeps_setConfig h e he
  refine ⟨⟨base, hbase, hsettings⟩, fun userId hrole db reply db' hrun => ?_,
    fun hrole st hst db => ?_, fun hrole db reply db' hrun => ?_⟩
  · rw [hsettings, hrole] at hrun ⊢
    exact Sql.run_isolated hbase hrun
  · rw [hsettings, hrole, hst]
    exact admitted_tasks_scheduler st
  · rw [hsettings, hrole] at hrun
    exact run_of_cleared hbase hrun

/-- The SELECT of all tasks. -/
def selectAll : Sql := .tasks (.select fun _ => true)

/-- A request of "alice", then one without a user, then an execution, then a request of
    "bob", all on one connection. -/
def takingTurns : List (Act SessionRole (Connections.Choice Sql)) :=
  [.arrive (.user "alice"), .move 0 (.begin none), .move 0 (.execute selectAll),
    .move 0 (.finish true),
    .arrive .other, .move 0 (.begin (some 0)), .move 0 (.execute selectAll), .move 0 (.finish true),
    .arrive .scheduler, .move 0 (.begin (some 0)), .move 0 (.execute selectAll),
    .move 0 (.finish true),
    .arrive (.user "bob"), .move 0 (.begin (some 0)), .move 0 (.execute selectAll),
    .move 0 (.finish true)]

/-- What has been set before is empty, for the others. -/
theorem confined_takingTurns : ∃ s, (Connections.system setConfig).Run ⟨.init, []⟩ takingTurns s ∧
    s.shared.executed.map (·.settings) =
      [⟨some "alice", none⟩, ⟨some "", none⟩, ⟨some "", some "true"⟩,
        ⟨some "bob", some ""⟩] ∧
    ∀ e ∈ s.shared.executed, Executed.Confined e := by
  obtain ⟨s, hs, hsettings⟩ :
    ∃ s, (Connections.system setConfig).exec ⟨.init, []⟩ takingTurns = some s ∧
      s.shared.executed.map (·.settings) =
        [⟨some "alice", none⟩, ⟨some "", none⟩, ⟨some "", some "true"⟩,
          ⟨some "bob", some ""⟩] :=
    ⟨_, rfl, rfl⟩
  have hrun := System.runWith_of_exec (D := fun _ => True) (fun _ _ => trivial) hs
  exact ⟨s, hrun, hsettings, confined_of_run hrun⟩

end SchedulerLm
