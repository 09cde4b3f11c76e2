import SchedulerLm.Base.RowPolicies
import SchedulerLm.Lifecycle
import SchedulerLm.Tenancy

/-!
# Row-level security

The policies of the two migrations, and the statements the service issues under
them: those of the requests, in a session that has set its user (`setUserRls`), and
those of the executions, in a session that is the scheduler's (`setSchedulerRls`).

The sessions of a user neither read nor write rows of another one, whatever they do
(`run_isolated`), and the policies admit all that the requests do. They do not admit
all that an execution does: its history row is inserted with the time set by the
database returned, and no policy of `task_history` lets a scheduler select
(`admitted_iff`).
-/

namespace SchedulerLm

open Ternary RowPolicies Relational Transition

/-! ## The policies -/

/-- The settings of a session, null until they are set. -/
structure Settings where
  /-- `app.current_user_id`. -/
  currentUserId : Option String
  /-- `app.is_scheduler`. -/
  isScheduler : Option String
  deriving DecidableEq

/-- The settings at the beginning of a transaction: null, or empty on a connection
    where an earlier transaction has set them. -/
def Settings.Cleared (settings : Settings) : Prop :=
  settings.currentUserId.all (· = "") = true ∧ settings.isScheduler.all (· = "") = true

/-- `set_user_rls`. -/
def setUserRls (userId : UserId) (settings : Settings) : Settings :=
  { settings with currentUserId := some userId }

/-- `set_scheduler_rls`. -/
def setSchedulerRls (settings : Settings) : Settings := { settings with isScheduler := some "true" }

/-- `user_id = current_setting('app.current_user_id', true)`. -/
def ofCurrentUser {ρ : Type*} (userId : ρ → UserId) (settings : Settings) (row : ρ) : Truth :=
  .eq (some (userId row)) settings.currentUserId

/-- `current_setting('app.is_scheduler', true) = 'true'`. -/
def ofScheduler {ρ : Type*} (settings : Settings) (_row : ρ) : Truth :=
  .eq settings.isScheduler (some "true")

def scheduledTasksUserAll : Policy Settings ScheduledTask where
  usingExpr := some (ofCurrentUser ScheduledTask.userId)
  withCheck := some (ofCurrentUser ScheduledTask.userId)

def scheduledTasksScheduler : Policy Settings ScheduledTask where
  usingExpr := some ofScheduler
  withCheck := some ofScheduler

/-- The owner of a history row. -/
abbrev TaskHistoryRow.owner (row : TaskHistoryRow) : UserId := row.userId

def taskHistoryUserSelect : Policy Settings TaskHistoryRow where
  command := some .select
  usingExpr := some (ofCurrentUser TaskHistoryRow.owner)

def taskHistoryUserInsert : Policy Settings TaskHistoryRow where
  command := some .insert
  withCheck := some (ofCurrentUser TaskHistoryRow.owner)

def taskHistorySchedulerInsert : Policy Settings TaskHistoryRow where
  command := some .insert
  withCheck := some ofScheduler

/-- The policies of `scheduled_tasks`. -/
def scheduledTasksPolicies : List (Policy Settings ScheduledTask) :=
  [scheduledTasksUserAll, scheduledTasksScheduler]

/-- The policies of `task_history`. -/
def taskHistoryPolicies : List (Policy Settings TaskHistoryRow) :=
  [taskHistoryUserSelect, taskHistoryUserInsert, taskHistorySchedulerInsert]

/-! ## Statements -/

/-- The rows of the two tables. -/
structure Database where
  tasks : List ScheduledTask
  history : List TaskHistoryRow

/-- The tables of the service. -/
def Service.database (s : Service) : Database := ⟨s.tasks.rows, s.history⟩

/-- The statements on the two tables. -/
inductive Sql
  | tasks (statement : Statement ScheduledTask)
  | history (statement : Statement TaskHistoryRow)

/-- What a statement returns. -/
structure Reply where
  tasks : List ScheduledTask := []
  history : List TaskHistoryRow := []

/-- What a statement returns and leaves, unless it raises. -/
def Sql.run (settings : Settings) (db : Database) : Sql → Option (Reply × Database)
  | .tasks st => (st.run scheduledTasksPolicies settings db.tasks).map fun r =>
      ({ tasks := r.1 }, { db with tasks := r.2 })
  | .history st => (st.run taskHistoryPolicies settings db.history).map fun r =>
      ({ history := r.1 }, { db with history := r.2 })

/-- The statements of a session, until one raises. -/
def runAll (settings : Settings) : List Sql → Database → Option (List Reply × Database)
  | [], db => some ([], db)
  | q :: qs, db => (q.run settings db).bind fun r =>
      (runAll settings qs r.2).map fun rs => (r.1 :: rs.1, rs.2)

/-- The policies admit the statement. -/
def Sql.Admitted (settings : Settings) (db : Database) : Sql → Prop
  | .tasks st => st.Admitted scheduledTasksPolicies settings db.tasks
  | .history st => st.Admitted taskHistoryPolicies settings db.history

/-- What a statement leaves without policies. -/
def Sql.after (db : Database) : Sql → Database
  | .tasks st => { db with tasks := (st.runUnrestricted db.tasks).2 }
  | .history st => { db with history := (st.runUnrestricted db.history).2 }

/-- The policies admit the statements, one after the other. -/
def AllAdmitted (settings : Settings) : List Sql → Database → Prop
  | [], _ => True
  | q :: qs, db => q.Admitted settings db ∧ AllAdmitted settings qs (q.after db)

/-- A session: whose it is, and the statements it issues. -/
structure Session where
  rls : Settings → Settings
  statements : List Sql

/-! ## The statements of the service -/

/-- The SELECT of a task, as `_get_task_or_404` issues it: `_apply_user_scope`
    restricts it to the rows of the user. -/
def selectTask (user : CurrentUser) (taskId : TaskId) : Sql :=
  .tasks (.select fun task => task.userId = user.userId ∧ task.id = taskId)

/-- The SELECT of `_load_task`. -/
def loadTask (taskId : TaskId) : Sql := .tasks (.select fun task => task.id = taskId)

/-- The statements of a flush. The columns the database sets are returned by the
    INSERT; those an UPDATE sets are not. -/
def UnitOfWork.statements (dbNow : Instant) (work : UnitOfWork) : List Sql :=
  (match work.task with
    | .nothing => []
    | .insert row => [.tasks (.insert row true)]
    | .update id changes => [.tasks (.update (fun task => task.id = id) (changes.apply dbNow))]
    | .delete id => [.tasks (.delete fun task => task.id = id)]) ++
  work.history.map fun row => .history (.insert { row with createdAt := dbNow } true)

/-- The statements of `create_task`: its task is flushed and refreshed before the
    history row is added; an id that is present makes the flush raise. -/
def createStatements (dbNow : Instant) (task : ScheduledTask) (history : List TaskHistory)
    (s : Service) : List Sql :=
  UnitOfWork.statements dbNow { task := .insert task } ++
    if (s.row task.id).isSome then []
    else loadTask task.id :: UnitOfWork.statements dbNow { history := history }

/-- The SELECTs of a query: the count and the page of a list have the same filter. -/
def Query.statements (user : CurrentUser) : Query → List Sql
  | .tasks query =>
    let select : Sql := .tasks (.select fun task => task.userId = user.userId ∧ query.filters task)
    [select, select]
  | .schedule taskId _ => [selectTask user taskId]
  | .history query =>
    let select : Sql := .history (.select fun row => row.userId = user.userId ∧
      query.filters none row)
    [select, select]
  | .taskHistory taskId query =>
    let select : Sql :=
      .history (.select fun row => row.userId = user.userId ∧ query.filters (some taskId) row)
    [select, select]

/-- The statements of a handler that has returned. -/
def handledStatements (dbNow : Instant) : Except Failure Handled → List Sql
  | .error _ => []
  | .ok h => h.work.statements dbNow

variable (lib : Crontab)

/-- The sessions of what the service does. -/
def Event.sessions (s : Service) : Event → List Session
  | .request user (.create body) turn =>
    [⟨setUserRls user.userId,
      match createTask lib turn.toEnv user body with
      | .error _ => []
      | .ok h =>
        match h.work.task with
        | .insert task => createStatements turn.dbNow task h.work.history s
        | _ => []⟩]
  | .request user (.task op taskId) turn =>
    [⟨setUserRls user.userId, selectTask user taskId ::
      handledStatements turn.dbNow ((Request.task op taskId).handle lib turn user s)⟩]
  | .request user (.run taskId) turn =>
    -- `run_task_manually` opens a session of its own.
    match getTaskOr404 user taskId s with
    | .error _ => [⟨setUserRls user.userId, [selectTask user taskId]⟩]
    | .ok task =>
      [⟨setUserRls user.userId, selectTask user taskId ::
        match runTask turn user taskId s with
        | .error _ => []
        | .ok (_, _, work) => work.statements turn.dbNow⟩,
        ⟨setSchedulerRls, [loadTask task.id]⟩]
  | .query user read _ => [⟨setUserRls user.userId, read.statements user⟩]
  | .execute taskId fire =>
    [⟨setSchedulerRls, loadTask taskId ::
      match loadActive taskId s with
      | none => []
      | some task => (executed fire.historyId task fire.answer.outcome).1.statements fire.dbNow⟩]

/-- The policies admit all that the service does. -/
def Event.Admitted (base : Settings) (s : Service) (e : Event) : Prop :=
  ∀ session ∈ e.sessions lib s, AllAdmitted (session.rls base) session.statements s.database

variable {lib} {base : Settings} {s : Service} {db db' : Database} {userId : UserId}
  {user : CurrentUser} {q : Sql} {qs : List Sql} {replies : List Reply}

/-! ## Tenants -/

/-- The rows of a user. -/
def Database.own (userId : UserId) (db : Database) : Database :=
  ⟨db.tasks.filter fun row => row.userId = userId, db.history.filter fun row => row.userId = userId⟩

/-- The rows of the others. -/
def Database.others (userId : UserId) (db : Database) : Database :=
  ⟨db.tasks.filter fun row => !decide (row.userId = userId),
    db.history.filter fun row => !decide (row.userId = userId)⟩

theorem holds_ofCurrentUser {ρ : Type*} (owner : ρ → UserId) (row : ρ) :
    (ofCurrentUser owner (setUserRls userId base) row).holds = decide (owner row = userId) := by
  simp [ofCurrentUser, setUserRls, Truth.eq]

theorem holds_ofScheduler {ρ : Type*} (hbase : base.Cleared) (row : ρ) :
    (ofScheduler (setUserRls userId base) row).holds = false := by
  obtain ⟨-, hscheduler⟩ := hbase
  rcases h : base.isScheduler with _ | value
  · simp [ofScheduler, setUserRls, h, Truth.eq, Truth.holds]
  · rw [h] at hscheduler
    have hvalue : value = "" := by simpa using hscheduler
    simp [ofScheduler, setUserRls, h, hvalue, Truth.eq]

theorem confined_scheduledTasks (hbase : base.Cleared) :
    Confined scheduledTasksPolicies (setUserRls userId base) fun row => row.userId = userId := by
  intro p hp row hpass
  rcases List.mem_pair.1 hp with rfl | rfl
  · simpa [Policy.passes, Policy.checks, scheduledTasksUserAll, holds_ofCurrentUser] using hpass
  · simp [Policy.passes, Policy.checks, scheduledTasksScheduler, holds_ofScheduler hbase] at hpass

theorem confined_taskHistory (hbase : base.Cleared) :
    Confined taskHistoryPolicies (setUserRls userId base) fun row => row.userId = userId := by
  intro p hp row hpass
  rw [taskHistoryPolicies, List.mem_cons, List.mem_pair] at hp
  rcases hp with rfl | rfl | rfl
  · simpa [Policy.passes, Policy.checks, taskHistoryUserSelect, holds_ofCurrentUser] using hpass
  · simpa [Policy.passes, Policy.checks, taskHistoryUserInsert, holds_ofCurrentUser] using hpass
  · simp [Policy.passes, Policy.checks, taskHistorySchedulerInsert,
      holds_ofScheduler hbase] at hpass

/-- The rows returned are the user's. -/
structure Isolated (userId : UserId) (reply : Reply) : Prop where
  tasks : ∀ row ∈ reply.tasks, row.userId = userId
  history : ∀ row ∈ reply.history, row.userId = userId

/-- A statement of a user returns rows of the user only, leaves those of the others,
    and would return and leave the same without these. -/
theorem Sql.run_isolated (hbase : base.Cleared) {reply : Reply}
    (h : q.run (setUserRls userId base) db = some (reply, db')) :
    Isolated userId reply ∧ db'.others userId = db.others userId ∧
      q.run (setUserRls userId base) (db.own userId) = some (reply, db'.own userId) := by
  cases q with
  | tasks st =>
    obtain ⟨⟨rows, left⟩, hrun, h⟩ := Option.map_eq_some_iff.1 h
    obtain ⟨rfl, rfl⟩ := Prod.mk.inj h
    obtain ⟨hrows, hothers⟩ := Statement.run_others (confined_scheduledTasks hbase) hrun
    have hown := Statement.run_filter (@confined_scheduledTasks base userId hbase) st db.tasks
    refine ⟨⟨fun row hrow => of_decide_eq_true (hrows row hrow), by simp⟩, ?_, ?_⟩
    · rw [Database.others, Database.others, hothers]
    · rw [run, Database.own, hown, hrun]
      rfl
  | history st =>
    obtain ⟨⟨rows, left⟩, hrun, h⟩ := Option.map_eq_some_iff.1 h
    obtain ⟨rfl, rfl⟩ := Prod.mk.inj h
    obtain ⟨hrows, hothers⟩ := Statement.run_others (confined_taskHistory hbase) hrun
    have hown := Statement.run_filter (@confined_taskHistory base userId hbase) st db.history
    refine ⟨⟨by simp, fun row hrow => of_decide_eq_true (hrows row hrow)⟩, ?_, ?_⟩
    · rw [Database.others, Database.others, hothers]
    · rw [run, Database.own, hown, hrun]
      rfl

/-- A session of a user returns rows of the user only, leaves those of the others,
    and would return and leave the same without these. -/
theorem run_isolated (hbase : base.Cleared)
    (h : runAll (setUserRls userId base) qs db = some (replies, db')) :
    (∀ reply ∈ replies, Isolated userId reply) ∧ db'.others userId = db.others userId ∧
      runAll (setUserRls userId base) qs (db.own userId) = some (replies, db'.own userId) := by
  induction qs generalizing db replies with
  | nil =>
    obtain ⟨rfl, rfl⟩ := Prod.mk.inj (Option.some.inj h)
    exact ⟨by simp, rfl, rfl⟩
  | cons q qs ih =>
    obtain ⟨⟨reply, mid⟩, hq, h⟩ := Option.bind_eq_some_iff.1 h
    obtain ⟨⟨rest, left⟩, hqs, h⟩ := Option.map_eq_some_iff.1 h
    obtain ⟨rfl, rfl⟩ := Prod.mk.inj h
    obtain ⟨hreply, hothers, hown⟩ := Sql.run_isolated hbase hq
    obtain ⟨hrest, hothers', hown'⟩ := ih hqs
    refine ⟨fun r hr => ?_, hothers'.trans hothers, ?_⟩
    · rcases List.mem_cons.1 hr with rfl | hr
      · exact hreply
      · exact hrest r hr
    · rw [runAll, hown, Option.bind_some, hown', Option.map_some]

/-- The sessions of users are isolated, whatever they do. -/
def Isolates (base : Settings) : Prop :=
  ∀ userId qs db replies db', runAll (setUserRls userId base) qs db = some (replies, db') →
    (∀ reply ∈ replies, Isolated userId reply) ∧ db'.others userId = db.others userId ∧
      runAll (setUserRls userId base) qs (db.own userId) = some (replies, db'.own userId)

/-! ## What is admitted -/

theorem allAdmitted_append {settings : Settings} {qs rs : List Sql} {db : Database} :
    AllAdmitted settings (qs ++ rs) db ↔
      AllAdmitted settings qs db ∧ AllAdmitted settings rs (qs.foldl Sql.after db) := by
  induction qs generalizing db with
  | nil => exact (and_iff_right trivial).symm
  | cons q qs ih => exact (and_congr_right fun _ => ih).trans and_assoc.symm

theorem admitted_tasks_of_own {st : Statement ScheduledTask}
    (h : ∀ row ∈ st.rows db.tasks, row.userId = userId) :
    (Sql.tasks st).Admitted (setUserRls userId base) db := by
  refine admitted_of_forAll (p := scheduledTasksUserAll) (by simp [scheduledTasksPolicies]) rfl
    fun row hrow => ?_
  simp [Policy.passes, Policy.checks, scheduledTasksUserAll, holds_ofCurrentUser, h row hrow]

theorem admitted_tasks_scheduler (st : Statement ScheduledTask) :
    (Sql.tasks st).Admitted (setSchedulerRls base) db := by
  refine admitted_of_forAll (p := scheduledTasksScheduler) (by simp [scheduledTasksPolicies]) rfl
    fun row hrow => ?_
  simp [Policy.passes, Policy.checks, scheduledTasksScheduler, ofScheduler,
    setSchedulerRls, Truth.eq]

theorem visible_taskHistory_of_own {row : TaskHistoryRow} (h : row.userId = userId) :
    visible taskHistoryPolicies (setUserRls userId base) .select row = true := by
  refine visible_of_mem (p := taskHistoryUserSelect) (by simp [taskHistoryPolicies]) rfl ?_
  simp [Policy.passes, taskHistoryUserSelect, holds_ofCurrentUser, h]

theorem admitted_history_select {condition : TaskHistoryRow → Bool}
    (h : ∀ row, condition row = true → row.userId = userId) :
    (Sql.history (.select condition)).Admitted (setUserRls userId base) db :=
  admitted_select fun row _ hcond => visible_taskHistory_of_own (h row hcond)

theorem allAdmitted_history {dbNow : Instant} {rows : List TaskHistory}
    (h : ∀ row ∈ rows, row.userId = userId) (db : Database) :
    AllAdmitted (setUserRls userId base)
      (rows.map fun row => Sql.history (.insert { row with createdAt := dbNow } true)) db := by
  induction rows generalizing db with
  | nil => trivial
  | cons row rows ih =>
    have hrow := h row List.mem_cons_self
    refine ⟨admitted_insert_iff.2 ⟨?_, fun _ => visible_taskHistory_of_own hrow⟩,
      ih (fun r hr => h r (List.mem_cons_of_mem row hr)) _⟩
    refine writable_of_mem (p := taskHistoryUserInsert) (by simp [taskHistoryPolicies]) rfl ?_
    simp [Policy.checks, taskHistoryUserInsert, holds_ofCurrentUser, TaskHistoryRow.owner, hrow]

/-- The rows the write is about belong to the user. -/
def TaskWrite.BelongsTo (userId : UserId) (db : Database) : TaskWrite → Prop
  | .nothing => True
  | .insert row => row.userId = userId
  | .update id _ | .delete id => ∀ task ∈ db.tasks, task.id = id → task.userId = userId

/-- The flush of what belongs to the user is admitted. -/
theorem allAdmitted_statements {dbNow : Instant} {work : UnitOfWork}
    (hrows : ∀ row ∈ work.history, row.userId = userId) (htask : work.task.BelongsTo userId db) :
    AllAdmitted (setUserRls userId base) (work.statements dbNow) db := by
  refine allAdmitted_append.2 ⟨?_, allAdmitted_history hrows _⟩
  cases hw : work.task with
  | nothing => trivial
  | insert row =>
    rw [hw] at htask
    refine ⟨admitted_tasks_of_own fun r hr => ?_, trivial⟩
    exact List.mem_singleton.1 hr ▸ htask
  | update id changes =>
    rw [hw] at htask
    -- The row before and after: an update keeps the owner.
    have hold : ∀ task ∈ db.tasks.filter fun task => task.id = id, task.userId = userId := by
      intro task hmem
      obtain ⟨hmem, hid⟩ := List.mem_filter.1 hmem
      exact htask task hmem (of_decide_eq_true hid)
    refine ⟨admitted_tasks_of_own fun row hrow => ?_, trivial⟩
    rcases List.mem_append.1 hrow with hrow | hrow
    · exact hold row hrow
    · obtain ⟨old, hmem, rfl⟩ := List.mem_map.1 hrow
      exact hold old hmem
  | delete id =>
    rw [hw] at htask
    refine ⟨admitted_tasks_of_own fun row hrow => ?_, trivial⟩
    obtain ⟨hmem, hid⟩ := List.mem_filter.1 hrow
    exact htask row hmem (of_decide_eq_true hid)

theorem admitted_selectTask (user : CurrentUser) (taskId : TaskId) :
    (selectTask user taskId).Admitted (setUserRls user.userId base) db := by
  refine admitted_tasks_of_own fun row hrow => ?_
  have hcond := of_decide_eq_true (List.mem_filter.1 hrow).2
  exact hcond.1

/-- What an operation has gathered belongs to its user. -/
theorem belongsTo_of_handle {op : TaskOp} {env : Env} {task : ScheduledTask} {h : Handled}
    (hrow : s.row task.id = some task) (howner : task.userId = user.userId)
    (hh : op.handle lib env user task = .ok h) :
    (∀ row ∈ h.work.history, row.userId = user.userId) ∧
      h.work.task.BelongsTo user.userId s.database := by
  have hg := gathered_handle howner hh
  have hid : ∀ id, h.work.task.taskId = some id → ∀ row ∈ s.tasks.rows, row.id = id →
      row.userId = user.userId := by
    intro id hid row hmem hrowid
    have htask := (about_of_handle hh).1 id (hg.about.2.1 id hid)
    have hfound := Table.find_of_mem hmem
    rw [hrowid, ← htask] at hfound
    exact Option.some.inj (hrow.symm.trans hfound) ▸ howner
  refine ⟨hg.userId.1, ?_⟩
  cases hw : h.work.task with
  | nothing => trivial
  | insert row => exact hg.userId.2 row hw
  | update id changes => exact hid id (by rw [hw]; rfl)
  | delete id => exact hid id (by rw [hw]; rfl)

theorem admitted_create (user : CurrentUser) (body : TaskCreate) (turn : Turn) (s : Service) :
    (Event.request user (.create body) turn).Admitted lib base s := by
  intro session hsession
  obtain rfl := List.mem_singleton.1 hsession
  dsimp only
  rcases hc : createTask lib turn.toEnv user body with e | h
  · trivial
  · have hg := gathered_createTask hc
    obtain ⟨trigger, nextRunAt, row, -, -, -, rfl⟩ := createTask_eq_ok hc
    refine allAdmitted_append.2 ⟨allAdmitted_statements (by simp) rfl, ?_⟩
    split
    · trivial
    · rename_i hnew
      refine ⟨admitted_tasks_of_own fun r hr => ?_, allAdmitted_statements hg.userId.1 trivial⟩
      -- The id is new: the row that is refreshed is the one inserted.
      obtain ⟨hmem, hid⟩ := List.mem_filter.1 hr
      rcases List.mem_append.1 hmem with hmem | hmem
      · have hfound := Table.find_of_mem hmem
        rw [of_decide_eq_true hid] at hfound
        exact absurd (Option.isSome_iff_exists.2 ⟨r, hfound⟩) hnew
      · exact List.mem_singleton.1 hmem ▸ rfl

theorem admitted_task (user : CurrentUser) (op : TaskOp) (taskId : TaskId) (turn : Turn)
    (s : Service) :
    (Event.request user (.task op taskId) turn).Admitted lib base s := by
  intro session hsession
  obtain rfl := List.mem_singleton.1 hsession
  refine ⟨admitted_selectTask user taskId, ?_⟩
  rcases hh : (Request.task op taskId).handle lib turn user s with e | h
  · trivial
  · obtain ⟨task, hload, hhandle⟩ := Raising.bind_eq_ok.1 hh
    obtain ⟨hrow, howner⟩ := getTaskOr404_eq_ok.1 hload
    obtain rfl : task.id = taskId := Table.key_of_find hrow
    obtain ⟨hrows, htask⟩ := belongsTo_of_handle hrow howner hhandle
    exact allAdmitted_statements hrows htask

/-- A run reads the task as its user, and then again as the scheduler. -/
theorem admitted_run (user : CurrentUser) (taskId : TaskId) (turn : Turn) (s : Service) :
    (Event.request user (.run taskId) turn).Admitted lib base s := by
  intro session hsession
  rw [Event.sessions] at hsession
  split at hsession
  · obtain rfl := List.mem_singleton.1 hsession
    exact ⟨admitted_selectTask user taskId, trivial⟩
  · rename_i task hload
    rcases List.mem_pair.1 hsession with rfl | rfl
    · refine ⟨admitted_selectTask user taskId, ?_⟩
      dsimp only
      split
      · trivial
      · rename_i loaded target work hrun
        obtain ⟨loaded', -, hrun⟩ := Raising.bind_eq_ok.1 hrun
        split at hrun
        · exact absurd hrun (by simp)
        · obtain ⟨-, -, rfl⟩ := by simpa using hrun
          refine allAdmitted_statements (fun row hrow => ?_) trivial
          exact List.mem_singleton.1 hrow ▸ rfl
    · exact ⟨admitted_tasks_scheduler _, trivial⟩

/-- All that a user requests is admitted. -/
theorem admitted_request (user : CurrentUser) (request : Request) (turn : Turn) (s : Service) :
    (Event.request user request turn).Admitted lib base s := by
  cases request with
  | create body => exact admitted_create user body turn s
  | task op taskId => exact admitted_task user op taskId turn s
  | run taskId => exact admitted_run user taskId turn s

theorem admitted_query (user : CurrentUser) (query : Query) (env : QueryEnv) (s : Service) :
    (Event.query user query env).Admitted lib base s := by
  intro session hsession
  obtain rfl := List.mem_singleton.1 hsession
  cases query with
  | tasks query =>
    have hselect : ∀ db, (Sql.tasks (.select fun task =>
        task.userId = user.userId ∧ query.filters task)).Admitted
          (setUserRls user.userId base) db := by
      intro db
      refine admitted_tasks_of_own fun row hrow => ?_
      have hcond := of_decide_eq_true (List.mem_filter.1 hrow).2
      exact hcond.1
    exact ⟨hselect _, hselect _, trivial⟩
  | schedule taskId => exact ⟨admitted_selectTask user taskId, trivial⟩
  | history query =>
    exact ⟨admitted_history_select fun row h => (of_decide_eq_true h).1,
      admitted_history_select fun row h => (of_decide_eq_true h).1, trivial⟩
  | taskHistory taskId query =>
    exact ⟨admitted_history_select fun row h => (of_decide_eq_true h).1,
      admitted_history_select fun row h => (of_decide_eq_true h).1, trivial⟩

/-- The scheduler cannot insert a history row and have it returned. -/
theorem not_admitted_history (hbase : base.Cleared) {row : TaskHistoryRow} (h : row.userId ≠ "") :
    ¬(Sql.history (.insert row true)).Admitted (setSchedulerRls base) db := by
  intro hadmitted
  have hvisible := (admitted_insert_iff.1 hadmitted).2 rfl
  obtain ⟨p, hp, hpass⟩ := List.any_eq_true.1 hvisible
  rw [taskHistoryPolicies, List.mem_cons, List.mem_pair] at hp
  rw [Bool.and_eq_true] at hpass
  rcases hp with rfl | rfl | rfl
  · -- Only the user policy is for selections, and no user is set.
    obtain ⟨userId, howner, hset⟩ := (Truth.holds_eq _ _).1 hpass.2
    have hempty := hbase.1
    rw [show base.currentUserId = some userId from hset] at hempty
    obtain rfl := Option.some.inj howner
    exact h (by simpa using hempty)
  · exact absurd hpass.1 (by simp [Policy.appliesTo, taskHistoryUserInsert])
  · exact absurd hpass.1 (by simp [Policy.appliesTo, taskHistorySchedulerInsert])

/-- An execution is admitted iff it finds no active task. -/
theorem admitted_execute_iff (hbase : base.Cleared)
    (hs : ∀ id task, s.row id = some task → task.userId ≠ "") {taskId : TaskId} {fire : Fire} :
    (Event.execute taskId fire).Admitted lib base s ↔ loadActive taskId s = none := by
  rw [Event.Admitted, Event.sessions, List.forall_mem_singleton]
  dsimp only
  rcases hload : loadActive taskId s with _ | task
  · simp [AllAdmitted, loadTask, admitted_tasks_scheduler]
  · obtain ⟨hrow, -⟩ := loadActive_eq_some.1 hload
    have howner : task.userId ≠ "" := hs taskId task hrow
    refine iff_of_false (fun hall => ?_) (by simp)
    dsimp only at hall
    obtain ⟨row, rfl, ⟨-, -, hx⟩ | ⟨-, hx⟩⟩ :=
      executed_eq fire.historyId task fire.answer.outcome <;>
      rw [hx] at hall <;>
      exact not_admitted_history hbase howner (allAdmitted_append.1 hall.2).2.1

/-- Every task belongs to a user. -/
theorem owner_of_run {as : List (Act Arrival Choice)} {s : Pool Service Proc}
    (h : (interleaving lib).Run ⟨.init, []⟩ as s) :
    ∀ id task, s.shared.row id = some task → task.userId ≠ "" :=
  (rowsAre_of_run (fun _ => owner_of_created) (fun _ _ _ h => h) h).rows

/-- Whenever, in any run, the policies admit all that the service does, and isolate
    its users, iff it is not an execution that finds an active task. -/
theorem admitted_iff (hbase : base.Cleared) {as : List (Act Arrival Choice)} {s : Pool Service Proc}
    (h : (interleaving lib).Run ⟨.init, []⟩ as s) (e : Event) :
    e.Admitted lib base s.shared ∧ Isolates base ↔
      ∀ taskId fire, e = .execute taskId fire → loadActive taskId s.shared = none := by
  have hisolates : Isolates base := fun _ _ _ _ _ => run_isolated hbase
  rw [and_iff_left hisolates]
  cases e with
  | request user request turn => exact iff_of_true (admitted_request user request turn _) (by simp)
  | query user query env => exact iff_of_true (admitted_query user query env _) (by simp)
  | execute taskId fire =>
    refine (admitted_execute_iff hbase (owner_of_run h)).trans ⟨fun hnone id f he => ?_, fun hall =>
      hall taskId fire rfl⟩
    obtain ⟨rfl, -⟩ := Event.execute.inj he
    exact hnone

/-- The deletion of a task that has been created is admitted. -/
theorem admitted_deletion : ∃ s, (interleaving .never).Run ⟨.init, []⟩ creation s ∧
    s.shared.active 1 = true ∧
    (Event.request .sample (.task .delete 1) (.sample 0 2 .commitFirst
      (.response 200))).Admitted .never
      ⟨none, some ""⟩ s.shared ∧ Isolates ⟨none, some ""⟩ := by
  obtain ⟨s, hs, hactive⟩ : ∃ s, (interleaving .never).exec ⟨.init, []⟩ creation = some s ∧
      s.shared.active 1 = true := ⟨_, rfl, rfl⟩
  have hrun := System.runWith_of_exec (D := fun _ => True) (fun _ _ => trivial) hs
  exact ⟨s, hrun, hactive, (admitted_iff ⟨by decide, by decide⟩ hrun _).2 (by simp)⟩

/-- All would be admitted, and users isolated: the execution of a task that has been
    created is not admitted. -/
theorem not_admitted : ¬∀ (lib : Crontab) (base : Settings) (as : List (Act Arrival Choice))
    (s : Pool Service Proc) (e : Event), base.Cleared → (interleaving lib).Run ⟨.init, []⟩ as s →
    e.Admitted lib base s.shared ∧ Isolates base := by
  intro h
  obtain ⟨s, hs, hactive⟩ : ∃ s, (interleaving .never).exec ⟨.init, []⟩ creation = some s ∧
      (loadActive 1 s.shared).isSome = true := ⟨_, rfl, rfl⟩
  have hrun := System.runWith_of_exec (D := fun _ => True) (fun _ _ => trivial) hs
  have hcleared : Settings.Cleared ⟨none, none⟩ := ⟨rfl, rfl⟩
  have hadmitted := (h .never ⟨none, none⟩ creation s
    (.execute 1 ⟨60000000, 0, .response 200, 1, 60000000⟩) hcleared hrun).1
  rw [(admitted_execute_iff hcleared (owner_of_run hrun)).1 hadmitted] at hactive
  exact absurd hactive (by simp)

end SchedulerLm
