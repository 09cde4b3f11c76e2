import SchedulerLm.Base.Ddl
import SchedulerLm.Base.Revisions
import SchedulerLm.EventShape
import SchedulerLm.RowSecurity

/-!
# Migrations

The three revisions of the database, as scripts of commands (`Ddl`), the ways between
them, and what `run_migrations` does at the start of the service. The commands are run by
Alembic, of which only what it is documented to do is assumed (`Alembic`); it keeps the
present revision in a table of its own, `alembic_version`, which it creates and never drops.

A script only touches the objects it creates itself. So the migrations can be run on any
database that does not use their names yet, as that of the scheduler's own data store.
However often the database has been upgraded and downgraded, what it holds, apart from
`alembic_version`, depends on the present revision only: its own objects, as they were, and
those of the revisions (`migrated_of_run`). At the head, both tables are secured as the
service relies on (`Secured`).
-/

namespace SchedulerLm

open Ternary RowPolicies Transition

/-! ## What the objects are defined as -/

/-- The types of columns. -/
inductive ColumnType
  | uuid
  | string (length : Option ℕ)
  | text
  | jsonb
  | dateTime
  | boolean
  | integer
  deriving DecidableEq

/-- A column. -/
structure Column where
  name : String
  type : ColumnType
  nullable : Bool
  serverDefault : Option String := none
  deriving DecidableEq

/-- The definition of an object. -/
inductive Definition
  | table (columns : List Column) (primaryKey : List String)
      (check : Option (String × (TaskHistory → Truth)))
  | index (columns : List String)
  | rowSecurity
  | taskPolicy (policy : Policy Settings ScheduledTask)
  | historyPolicy (policy : Policy Settings TaskHistoryRow)
  | function (body : String)
  /-- Called before each row the commands are about. -/
  | trigger (before : List RowPolicies.Command)

/-- A revision: its identifier, the one it revises, and its scripts. -/
structure Script where
  revision : String
  downRevision : Option String
  upgrade : List (Ddl.Command Definition)
  downgrade : List (Ddl.Command Definition)

/-! ## The revisions -/

/-- `ea41e048fbe5_initial`. -/
def initial : Script where
  revision := "ea41e048fbe5"
  downRevision := none
  upgrade := []
  downgrade := []

/-- The table `scheduled_tasks`. -/
def scheduledTasksTable : Definition :=
  .table
    [⟨"id", .uuid, false, none⟩,
      ⟨"user_id", .string none, false, none⟩,
      ⟨"webhook_url", .text, false, none⟩,
      ⟨"parameters", .jsonb, false, some "\x7b\x7d"⟩,
      ⟨"trigger_type", .string (some 32), false, none⟩,
      ⟨"trigger_config", .jsonb, false, none⟩,
      ⟨"next_run_at", .dateTime, true, none⟩,
      ⟨"is_active", .boolean, false, some "true"⟩,
      ⟨"created_at", .dateTime, false, some "now()"⟩,
      ⟨"updated_at", .dateTime, false, some "now()"⟩]
    ["id"] none

/-- `a1b2c3d4e5f6_add_scheduled_tasks`. -/
def addScheduledTasks : Script where
  revision := "a1b2c3d4e5f6"
  downRevision := some "ea41e048fbe5"
  upgrade :=
    [.create ⟨.table "scheduled_tasks", scheduledTasksTable⟩,
      .create ⟨.index "ix_scheduled_tasks_user_id" "scheduled_tasks", .index ["user_id"]⟩,
      .alter ⟨.rowSecurity "scheduled_tasks", .rowSecurity⟩,
      .alter ⟨.forcedRowSecurity "scheduled_tasks", .rowSecurity⟩,
      .create ⟨.policy "scheduled_tasks_user_all" "scheduled_tasks",
        .taskPolicy scheduledTasksUserAll⟩,
      .create ⟨.policy "scheduled_tasks_scheduler" "scheduled_tasks",
        .taskPolicy scheduledTasksScheduler⟩]
  downgrade :=
    [.dropIfExists (.policy "scheduled_tasks_scheduler" "scheduled_tasks"),
      .dropIfExists (.policy "scheduled_tasks_user_all" "scheduled_tasks"),
      .dropIndex "ix_scheduled_tasks_user_id",
      .dropTable "scheduled_tasks"]

/-- The table `task_history`. -/
def taskHistoryTable : Definition :=
  .table
    [⟨"id", .uuid, false, none⟩,
      ⟨"user_id", .string none, false, none⟩,
      ⟨"task_id", .uuid, false, none⟩,
      ⟨"event_type", .string (some 32), false, none⟩,
      ⟨"webhook_url", .text, true, none⟩,
      ⟨"trigger_type", .string (some 32), true, none⟩,
      ⟨"cron_expression", .string none, true, none⟩,
      ⟨"cron_timezone", .string none, true, none⟩,
      ⟨"interval_seconds", .integer, true, none⟩,
      ⟨"once_run_at", .dateTime, true, none⟩,
      ⟨"execution_source", .string (some 16), true, none⟩,
      ⟨"http_status", .integer, true, none⟩,
      ⟨"error_message", .text, true, none⟩,
      ⟨"success", .boolean, true, none⟩,
      ⟨"created_at", .dateTime, false, some "now()"⟩]
    ["id"] (some ("task_history_event_shape", eventShape))

/-- `b2c3d4e5f6a7_add_task_history`. -/
def addTaskHistory : Script where
  revision := "b2c3d4e5f6a7"
  downRevision := some "a1b2c3d4e5f6"
  upgrade :=
    [.create ⟨.table "task_history", taskHistoryTable⟩,
      .create ⟨.index "ix_task_history_user_id" "task_history", .index ["user_id"]⟩,
      .create ⟨.index "ix_task_history_task_id" "task_history", .index ["task_id"]⟩,
      .create ⟨.index "ix_task_history_user_id_created_at" "task_history",
        .index ["user_id", "created_at DESC"]⟩,
      .create ⟨.index "ix_task_history_task_id_created_at" "task_history",
        .index ["task_id", "created_at DESC"]⟩,
      .alter ⟨.rowSecurity "task_history", .rowSecurity⟩,
      .alter ⟨.forcedRowSecurity "task_history", .rowSecurity⟩,
      .create ⟨.policy "task_history_user_select" "task_history",
        .historyPolicy taskHistoryUserSelect⟩,
      .create ⟨.policy "task_history_user_insert" "task_history",
        .historyPolicy taskHistoryUserInsert⟩,
      .create ⟨.policy "task_history_scheduler_insert" "task_history",
        .historyPolicy taskHistorySchedulerInsert⟩,
      .createOrReplace ⟨.function "prevent_task_history_mutation",
        .function "BEGIN RAISE EXCEPTION 'task_history is append-only'; END;"⟩,
      .create ⟨.trigger "task_history_no_update" "task_history" "prevent_task_history_mutation",
        .trigger [.update, .delete]⟩]
  downgrade :=
    [.dropIfExists (.trigger "task_history_no_update" "task_history"),
      .dropIfExists (.function "prevent_task_history_mutation"),
      .dropIfExists (.policy "task_history_scheduler_insert" "task_history"),
      .dropIfExists (.policy "task_history_user_insert" "task_history"),
      .dropIfExists (.policy "task_history_user_select" "task_history"),
      .dropIndex "ix_task_history_task_id_created_at",
      .dropIndex "ix_task_history_user_id_created_at",
      .dropIndex "ix_task_history_task_id",
      .dropIndex "ix_task_history_user_id",
      .dropTable "task_history"]

/-- The revisions, from the base to the head. -/
def scripts : List Script := [initial, addScheduledTasks, addTaskHistory]

/-- Each one revises the one before it. -/
example : scripts.map Script.downRevision = none :: (scripts.map fun script =>
    some script.revision).dropLast := rfl

/-- The ways of a revision. -/
def Script.ways (script : Script) : Revisions.Revision (Ddl.Catalog Definition) where
  upgrade c := Ddl.runAll c script.upgrade
  downgrade c := Ddl.runAll c script.downgrade

/-- The chain of the revisions. -/
def chain : List (Revisions.Revision (Ddl.Catalog Definition)) := scripts.map Script.ways

/-! ## Alembic -/

/-- The table in which Alembic keeps the present revision. -/
def alembicVersion : Ddl.Object Definition where
  kind := .table "alembic_version"
  definition := .table [⟨"version_num", .string (some 32), false, none⟩] ["version_num"] none

/-- The table is created, unless it is there. -/
def ensureVersionTable (c : Ddl.Catalog Definition) : Ddl.Catalog Definition :=
  if c.hasTable "alembic_version" then c else alembicVersion :: c

/-- Alembic, as it is documented: a command creates the table of the revision unless it is there,
    runs the scripts on its way in order, and stamps the revision it has come to; in one
    transaction, as `do_run_migrations` has it begin. -/
abbrev Alembic := Revisions.Runner chain ensureVersionTable

/-- The database apart from the table of Alembic. -/
def apart (c : Ddl.Catalog Definition) : Ddl.Catalog Definition := c.without alembicVersion.kind.key

/-! ## `run_migrations` -/

/-- `get_current_head`. -/
def currentHead : Option String := scripts.getLast?.map Script.revision

/-- `get_current_revision`, as it is kept in `alembic_version`. -/
def currentRevision (s : Revisions.Versioned (Ddl.Catalog Definition)) : Option String :=
  match s.applied with
  | 0 => none
  | n + 1 => scripts[n]?.map Script.revision

/-- `run_migrations`: `upgrade` to the head, and the assertion that it has been reached. -/
def runMigrations (alembic : Alembic) (s : Revisions.Versioned (Ddl.Catalog Definition)) :
    Option (Revisions.Versioned (Ddl.Catalog Definition)) :=
  (alembic.run s (.upgrade chain.length)).filter fun s' => currentRevision s' = currentHead

/-! ## What the revisions create -/

/-- The objects of the first `n` revisions. -/
def objects (n : ℕ) : Ddl.Catalog Definition :=
  (scripts.take n).foldl (fun c script => (Ddl.runAll c script.upgrade).getD c) []

/-- The names the revisions use. -/
def names : List Ddl.Key := scripts.flatMap fun script =>
    (script.upgrade ++ script.downgrade).map Ddl.Command.key

/-- A database that uses neither the names of the revisions nor that of Alembic's table. -/
structure Unused (c : Ddl.Catalog Definition) : Prop where
  wellFormed : c.WellFormed
  names : ∀ key ∈ names, c.has key = false
  alembic : c.has alembicVersion.kind.key = false

/-- The policies on a table, the latest first. -/
def policiesOn (table : String) (c : Ddl.Catalog Definition) : List Definition :=
  (c.filter fun o => match o.kind with
    | .policy _ t => t = table
    | _ => false).map Ddl.Object.definition

/-- The tables of the service are secured: they have the policies the service relies on
    and no others, which hold for their owner as well; the history takes only rows that
    have the shape of an event, and no row of it is updated or deleted. -/
structure Secured (c : Ddl.Catalog Definition) : Prop where
  enabled : ∀ table ∈ ["scheduled_tasks", "task_history"], c.has (.rowSecurity table) = true
  forced : ∀ table ∈ ["scheduled_tasks", "task_history"], c.has (.forcedRowSecurity table) = true
  tasks : (policiesOn "scheduled_tasks" c).reverse = scheduledTasksPolicies.map .taskPolicy
  history : (policiesOn "task_history" c).reverse = taskHistoryPolicies.map .historyPolicy
  shape : ∃ columns, ⟨.table "task_history", .table columns ["id"]
    (some ("task_history_event_shape", eventShape))⟩ ∈ c
  appendOnly : ∃ function, ⟨.trigger "task_history_no_update" "task_history" function,
    .trigger [.update, .delete]⟩ ∈ c

variable {c : Ddl.Catalog Definition} {n : ℕ} {script : Script}

/-! ## The scripts -/

/-- On the empty database, the scripts go from one layer to the next, and back. -/
theorem runAll_scripts (h : scripts[n]? = some script) :
    Ddl.runAll (objects n) script.upgrade = some (objects (n + 1)) ∧
      Ddl.runAll (objects (n + 1)) script.downgrade = some (objects n) := by
  match n with
  | 0 =>
    obtain rfl := Option.some.inj h
    exact ⟨rfl, rfl⟩
  | 1 =>
    obtain rfl := Option.some.inj h
    exact ⟨rfl, rfl⟩
  | 2 =>
    obtain rfl := Option.some.inj h
    exact ⟨rfl, rfl⟩
  | n + 3 => exact absurd h (by simp [scripts])

/-- The commands of the scripts are apart from a database that does not use their names. -/
theorem apart_of_unused (hc : c.WellFormed) (hnew : ∀ key ∈ names, c.has key = false)
    (hscript : script ∈ scripts) {d : Ddl.Command Definition}
    (hd : d ∈ script.upgrade ++ script.downgrade) :
    d.Apart c := by
  refine Ddl.Command.apart_of_wellFormed hc (hnew d.key ?_)
  exact List.mem_flatMap.2 ⟨script, hscript, List.mem_map_of_mem hd⟩

/-- On such a database, the objects of the revisions are added, and removed again. -/
theorem layers_of_unused (hc : c.WellFormed) (hnew : ∀ key ∈ names, c.has key = false) :
    Revisions.Layers chain fun n => objects n ++ c := by
  have hways : ∀ (n : ℕ) revision, chain[n]? = some revision → ∃ script, scripts[n]? = some script ∧
      script ∈ scripts ∧ revision = script.ways := by
    intro n revision h
    rw [chain, List.getElem?_map, Option.map_eq_some_iff] at h
    obtain ⟨script, hscript, rfl⟩ := h
    exact ⟨script, hscript, List.mem_of_getElem? hscript, rfl⟩
  constructor
  · intro n revision h
    obtain ⟨script, hscript, hmem, rfl⟩ := hways n revision h
    exact Ddl.runAll_append (runAll_scripts hscript).1 fun d hd =>
      apart_of_unused hc hnew hmem (List.mem_append_left _ hd)
  · intro n revision h
    obtain ⟨script, hscript, hmem, rfl⟩ := hways n revision h
    exact Ddl.runAll_append (runAll_scripts hscript).2 fun d hd =>
      apart_of_unused hc hnew hmem (List.mem_append_right _ hd)

/-! ## The head -/

/-- A well formed database without the table has no policies on it. -/
theorem policiesOn_eq_nil (hc : c.WellFormed) {table : String}
    (htable : c.has (.relation table) = false) :
    policiesOn table c = [] := by
  rw [policiesOn, List.map_eq_nil_iff, List.filter_eq_nil_iff]
  intro o ho hpolicy
  split at hpolicy
  · rename_i name t hkind
    obtain rfl := of_decide_eq_true hpolicy
    have huses : Ddl.Key.relation t ∈ o.kind.uses := by rw [hkind]; exact List.mem_cons_self
    rw [hc o ho _ huses] at htable
    exact absurd htable (by simp)
  · exact absurd hpolicy (by simp)

/-- At the head, the tables are secured, whatever else the database holds. -/
theorem secured_head (hc : c.WellFormed) (hnew : ∀ key ∈ names, c.has key = false) :
    Secured (objects chain.length ++ c) := by
  have hhas : ∀ key, (objects chain.length).has key = true →
      (objects chain.length ++ c).has key = true := by
    intro key hkey
    rw [Ddl.has_append, hkey, Bool.true_or]
  have hpolicies : ∀ table, c.has (.relation table) = false →
      policiesOn table (objects chain.length ++ c) = policiesOn table (objects chain.length) := by
    intro table htable
    rw [policiesOn, List.filter_append, List.map_append]
    exact (congrArg (_ ++ ·) (policiesOn_eq_nil hc htable)).trans (List.append_nil _)
  refine ⟨?_, ?_, ?_, ?_, ?_, ?_⟩
  · intro table htable
    rcases List.mem_pair.1 htable with rfl | rfl <;> exact hhas _ rfl
  · intro table htable
    rcases List.mem_pair.1 htable with rfl | rfl <;> exact hhas _ rfl
  · rw [hpolicies _ (hnew _ (by decide))]
    rfl
  · rw [hpolicies _ (hnew _ (by decide))]
    rfl
  · have htable : (objects chain.length)[11]? = some ⟨.table "task_history",
        taskHistoryTable⟩ := rfl
    exact ⟨_, List.mem_append_left _ (List.mem_of_getElem? htable)⟩
  · exact ⟨_, List.mem_append_left _ List.mem_cons_self⟩

/-! ## The table of Alembic -/

theorem hasTable_alembic (h : c.has alembicVersion.kind.key = false) :
    c.hasTable "alembic_version" = false := by
  rw [Ddl.has_eq_false_iff] at h
  refine List.any_eq_false.2 fun o ho htable => h o ho ?_
  rw [of_decide_eq_true htable]
  rfl

/-- A database has the names of the revisions as little with the table of Alembic as without. -/
theorem unused_alembic (h : Unused c) : Ddl.Catalog.WellFormed (alembicVersion :: c) ∧
    ∀ key ∈ names, Ddl.Catalog.has (alembicVersion :: c) key = false := by
  have hother : (names.all fun key => key ≠ alembicVersion.kind.key) = true := by decide
  simp only [List.all_eq_true, decide_eq_true_eq] at hother
  constructor
  · intro o ho key hkey
    rcases List.mem_cons.1 ho with rfl | ho
    · exact absurd hkey List.not_mem_nil
    · rw [Ddl.Catalog.has, List.any_cons, Bool.or_eq_true]
      exact .inr (h.wellFormed o ho key hkey)
  · intro key hkey
    rw [Ddl.Catalog.has, List.any_cons, Bool.or_eq_false_iff]
    exact ⟨decide_eq_false (hother key hkey).symm, h.names key hkey⟩

/-- The revisions have no table of this name. -/
theorem has_objects (hn : n ≤ chain.length) : (objects n).has alembicVersion.kind.key = false := by
  match n, hn with
  | 0, _ => rfl
  | 1, _ => rfl
  | 2, _ => rfl
  | 3, _ => rfl

theorem apart_cons : apart (alembicVersion :: c) = apart c := by
  rw [apart, Ddl.Catalog.without, List.filter_cons_of_neg (by simp), apart, Ddl.Catalog.without]

/-- Apart from the table, nothing is changed by its creation. -/
theorem apart_ensureVersionTable : apart (ensureVersionTable c) = apart c := by
  rw [ensureVersionTable]
  split
  · rfl
  · exact apart_cons

/-- Apart from the table, a database holds what it held before and the objects of the revisions. -/
theorem apart_objects (h : Unused c) (hn : n ≤ chain.length) :
    apart (objects n ++ alembicVersion :: c) = objects n ++ c := by
  rw [apart, Ddl.without_append, Ddl.without_eq_self (has_objects hn)]
  exact congrArg (objects n ++ ·) (apart_cons.trans (Ddl.without_eq_self h.alembic))

/-! ## The runs -/

/-- However a database has been taken up and down the revisions, it holds, apart from
    `alembic_version`, what it held before, as it was, and what its revision consists of.
    `run_migrations` takes it to the head, where the tables of the service are secured, and
    all of it can be undone. -/
theorem migrated_of_run (alembic : Alembic) (hc : Unused c) {as : List Revisions.Command}
    {s : Revisions.Versioned (Ddl.Catalog Definition)} (h : alembic.system.Run ⟨0, c⟩ as s) :
    apart s.schema = objects s.applied ++ c ∧
      (∃ head, runMigrations alembic s = some head ∧ apart head.schema = objects chain.length ++ c ∧
        Secured head.schema) ∧
      ∃ base, alembic.run s (.downgrade 0) = some base ∧ base.applied = 0 ∧
        apart base.schema = c := by
  obtain ⟨hwellFormed, hnew⟩ := unused_alembic hc
  have hlayers := layers_of_unused hwellFormed hnew
  have hprepare : ∀ n, ensureVersionTable (objects n ++ alembicVersion :: c) = objects n ++
      alembicVersion :: c := by
    intro n
    have hthere :
        Ddl.Catalog.hasTable (objects n ++ alembicVersion :: c) "alembic_version" = true :=
      List.any_eq_true.2 ⟨alembicVersion, List.mem_append_right _ List.mem_cons_self, rfl⟩
    rw [ensureVersionTable, if_pos hthere]
  have hstart : ensureVersionTable c = objects 0 ++ alembicVersion :: c := by
    rw [ensureVersionTable, hasTable_alembic hc.alembic]
    rfl
  obtain ⟨hn, hschema⟩ := Revisions.schema_of_run hlayers hprepare hstart h
  refine ⟨?_, ⟨⟨chain.length, objects chain.length ++ alembicVersion :: c⟩, ?_,
    apart_objects hc (Nat.le_refl _), secured_head hwellFormed hnew⟩,
      ⟨0, objects 0 ++ alembicVersion :: c⟩, ?_, rfl,
    apart_objects hc (Nat.zero_le _)⟩
  · rw [← apart_ensureVersionTable, hschema, apart_objects hc hn]
  · rw [runMigrations, Revisions.run_upgrade alembic hlayers hn (Nat.le_refl _) hschema]
    rfl
  · exact Revisions.run_downgrade alembic hlayers (Nat.zero_le _) hn hschema

/-- A database with a table of its own, and an index on it. -/
def otherTable : Ddl.Catalog Definition :=
  [⟨.index "ix_schedules_next_fire_time" "schedules", .index ["next_fire_time"]⟩,
    ⟨.table "schedules", .table [⟨"id", .string (some 500), false, none⟩] ["id"] none⟩]

/-- It is upgraded, downgraded to the first revision, and upgraded to the second one. -/
theorem migrated_otherTable : ∃ (alembic : Alembic)
    (s : Revisions.Versioned (Ddl.Catalog Definition)),
    alembic.system.Run ⟨0, otherTable⟩ [.upgrade 3, .downgrade 1, .upgrade 2] s ∧ s.applied = 2 ∧
      apart s.schema = objects s.applied ++ otherTable ∧
      (∃ head, runMigrations alembic s = some head ∧
        apart head.schema = objects chain.length ++ otherTable ∧ Secured head.schema) ∧
      ∃ base, alembic.run s (.downgrade 0) = some base ∧ base.applied = 0 ∧
        apart base.schema = otherTable := by
  let alembic : Alembic := .strict chain ensureVersionTable
  have hup : alembic.system.step ⟨0, otherTable⟩ (.upgrade 3) =
      some ⟨3, objects 3 ++ alembicVersion :: otherTable⟩ := rfl
  have hdown : alembic.system.step ⟨3, objects 3 ++ alembicVersion :: otherTable⟩ (.downgrade 1) =
      some ⟨1, objects 1 ++ alembicVersion :: otherTable⟩ := rfl
  have hagain : alembic.system.step ⟨1, objects 1 ++ alembicVersion :: otherTable⟩ (.upgrade 2) =
      some ⟨2, objects 2 ++ alembicVersion :: otherTable⟩ := rfl
  have hrun : alembic.system.Run ⟨0, otherTable⟩ [.upgrade 3, .downgrade 1, .upgrade 2]
      ⟨2, objects 2 ++ alembicVersion :: otherTable⟩ :=
        .snoc (.snoc (.snoc .nil trivial hup) trivial hdown) trivial hagain
  have hc : otherTable.WellFormed := by
    intro o ho key hkey
    rcases List.mem_pair.1 ho with rfl | rfl
    · obtain rfl := List.mem_singleton.1 hkey
      rfl
    · exact absurd hkey List.not_mem_nil
  exact ⟨alembic, _, hrun, rfl, migrated_of_run alembic ⟨hc, by decide, rfl⟩ hrun⟩

end SchedulerLm
