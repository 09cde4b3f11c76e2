import Mathlib.Data.Int.ConditionallyCompleteOrder
import SchedulerLm.Base.Paging
import SchedulerLm.EventShape
import SchedulerLm.Tasks

/-!
# Page by page

A list that is read page by page, by requests that know nothing of each other, while the
tables do not change (`Paged`). A list is sorted by one column, and rows with equal values
of it come in any order, another one for each request. So the pages are sorted, and their
totals are right, but each row is shown once iff no two rows with equal values lie on both
sides of the end of a page (`paged_iff`, for the tasks and for the history).

Most tasks without a next fire time have equal values: all of those that are not active.
-/

namespace SchedulerLm

open Paging

/-! ## Sorting -/

/-- The place of a value in a sort: a null comes last. -/
def SortOrder.place (order : SortOrder) (value : Option Instant) : WithTop ℤ :=
  value.elim ⊤ fun t => match order with
    | .asc => (t : WithTop ℤ)
    | .desc => ((-t : ℤ) : WithTop ℤ)

theorem before_iff {order : SortOrder} {v w : Option Instant} :
    order.before v w = true ↔ order.place v < order.place w := by
  rcases v with _ | v
  · cases order <;> simp [SortOrder.before, SortOrder.place]
  · rcases w with _ | w
    · cases order <;> exact iff_of_true rfl (WithTop.coe_lt_top _)
    · cases order with
      | asc => exact decide_eq_true_iff.trans WithTop.coe_lt_coe.symm
      | desc =>
        exact decide_eq_true_iff.trans (Int.neg_lt_neg_iff.symm.trans WithTop.coe_lt_coe.symm)

variable {ρ β : Type*} {order : SortOrder} {key : ρ → Option Instant} {rank : ρ → ℕ}
  {rows : List ρ}

/-- The rows come by their place, and then by their rank. -/
theorem pairwise_orderBy (order : SortOrder) (key : ρ → Option Instant) (rank : ρ → ℕ)
    (rows : List ρ) :
    (orderBy order key rank rows).Pairwise fun a b => order.place (key a) < order.place (key b) ∨
      order.place (key a) = order.place (key b) ∧ rank a ≤ rank b := by
  have hiff : ∀ a b, (order.before (key a) (key b) ||
      (!order.before (key b) (key a) && decide (rank a ≤ rank b))) = true ↔
      order.place (key a) < order.place (key b) ∨
        order.place (key a) = order.place (key b) ∧ rank a ≤ rank b := by
    intro a b
    rw [Bool.or_eq_true, Bool.and_eq_true, Bool.not_eq_true', ← Bool.not_eq_true,
      before_iff, before_iff, decide_eq_true_iff]
    constructor
    · rintro (hlt | ⟨hle, hrank⟩)
      · exact .inl hlt
      · exact (not_lt.1 hle).lt_or_eq.imp_right fun heq => ⟨heq, hrank⟩
    · exact Or.imp_right fun h => ⟨h.1.not_gt, h.2⟩
  refine (List.pairwise_mergeSort ?_ ?_ rows).imp fun h => (hiff _ _).1 h
  · intro a b c hab hbc
    rw [hiff] at hab hbc ⊢
    rcases hab with hab | ⟨hab, hrank⟩
    · exact .inl (hab.trans_le (hbc.elim le_of_lt fun h => h.1.le))
    · rw [hab]
      exact hbc.imp_right fun h => ⟨h.1, hrank.trans h.2⟩
  · intro a b
    rw [Bool.or_eq_true, hiff, hiff]
    rcases lt_trichotomy (order.place (key a)) (order.place (key b)) with hlt | heq | hlt
    · exact .inl (.inl hlt)
    · exact (le_total (rank a) (rank b)).imp (fun h => .inr ⟨heq, h⟩) fun h => .inr ⟨heq.symm, h⟩
    · exact .inr (.inl hlt)

/-- The rows are sorted by their place. -/
theorem arranged_orderBy (order : SortOrder) (key : ρ → Option Instant) (rank : ρ → ℕ)
    (rows : List ρ) :
    Arranged (fun r => order.place (key r)) rows (orderBy order key rank rows) where
  perm := List.mergeSort_perm _ _
  sorted := (pairwise_orderBy order key rank rows).imp fun h => h.elim le_of_lt fun h => h.1.le

/-! ## Pages -/

/-- A list of `rows` is read page by page, each time with its rows with equal keys in another
    order: each page has the number of the rows as its total, and the pages show each row
    once, sorted. A page is answered with its items and its total. -/
def Paged (answer : QueryEnv → ℕ → Except Failure (List β × ℕ)) (rows : List ρ)
    (item : ρ → Except Failure β) (order : SortOrder) (key : β → Option Instant)
    (limit : ℕ) : Prop :=
  ∀ (envs : ℕ → QueryEnv) (n : ℕ), rows.length ≤ n * limit → ∃ items : ℕ → List β,
    (∀ k < n, answer (envs k) (k * limit) = .ok (items k, rows.length)) ∧
      (((List.range n).flatMap items).map Except.ok).Perm (rows.map item) ∧
      ((List.range n).flatMap items).Pairwise fun a b => order.before (key b) (key a) = false

section

variable {answer : QueryEnv → ℕ → Except Failure (List β × ℕ)} {item : ρ → Except Failure β}
  {itemKey : β → Option Instant} {limit : ℕ} {rankOf : QueryEnv → ρ → ℕ}
  {envs : ℕ → QueryEnv} {n : ℕ} {items : ℕ → List β}

/-- What the pages show is what their rows show. -/
theorem map_flatMap_items
    (hanswer : ∀ env offset, answer env offset =
      ((page limit offset (orderBy order key (rankOf env) rows)).mapM item).map fun items =>
        (items, rows.length))
    (hitems : ∀ k < n, answer (envs k) (k * limit) = .ok (items k, rows.length)) :
    ((List.range n).flatMap items).map Except.ok =
      (pages limit (fun k => orderBy order key (rankOf (envs k)) rows) n).map item := by
  rw [pages, List.map_flatMap, List.map_flatMap]
  refine List.flatMap_congr fun k hk => ?_
  have hpage := hitems k (List.mem_range.1 hk)
  rw [hanswer, Raising.map_eq_ok] at hpage
  obtain ⟨shown, hshown, heq⟩ := hpage
  rw [← (Prod.mk.inj heq).1, ← Raising.mapM_eq_ok.1 hshown, page]

/-- If every row can be shown, so can every page. -/
theorem exists_items
    (hanswer : ∀ env offset, answer env offset =
      ((page limit offset (orderBy order key (rankOf env) rows)).mapM item).map fun items =>
        (items, rows.length))
    (hshown : ∀ r ∈ rows, ∃ b, item r = .ok b) (envs : ℕ → QueryEnv) :
    ∃ items : ℕ → List β, ∀ k, answer (envs k) (k * limit) = .ok (items k, rows.length) := by
  have hpage : ∀ k, ∃ items, (page limit (k * limit)
    (orderBy order key (rankOf (envs k)) rows)).mapM item =
      .ok items := fun k => Raising.mapM_isOk fun r hr => hshown r
    ((arranged_orderBy order key _ rows).perm.mem_iff.1
      (List.mem_of_mem_drop (List.mem_of_mem_take hr)))
  choose items hitems using hpage
  exact ⟨items, fun k => (hanswer _ _).trans (Raising.map_eq_ok.2 ⟨_, hitems k, rfl⟩)⟩

/-- The pages of a list are what they should be iff each of its rows can be shown, and no end of
    a page divides rows with equal keys that show different items. -/
theorem paged_iff
    (hanswer : ∀ env offset, answer env offset =
      ((page limit offset (orderBy order key (rankOf env) rows)).mapM item).map fun items =>
        (items, rows.length))
    (hrank : ∀ rank, ∃ env, rankOf env = rank) (hkey : ∀ r b, item r = .ok b → itemKey b = key r)
    (hlimit : 0 < limit) :
    Paged answer rows item order itemKey limit ↔ (∀ r ∈ rows, ∃ b, item r = .ok b) ∧
      Undivided (fun r => order.place (key r)) item rows limit := by
  classical
  have harranged := fun rank => arranged_orderBy order key rank rows
  constructor
  · intro h
    constructor
    · intro r hr
      obtain ⟨env, -⟩ := hrank fun _ => 0
      obtain ⟨items, -, hperm, -⟩ := h (fun _ => env) rows.length (Nat.le_mul_of_pos_right _ hlimit)
      obtain ⟨b, -, hb⟩ := List.mem_map.1 (hperm.mem_iff.2 (List.mem_map_of_mem hr))
      exact ⟨b, hb.symm⟩
    · intro k a ha b hb hab hlow hup
      by_contra hne
      -- The item of `a` comes first on the pages up to there, and last on the others.
      obtain ⟨env, henv⟩ := hrank fun r => if item r = item a then 0 else 1
      obtain ⟨env', henv'⟩ := hrank fun r => if item r = item a then 1 else 0
      obtain ⟨items, hitems, hperm, -⟩ := h (fun j => if j < k then env else env') rows.length
        (Nat.le_mul_of_pos_right _ hlimit)
      rw [map_flatMap_items hanswer hitems] at hperm
      refine not_perm_pages (harranged (rankOf env))
        (harranged (rankOf env')) ?_ ?_ ha hb hab hne hlow hup
        (Nat.le_mul_of_pos_right _ hlimit) (.trans (.of_eq ?_) hperm)
      · refine (pairwise_orderBy order key _ rows).imp fun {r s} hrs heq hs => ?_
        have hle := (hrs.resolve_left heq.not_lt).2
        by_contra hr
        simp [henv, hr, hs] at hle
      · refine (pairwise_orderBy order key _ rows).imp fun {r s} hrs heq hr => ?_
        have hle := (hrs.resolve_left heq.not_lt).2
        by_contra hs
        simp [henv', hr, hs] at hle
      · congr 2
        funext j
        split <;> rfl
  · rintro ⟨hshown, hundivided⟩ envs n hn
    obtain ⟨items, hitems⟩ := exists_items hanswer hshown envs
    have hmap := map_flatMap_items (n := n) hanswer fun k _ => hitems k
    refine ⟨items, fun k _ => hitems k, ?_, ?_⟩
    · rw [hmap]
      exact perm_pages hundivided (fun k => harranged _) hn
    · have hsorted :
        ((pages limit (fun k => orderBy order key (rankOf (envs k)) rows) n).map item).Pairwise
          fun x y => ∀ b c, x = .ok b → y = .ok c →
            order.before (itemKey c) (itemKey b) = false := by
        refine List.pairwise_map.2 ((sorted_pages (fun k => harranged _) n).imp ?_)
        intro r s hle b c hb hc
        rw [hkey r b hb, hkey s c hc, ← Bool.not_eq_true, before_iff]
        exact hle.not_gt
      rw [← hmap, List.pairwise_map] at hsorted
      exact hsorted.imp fun h => h _ _ rfl rfl

end

/-! ## Tasks and history -/

/-- The rows a list of tasks is of. -/
def TaskListQuery.matching (query : TaskListQuery) (user : CurrentUser) (s : Service) :
    List ScheduledTask :=
  (applyUserScope ScheduledTask.userId (some user.userId) s.tasks.rows).filter query.filters

/-- The rows a list of the history is of. -/
def HistoryListQuery.matching (query : HistoryListQuery) (user : CurrentUser)
    (taskId : Option TaskId) (s : Service) : List TaskHistoryRow :=
  (applyUserScope (fun row : TaskHistoryRow => row.userId) (some user.userId) s.history).filter
    (query.filters taskId)

/-- What a task is sorted by, as it is shown. -/
def TaskSortField.shown (field : TaskSortField) (task : TaskResponse) : Option Instant :=
  match field with
  | .createdAt => some task.createdAt
  | .nextRunAt => task.nextRunAt
  | .updatedAt => some task.updatedAt

/-- When the event happened that is shown. -/
def HistoryEntry.createdAt : HistoryEntry → Instant
  | .taskCreated _ _ createdAt _ _ _ | .taskActivated _ _ createdAt | .taskDeactivated _ _ createdAt
  | .taskDeleted _ _ createdAt _ _ _ | .execution _ _ createdAt _ _ _ _ _ => createdAt

/-- A page of tasks. -/
def tasksPage (user : CurrentUser) (query : TaskListQuery) (s : Service) (env : QueryEnv)
    (offset : ℕ) :
    Except Failure (List TaskResponse × ℕ) :=
  let response := listTasks env user { query with offset := offset } s
  .ok (response.items, response.total)

/-- A page of the history. -/
def historyPage (user : CurrentUser) (query : HistoryListQuery) (taskId : Option TaskId)
    (s : Service) (env : QueryEnv) (offset : ℕ) : Except Failure (List HistoryEntry × ℕ) :=
  (listHistory env user { query with offset := offset } taskId s).map fun response =>
    (response.items, response.total)

variable {user : CurrentUser} {s : Service} {taskId : Option TaskId}

/-- Tasks that are shown the same are the same. -/
theorem toResponse_injective : Function.Injective toResponse := by
  rintro ⟨⟩ ⟨⟩ h
  simpa [toResponse] using h

theorem createdAt_of_entryFromRow {row : TaskHistoryRow} {entry : HistoryEntry}
    (h : entryFromRow row = .ok entry) : entry.createdAt = row.createdAt := by
  rw [entryFromRow] at h
  split at h
  · obtain ⟨config, -, rfl⟩ := Raising.map_eq_ok.1 h
    rfl
  · exact Except.ok.inj h ▸ rfl
  · exact Except.ok.inj h ▸ rfl
  · obtain ⟨config, -, rfl⟩ := Raising.map_eq_ok.1 h
    rfl
  · split at h
    · exact absurd h (by simp)
    · exact Except.ok.inj h ▸ rfl

/-- The pages of a list of tasks are what they should be iff no end of a page divides tasks
    with equal values of the column they are sorted by. -/
theorem tasks_paged_iff {query : TaskListQuery} (hlimit : 0 < query.limit) :
    Paged (tasksPage user query s) (query.matching user s)
      (fun task => .ok (toResponse task)) query.order
        query.sort.shown query.limit ↔
      Undivided (fun task => query.order.place (query.sort.column task)) id (query.matching user s)
        query.limit := by
  have hanswer : ∀ env offset, tasksPage user query s env offset =
      ((page query.limit offset (orderBy query.order query.sort.column env.taskRank
        (query.matching user s))).mapM fun task =>
          (.ok (toResponse task) : Except Failure TaskResponse)).map
          fun items => (items, (query.matching user s).length) := by
    intro env offset
    rw [Raising.mapM_ok]
    rfl
  have hkey : ∀ (task : ScheduledTask) (response : TaskResponse),
      (.ok (toResponse task) : Except Failure TaskResponse) = .ok response →
      query.sort.shown response = query.sort.column task := by
    intro task response h
    obtain rfl := Except.ok.inj h
    cases query.sort <;> rfl
  rw [paged_iff hanswer (fun rank => ⟨⟨0, 0, rank, fun _ => 0⟩, rfl⟩) hkey hlimit,
    and_iff_right fun task _ => ⟨_, rfl⟩]
  simp only [Undivided, Except.ok.injEq, toResponse_injective.eq_iff, id_eq]

/-- The pages of a list of the history are what they should be iff each of its rows can be
    shown, and no end of a page divides rows of the same time that show different entries. -/
theorem history_paged_iff {query : HistoryListQuery} (hlimit : 0 < query.limit) :
    Paged (historyPage user query taskId s) (query.matching user taskId s)
        (fun row => (entryFromRow row).mapError .raised) query.order (fun entry =>
          some entry.createdAt)
        query.limit ↔
      (∀ row ∈ query.matching user taskId s, ∃ entry, entryFromRow row = .ok entry) ∧
        Undivided (fun row => query.order.place (some row.createdAt)) entryFromRow
          (query.matching user taskId s) query.limit := by
  have hanswer : ∀ env offset, historyPage user query taskId s env offset =
      ((page query.limit offset (orderBy query.order (fun row => some row.createdAt) env.historyRank
        (query.matching user taskId s))).mapM fun row => (entryFromRow row).mapError .raised).map
          fun items => (items, (query.matching user taskId s).length) := by
    intro env offset
    rw [← Raising.mapM_mapError]
    exact Raising.map_map _ _ _
  have hkey : ∀ (row : TaskHistoryRow) (entry : HistoryEntry), (entryFromRow row).mapError .raised =
      (.ok entry : Except Failure HistoryEntry) → some entry.createdAt = some row.createdAt :=
    fun row entry h => congrArg some (createdAt_of_entryFromRow (Raising.mapError_eq_ok.1 h))
  rw [paged_iff hanswer (fun rank => ⟨⟨0, 0, fun _ => 0, rank⟩, rfl⟩) hkey hlimit]
  simp only [Undivided, Raising.mapError_eq_ok,
    (Raising.mapError_injective (g := Failure.raised) fun _ _ => Failure.raised.inj).eq_iff]

/-- In a state the service can reach, every row of the history can be shown. -/
theorem exists_entry_of_reachable {lib : Crontab} (hs : Reachable lib s) :
    ∀ row ∈ s.history, ∃ entry, entryFromRow row = .ok entry := by
  obtain ⟨as, hrun⟩ := hs
  intro row hrow
  obtain ⟨entry, hentry⟩ := recorded_of_run hrun row hrow
  exact ⟨_, entryFromRow_of_recorded hentry row.createdAt⟩

/-- The pages of both lists are what they should be iff no end of a page divides rows with equal
    keys, and the rows of the history can be shown. -/
theorem pages_iff {tasks : TaskListQuery} {history : HistoryListQuery} (htasks : 0 < tasks.limit)
    (hhistory : 0 < history.limit) :
    (Paged (tasksPage user tasks s) (tasks.matching user s)
      (fun task => .ok (toResponse task)) tasks.order
        tasks.sort.shown tasks.limit ↔
      Undivided (fun task => tasks.order.place (tasks.sort.column task)) id (tasks.matching user s)
        tasks.limit) ∧
    (Paged (historyPage user history taskId s) (history.matching user taskId s)
        (fun row => (entryFromRow row).mapError .raised) history.order (fun entry =>
          some entry.createdAt)
        history.limit ↔
      (∀ row ∈ history.matching user taskId s, ∃ entry, entryFromRow row = .ok entry) ∧
        Undivided (fun row => history.order.place (some row.createdAt)) entryFromRow
          (history.matching user taskId s) history.limit) :=
  ⟨tasks_paged_iff htasks, history_paged_iff hhistory⟩

/-- A state with two tasks that are not active. -/
def twoPaused : Service :=
  let turn : Instant → TaskId → Turn := fun now id => .sample now id .commitFirst (.response 200)
  let s := serve .never none (turn 0 1) .sample (.create (.sample (.interval 60 minute_pos))) .init
  let s := serve .never none (turn 1 2) .sample (.create (.sample (.interval 60 minute_pos))) s
  let s := serve .never none (turn 2 3) .sample (.task .deactivate 1) s
  serve .never none (turn 3 3) .sample (.task .deactivate 2) s

/-- A list of all tasks, one on a page. -/
def oneByOne (sort : TaskSortField) : TaskListQuery :=
  { activeOnly := false, sort := sort, limit := 1 }

/-- By their creation, the two tasks are shown once each. -/
theorem paged_twoPaused :
    Paged (tasksPage .sample (oneByOne .createdAt) twoPaused)
      ((oneByOne .createdAt).matching .sample twoPaused)
      (fun task => .ok (toResponse task)) .desc TaskSortField.createdAt.shown 1 := by
  have hdistinct : ∀ a ∈ (oneByOne .createdAt).matching .sample twoPaused,
      ∀ b ∈ (oneByOne .createdAt).matching .sample twoPaused,
        SortOrder.desc.place (some a.createdAt) =
          SortOrder.desc.place (some b.createdAt) → a = b := by
    decide +kernel
  exact (@pages_iff .sample twoPaused none (oneByOne .createdAt) {} (by decide) (by decide)).1.2
    fun k a ha b hb hab _ _ => hdistinct a ha b hb hab

/-- Whatever list is read page by page, it would be shown as it should be: by their next fire
    times, which are both none, two tasks are not. -/
theorem not_paged : ¬∀ (user : CurrentUser) (s : Service) (query : TaskListQuery), 0 < query.limit →
    Paged (tasksPage user query s) (query.matching user s)
      (fun task => .ok (toResponse task)) query.order
      query.sort.shown query.limit := by
  intro h
  have hundivided := (tasks_paged_iff (by decide)).1
    (h .sample twoPaused (oneByOne .nextRunAt) (by decide))
  obtain ⟨a, ha, b, hb, hne, hnext, hnext'⟩ :
    ∃ a ∈ (oneByOne .nextRunAt).matching .sample twoPaused,
      ∃ b ∈ (oneByOne .nextRunAt).matching .sample twoPaused,
        a ≠ b ∧ a.nextRunAt = none ∧ b.nextRunAt = none := by decide +kernel
  have hkey : ∀ task : ScheduledTask, task.nextRunAt = none →
      (oneByOne .nextRunAt).order.place ((oneByOne .nextRunAt).sort.column task) =
        SortOrder.desc.place none :=
    fun task h => congrArg _ h
  refine hne (hundivided 1 a ha b hb ((hkey a hnext).trans (hkey b hnext').symm) ?_ ?_)
  · beta_reduce
    rw [hkey a hnext]
    decide +kernel
  · beta_reduce
    rw [hkey a hnext]
    decide +kernel

end SchedulerLm
