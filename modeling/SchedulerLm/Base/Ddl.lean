import Mathlib.Data.List.Basic
import Mathlib.Data.List.Infix
import Mathlib.Tactic.Common

/-!
# Data definition

The objects of a database (tables with their indexes, policies, triggers and row-level
security, and functions), and the commands that create and drop them, after PostgreSQL.
A command raises when what it creates is there already, when what it is about is
missing, or when something else still depends on what it drops; with `IF EXISTS` it
passes over what is missing. What belongs to a table is dropped with it.

A database is a list of its objects, the latest first (`Catalog`); what an object is
defined as does not matter here.

* `Command.run_append`: the *frame rule*. A command does on a larger database what it
  does on a part of it, and leaves the rest alone, as long as the rest neither has the
  name of what the command is about, nor depends on it.
* `runAll_append`: so a script of commands has to be run only once, on the empty
  database, to know what it does on any database it is apart from.
-/

namespace Ddl

/-- The names by which objects exclude each other. Tables and indexes share theirs. -/
inductive Key
  | relation (name : String)
  | rowSecurity (table : String)
  | forcedRowSecurity (table : String)
  | policy (name table : String)
  | function (name : String)
  | trigger (name table : String)
  deriving DecidableEq

/-- What an object is. -/
inductive Kind
  | table (name : String)
  | index (name table : String)
  /-- The row-level security of the table is enabled. -/
  | rowSecurity (table : String)
  /-- It is forced upon the owner of the table as well. -/
  | forcedRowSecurity (table : String)
  | policy (name table : String)
  | function (name : String)
  | trigger (name table function : String)
  deriving DecidableEq

namespace Kind

/-- Its name. -/
def key : Kind → Key
  | .table name => .relation name
  | .index name _ => .relation name
  | .rowSecurity t => .rowSecurity t
  | .forcedRowSecurity t => .forcedRowSecurity t
  | .policy name t => .policy name t
  | .function name => .function name
  | .trigger name t _ => .trigger name t

/-- The table it belongs to. -/
def owner : Kind → Option String
  | .table _ | .function _ => none
  | .index _ t | .rowSecurity t | .forcedRowSecurity t | .policy _ t | .trigger _ t _ => some t

/-- The function it calls. -/
def calls : Kind → Option String
  | .trigger _ _ f => some f
  | _ => none

/-- What it cannot be without. -/
def uses (kind : Kind) : List Key :=
  (kind.owner.map Key.relation).toList ++ (kind.calls.map Key.function).toList

end Kind

/-- An object, with its definition. -/
structure Object (δ : Type*) where
  kind : Kind
  definition : δ

/-- The objects of a database, the latest first. -/
abbrev Catalog (δ : Type*) := List (Object δ)

variable {δ : Type*}

namespace Catalog

variable (c : Catalog δ)

/-- There is an object with the name. -/
def has (key : Key) : Bool := c.any fun o => o.kind.key = key

/-- There is a table with the name. -/
def hasTable (name : String) : Bool := c.any fun o => o.kind = .table name

/-- There is an index with the name. -/
def hasIndex (name : String) : Bool := c.any fun o => o.kind.key =
    .relation name && o.kind.owner.isSome

/-- There is all that the object cannot be without. -/
def supports (kind : Kind) : Bool :=
  (kind.owner.all fun table => c.hasTable table) && kind.calls.all fun function =>
    c.has (.function function)

/-- The objects but those with the name. -/
def without (key : Key) : Catalog δ := c.filter fun o => o.kind.key ≠ key

/-- Every object has what it cannot be without. -/
def WellFormed : Prop := ∀ o ∈ c, ∀ key ∈ o.kind.uses, c.has key = true

end Catalog

/-- The commands. -/
inductive Command (δ : Type*)
  /-- `CREATE TABLE`, `INDEX`, `POLICY` or `TRIGGER`. -/
  | create (o : Object δ)
  /-- `ALTER TABLE ... ENABLE`, or `FORCE`, `ROW LEVEL SECURITY`. -/
  | alter (o : Object δ)
  /-- `CREATE OR REPLACE FUNCTION`. -/
  | createOrReplace (o : Object δ)
  | dropTable (name : String)
  | dropIndex (name : String)
  /-- `DROP POLICY`, `FUNCTION` or `TRIGGER IF EXISTS`. -/
  | dropIfExists (key : Key)

namespace Command

/-- What a command leaves, unless it raises. -/
def run (c : Catalog δ) : Command δ → Option (Catalog δ)
  | .create o => if c.has o.kind.key || !c.supports o.kind then none else some (o :: c)
  | .alter o =>
    if !c.supports o.kind then none else if c.has o.kind.key then some c else some (o :: c)
  | .createOrReplace o =>
    if c.has o.kind.key then some (c.map fun old => if old.kind.key = o.kind.key then o else old)
    else some (o :: c)
  | .dropTable name =>
    if c.hasTable name then some ((c.without (.relation name)).filter fun o => o.kind.owner ≠
      some name) else none
  | .dropIndex name => if c.hasIndex name then some (c.without (.relation name)) else none
  | .dropIfExists key =>
    if c.any fun o => key ∈ o.kind.calls.map Key.function then none else some (c.without key)

/-- The name of what the command is about. -/
def key : Command δ → Key
  | .create o | .alter o | .createOrReplace o => o.kind.key
  | .dropTable name | .dropIndex name => .relation name
  | .dropIfExists key => key

/-- The command is about none of the objects, and none of them depends on what it is
    about. -/
def Apart (d : Command δ) (rest : Catalog δ) : Prop :=
  ∀ o ∈ rest, o.kind.key ≠ d.key ∧ d.key ∉ o.kind.uses

end Command

/-- What a script leaves, unless a command raises. -/
def runAll (c : Catalog δ) : List (Command δ) → Option (Catalog δ)
  | [] => some c
  | d :: ds => (d.run c).bind fun c' => runAll c' ds

variable {c c' rest : Catalog δ} {d : Command δ} {ds : List (Command δ)} {key : Key}

/-! ## Objects of the rest -/

/-- An object is there if it is in the part, or in the rest. -/
theorem has_append : (c ++ rest).has key = (c.has key || rest.has key) := List.any_append

theorem has_eq_false_iff : c.has key = false ↔ ∀ o ∈ c, o.kind.key ≠ key := by
  rw [Catalog.has, List.any_eq_false]
  simp

/-- Nothing is removed with a name that is not there. -/
theorem without_eq_self (h : c.has key = false) : c.without key = c :=
  List.filter_eq_self.2 fun o ho => decide_eq_true (has_eq_false_iff.1 h o ho)

theorem without_append : Catalog.without (c ++ rest) key = c.without key ++ rest.without key :=
  List.filter_append ..

/-- The rest has nothing with the name of what the command is about. -/
theorem Command.Apart.has_append (h : d.Apart rest) : (c ++ rest).has d.key = c.has d.key := by
  rw [Ddl.has_append, has_eq_false_iff.2 fun o ho => (h o ho).1, Bool.or_false]

theorem Command.Apart.without_append (h : d.Apart rest) :
    Catalog.without (c ++ rest) d.key = c.without d.key ++ rest := by
  have hrest :
      rest.without d.key = rest := without_eq_self (has_eq_false_iff.2 fun o ho => (h o ho).1)
  rw [Ddl.without_append, hrest]

/-- What the part supports, it supports with the rest. -/
theorem supports_append {kind : Kind} (h : c.supports kind = true) :
    (c ++ rest).supports kind = true := by
  rw [Catalog.supports, Bool.and_eq_true] at h ⊢
  refine ⟨?_, ?_⟩
  · rcases ho : kind.owner with _ | table
    · rfl
    · have hthere := h.1
      rw [ho, Option.all_some] at hthere
      exact List.any_append.trans (Bool.or_eq_true_iff.2 (.inl hthere))
  · rcases hc : kind.calls with _ | function
    · rfl
    · have hthere := h.2
      rw [hc, Option.all_some] at hthere
      exact Ddl.has_append.trans (Bool.or_eq_true_iff.2 (.inl hthere))

/-- No object of the rest belongs to the table. -/
theorem Command.Apart.owner_ne {name : String} (h : d.Apart rest) (hd : d.key = .relation name) :
    ∀ o ∈ rest, o.kind.owner ≠ some name := by
  intro o ho howner
  refine (h o ho).2 ?_
  rw [hd, Kind.uses, howner]
  exact List.mem_append_left _ (by simp)

/-! ## The frame rule -/

/-- A command leaves alone what it is apart from. -/
theorem Command.run_append (h : d.run c = some c') (hapart : d.Apart rest) :
    d.run (c ++ rest) = some (c' ++ rest) := by
  cases d with
  | create o =>
    rw [run] at h
    split at h
    · exact absurd h (by simp)
    · rename_i hnew
      obtain rfl := Option.some.inj h
      rw [Bool.or_eq_true, Bool.not_eq_true', not_or, Bool.not_eq_true, Bool.not_eq_false] at hnew
      have hhas : (c ++ rest).has o.kind.key = c.has o.kind.key := hapart.has_append
      rw [run, hhas, hnew.1, supports_append hnew.2]
      rfl
  | alter o =>
    rw [run] at h
    split at h
    · exact absurd h (by simp)
    · rename_i hsupports
      rw [Bool.not_eq_true', Bool.not_eq_false] at hsupports
      have hhas : (c ++ rest).has o.kind.key = c.has o.kind.key := hapart.has_append
      rw [run, supports_append hsupports, hhas]
      split at h <;> rename_i hthere <;> obtain rfl := Option.some.inj h <;> simp [hthere]
  | createOrReplace o =>
    have hhas : (c ++ rest).has o.kind.key = c.has o.kind.key := hapart.has_append
    have hrest : (rest.map fun old => if old.kind.key = o.kind.key then o else old) = rest := by
      refine (List.map_congr_left fun old hold => if_neg (hapart old hold).1).trans
        (List.map_id' rest)
    rw [run, hhas, List.map_append, hrest]
    rw [run] at h
    split at h <;> rename_i hthere <;> obtain rfl := Option.some.inj h <;> simp [hthere]
  | dropTable name =>
    rw [run] at h
    split at h
    · rename_i hthere
      obtain rfl := Option.some.inj h
      have hthere' : (c ++ rest).hasTable name = true := List.any_append.trans (by
        rw [Bool.or_eq_true]
        exact .inl hthere)
      have hwithout : Catalog.without (c ++ rest) (.relation name) =
          c.without (.relation name) ++ rest :=
        hapart.without_append
      have hrest : (rest.filter fun o => o.kind.owner ≠ some name) = rest :=
        List.filter_eq_self.2 fun o ho => decide_eq_true (hapart.owner_ne rfl o ho)
      rw [run, if_pos hthere', hwithout, List.filter_append, hrest]
    · exact absurd h (by simp)
  | dropIndex name =>
    rw [run] at h
    split at h
    · rename_i hthere
      obtain rfl := Option.some.inj h
      have hthere' : (c ++ rest).hasIndex name = true := List.any_append.trans (by
        rw [Bool.or_eq_true]
        exact .inl hthere)
      have hwithout : Catalog.without (c ++ rest) (.relation name) =
          c.without (.relation name) ++ rest :=
        hapart.without_append
      rw [run, if_pos hthere', hwithout]
    · exact absurd h (by simp)
  | dropIfExists key =>
    have hwithout : Catalog.without (c ++ rest) key = c.without key ++ rest := hapart.without_append
    have hrest : (rest.any fun o => decide (key ∈ o.kind.calls.map Key.function)) = false := by
      refine List.any_eq_false.2 fun o ho hmem => (hapart o ho).2 ?_
      exact List.mem_append_right _ (Option.mem_toList.2 (of_decide_eq_true hmem))
    rw [run, List.any_append, hrest, Bool.or_false, hwithout]
    rw [run] at h
    split at h <;> rename_i hused
    · exact absurd h (by simp)
    · obtain rfl := Option.some.inj h
      rw [if_neg hused]

/-- A script leaves alone what its commands are apart from. -/
theorem runAll_append (h : runAll c ds = some c') (hapart : ∀ d ∈ ds, d.Apart rest) :
    runAll (c ++ rest) ds = some (c' ++ rest) := by
  induction ds generalizing c with
  | nil => rw [← Option.some.inj h, runAll]
  | cons d ds ih =>
    obtain ⟨mid, hd, hds⟩ := Option.bind_eq_some_iff.1 h
    rw [runAll, Command.run_append hd (hapart d List.mem_cons_self), Option.bind_some]
    exact ih hds fun e he => hapart e (List.mem_cons_of_mem _ he)

/-- A command is apart from a well formed database without the name it is about. -/
theorem Command.apart_of_wellFormed (h : rest.WellFormed) (hnew : rest.has d.key = false) :
    d.Apart rest := by
  intro o ho
  refine ⟨has_eq_false_iff.1 hnew o ho, fun huses => ?_⟩
  rw [h o ho _ huses] at hnew
  exact absurd hnew (by simp)

end Ddl
