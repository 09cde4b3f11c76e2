import SchedulerLm.Base.Ternary
import Mathlib.Data.List.Basic

/-!
# Row-level security

The permissive policies of a table, and what statements do under them, in a session
with the settings `σ`, for a role that does not bypass them.

* An existing row is selected, updated or deleted if a policy for the command lets it
  pass (`USING`); the others are as if they were not there. To update or delete a row
  it has to be selected as well.
* A new row is inserted, or left by an update, if a policy for the command lets it
  pass (`WITH CHECK`), and has to be selected as well if it is returned, or if it is
  left by an update; else the statement raises.

A statement is admitted when it does what it does without policies
(`Statement.Admitted`), as it is when one policy for all commands lets its rows pass
(`admitted_of_forAll`). When all the policies let pass only the rows of a tenant, the
statements of the tenant neither depend on the other rows nor change them
(`Statement.run_filter`, `Statement.run_others`).
-/

namespace RowPolicies

open Ternary

/-- The commands policies are for. -/
inductive Command
  | select
  | insert
  | update
  | delete
  deriving DecidableEq

/-- A permissive policy: its command, or all of them, `USING` and `WITH CHECK`. -/
structure Policy (σ ρ : Type*) where
  command : Option Command := none
  usingExpr : Option (σ → ρ → Truth) := none
  withCheck : Option (σ → ρ → Truth) := none

/-- A statement on a table. -/
inductive Statement (ρ : Type*)
  | select (condition : ρ → Bool)
  | insert (row : ρ) (returning : Bool)
  | update (condition : ρ → Bool) (set : ρ → ρ)
  | delete (condition : ρ → Bool)

variable {σ ρ : Type*}

namespace Policy

variable (p : Policy σ ρ) (settings : σ) (row : ρ)

/-- The policy is for the command. -/
def appliesTo (c : Command) : Bool := p.command.all fun command => command = c

/-- The policy lets an existing row pass. -/
def passes : Bool := p.usingExpr.any fun e => (e settings row).holds

/-- The policy lets a new row pass, as an existing one if there is no `WITH CHECK`. -/
def checks : Bool := (p.withCheck.or p.usingExpr).any fun e => (e settings row).holds

end Policy

section

variable (policies : List (Policy σ ρ)) (settings : σ)

/-- The command sees the existing row. -/
def visible (c : Command) (row : ρ) : Bool :=
  policies.any fun p => p.appliesTo c && p.passes settings row

/-- The command may leave the new row. -/
def writable (c : Command) (row : ρ) : Bool :=
  policies.any fun p => p.appliesTo c && p.checks settings row

/-- The command changes the existing row, if the condition holds of it. -/
def hits (c : Command) (condition : ρ → Bool) (row : ρ) : Bool :=
  condition row && visible policies settings .select row && visible policies settings c row

/-- An update may leave the new row. -/
def replaces (row : ρ) : Bool :=
  writable policies settings .update row && visible policies settings .select row

/-- What a statement returns and leaves, unless it raises. -/
def Statement.run (table : List ρ) : Statement ρ → Option (List ρ × List ρ)
  | .select condition =>
    some (table.filter fun row => condition row && visible policies settings .select row, table)
  | .insert row returning =>
    if writable policies settings .insert row ∧
      (returning → visible policies settings .select row) then
      some (if returning then [row] else [], table ++ [row])
    else none
  | .update condition set =>
    let hit := hits policies settings .update condition
    if ∀ row ∈ table, hit row → replaces policies settings (set row) then
      some ([], table.map fun row => if hit row then set row else row)
    else none
  | .delete condition =>
    some ([], table.filter fun row => !hits policies settings .delete condition row)

end

namespace Statement

/-- What a statement returns and leaves without policies. -/
def runUnrestricted (table : List ρ) : Statement ρ → List ρ × List ρ
  | .select condition => (table.filter condition, table)
  | .insert row returning => (if returning then [row] else [], table ++ [row])
  | .update condition set => ([], table.map fun row => if condition row then set row else row)
  | .delete condition => ([], table.filter fun row => !condition row)

/-- The policies admit the statement: it does what it does without them. -/
def Admitted (policies : List (Policy σ ρ)) (settings : σ) (table : List ρ) (st : Statement ρ) :
    Prop :=
  st.run policies settings table = some (st.runUnrestricted table)

/-- The rows a statement reads or writes. -/
def rows (table : List ρ) : Statement ρ → List ρ
  | .select condition => table.filter condition
  | .insert row _ => [row]
  | .update condition set => table.filter condition ++ (table.filter condition).map set
  | .delete condition => table.filter condition

end Statement

variable {policies : List (Policy σ ρ)} {settings : σ} {table rows left : List ρ} {st : Statement ρ}
  {condition : ρ → Bool} {set : ρ → ρ} {row : ρ} {returning : Bool} {p : Policy σ ρ} {c : Command}

/-! ## What is admitted -/

theorem visible_of_mem (hp : p ∈ policies) (hc : p.appliesTo c = true)
    (h : p.passes settings row = true) : visible policies settings c row = true :=
  List.any_eq_true.2 ⟨p, hp, by simp [hc, h]⟩

theorem writable_of_mem (hp : p ∈ policies) (hc : p.appliesTo c = true)
    (h : p.checks settings row = true) : writable policies settings c row = true :=
  List.any_eq_true.2 ⟨p, hp, by simp [hc, h]⟩

/-- A selection is admitted when it sees its rows. -/
theorem admitted_select (h : ∀ row ∈ table, condition row = true →
    visible policies settings .select row = true) :
    (Statement.select condition).Admitted policies settings table := by
  refine congrArg (fun rows => some (rows, table)) (List.filter_congr fun row hrow => ?_)
  by_cases hc : condition row = true
  · rw [h row hrow hc, Bool.and_true]
  · simp [hc]

/-- An insertion is admitted iff its row may be inserted, and is seen if it is
    returned. -/
theorem admitted_insert_iff : (Statement.insert row returning).Admitted policies settings table ↔
    writable policies settings .insert row = true ∧
      (returning = true → visible policies settings .select row = true) := by
  rw [Statement.Admitted, Statement.run]
  split
  · rename_i h
    exact ⟨fun _ => h, fun _ => rfl⟩
  · rename_i h
    exact ⟨fun hnone => absurd hnone (by simp), fun h' => absurd h' h⟩

/-- A statement is admitted when a policy for all commands lets all its rows pass. -/
theorem admitted_of_forAll (hp : p ∈ policies) (hall : p.command = none)
    (hrows : ∀ row ∈ st.rows table, p.passes settings row = true ∧ p.checks settings row = true) :
    st.Admitted policies settings table := by
  have hc : ∀ c, p.appliesTo c = true := fun c => by rw [Policy.appliesTo, hall]; rfl
  cases st with
  | select condition =>
    exact admitted_select fun row hrow hcond =>
      visible_of_mem hp (hc _) (hrows row (List.mem_filter.2 ⟨hrow, hcond⟩)).1
  | insert row returning =>
    obtain ⟨hpasses, hchecks⟩ := hrows row (List.mem_singleton.2 rfl)
    exact admitted_insert_iff.2
      ⟨writable_of_mem hp (hc _) hchecks, fun _ => visible_of_mem hp (hc _) hpasses⟩
  | update condition set =>
    -- The rows that are hit are those of the condition.
    have hold : ∀ row ∈ table, condition row = true → p.passes settings row = true :=
      fun row hrow hcond =>
        (hrows row (List.mem_append_left _ (List.mem_filter.2 ⟨hrow, hcond⟩))).1
    have hnew : ∀ row ∈ table, condition row = true →
        p.passes settings (set row) = true ∧ p.checks settings (set row) = true :=
      fun row hrow hcond => hrows (set row)
        (List.mem_append_right _ (List.mem_map_of_mem (List.mem_filter.2 ⟨hrow, hcond⟩)))
    have hhit : ∀ row ∈ table, hits policies settings .update condition row = condition row := by
      intro row hrow
      by_cases hcond : condition row = true
      · simp [hits, hcond, visible_of_mem hp (hc _) (hold row hrow hcond)]
      · simp [hits, hcond]
    rw [Statement.Admitted, Statement.run, if_pos]
    · exact congrArg (fun left => some ([], left))
        (List.map_congr_left fun row hrow => by rw [hhit row hrow])
    · intro row hrow hcond
      obtain ⟨hpasses, hchecks⟩ := hnew row hrow ((hhit row hrow).symm.trans hcond)
      rw [replaces, writable_of_mem hp (hc _) hchecks, visible_of_mem hp (hc _) hpasses,
        Bool.and_self]
  | delete condition =>
    refine congrArg (fun left => some ([], left)) (List.filter_congr fun row hrow => ?_)
    by_cases hcond : condition row = true
    · have hpasses := (hrows row (List.mem_filter.2 ⟨hrow, hcond⟩)).1
      simp [hits, hcond, visible_of_mem hp (hc _) hpasses]
    · simp [hits, hcond]

/-! ## Tenants -/

/-- The policies let pass only the rows satisfying `own`. -/
def Confined (policies : List (Policy σ ρ)) (settings : σ) (own : ρ → Bool) : Prop :=
  ∀ p ∈ policies, ∀ row, p.passes settings row = true ∨ p.checks settings row = true →
    own row = true

variable {own : ρ → Bool}

theorem Confined.visible (h : Confined policies settings own)
    (hrow : RowPolicies.visible policies settings c row = true) : own row = true := by
  obtain ⟨p, hp, hpass⟩ := List.any_eq_true.1 hrow
  rw [Bool.and_eq_true] at hpass
  exact h p hp row (.inl hpass.2)

theorem Confined.writable (h : Confined policies settings own)
    (hrow : RowPolicies.writable policies settings c row = true) : own row = true := by
  obtain ⟨p, hp, hcheck⟩ := List.any_eq_true.1 hrow
  rw [Bool.and_eq_true] at hcheck
  exact h p hp row (.inr hcheck.2)

theorem Confined.hits (h : Confined policies settings own)
    (hrow : RowPolicies.hits policies settings c condition row = true) : own row = true := by
  rw [RowPolicies.hits, Bool.and_eq_true] at hrow
  exact h.visible hrow.2

theorem Confined.replaces (h : Confined policies settings own)
    (hrow : RowPolicies.replaces policies settings row = true) : own row = true := by
  rw [RowPolicies.replaces, Bool.and_eq_true] at hrow
  exact h.writable hrow.1

/-- An update that does not raise changes rows of the tenant to rows of the tenant. -/
theorem Confined.own_update (h : Confined policies settings own) (hrow : row ∈ table)
    (hall : ∀ row ∈ table, RowPolicies.hits policies settings .update condition row = true →
      RowPolicies.replaces policies settings (set row) = true) :
    own (if RowPolicies.hits policies settings .update condition row = true then set row else row) =
      own row := by
  split
  · rename_i hhit
    rw [h.hits hhit, h.replaces (hall row hrow hhit)]
  · rfl

/-- A statement of a tenant does on the rows of the tenant alone what it does on the
    table. -/
theorem Statement.run_filter (h : Confined policies settings own) (st : Statement ρ)
    (table : List ρ) : st.run policies settings (table.filter own) =
      (st.run policies settings table).map fun r => (r.1, r.2.filter own) := by
  cases st with
  | select condition =>
    refine congrArg (fun rows => some (rows, table.filter own)) ?_
    rw [List.filter_filter]
    refine List.filter_congr fun row _ => ?_
    by_cases hv : visible policies settings .select row = true
    · simp [hv, h.visible hv]
    · simp [hv]
  | insert row returning =>
    rw [run, run]
    split
    · rename_i hins
      simp [List.filter_append, h.writable hins.1]
    · rfl
  | update condition set =>
    -- It raises for the rows that are hit, which are the tenant's.
    have hiff : (∀ row ∈ table.filter own, hits policies settings .update condition row = true →
        replaces policies settings (set row) = true) ↔
        ∀ row ∈ table, hits policies settings .update condition row = true →
          replaces policies settings (set row) = true :=
      ⟨fun hall row hrow hhit => hall row (List.mem_filter.2 ⟨hrow, h.hits hhit⟩) hhit,
        fun hall row hrow => hall row (List.mem_filter.1 hrow).1⟩
    rw [run, run]
    by_cases hall : ∀ row ∈ table, hits policies settings .update condition row = true →
        replaces policies settings (set row) = true
    · rw [if_pos hall, if_pos (hiff.2 hall)]
      refine congrArg (fun left => some ([], left)) ?_
      rw [List.filter_map]
      exact congrArg (List.map _)
        (List.filter_congr fun row hrow => (h.own_update hrow hall).symm)
    · rw [if_neg hall, if_neg (hiff.not.2 hall)]
      rfl
  | delete condition =>
    refine congrArg (fun left => some ([], left)) ?_
    rw [List.filter_filter, List.filter_filter]
    exact List.filter_congr fun row _ => Bool.and_comm _ _

/-- A statement of a tenant returns rows of the tenant, and leaves the other rows. -/
theorem Statement.run_others (h : Confined policies settings own)
    (hrun : st.run policies settings table = some (rows, left)) :
    (∀ row ∈ rows, own row = true) ∧
      left.filter (fun row => !own row) = table.filter fun row => !own row := by
  cases st with
  | select condition =>
    obtain ⟨rfl, rfl⟩ := Prod.mk.inj (Option.some.inj hrun)
    refine ⟨fun row hrow => ?_, rfl⟩
    have hv := (List.mem_filter.1 hrow).2
    rw [Bool.and_eq_true] at hv
    exact h.visible hv.2
  | insert row returning =>
    rw [run] at hrun
    split at hrun
    · rename_i hins
      have hown := h.writable hins.1
      obtain ⟨rfl, rfl⟩ := Prod.mk.inj (Option.some.inj hrun)
      refine ⟨fun r hr => ?_, by simp [List.filter_append, hown]⟩
      split at hr
      · exact List.mem_singleton.1 hr ▸ hown
      · exact absurd hr List.not_mem_nil
    · exact absurd hrun (by simp)
  | update condition set =>
    rw [run] at hrun
    split at hrun
    · rename_i hall
      obtain ⟨rfl, rfl⟩ := Prod.mk.inj (Option.some.inj hrun)
      refine ⟨by simp, ?_⟩
      rw [List.filter_map]
      -- A row that is not the tenant's is not hit, and no row becomes one.
      refine (List.map_congr_left fun row hrow => if_neg fun hhit => ?_).trans
        ((List.map_id _).trans (List.filter_congr fun row hrow =>
          congrArg (! ·) (h.own_update hrow hall)))
      obtain ⟨hmem, hother⟩ := List.mem_filter.1 hrow
      rw [Function.comp_apply, h.own_update hmem hall, h.hits hhit] at hother
      exact absurd hother (by simp)
    · exact absurd hrun (by simp)
  | delete condition =>
    obtain ⟨rfl, rfl⟩ := Prod.mk.inj (Option.some.inj hrun)
    refine ⟨by simp, ?_⟩
    rw [List.filter_filter]
    refine List.filter_congr fun row _ => ?_
    by_cases hhit : hits policies settings .delete condition row = true
    · simp [h.hits hhit]
    · simp [hhit]

end RowPolicies
