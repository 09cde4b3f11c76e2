import Mathlib.Tactic.Common

/-!
# Three-valued logic

The truth values of SQL: a comparison with a null is neither true nor false, but
unknown, and the connectives carry this on.

* A constraint is violated by `false` only (`Truth.isSatisfied`).
* A filter, or a policy, lets pass what is `true` only (`Truth.holds`).

A conjunction that is to hold is read through its members (`holds_all`); a
disjunction is satisfied as soon as one of its members holds
(`isSatisfied_any_of_holds`).
-/

namespace Ternary

/-- The truth values. -/
inductive Truth
  | true
  | false
  | unknown
  deriving DecidableEq

namespace Truth

/-- Known truth values. -/
def ofBool : Bool → Truth
  | .true => true
  | .false => false

/-- Negation. -/
protected def not : Truth → Truth
  | true => false
  | false => true
  | unknown => unknown

/-- Conjunction: false as soon as one side is. -/
protected def and : Truth → Truth → Truth
  | false, _ => false
  | _, false => false
  | true, true => true
  | _, _ => unknown

/-- Disjunction: true as soon as one side is. -/
protected def or : Truth → Truth → Truth
  | true, _ => true
  | _, true => true
  | false, false => false
  | _, _ => unknown

/-- The conjunction of a list. -/
def all : List Truth → Truth := List.foldr Truth.and true

/-- The disjunction of a list. -/
def any : List Truth → Truth := List.foldr Truth.or false

variable {α : Type*} [DecidableEq α]

/-- `x = y`: unknown if one of them is null. -/
def eq : Option α → Option α → Truth
  | some x, some y => ofBool (x = y)
  | _, _ => unknown

/-- `x IN (xs)`. -/
def isIn (x : Option α) (xs : List α) : Truth := any (xs.map fun y => eq x (some y))

/-- `x IS NULL`. -/
def isNull {α : Type*} (x : Option α) : Truth := ofBool x.isNone

/-- `x IS NOT NULL`. -/
def isNotNull {α : Type*} (x : Option α) : Truth := ofBool x.isSome

/-- A constraint is satisfied unless it is false. -/
def isSatisfied (t : Truth) : Bool := t ≠ false

/-- A filter lets pass what is true. -/
def holds (t : Truth) : Bool := t = true

/-! ## What is true -/

theorem isSatisfied_of_holds {t : Truth} (h : t.holds = .true) : t.isSatisfied = .true := by
  cases t <;> first | rfl | exact absurd h (by decide)

@[simp] theorem holds_ofBool (b : Bool) : (ofBool b).holds = b := by cases b <;> rfl

@[simp] theorem holds_and (t u : Truth) : (t.and u).holds = (t.holds && u.holds) := by
  cases t <;> cases u <;> rfl

@[simp] theorem holds_or (t u : Truth) : (t.or u).holds = (t.holds || u.holds) := by
  cases t <;> cases u <;> rfl

/-- A conjunction holds iff all its members do. -/
theorem holds_all (ts : List Truth) : (all ts).holds = ts.all holds := by
  induction ts with
  | nil => rfl
  | cons t ts ih => exact (holds_and t (all ts)).trans (congrArg _ ih)

/-- A disjunction holds iff one of its members does. -/
theorem holds_any (ts : List Truth) : (any ts).holds = ts.any holds := by
  induction ts with
  | nil => rfl
  | cons t ts ih => exact (holds_or t (any ts)).trans (congrArg _ ih)

/-- A comparison holds iff neither side is null, and they are equal. -/
theorem holds_eq (x y : Option α) : (eq x y).holds = .true ↔ ∃ a, x = some a ∧ y = some a := by
  cases x with
  | none => simp [eq, holds]
  | some a =>
    cases y with
    | none => simp [eq, holds]
    | some b => simp [eq, holds_ofBool, eq_comm]

/-- A disjunction is satisfied as soon as one member holds. -/
theorem isSatisfied_any_of_holds {t : Truth} {ts : List Truth} (ht : t ∈ ts)
    (h : t.holds = .true) : (any ts).isSatisfied = .true :=
  isSatisfied_of_holds ((holds_any ts).trans (List.any_eq_true.2 ⟨t, ht, h⟩))

end Truth

end Ternary
