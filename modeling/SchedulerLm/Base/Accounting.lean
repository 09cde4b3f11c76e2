import SchedulerLm.Base.Pool
import Mathlib.Algebra.GroupWithZero.Nat
import Mathlib.Algebra.Order.BigOperators.Group.List

/-!
# Accounts of runs

What happens in a run is bounded by what comes into it. Every action has a cost and a
gain, and a measure of the state pays: a step adds at most its cost to the measure,
less its gain. Then the gains of a run are at most its costs, and what the measure was
at its beginning (`System.RunWith.balance`).

In a pool, the measure is an effect on the shared state, and the credit of the
processes, for what they may still do (`Pool.account`). Only arrivals cost, and a
process pays for its own moves (`Program.account_step`).
-/

namespace Transition

/-! ## Balances -/

section

variable {σ α : Type*} {M : System σ α} {C : σ → α → Prop} {I : σ → Prop} {s₀ s : σ}
  {as : List α}

/-- If every step adds at most its cost to the measure, less its gain, the gains of a run
    are covered by its costs. -/
theorem System.RunWith.balance {measure : σ → ℕ} {cost gain : α → ℕ}
    (h : M.RunWith C s₀ as s) (hI : I s₀) (hkeep : ∀ s a s', I s → C s a →
      M.step s a = some s' → I s')
    (hstep : ∀ s a s', I s → C s a → M.step s a = some s' →
      measure s' + gain a ≤ measure s + cost a) :
    measure s + (as.map gain).sum ≤ measure s₀ + (as.map cost).sum := by
  induction h with
  | nil => exact Nat.le_refl _
  | @snoc as s s' a h hC hs ih =>
    have hlast := hstep s a s' (h.invariant hI hkeep) hC hs
    rw [List.map_append, List.map_append, List.sum_append, List.sum_append, List.map_singleton,
      List.map_singleton, List.sum_singleton, List.sum_singleton]
    omega

/-- Without gains, the costs of a run bound the measure. -/
theorem System.RunWith.le_cost {measure : σ → ℕ} {cost : α → ℕ}
    (h : M.RunWith C s₀ as s) (hI : I s₀) (hkeep : ∀ s a s', I s → C s a →
      M.step s a = some s' → I s')
    (hstep : ∀ s a s', I s → C s a → M.step s a = some s' → measure s' ≤ measure s + cost a) :
    measure s ≤ measure s₀ + (as.map cost).sum := by
  have hle : measure s + (as.map fun _ => 0).sum ≤ measure s₀ + (as.map cost).sum :=
    h.balance hI hkeep hstep
  exact (Nat.le_add_right _ _).trans hle

/-- Without costs, the measure does not grow. -/
theorem System.RunWith.le_start {measure : σ → ℕ} (h : M.RunWith C s₀ as s) (hI : I s₀)
    (hkeep : ∀ s a s', I s → C s a → M.step s a = some s' → I s')
    (hstep : ∀ s a s', I s → C s a → M.step s a = some s' → measure s' ≤ measure s) :
    measure s ≤ measure s₀ := by
  have hle : measure s ≤ measure s₀ + (as.map fun _ => 0).sum := h.le_cost hI hkeep hstep
  simpa using hle

end

/-! ## Pools -/

section

variable {σ π ι κ : Type*}

/-- The credit of the processes. -/
def Pool.credit (credit : π → ℕ) (procs : List π) : ℕ := (procs.map credit).sum

/-- The effect on the shared state, and the credit of the processes. -/
def Pool.account (effect : σ → ℕ) (credit : π → ℕ) (s : Pool σ π) : ℕ :=
  effect s.shared + Pool.credit credit s.procs

/-- The cost of an action: that of what arrives. -/
def Act.cost (cost : ι → ℕ) : Act ι κ → ℕ
  | .arrive i => cost i
  | .move _ _ => 0

/-- The number of moves. -/
def Act.moves : Act ι κ → ℕ
  | .arrive _ => 0
  | .move _ _ => 1

/-- What arrives satisfies `f`. -/
def Act.arrives (f : ι → Bool) : Act ι κ → Bool
  | .arrive i => f i
  | .move _ _ => false

/-- The arrivals that cost something, counted. -/
theorem Act.sum_cost (f : ι → Bool) (as : List (Act ι κ)) :
    (as.map (Act.cost fun i => if f i then 1 else 0)).sum = as.countP (Act.arrives f) := by
  induction as with
  | nil => rfl
  | cons a as ih =>
    rw [List.map_cons, List.sum_cons, List.countP_cons, ih, Nat.add_comm]
    cases a <;> rfl

@[simp] theorem Pool.credit_nil (credit : π → ℕ) : Pool.credit credit [] = 0 := rfl

theorem Pool.credit_cons (credit : π → ℕ) (p : π) (ps : List π) :
    Pool.credit credit (p :: ps) = credit p + Pool.credit credit ps := by
  rw [Pool.credit, List.map_cons, List.sum_cons, Pool.credit]

theorem Pool.credit_append (credit : π → ℕ) (ps qs : List π) :
    Pool.credit credit (ps ++ qs) = Pool.credit credit ps + Pool.credit credit qs := by
  rw [Pool.credit, List.map_append, List.sum_append, Pool.credit, Pool.credit]

theorem Pool.credit_perm {credit : π → ℕ} {ps qs : List π} (h : ps.Perm qs) :
    Pool.credit credit ps = Pool.credit credit qs := (h.map credit).sum_eq

/-- The credit of a process that has gone on, or ended. -/
theorem Pool.credit_toList (credit : π → ℕ) (o : Option π) :
    Pool.credit credit o.toList = o.elim 0 credit := by
  cases o with
  | none => rfl
  | some p => rw [Option.toList_some, Pool.credit_cons, Pool.credit_nil, Nat.add_zero,
      Option.elim_some]

/-- A count of processes is a credit. -/
theorem Pool.credit_countP (f : π → Bool) (ps : List π) :
    Pool.credit (fun p => if f p then 1 else 0) ps = ps.countP f := by
  induction ps with
  | nil => rfl
  | cons p ps ih =>
    rw [Pool.credit_cons, List.countP_cons, ih, Nat.add_comm]

variable {P : Program σ π ι κ} {s s' : Pool σ π} {a : Act ι κ} {effect : σ → ℕ}
  {credit : π → ℕ} {cost : ι → ℕ}

/-- If an arrival brings at most its cost, and a process pays for its moves, for the gain
    `gain` among it, then so it is for the steps of the pool. -/
theorem Program.account_step (gain : ℕ) (hs : P.system.step s a = some s')
    (harrive : ∀ i o, P.arrive s.shared i = some (s'.shared, o) →
      effect s'.shared + o.elim 0 credit ≤ effect s.shared + cost i)
    (hmove : ∀ p k o, p ∈ s.procs → P.move s.shared p k = some (s'.shared, o) →
      effect s'.shared + o.elim 0 credit + gain ≤ effect s.shared + credit p) :
    Pool.account effect credit s' + a.moves * gain ≤ Pool.account effect credit s +
      a.cost cost := by
  cases moved_of_step hs with
  | @arrive i o ha hprocs =>
    have hle := harrive i o ha
    rw [Pool.account, Pool.account, hprocs, Pool.credit_append, Pool.credit_toList,
      Act.moves, Act.cost]
    omega
  | @move n k p o rest _ hm hp hp' =>
    have hle := hmove p k o ((mem_of_perm_cons hp).2 (.inl rfl)) hm
    rw [Pool.account, Pool.account, Pool.credit_perm hp, Pool.credit_perm hp', Pool.credit_append,
      Pool.credit_toList, Pool.credit_cons, Act.moves, Act.cost]
    omega

/-- Where no gain is counted. -/
theorem Program.account_step_le (hs : P.system.step s a = some s')
    (harrive : ∀ i o, P.arrive s.shared i = some (s'.shared, o) →
      effect s'.shared + o.elim 0 credit ≤ effect s.shared + cost i)
    (hmove : ∀ p k o, p ∈ s.procs → P.move s.shared p k = some (s'.shared, o) →
      effect s'.shared + o.elim 0 credit ≤ effect s.shared + credit p) :
    Pool.account effect credit s' ≤ Pool.account effect credit s + a.cost cost := by
  simpa using account_step 0 hs harrive hmove

/-- Where arrivals are free as well. -/
theorem Program.account_step_antitone (hs : P.system.step s a = some s')
    (harrive : ∀ i o, P.arrive s.shared i = some (s'.shared, o) →
      effect s'.shared + o.elim 0 credit ≤ effect s.shared)
    (hmove : ∀ p k o, p ∈ s.procs → P.move s.shared p k = some (s'.shared, o) →
      effect s'.shared + o.elim 0 credit ≤ effect s.shared + credit p) :
    Pool.account effect credit s' ≤ Pool.account effect credit s := by
  have hle : Pool.account effect credit s' ≤ Pool.account effect credit s + a.cost fun _ => 0 :=
    account_step_le hs harrive hmove
  cases a <;> exact hle

end

end Transition
