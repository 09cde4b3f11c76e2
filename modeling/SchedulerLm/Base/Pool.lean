import SchedulerLm.Base.System
import Mathlib.Data.List.Perm.Basic

/-!
# Pools of processes

Processes that interleave over a shared state: every step is either an arrival
(which may put a new process into the pool), or a move of one process, which
changes the shared state and lets the process go on, or end. What a process can
do is a `Program`; its system (`Program.system`) interleaves any number of
processes in any order.

The order of the processes in a pool does not matter, so the steps are read
(`Program.Moved`) up to permutation: a move takes one process `p` out of the
pool and puts back what it goes on as.
-/

namespace Transition

/-- Processes over a shared state. -/
@[ext]
structure Pool (σ π : Type*) where
  shared : σ
  procs : List π

/-- What processes do: an arrival `i` changes the shared state and may start a
    process; a move of a process under the choice `k` changes the shared state,
    and the process goes on, or ends. -/
structure Program (σ π ι κ : Type*) where
  arrive : σ → ι → Option (σ × Option π)
  move : σ → π → κ → Option (σ × Option π)

/-- The actions of a pool: an arrival, or a move of its `n`-th process. -/
inductive Act (ι κ : Type*)
  | arrive (i : ι)
  | move (n : ℕ) (k : κ)

namespace Pool

variable {π : Type*}

/-- The processes after the `n`-th goes on as `o`, or ends. -/
def replace (ps : List π) (n : ℕ) : Option π → List π
  | some q => ps.set n q
  | none => ps.eraseIdx n

theorem perm_of_getElem? {ps : List π} {n : ℕ} {p : π} (h : ps[n]? = some p) :
    ps.Perm (p :: ps.eraseIdx n) := by
  obtain ⟨hn, rfl⟩ := List.getElem?_eq_some_iff.1 h
  exact (List.getElem_cons_eraseIdx_perm hn).symm

theorem replace_perm {ps : List π} {n : ℕ} {p : π} (h : ps[n]? = some p) (o : Option π) :
    (replace ps n o).Perm (o.toList ++ ps.eraseIdx n) := by
  obtain ⟨hn, -⟩ := List.getElem?_eq_some_iff.1 h
  cases o with
  | none => exact List.Perm.refl _
  | some q => exact List.set_perm_cons_eraseIdx hn q

end Pool

namespace Program

variable {σ π ι κ : Type*} (P : Program σ π ι κ)

/-- The step of a pool. -/
def step (s : Pool σ π) : Act ι κ → Option (Pool σ π)
  | .arrive i => (P.arrive s.shared i).map fun r => ⟨r.1, r.2.toList ++ s.procs⟩
  | .move n k => s.procs[n]?.bind fun p =>
      (P.move s.shared p k).map fun r => ⟨r.1, Pool.replace s.procs n r.2⟩

/-- The interleavings of the processes. -/
def system : System (Pool σ π) (Act ι κ) := ⟨P.step⟩

/-- What a step of a pool does, up to the order of the processes. -/
inductive Moved (s s' : Pool σ π) : Act ι κ → Prop
  | arrive {i : ι} {o : Option π} :
      P.arrive s.shared i = some (s'.shared, o) → s'.procs = o.toList ++ s.procs →
        Moved s s' (.arrive i)
  | move {n : ℕ} {k : κ} {p : π} {o : Option π} {rest : List π} :
      s.procs[n]? = some p → P.move s.shared p k = some (s'.shared, o) →
      s.procs.Perm (p :: rest) → s'.procs.Perm (o.toList ++ rest) → Moved s s' (.move n k)

variable {P}

theorem moved_of_step {s s' : Pool σ π} {a : Act ι κ} (h : P.system.step s a = some s') :
    P.Moved s s' a := by
  cases a with
  | arrive i =>
    obtain ⟨⟨sh, o⟩, hr, rfl⟩ := Option.map_eq_some_iff.1 h
    exact .arrive hr rfl
  | move n k =>
    obtain ⟨p, hp, h⟩ := Option.bind_eq_some_iff.1 h
    obtain ⟨⟨sh, o⟩, hr, rfl⟩ := Option.map_eq_some_iff.1 h
    exact .move hp hr (Pool.perm_of_getElem? hp) (Pool.replace_perm hp o)

end Program

/-! ## Processes of a permuted pool -/

section Perm

variable {π : Type*} {ps ps' rest : List π} {p q : π} {o : Option π}

/-- A process of the pool is the one that moves, or another one. -/
theorem mem_of_perm_cons (h : ps.Perm (p :: rest)) : q ∈ ps ↔ q = p ∨ q ∈ rest := by
  rw [h.mem_iff, List.mem_cons]

/-- After a move, a process is what the moved one goes on as, or another one. -/
theorem mem_of_perm_toList (h : ps'.Perm (o.toList ++ rest)) : q ∈ ps' ↔ o = some q ∨ q ∈ rest := by
  rw [h.mem_iff, List.mem_append, Option.mem_toList]

/-- The processes satisfying `f`, counted after a move. -/
theorem countP_of_perm_toList (f : π → Bool) (h : ps'.Perm (o.toList ++ rest)) :
    ps'.countP f = o.toList.countP f + rest.countP f := by
  rw [h.countP_eq, List.countP_append]

end Perm

end Transition
