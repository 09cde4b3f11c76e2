import SchedulerLm.Base.Pool

/-!
# Pooled connections

Sessions that share the connections of a pool. A connection has settings, which outlive
its transactions. A session takes a free connection, or a new one, when its transaction
begins, and enters it by setting what is to hold for itself (`Protocol.enter`); at the
end of the transaction, what it has set is undone, as far as it is (`Protocol.leave`),
and the connection goes back to the pool, or is closed. Any number of sessions interleave.

* `executed_of_run`: if a session leaves a connection as clean as it has found it, then
  every statement of a session is executed under what the session itself has set on a
  clean connection, whoever has used the connection before.
-/

namespace Transition

namespace Connections

variable {ρ σ τ : Type*}

/-- What sessions do to the settings of a connection, by their roles. -/
structure Protocol (ρ σ : Type*) where
  /-- The settings of a new connection. -/
  fresh : σ
  /-- The settings after a session has entered its transaction. -/
  enter : ρ → σ → σ
  /-- The settings after a transaction that began with the first ones and ended with the
      second ones. -/
  leave : σ → σ → σ

/-- A statement, with the role of the session that has executed it, and the settings it
    has been executed under. -/
structure Executed (ρ σ τ : Type*) where
  role : ρ
  settings : σ
  statement : τ

/-- The settings of the free connections, and the statements executed so far. -/
structure State (ρ σ τ : Type*) where
  free : List σ
  executed : List (Executed ρ σ τ)

/-- How far a session has come. -/
inductive Session (ρ σ : Type*)
  | opened (role : ρ)
  /-- It is in its transaction, with the settings found, and the present ones. -/
  | begun (role : ρ) (outer current : σ)

/-- What a session does. -/
inductive Choice (τ : Type*)
  /-- It begins its transaction, on a free connection or a new one. -/
  | begin (connection : Option ℕ)
  | execute (statement : τ)
  /-- It commits, or rolls back; its connection is kept in the pool or closed. -/
  | finish (keep : Bool)

variable (P : Protocol ρ σ)

/-- The moves of a session. -/
def move (s : State ρ σ τ) : Session ρ σ → Choice τ →
    Option (State ρ σ τ × Option (Session ρ σ))
  | .opened role, .begin none => some (s, some (.begun role P.fresh (P.enter role P.fresh)))
  | .opened role, .begin (some n) => s.free[n]?.map fun found =>
      ({ s with free := s.free.eraseIdx n }, some (.begun role found (P.enter role found)))
  | .begun role outer current, .execute statement =>
    some ({ s with executed := s.executed ++ [⟨role, current, statement⟩] },
      some (.begun role outer current))
  | .begun _ outer current, .finish keep =>
    some ({ s with free := if keep then P.leave outer current :: s.free else s.free }, none)
  | .opened _, .finish _ => some (s, none)
  | _, _ => none

/-- The program of the sessions. -/
def program : Program (State ρ σ τ) (Session ρ σ) ρ (Choice τ) :=
  ⟨fun s role => some (s, some (.opened role)), move P⟩

/-- Sessions that share the connections of a pool. -/
abbrev system : System (Pool (State ρ σ τ) (Session ρ σ)) (Act ρ (Choice τ)) := (program P).system

/-- Nothing is connected yet. -/
def State.init : State ρ σ τ := ⟨[], []⟩

/-- A transaction leaves a connection clean if it was. -/
structure Protocol.Keeps (P : Protocol ρ σ) (Clean : σ → Prop) : Prop where
  fresh : Clean P.fresh
  leave : ∀ role outer, Clean outer → Clean (P.leave outer (P.enter role outer))

/-- The session has entered a clean connection. -/
def Session.Entered (Clean : σ → Prop) : Session ρ σ → Prop
  | .opened _ => True
  | .begun role outer current => Clean outer ∧ current = P.enter role outer

/-- What holds at any time. -/
structure Entered (Clean : σ → Prop) (s : Pool (State ρ σ τ) (Session ρ σ)) : Prop where
  free : ∀ settings ∈ s.shared.free, Clean settings
  procs : ∀ p ∈ s.procs, p.Entered P Clean
  executed : ∀ e ∈ s.shared.executed, ∃ base, Clean base ∧ e.settings = P.enter e.role base

variable {P} {Clean : σ → Prop} {s s' : State ρ σ τ} {p : Session ρ σ} {o : Option (Session ρ σ)}
  {k : Choice τ}

/-- A move keeps free connections clean, and statements executed as they should be. -/
theorem entered_of_move (hP : P.Keeps Clean) (h : move P s p k = some (s', o))
    (hp : p.Entered P Clean) (hfree : ∀ settings ∈ s.free, Clean settings) :
    (∀ settings ∈ s'.free, Clean settings) ∧ (∀ q, o = some q → q.Entered P Clean) ∧
      ∀ e ∈ s'.executed, e ∈ s.executed ∨ ∃ base, Clean base ∧
        e.settings = P.enter e.role base := by
  rcases p with role | ⟨role, outer, current⟩ <;> rcases k with connection | statement | keep
  · rcases connection with _ | n
    · obtain ⟨rfl, rfl⟩ := Prod.mk.inj (Option.some.inj h)
      refine ⟨hfree, fun q hq => ?_, fun e he => .inl he⟩
      obtain rfl := Option.some.inj hq
      exact ⟨hP.fresh, rfl⟩
    · obtain ⟨found, hfound, h⟩ := Option.map_eq_some_iff.1 h
      obtain ⟨rfl, rfl⟩ := Prod.mk.inj h
      refine ⟨fun settings hmem => hfree settings (List.mem_of_mem_eraseIdx hmem), fun q hq => ?_,
        fun e he => .inl he⟩
      obtain rfl := Option.some.inj hq
      exact ⟨hfree found (List.mem_of_getElem? hfound), rfl⟩
  · exact absurd h (by simp [move])
  · obtain ⟨rfl, rfl⟩ := Prod.mk.inj (Option.some.inj h)
    exact ⟨hfree, by simp, fun e he => .inl he⟩
  · exact absurd h (by simp [move])
  · obtain ⟨rfl, rfl⟩ := Prod.mk.inj (Option.some.inj h)
    obtain ⟨houter, rfl⟩ := hp
    refine ⟨hfree, fun q hq => ?_, fun e he => ?_⟩
    · obtain rfl := Option.some.inj hq
      exact ⟨houter, rfl⟩
    · rcases List.mem_append.1 he with he | he
      · exact .inl he
      · obtain rfl := List.mem_singleton.1 he
        exact .inr ⟨outer, houter, rfl⟩
  · obtain ⟨rfl, rfl⟩ := Prod.mk.inj (Option.some.inj h)
    obtain ⟨houter, rfl⟩ := hp
    refine ⟨fun settings hmem => ?_, by simp, fun e he => .inl he⟩
    dsimp only at hmem
    split at hmem
    · rcases List.mem_cons.1 hmem with rfl | hmem
      · exact hP.leave role outer houter
      · exact hfree settings hmem
    · exact hfree settings hmem

theorem Entered.step {s s' : Pool (State ρ σ τ) (Session ρ σ)} {a : Act ρ (Choice τ)}
    (hP : P.Keeps Clean) (h : Entered P Clean s) (hs : (system P).step s a = some s') :
    Entered P Clean s' := by
  cases Program.moved_of_step hs with
  | arrive ha hprocs =>
    obtain ⟨hshared, rfl⟩ := Prod.mk.inj (Option.some.inj ha)
    rw [Option.toList_some, List.singleton_append] at hprocs
    refine ⟨hshared ▸ h.free, fun p hp => ?_, hshared ▸ h.executed⟩
    rw [hprocs, List.mem_cons] at hp
    rcases hp with rfl | hp
    · trivial
    · exact h.procs p hp
  | move _ hm hp hp' =>
    have hmem := (mem_of_perm_cons hp).2 (.inl rfl)
    obtain ⟨hfree, hq, hexecuted⟩ := entered_of_move hP hm (h.procs _ hmem) h.free
    refine ⟨hfree, fun q hqmem => ?_, fun e he => (hexecuted e he).elim (h.executed e) id⟩
    rcases (mem_of_perm_toList hp').1 hqmem with rfl | hqmem
    · exact hq q rfl
    · exact h.procs q ((mem_of_perm_cons hp).2 (.inr hqmem))

/-- Every statement is executed under what its session has set on a clean connection. -/
theorem executed_of_run {as : List (Act ρ (Choice τ))} {s : Pool (State ρ σ τ) (Session ρ σ)}
    (hP : P.Keeps Clean) (h : (system P).Run ⟨.init, []⟩ as s) :
    ∀ e ∈ s.shared.executed, ∃ base, Clean base ∧ e.settings = P.enter e.role base := by
  have hinit : Entered P Clean (⟨.init, []⟩ : Pool (State ρ σ τ) (Session ρ σ)) :=
    ⟨by simp [State.init], by simp, by simp [State.init]⟩
  exact (h.invariant hinit fun _ _ _ hI _ hs => hI.step hP hs).executed

end Connections

end Transition
