import SchedulerLm.Base.System

/-!
# Observers

An observer sees some of the actions of a system, depending on what it knows from
those seen before, and sees of every state a view, which is a state itself.

* `Observer.purge`: the actions of a list that are seen.
* `System.Separates`: the actions that are seen act on the view as they act on the
  state, with the same outputs; the other ones do not change it.
* `System.Separates.exec_purge`: then the view of any run is the run of the
  actions that are seen.
* `System.Separates.eq_of_purge_eq`: so two runs with the same actions seen end in
  the same view, with the same outputs.
-/

namespace Transition

/-- An observer of actions: whether one is seen, and what is known afterwards. -/
structure Observer (κ α : Type*) where
  sees : κ → α → Bool
  learn : κ → α → κ

namespace Observer

variable {κ α : Type*} (O : Observer κ α)

/-- The actions seen. -/
def purge : κ → List α → List α
  | _, [] => []
  | k, a :: as => if O.sees k a then a :: purge (O.learn k a) as else purge k as

/-- What is known after the actions. -/
def knows : κ → List α → κ
  | k, [] => k
  | k, a :: as => if O.sees k a then knows (O.learn k a) as else knows k as

/-- What is known depends on what is seen. -/
theorem knows_purge (k : κ) (as : List α) : O.knows k (O.purge k as) = O.knows k as := by
  induction as generalizing k with
  | nil => rfl
  | cons a as ih =>
    rw [purge, knows]
    split
    · rename_i hsees
      rw [knows, if_pos hsees, ih]
    · exact ih k

end Observer

namespace System

variable {σ α κ ω : Type*} (M : System σ α) (O : Observer κ α)

/-- The outputs of the actions seen. -/
def outputs (out : σ → α → ω) : κ → σ → List α → List ω
  | _, _, [] => []
  | k, s, a :: as =>
    if O.sees k a then
      out s a :: (M.step s a).elim [] fun s' => outputs out (O.learn k a) s' as
    else (M.step s a).elim [] fun s' => outputs out k s' as

/-- The states with the invariant `I` are separated by the views of the observer. -/
structure Separates (view : κ → σ → σ) (out : σ → α → ω) (I : κ → σ → Prop) : Prop where
  hidden : ∀ {k s a s'}, I k s → O.sees k a = false → M.step s a = some s' →
    view k s' = view k s ∧ I k s'
  seen : ∀ {k s a s'}, I k s → O.sees k a = true → M.step s a = some s' →
    M.step (view k s) a = some (view (O.learn k a) s') ∧ out (view k s) a = out s a ∧
      I (O.learn k a) s'

variable {M O} {view : κ → σ → σ} {out : σ → α → ω} {I : κ → σ → Prop} {k : κ}
  {s s' t t' : σ} {as bs : List α}

/-- The view of a run is a run of the actions seen, with the same outputs. -/
theorem Separates.exec_purge (h : M.Separates O view out I) (hI : I k s)
    (hs : M.exec s as = some s') :
    M.exec (view k s) (O.purge k as) = some (view (O.knows k as) s') ∧
      M.outputs O out k (view k s) (O.purge k as) = M.outputs O out k s as ∧
        I (O.knows k as) s' := by
  induction as generalizing k s with
  | nil =>
    obtain rfl := Option.some.inj hs
    exact ⟨rfl, rfl, hI⟩
  | cons a as ih =>
    obtain ⟨s₁, hstep, hs⟩ := Option.bind_eq_some_iff.1 hs
    rw [Observer.purge, Observer.knows, outputs, hstep]
    by_cases hsees : O.sees k a = true
    · obtain ⟨hview, hout, hI'⟩ := h.seen hI hsees hstep
      obtain ⟨hexec, houtputs, hI''⟩ := ih hI' hs
      simp only [hsees, if_true, Option.elim_some]
      refine ⟨?_, ?_, hI''⟩
      · rw [exec, hview]
        exact hexec
      · rw [outputs, hsees, hview, hout, Option.elim_some, houtputs, if_pos rfl]
    · obtain ⟨hview, hI'⟩ := h.hidden hI (Bool.eq_false_iff.2 hsees) hstep
      rw [if_neg hsees, if_neg hsees, if_neg hsees, Option.elim_some, ← hview]
      exact ih hI' hs

/-- Two runs with the same actions seen, from states with the same view, end in states
    with the same view, and have the same outputs. -/
theorem Separates.eq_of_purge_eq (h : M.Separates O view out I) (hs : I k s) (ht : I k t)
    (hview : view k s = view k t) (hs' : M.exec s as = some s') (ht' : M.exec t bs = some t')
    (hpurge : O.purge k as = O.purge k bs) :
    view (O.knows k as) s' = view (O.knows k bs) t' ∧
      M.outputs O out k s as = M.outputs O out k t bs := by
  obtain ⟨hexec, houtputs, -⟩ := h.exec_purge hs hs'
  obtain ⟨hexec', houtputs', -⟩ := h.exec_purge ht ht'
  constructor
  · have heq := hexec.symm.trans ((by rw [hview, hpurge] : _ = _).trans hexec')
    exact Option.some.inj heq
  · rw [← houtputs, ← houtputs', hview, hpurge]

end System

end Transition
