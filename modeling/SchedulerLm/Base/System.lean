import Mathlib.Data.List.Basic
import Mathlib.Data.List.Infix
import Mathlib.Tactic.Common

/-!
# Systems and their runs

A *system* is a partial step function: in a state, an action is either
impossible or leads to one state. Nondeterminism is in the actions, which carry
everything the environment chooses (clock readings, answers, who moves next).

* `System.RunWith C`: the runs whose every step meets the condition `C`, on the
  state before the step and the action; `System.Run` are all runs.
* `System.RunWith.invariant`: what every step keeps, every run keeps.
* `System.holds_iff_runWith`: the exact form of a conditional safety property.
  If every step meeting `C` keeps the invariant, and every step missing `C`
  breaks the property, then the property holds in every state of a run iff every
  step of the run meets `C`.
* `System.restrict`: the system with some of its actions only.
* `System.exec`: the runs computed.
-/

namespace Transition

/-- A system: the state an action leads to, if it is possible. -/
structure System (σ α : Type*) where
  /-- The step by an action. -/
  step : σ → α → Option σ

namespace System

variable {σ α : Type*} (M : System σ α)

/-- A run from `s₀`, with its actions and its last state, whose every step, by
    the action `a` in the state `s`, meets `C s a`. -/
inductive RunWith (C : σ → α → Prop) (s₀ : σ) : List α → σ → Prop
  | nil : RunWith C s₀ [] s₀
  | snoc {as : List α} {s s' : σ} {a : α} :
      RunWith C s₀ as s → C s a → M.step s a = some s' → RunWith C s₀ (as ++ [a]) s'

/-- A run. -/
abbrev Run (s₀ : σ) : List α → σ → Prop := M.RunWith (fun _ _ => True) s₀

variable {M} {C D : σ → α → Prop} {s₀ s s' : σ} {as bs : List α} {a : α}

namespace RunWith

theorem mono (hCD : ∀ s a, C s a → D s a) (h : M.RunWith C s₀ as s) : M.RunWith D s₀ as s := by
  induction h with
  | nil => exact .nil
  | snoc _ hC hs ih => exact .snoc ih (hCD _ _ hC) hs

theorem run (h : M.RunWith C s₀ as s) : M.Run s₀ as s := h.mono fun _ _ _ => trivial

/-- What holds initially and is kept by every step holds after every run. -/
theorem invariant {I : σ → Prop} (h : M.RunWith C s₀ as s) (h₀ : I s₀)
    (hstep : ∀ s a s', I s → C s a → M.step s a = some s' → I s') : I s := by
  induction h with
  | nil => exact h₀
  | snoc _ hC hs ih => exact hstep _ _ _ ih hC hs

/-- A condition that the steps meet where an invariant holds. -/
theorem mono_of_invariant {I : σ → Prop} (h : M.RunWith C s₀ as s) (h₀ : I s₀)
    (hkeep : ∀ s a s', I s → M.step s a = some s' → I s')
    (hCD : ∀ s a s', I s → M.step s a = some s' → C s a → D s a) : M.RunWith D s₀ as s := by
  induction h with
  | nil => exact .nil
  | snoc h hC hs ih =>
    exact .snoc ih (hCD _ _ _ (h.invariant h₀ fun s a s' hI _ => hkeep s a s' hI) hs hC) hs

/-- A step in front of a run. -/
theorem cons (hC : C s₀ a) (hs : M.step s₀ a = some s) (h : M.RunWith C s as s') :
    M.RunWith C s₀ (a :: as) s' := by
  induction h with
  | nil => exact (RunWith.nil.snoc hC hs : M.RunWith C s₀ ([] ++ [a]) _)
  | snoc _ hC' hs' ih => exact .snoc ih hC' hs'

/-- A run after a run. -/
theorem append (h : M.RunWith C s₀ as s) (h' : M.RunWith C s bs s') :
    M.RunWith C s₀ (as ++ bs) s' := by
  induction h' with
  | nil => rwa [List.append_nil]
  | snoc _ hC hs ih => exact List.append_assoc .. ▸ .snoc ih hC hs

/-- The actions determine the run. -/
theorem unique {t : σ} (h : M.RunWith C s₀ as s) (h' : M.RunWith D s₀ as t) : s = t := by
  induction h generalizing t with
  | nil =>
    generalize hbs : ([] : List α) = bs at h'
    cases h' with
    | nil => rfl
    | snoc => exact absurd hbs (by simp)
  | @snoc as s s' a _ _ hs ih =>
    generalize hbs : as ++ [a] = bs at h'
    cases h' with
    | nil => exact absurd hbs (by simp)
    | snoc h'' _ hs' =>
      obtain ⟨rfl, hb⟩ := List.append_inj' hbs rfl
      obtain rfl := (List.cons.inj hb).1
      rw [ih h'', hs'] at hs
      exact (Option.some.inj hs).symm

/-- The last step of a run. -/
theorem of_snoc (h : M.RunWith C s₀ (as ++ [a]) s') :
    ∃ s, M.RunWith C s₀ as s ∧ C s a ∧ M.step s a = some s' := by
  generalize hbs : as ++ [a] = bs at h
  cases h with
  | nil => exact absurd hbs (by simp)
  | snoc h hC hs =>
    obtain ⟨rfl, hb⟩ := List.append_inj' hbs rfl
    obtain rfl := (List.cons.inj hb).1
    exact ⟨_, h, hC, hs⟩

/-- The beginning of a run is a run. -/
theorem of_prefix (h : M.RunWith C s₀ bs s) (hp : as <+: bs) : ∃ t, M.RunWith C s₀ as t := by
  induction h with
  | nil => exact ⟨s₀, (List.prefix_nil.1 hp) ▸ .nil⟩
  | snoc h hC hs ih =>
    rcases List.prefix_concat_iff.1 hp with rfl | hp
    · exact ⟨_, .snoc h hC hs⟩
    · exact ih hp

end RunWith

/-! ## Restriction -/

variable (M) in
/-- The system with the actions satisfying `p` only. -/
def restrict (p : α → Bool) : System σ α := ⟨fun s a => if p a then M.step s a else none⟩

theorem restrict_step {p : α → Bool} :
    (M.restrict p).step s a = some s' ↔ p a = true ∧ M.step s a = some s' := by
  rw [restrict, Option.ite_none_right_eq_some]

/-! ## Exact conditions -/

/-- If the steps meeting `C` keep the invariant `I`, which implies `P`, and a
    step missing `C` from a state of the invariant breaks `P`, then `P` holds in
    every state of a run iff every step of the run meets `C`. -/
theorem holds_iff_runWith {I P : σ → Prop} (h₀ : I s₀) (hP : ∀ s, I s → P s)
    (hkeep : ∀ s a s', I s → C s a → M.step s a = some s' → I s')
    (hbreak : ∀ s a s', I s → ¬C s a → M.step s a = some s' → ¬P s')
    (h : M.Run s₀ as s) :
    (∀ bs t, bs <+: as → M.Run s₀ bs t → P t) ↔ M.RunWith C s₀ as s := by
  constructor
  · intro hall
    induction h with
    | nil => exact .nil
    | @snoc as s s' a h _ hs ih =>
      have hC := ih fun bs t hp => hall bs t (hp.trans (List.prefix_append _ _))
      have hI : I s := hC.invariant h₀ hkeep
      by_contra hne
      -- The step just taken is the first one missing `C`.
      have hna : ¬C s a := fun hCa => hne (.snoc hC hCa hs)
      exact hbreak s a s' hI hna hs (hall _ _ List.prefix_rfl (.snoc h trivial hs))
  · intro hC bs t hp ht
    obtain ⟨t', ht'⟩ := hC.of_prefix hp
    obtain rfl := ht.unique ht'
    exact hP _ (ht'.invariant h₀ hkeep)

/-! ## Computing runs -/

variable (M) in
/-- The state a list of actions leads to. -/
def exec : σ → List α → Option σ
  | s, [] => some s
  | s, a :: as => (M.step s a).bind fun s' => exec s' as

/-- A computed run, whose actions all satisfy `D`. -/
theorem runWith_of_exec {D : α → Prop} (hD : ∀ a ∈ as, D a) (h : M.exec s₀ as = some s) :
    M.RunWith (fun _ a => D a) s₀ as s := by
  induction as generalizing s₀ with
  | nil => exact (Option.some.inj h) ▸ .nil
  | cons a as ih =>
    obtain ⟨s', hs', h'⟩ := Option.bind_eq_some_iff.1 h
    exact .cons (hD a List.mem_cons_self) hs' (ih (fun b hb => hD b (List.mem_cons_of_mem a hb)) h')

theorem exec_concat (as : List α) (a : α) (s : σ) :
    M.exec s (as ++ [a]) = (M.exec s as).bind fun s' => M.step s' a := by
  induction as generalizing s with
  | nil => simp [exec]
  | cons b as ih =>
    rw [List.cons_append, exec, exec, Option.bind_assoc]
    exact Option.bind_congr fun s' _ => ih s'

/-- Every run is computed. -/
theorem exec_of_runWith (h : M.RunWith C s₀ as s) : M.exec s₀ as = some s := by
  induction h with
  | nil => rfl
  | snoc _ _ hs ih => rw [exec_concat, ih, Option.bind_some, hs]

end System

end Transition
