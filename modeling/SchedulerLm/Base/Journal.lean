import SchedulerLm.Base.System

/-!
# Journals

A system that keeps a journal: entries that are only ever added, at the end. The
journal *explains* a part of the state if that part is what comes of applying the
entries in turn; then the part can be rebuilt from the journal, and whoever has
rebuilt it once catches up with the entries added since (`Explains.catchUp`).

Entries and parts may be about keys, an entry being about one key: the part of a key
is explained by the entries about it (`ExplainsAt`).

* `Explains.of_append`: what a step must do: the entries it adds make the change it
  makes.
* `explainsAt_of_run`: then the journal explains every state of a run.
-/

namespace Transition

namespace Journal

variable {σ α ε β κ : Type*}

/-- The part rebuilt from the entries. -/
def replay (apply : β → ε → β) (start : β) (entries : List ε) : β := entries.foldl apply start

@[simp] theorem replay_nil (apply : β → ε → β) (start : β) : replay apply start [] = start := rfl

theorem replay_append (apply : β → ε → β) (start : β) (entries added : List ε) :
    replay apply start (entries ++ added) = replay apply (replay apply start entries) added :=
  List.foldl_append

/-- The entries explain the part `now`. -/
def Explains (apply : β → ε → β) (start : β) (entries : List ε) (now : β) : Prop :=
  replay apply start entries = now

/-- If the entries added make the change made, the journal goes on to explain. -/
theorem Explains.of_append {apply : β → ε → β} {start now after : β} {entries added : List ε}
    (h : Explains apply start entries now) (hadded : replay apply now added = after) :
    Explains apply start (entries ++ added) after := by
  rw [Explains, replay_append, h, hadded]

/-- Whoever knows a part catches up by the entries added since. -/
theorem Explains.catchUp {apply : β → ε → β} {start before after : β} {entries later : List ε}
    (h : Explains apply start entries before) (h' : Explains apply start later after)
    (hgrows : entries <+: later) : replay apply before (later.drop entries.length) = after := by
  obtain ⟨added, rfl⟩ := hgrows
  rw [Explains, replay_append, h] at h'
  rw [List.drop_left, h']

variable [DecidableEq κ]

/-- The entries about the key `k` explain the part of `k`. -/
def ExplainsAt (about : ε → κ) (apply : β → ε → β) (start : β) (entries : List ε)
    (now : κ → β) (k : κ) : Prop :=
  Explains apply start (entries.filter fun e => about e = k) (now k)

/-- A journal that explains every part in the first state, and goes on to explain it in
    every step of the invariant `I`, does so in every state of a run. -/
theorem explainsAt_of_run {M : System σ α} {C : σ → α → Prop} {I : σ → Prop} {s₀ s : σ}
    {as : List α} {about : ε → κ} {apply : β → ε → β} {start : β} {entries : σ → List ε}
    {now : σ → κ → β} (h : M.RunWith C s₀ as s) (hI : I s₀)
    (hkeep : ∀ s a s', I s → C s a → M.step s a = some s' → I s')
    (h₀ : ∀ k, ExplainsAt about apply start (entries s₀) (now s₀) k) (hstep : ∀ s a s', I s →
      C s a → M.step s a = some s' → ∃ added, entries s' = entries s ++ added ∧
      ∀ k, replay apply (now s k) (added.filter fun e => about e = k) = now s' k) :
    ∀ k, ExplainsAt about apply start (entries s) (now s) k := by
  have hboth := h.invariant (I := fun s => I s ∧
    ∀ k, ExplainsAt about apply start (entries s) (now s) k)
    ⟨hI, h₀⟩ fun s a s' hs hC hstep' => by
      obtain ⟨added, hentries, hadded⟩ := hstep s a s' hs.1 hC hstep'
      refine ⟨hkeep s a s' hs.1 hC hstep', fun k => ?_⟩
      rw [ExplainsAt, hentries, List.filter_append]
      exact (hs.2 k).of_append (hadded k)
  exact hboth.2

end Journal

end Transition
