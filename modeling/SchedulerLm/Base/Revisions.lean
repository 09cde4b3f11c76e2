import SchedulerLm.Base.System

/-!
# Revisions

A chain of revisions of a state, each with a way up and a way down that may fail, and
the commands that take the state along the chain: up to a later revision, or down to an
earlier one, through all those in between.

What runs the commands is not known but for what it does with one that fits (`Runner`): it
puts records of its own in place, if they are not there yet, and goes the way of the
command; it passes over one that does not fit, or fails. A command that fails somewhere on
its way does nothing.

* `schema_of_run`: if every way down undoes the way up (`Layers`), then the state depends,
  but for these records, on the present revision only, and not on how it has been reached.
* `run_upgrade`, `run_downgrade`: and no command that fits fails.
-/

namespace Transition

namespace Revisions

variable {σ : Type*}

/-- A revision: its way up, and its way down. -/
structure Revision (σ : Type*) where
  upgrade : σ → Option σ
  downgrade : σ → Option σ

/-- A state, and how many revisions it is at. -/
structure Versioned (σ : Type*) where
  applied : ℕ
  schema : σ

/-- To a revision, by its number in the chain. -/
inductive Command
  | upgrade (target : ℕ)
  | downgrade (target : ℕ)
  deriving DecidableEq

variable (chain : List (Revision σ))

/-- Up by one revision. -/
def up (s : Versioned σ) : Option (Versioned σ) :=
  chain[s.applied]?.bind fun revision => (revision.upgrade s.schema).map fun schema =>
    ⟨s.applied + 1, schema⟩

/-- Down by one revision. -/
def down (s : Versioned σ) : Option (Versioned σ) :=
  match s.applied with
  | 0 => none
  | n + 1 =>
    chain[n]?.bind fun revision => (revision.downgrade s.schema).map fun schema => ⟨n, schema⟩

/-- Up, or down, by some revisions. -/
def iterate (f : Versioned σ → Option (Versioned σ)) : ℕ → Versioned σ → Option (Versioned σ)
  | 0, s => some s
  | n + 1, s => (f s).bind (iterate f n)

/-- The way of a command. -/
def Command.way (s : Versioned σ) : Command → Option (Versioned σ)
  | .upgrade target => iterate (up chain) (target - s.applied) s
  | .downgrade target => iterate (down chain) (s.applied - target) s

/-- The command is up to a revision of the chain that is not behind, or down to one that is not
    ahead. -/
def Command.Fits (s : Versioned σ) : Command → Prop
  | .upgrade target => s.applied ≤ target ∧ target ≤ chain.length
  | .downgrade target => target ≤ s.applied ∧ s.applied ≤ chain.length

/-- The records are put in place. -/
def Versioned.prepared (prepare : σ → σ) (s : Versioned σ) : Versioned σ :=
  ⟨s.applied, prepare s.schema⟩

/-- What runs the commands. -/
structure Runner (prepare : σ → σ) where
  /-- What a command leaves, unless it fails. -/
  run : Versioned σ → Command → Option (Versioned σ)
  run_of_fits : ∀ s command, command.Fits chain s →
    run s command = command.way chain (s.prepared prepare)
  run_of_not_fits : ∀ s command s', ¬command.Fits chain s → run s command = some s' →
    s' = s.prepared prepare

/-- The commands, one after another. -/
def Runner.system {prepare : σ → σ} (runner : Runner chain prepare) :
    System (Versioned σ) Command := ⟨runner.run⟩

instance (s : Versioned σ) (command : Command) : Decidable (command.Fits chain s) :=
  match command with
  | .upgrade target => inferInstanceAs (Decidable (s.applied ≤ target ∧ target ≤ chain.length))
  | .downgrade target => inferInstanceAs (Decidable (target ≤ s.applied ∧ s.applied ≤ chain.length))

/-- The runner that fails on commands that do not fit. -/
def Runner.strict (prepare : σ → σ) : Runner chain prepare where
  run s command := if command.Fits chain s then command.way chain (s.prepared prepare) else none
  run_of_fits _ _ h := if_pos h
  run_of_not_fits _ _ _ h hs := absurd ((if_neg h).symm.trans hs) (by simp)

/-- Between the layers, the revisions go up, and come back down. -/
structure Layers (layer : ℕ → σ) : Prop where
  upgrade : ∀ n revision, chain[n]? = some revision →
    revision.upgrade (layer n) = some (layer (n + 1))
  downgrade : ∀ n revision, chain[n]? = some revision →
    revision.downgrade (layer (n + 1)) = some (layer n)

variable {chain} {layer : ℕ → σ} {n m : ℕ}

theorem iterate_up (h : Layers chain layer) (hle : n + m ≤ chain.length) :
    iterate (up chain) m ⟨n, layer n⟩ = some ⟨n + m, layer (n + m)⟩ := by
  induction m generalizing n with
  | zero => rfl
  | succ m ih =>
    obtain ⟨revision, hrevision⟩ : ∃ revision, chain[n]? = some revision :=
      ⟨_, List.getElem?_eq_getElem (by omega)⟩
    have hup : up chain ⟨n, layer n⟩ = some ⟨n + 1, layer (n + 1)⟩ := by
      simp [up, hrevision, h.upgrade n revision hrevision]
    rw [iterate, hup, Option.bind_some, ih (by omega), Nat.add_right_comm, Nat.add_assoc]

theorem iterate_down (h : Layers chain layer) (hle : n + m ≤ chain.length) :
    iterate (down chain) m ⟨n + m, layer (n + m)⟩ = some ⟨n, layer n⟩ := by
  induction m with
  | zero => rfl
  | succ m ih =>
    obtain ⟨revision, hrevision⟩ : ∃ revision, chain[n + m]? = some revision :=
      ⟨_, List.getElem?_eq_getElem (by omega)⟩
    have hdown : down chain ⟨n + (m + 1), layer (n + (m + 1))⟩ = some ⟨n + m, layer (n + m)⟩ := by
      rw [← Nat.add_assoc]
      simp [down, hrevision, h.downgrade (n + m) revision hrevision]
    rw [iterate, hdown, Option.bind_some, ih (by omega)]

variable {prepare : σ → σ} {runner : Runner chain prepare} {start : σ} {s : Versioned σ}

/-- Up to any later revision. -/
theorem run_upgrade (runner : Runner chain prepare) (h : Layers chain layer) (hn : s.applied ≤ m)
    (hm : m ≤ chain.length) (hs : prepare s.schema = layer s.applied) :
    runner.run s (.upgrade m) = some ⟨m, layer m⟩ := by
  obtain ⟨d, rfl⟩ := Nat.exists_eq_add_of_le hn
  have hfits : (Command.upgrade (s.applied + d)).Fits chain s := ⟨hn, hm⟩
  rw [runner.run_of_fits s _ hfits, Command.way, Versioned.prepared, hs]
  dsimp only
  rw [Nat.add_sub_cancel_left, iterate_up h hm]

/-- Down to any earlier one. -/
theorem run_downgrade (runner : Runner chain prepare) (h : Layers chain layer) (hm : m ≤ s.applied)
    (hn : s.applied ≤ chain.length) (hs : prepare s.schema = layer s.applied) :
    runner.run s (.downgrade m) = some ⟨m, layer m⟩ := by
  obtain ⟨n, schema⟩ := s
  obtain ⟨d, rfl⟩ := Nat.exists_eq_add_of_le hm
  have hfits : (Command.downgrade m).Fits chain ⟨m + d, schema⟩ := ⟨hm, hn⟩
  dsimp only at hn hs
  rw [runner.run_of_fits _ _ hfits, Command.way, Versioned.prepared]
  dsimp only
  rw [hs, Nat.add_sub_cancel_left, iterate_down h hn]

/-- However a revision has been reached, the state is that of its layer, once the records are in
    place. -/
theorem schema_of_run (h : Layers chain layer) (hprepare : ∀ n, prepare (layer n) = layer n)
    (hstart : prepare start = layer 0) {as : List Command}
    (hrun : runner.system.Run ⟨0, start⟩ as s) :
    s.applied ≤ chain.length ∧ prepare s.schema = layer s.applied := by
  refine hrun.invariant (I := fun s => s.applied ≤ chain.length ∧
    prepare s.schema = layer s.applied)
    ⟨Nat.zero_le _, hstart⟩ fun s a s' hI _ hs => ?_
  obtain ⟨hn, hschema⟩ := hI
  by_cases hfits : a.Fits chain s
  · cases a with
    | upgrade m =>
      obtain rfl := Option.some.inj ((run_upgrade runner h hfits.1 hfits.2 hschema).symm.trans hs)
      exact ⟨hfits.2, hprepare m⟩
    | downgrade m =>
      obtain rfl := Option.some.inj ((run_downgrade runner h hfits.1 hn hschema).symm.trans hs)
      exact ⟨hfits.1.trans hn, hprepare m⟩
  · obtain rfl := runner.run_of_not_fits s a s' hfits hs
    exact ⟨hn, (congrArg prepare hschema).trans (hprepare _)⟩

end Revisions

end Transition
