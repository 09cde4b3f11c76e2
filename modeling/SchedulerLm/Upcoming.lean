import SchedulerLm.Base.Source
import SchedulerLm.Store
import Mathlib.Tactic.Ring
import Mathlib.Tactic.Linarith

/-!
# Upcoming fire times

The fire times of triggers, from their states on, as sources of instants
(`Trigger.nextInstant`).

* `fireTimes_date`, `fireTimes_cron`, `fireTimes_interval`: those of a trigger just
  built. Only those of an interval depend on when it was built, by their phase.
* `increasing_of_triggerBound`: they increase, as each is at least a bound that the
  state of the trigger gives (`Trigger.Bound`).
* `fireTimes_of_inPhase`: a trigger built again later has the fire times of the first
  one, unless it is an interval that was rebuilt out of phase (`InPhase`).
-/

namespace SchedulerLm

open Iteration

variable (lib : Crontab)

/-- `next()`, as an instant: a naive fire time is read as UTC. -/
def Trigger.nextInstant (trigger : Trigger) : Option (Instant × Trigger) :=
  (trigger.next lib).map fun f => (f.1.assumeUtc.instant, f.2)

/-- The fire times of a trigger, from its present state on. -/
def Trigger.fireTimes (trigger : Trigger) : Set Instant := elements (nextInstant lib) trigger

/-- The fire times of a schedule: its next one, and those of its trigger. -/
def Schedule.fireTimes (schedule : Schedule) : Set Instant :=
  {f | schedule.nextFireTime = some f} ∪ schedule.trigger.fireTimes lib

variable {lib} {e z : String} {start a r builtAt now f : Instant} {last : Option Instant} {s : Int}
  {d : Datetime} {trigger : Trigger} {spec : StructuredTriggerSpec} {count : ℕ} {l : List Instant}

/-! ## Fire times -/

theorem nextInstant_date (d : Datetime) :
    (Trigger.date d false).nextInstant lib = some (d.instant, .date d true) := by
  simp [Trigger.nextInstant, Trigger.next]

theorem nextInstant_cron :
    (Trigger.cron e z start last).nextInstant lib =
      (lib.next e z (last.elim start (· + 1))).map fun f => (f, .cron e z start (some f)) := by
  simp [Trigger.nextInstant, Trigger.next, Function.comp_def]

theorem nextInstant_interval :
    (Trigger.interval s start last).nextInstant lib =
      some (last.elim start (· + s * second),
        .interval s start (some (last.elim start (· + s * second)))) := by
  simp [Trigger.nextInstant, Trigger.next]

/-- A date fires once. -/
theorem fireTimes_date (d : Datetime) :
    (Trigger.date d false).fireTimes lib = {d.instant} := by
  rw [Trigger.fireTimes, elements_eq_insert (nextInstant_date d), elements_eq_empty rfl,
    insert_empty_eq]

/-- Past a later instant, there is less left. -/
theorem toNat_sub_lt {b g f : Int} (hbg : b ≤ g) (hgf : g < f) :
    (f - (g + 1)).toNat < (f - b).toNat := by
  omega

/-- A crontab fires at the matches of its expression, from its start on, or after
    its last fire time. -/
theorem fireTimes_cron : (Trigger.cron e z start last).fireTimes lib =
    {f | lib.Matches e z f ∧ last.elim start (· + 1) ≤ f} := by
  ext f
  constructor
  · rintro ⟨n, hn⟩
    induction n generalizing last with
    | zero =>
      rw [nth, nextInstant_cron, Option.map_map, Option.map_eq_some_iff] at hn
      obtain ⟨g, hg, rfl⟩ := hn
      exact ⟨lib.next_matches hg, lib.le_next hg⟩
    | succ n ih =>
      rw [nth, nextInstant_cron, Option.bind_eq_some_iff] at hn
      obtain ⟨_, hr, hn⟩ := hn
      obtain ⟨g, hg, rfl⟩ := Option.map_eq_some_iff.1 hr
      obtain ⟨hf, hgf⟩ := ih hn
      exact ⟨hf, (lib.le_next hg).trans (Int.le_of_lt hgf)⟩
  · rintro ⟨hf, hle⟩
    -- The first match is `f` itself, or an earlier one: then `f` comes later.
    generalize hk : (f - last.elim start (· + 1)).toNat = k
    induction k using Nat.strong_induction_on generalizing last with
    | _ k ih =>
      obtain ⟨g, hg, hgf⟩ := lib.next_least hf hle
      have hnext : (Trigger.cron e z start last).nextInstant lib =
          some (g, .cron e z start (some g)) := by
        rw [nextInstant_cron, hg, Option.map_some]
      rw [Trigger.fireTimes, elements_eq_insert hnext]
      have hle' : last.elim start (· + 1) ≤ g := lib.le_next hg
      rcases eq_or_lt_of_le hgf with rfl | hlt
      · exact Set.mem_insert _ _
      · refine Set.mem_insert_of_mem _ (ih (f - (g + 1)).toNat ?_ hlt rfl)
        exact hk ▸ toNat_sub_lt hle' hlt

/-- An interval fires at its start, or `s` seconds after its last fire time, and
    then every `s` seconds. -/
theorem fireTimes_interval : (Trigger.interval s start last).fireTimes lib =
    {f | ∃ k : ℕ, f = last.elim start (· + s * second) + k * (s * second)} := by
  have hnth : ∀ (n : ℕ) (last : Option Instant),
      nth (Trigger.nextInstant lib) n (.interval s start last) =
        some (last.elim start (· + s * second) + n * (s * second)) := by
    intro n
    induction n with
    | zero => intro last; simp [nth, nextInstant_interval]
    | succ n ih =>
      intro last
      rw [nth, nextInstant_interval, Option.bind_some, ih, Option.elim_some]
      push_cast
      congr 1
      ring
  ext f
  simp only [Trigger.fireTimes, elements, hnth, Set.mem_ofPred_eq, Option.some.injEq, eq_comm]

/-- The schedule of a trigger has its fire times. -/
theorem fireTimes_ofTrigger (trigger : Trigger) :
    (Schedule.ofTrigger lib trigger).fireTimes lib = trigger.fireTimes lib := by
  rw [Schedule.fireTimes, Schedule.ofTrigger]
  cases hn : trigger.next lib with
  | none => simp
  | some p =>
    have hnext : trigger.nextInstant lib = some (p.1.instant, p.2) := by
      simp [Trigger.nextInstant, hn]
    rw [Trigger.fireTimes, Trigger.fireTimes, elements_eq_insert hnext, Set.insert_eq]
    congr 1
    ext f
    simp [eq_comm]

/-! ## Bounds -/

/-- A lower bound of the fire times of a trigger. -/
def Trigger.Bound : Trigger → Int → Prop
  | .date d fired, b => fired = true ∨ b ≤ d.instant
  | .cron _ _ start last, b => b ≤ last.elim start (· + 1)
  | .interval s start last, b => 0 < s ∧ b ≤ last.elim start (· + s * second)

theorem second_pos : 0 < second := by decide

/-- A fire time is at least the bound, and the later ones are greater. -/
theorem Trigger.Bound.next {trigger trigger' : Trigger} {b x : Int} (hb : trigger.Bound b)
    (h : trigger.nextInstant lib = some (x, trigger')) : b ≤ x ∧ trigger'.Bound (x + 1) := by
  cases trigger with
  | date d fired =>
    cases fired with
    | true => simp [nextInstant, Trigger.next] at h
    | false =>
      rw [nextInstant_date, Option.some.injEq, Prod.mk.injEq] at h
      obtain ⟨rfl, rfl⟩ := h
      exact ⟨hb.resolve_left (by simp), .inl rfl⟩
  | cron e z start last =>
    rw [nextInstant_cron, Option.map_eq_some_iff] at h
    obtain ⟨f, hf, hr⟩ := h
    obtain ⟨rfl, rfl⟩ := Prod.mk.inj hr
    exact ⟨le_trans hb (lib.le_next hf), le_refl (f + 1)⟩
  | interval s start last =>
    rw [nextInstant_interval, Option.some.injEq, Prod.mk.injEq] at h
    obtain ⟨rfl, rfl⟩ := h
    have hpos : 0 < s * second := Int.mul_pos hb.1 second_pos
    exact ⟨hb.2, hb.1, Int.add_le_add_left hpos _⟩

theorem increasing_of_triggerBound {b : Int} (hb : trigger.Bound b) :
    Increasing (Trigger.nextInstant lib) trigger :=
  increasing_of_bound (R := Trigger.Bound) (fun _ _ _ _ => Trigger.Bound.next) hb

/-- A trigger just built, unless it is a date, does not fire before. -/
theorem bound_of_built {type : TriggerType} {config : TriggerConfig}
    (h : BuiltFromTask builtAt type config trigger) (honce : type ≠ .once) :
    trigger.Bound builtAt := by
  cases h with
  | once runAt => exact absurd rfl honce
  | cron e z => exact le_refl builtAt
  | interval s hs => exact ⟨hs, le_refl builtAt⟩

/-! ## Phases -/

/-- The trigger of a configuration, registered at `r` and rebuilt at `builtAt`,
    fires at the same times: unless it is an interval, whose phase is that of its
    construction, a whole number of periods has passed. -/
def InPhase (r builtAt : Instant) : TriggerConfig → Prop
  | .interval s => s * second ∣ builtAt - r
  | _ => True

/-- In phase, the rebuilt trigger has the fire times of the registered one, from
    its construction on. -/
theorem fireTimes_of_inPhase {type : TriggerType} {config : TriggerConfig} {registered : Trigger}
    (hreg : BuiltFromTask r type config registered) (h : BuiltFromTask builtAt type config trigger)
    (hr : r ≤ builtAt) (hphase : InPhase r builtAt config) (hf : builtAt ≤ f) :
    f ∈ trigger.fireTimes lib ↔ f ∈ registered.fireTimes lib := by
  cases h with
  | once runAt =>
    cases hreg
    rw [fireTimes_date]
  | cron e z =>
    cases hreg
    rw [fireTimes_cron, fireTimes_cron]
    exact ⟨fun h => ⟨h.1, hr.trans h.2⟩, fun h => ⟨h.1, hf⟩⟩
  | interval s hs =>
    cases hreg
    obtain ⟨m, hm⟩ := hphase
    have hpos : 0 < s * second := Int.mul_pos hs second_pos
    have hm0 : 0 ≤ m := by
      by_contra hneg
      nlinarith
    lift m to ℕ using hm0
    rw [fireTimes_interval, fireTimes_interval]
    constructor
    · rintro ⟨k, rfl⟩
      refine ⟨m + k, ?_⟩
      simp only [Option.elim_none]
      push_cast
      linarith
    · rintro ⟨k, rfl⟩
      -- The fire is the `k - m`-th after `builtAt`, as it is not before it.
      simp only [Option.elim_none] at hf ⊢
      have hmk : m ≤ k := by
        by_contra hlt
        have : (k : Int) + 1 ≤ m := by omega
        nlinarith
      refine ⟨k - m, ?_⟩
      push_cast [Nat.cast_sub hmk]
      linarith

/-- An interval that fires at an instant from both constructions is in phase. -/
theorem dvd_of_mem_fireTimes (hf : f ∈ (Trigger.interval s builtAt none).fireTimes lib)
    (hf' : f ∈ (Trigger.interval s r none).fireTimes lib) : s * second ∣ builtAt - r := by
  rw [fireTimes_interval] at hf hf'
  obtain ⟨k, hk⟩ := hf
  obtain ⟨j, hj⟩ := hf'
  simp only [Option.elim_none] at hk hj
  exact ⟨j - k, by linarith⟩

/-- The preview of an interval is never empty. -/
theorem ne_nil_of_interval (hs : 0 < s) (hcount : 1 ≤ count)
    (hfirst : FirstFrom ((Trigger.interval s a none).fireTimes lib) now count l) : l ≠ [] := by
  rintro rfl
  have hpos : 0 < s * second := Int.mul_pos hs second_pos
  have hmem : a + ((now - a).toNat : Int) * (s * second) ∈
      (Trigger.interval s a none).fireTimes lib := by
    rw [fireTimes_interval]
    exact ⟨_, rfl⟩
  have hle : now ≤ a + ((now - a).toNat : Int) * (s * second) := by
    have := Int.self_le_toNat (now - a)
    nlinarith
  rcases hfirst.complete _ hmem hle with h | ⟨h, -⟩
  · exact absurd h List.not_mem_nil
  · rw [List.length_nil] at h
    omega

end SchedulerLm
