import SchedulerLm.RunTimes
import SchedulerLm.Store

/-!
# Previews

The preview of a schedule (`compute_upcoming_run_times`) rebuilds the trigger of the
task from its configuration, and lists its run times by the loop of
`_iter_upcoming_run_times`. The scheduler fires from the trigger it built when the task
was registered.

* `upcoming_spec`: the preview ends; it lists the first fire times of the rebuilt trigger
  from now on, or raises, if one it draws does not exist in UTC.
* `preview_eq_registered_iff`: the fire times listed are those of the registered
  schedule, unless the trigger is an interval that was rebuilt out of phase, or one of
  the fire times does not exist in UTC.
-/

namespace SchedulerLm

open Iteration

variable (lib : Crontab)

/-- `compute_upcoming_run_times`: the trigger is built at `builtAt`, and the clock
    read at `now`. It takes at most one draw for each fire time listed, and one for
    each microsecond in between. -/
def computeUpcomingRunTimes (builtAt now : Instant) (type : TriggerType) (config : TriggerConfig)
    (count : ℕ) : Except Exn (Option (List Datetime)) :=
  (buildTriggerFromTask lib builtAt type config).bind fun trigger =>
  match listUpcomingRunTimes (Trigger.next lib) now (type = .once)
    (count + (now - builtAt).toNat + 1)
      count trigger with
  | none => .ok none
  | some listed => listed.map some

/-- What is to be drawn for a preview exists in UTC: the fire times of the trigger built
    at `builtAt` up to the last of the first `count` from `now` on, or all, if there are
    fewer. -/
def DrawnInUtc (builtAt now : Instant) (type : TriggerType) (config : TriggerConfig)
    (count : ℕ) : Prop :=
  ∀ trigger l, buildTriggerFromTask lib builtAt type config = .ok trigger →
    FirstFrom (trigger.fireTimes lib) now count l →
    ∀ d, Drawn (Trigger.next lib) count l trigger d → d.ExistsInUtc

variable {lib} {r builtAt now : Instant} {type : TriggerType} {config : TriggerConfig}
  {trigger registered : Trigger} {count : ℕ}

/-! ## The rebuilt trigger -/

theorem firesOnce_of_built (h : BuiltFromTask builtAt type config trigger)
    (honce : decide (type = .once) = true) : FiresOnce (Trigger.next lib) trigger := by
  obtain rfl := of_decide_eq_true honce
  obtain ⟨runAt⟩ := h
  exact firesOnce_date lib runAt.assumeUtc

variable (lib) in
/-- A trigger just built is drawn from often enough. -/
theorem collect_of_built (h : BuiltFromTask builtAt type config trigger) (now : Instant)
    (count : ℕ) :
    ∃ l, collect (Trigger.nextInstant lib) now (type = .once)
      (count + (now - builtAt).toNat + 1) count
        trigger = some l ∧ FirstFrom (trigger.fireTimes lib) now count l := by
  by_cases honce : type = .once
  · subst honce
    obtain ⟨runAt⟩ := h
    -- The only fire time is listed, or is past and ends the loop.
    rw [fireTimes_date, Datetime.instant_assumeUtc, ← insert_empty_eq]
    cases count with
    | zero => exact ⟨[], rfl, .zero⟩
    | succ n =>
      have hend : ∀ fuel, collect (Trigger.nextInstant lib) now true (fuel + 1) n
          (.date runAt.assumeUtc true) = some [] := collect_of_end rfl
      by_cases hnow : now ≤ runAt.instant
      · refine ⟨[runAt.instant], ?_, .cons hnow (fun y hy => absurd hy (Set.notMem_empty y))
          (.nil fun y hy => absurd hy (Set.notMem_empty y))⟩
        rw [show n + 1 + (now - builtAt).toNat + 1 = n + (now - builtAt).toNat + 1 + 1 by omega]
        simp [collect, nextInstant_date, hnow, hend]
      · refine ⟨[], by simp [collect, nextInstant_date, hnow], .nil fun y hy => ?_⟩
        rcases hy with rfl | hy
        · exact not_le.1 hnow
        · exact absurd hy (Set.notMem_empty y)
  · have hb := bound_of_built h honce
    exact collect_spec (increasing_of_triggerBound hb)
      (fun x hx => le_of_bound (R := Trigger.Bound) (fun _ _ _ _ => Trigger.Bound.next) hb hx)
      (fun hstop => absurd (of_decide_eq_true hstop) honce) (Nat.lt_succ_self _)

/-- The preview ends, with the first fire times of the rebuilt trigger, or raises. -/
theorem upcoming_spec (h : buildTriggerFromTask lib builtAt type config = .ok trigger)
    (now : Instant) (count : ℕ) :
    ∃ l listed, FirstFrom (trigger.fireTimes lib) now count l ∧
      Outcome (Trigger.next lib) count l trigger listed ∧
      computeUpcomingRunTimes lib builtAt now type config count = listed.map some := by
  have hbuilt := builtFromTask_of_ok h
  obtain ⟨l, hcollect, hfirst⟩ := collect_of_built lib hbuilt now count
  rw [← instants_next] at hcollect
  obtain ⟨listed, ho, hlist⟩ := exists_outcome (increasing_of_built hbuilt)
    (firesOnce_of_built hbuilt) hcollect
  refine ⟨l, listed, hfirst, ho, ?_⟩
  rw [computeUpcomingRunTimes, h]
  simp only [Except.bind, hlist]

/-- The preview returns iff what it draws exists in UTC. -/
theorem preview_eq_ok_iff {l : List Instant}
    (h : buildTriggerFromTask lib builtAt type config = .ok trigger)
    (hfirst : FirstFrom (trigger.fireTimes lib) now count l) {listed : List Datetime} :
    computeUpcomingRunTimes lib builtAt now type config count = .ok (some listed) ↔
      listed = l.map Datetime.ofInstant ∧ DrawnInUtc lib builtAt now type config count := by
  obtain ⟨l', outcome, hfirst', ho, hcompute⟩ := upcoming_spec h now count
  obtain rfl := hfirst'.unique hfirst
  rw [hcompute]
  cases ho with
  | returns hall =>
    have hdrawn : DrawnInUtc lib builtAt now type config count := by
      intro trigger' l hbuilt hl d hd
      obtain rfl := Except.ok.inj (h.symm.trans hbuilt)
      obtain rfl := hl.unique hfirst'
      exact hall d hd
    constructor
    · intro hok
      exact ⟨(Option.some.inj (Except.ok.inj hok)).symm, hdrawn⟩
    · rintro ⟨rfl, -⟩
      rfl
  | raises hd hnot =>
    constructor
    · intro hok
      exact absurd hok (by simp [Except.map])
    · rintro ⟨-, hdrawn⟩
      exact absurd (hdrawn trigger _ h hfirst' _ hd) hnot

/-! ## The registered trigger -/

/-- The preview lists the first fire times of the trigger built at `r` iff the one
    rebuilt is in phase with it, and what is drawn exists in UTC. -/
theorem preview_eq_iff (hreg : buildTriggerFromTask lib r type config = .ok registered)
    (hr : r ≤ builtAt) (hnow : builtAt ≤ now) (hcount : 1 ≤ count) :
    (∃ l, computeUpcomingRunTimes lib builtAt now type config count =
        .ok (some (l.map Datetime.ofInstant)) ∧ FirstFrom (registered.fireTimes lib) now count l) ↔
      InPhase r builtAt config ∧ DrawnInUtc lib builtAt now type config count := by
  obtain ⟨trigger, htrigger⟩ := buildTriggerFromTask_isOk hreg builtAt
  obtain ⟨l, listed, hfirst, -, -⟩ := upcoming_spec htrigger now count
  have hreg' := builtFromTask_of_ok hreg
  have htrigger' := builtFromTask_of_ok htrigger
  constructor
  · rintro ⟨l', hl', hfirst'⟩
    obtain ⟨hsame, hdrawn⟩ := (preview_eq_ok_iff htrigger hfirst).1 hl'
    obtain rfl := (Function.LeftInverse.injective Datetime.instant_ofInstant).list_map hsame
    refine ⟨?_, hdrawn⟩
    cases htrigger' with
    | once runAt => trivial
    | cron e z => trivial
    | interval s hs =>
      -- The first fire time listed is one of both triggers.
      obtain ⟨f, hf⟩ := List.exists_mem_of_ne_nil _ (ne_nil_of_interval hs hcount hfirst)
      cases hreg'
      exact dvd_of_mem_fireTimes (hfirst.mem f hf).1 (hfirst'.mem f hf).1
  · rintro ⟨hphase, hdrawn⟩
    refine ⟨l, (preview_eq_ok_iff htrigger hfirst).2 ⟨rfl, hdrawn⟩, hfirst.congr fun f hf => ?_⟩
    exact fireTimes_of_inPhase hreg' htrigger' hr hphase (hnow.trans hf)

/-- The preview of a registered task lists the first `count` fire times of its
    schedule from now on iff the rebuilt trigger is in phase with it, and what is drawn
    exists in UTC. -/
theorem preview_eq_registered_iff {task : ScheduledTask} {s s' : Service} {schedule : Schedule}
    (hreg : registerSchedule lib r task s = .ok s') (hsch : s'.schedules task.id = some schedule)
    (hr : r ≤ builtAt) (hnow : builtAt ≤ now) (hcount : 1 ≤ count) :
    (∃ l, computeUpcomingRunTimes lib builtAt now task.triggerType task.triggerConfig count =
        .ok (some (l.map Datetime.ofInstant)) ∧ FirstFrom (schedule.fireTimes lib) now count l) ↔
      InPhase r builtAt task.triggerConfig ∧
        DrawnInUtc lib builtAt now task.triggerType task.triggerConfig count := by
  obtain ⟨registered, hbuilt, rfl⟩ := registerSchedule_eq_ok hreg
  obtain rfl : Schedule.ofTrigger lib registered = schedule := by simpa using hsch
  rw [fireTimes_ofTrigger]
  exact preview_eq_iff hbuilt hr hnow hcount

/-- A task run every five minutes. -/
def everyFiveMinutes : ScheduledTask := .sample 1 "user-123" (.interval 300 (by decide)) (some 0)

/-- The task registered at `0`. -/
theorem register_everyFiveMinutes : registerSchedule .never 0 everyFiveMinutes .init =
    .ok { Service.init with
      schedules := Function.update Service.init.schedules 1
        (some (.ofTrigger .never (.interval 300 0 none))) } := rfl

/-- What is drawn for two fires of the task, five and ten minutes after 0, is in the calendar. -/
theorem drawnInUtc_everyFiveMinutes :
    DrawnInUtc .never (300 * second) (300 * second) .interval (.interval 300) 2 := by
  intro trigger l hbuilt hfirst d hd
  have hbuilt' := builtFromTask_of_ok hbuilt
  obtain ⟨l', hcollect, hfirst'⟩ := collect_of_built .never hbuilt' (300 * second) 2
  obtain rfl := hfirst'.unique hfirst
  cases hbuilt' with
  | interval s hs =>
    obtain rfl : [300 * second, 600 * second] = l' := Option.some.inj hcollect
    have hge : 300 * second ≤ d.instant := by
      have hmem := mem_elements_of_fires hd.1
      rw [instants_next, ← Trigger.fireTimes, fireTimes_interval] at hmem
      obtain ⟨k, hk⟩ := hmem
      rw [hk, Option.elim_none]
      exact Int.le_add_of_nonneg_right (Int.mul_nonneg (Int.natCast_nonneg k) (by decide))
    have hle : d.instant ≤ 600 * second := by
      rcases hd.2 with hlt | ⟨f, hf, hle⟩
      · exact absurd hlt (by decide)
      · refine hle.trans ?_
        rcases List.mem_cons.1 hf with rfl | hf
        · decide
        · exact (List.mem_singleton.1 hf).le
    exact .inr ⟨le_trans (by decide) hge, hle.trans_lt (by decide)⟩

/-- A preview one period after the registration. -/
theorem preview_after_period :
    ∃ l, computeUpcomingRunTimes .never (300 * second) (300 * second) .interval (.interval 300) 2 =
        .ok (some (l.map Datetime.ofInstant)) ∧
      FirstFrom ((Schedule.ofTrigger .never (.interval 300 0 none)).fireTimes .never)
        (300 * second) 2 l :=
  (preview_eq_registered_iff register_everyFiveMinutes rfl (by decide) le_rfl (by decide)).2
    ⟨⟨1, by decide⟩, drawnInUtc_everyFiveMinutes⟩

/-- A second after the registration, the preview of an interval lists fire times
    the schedule does not have. -/
theorem not_preview_eq_registered :
    ¬∀ (lib : Crontab) (task : ScheduledTask) (s s' : Service) (schedule : Schedule) (r t : Instant)
      (count : ℕ), task.isActive = true → registerSchedule lib r task s = .ok s' →
      s'.schedules task.id = some schedule → r ≤ t → 1 ≤ count →
      ∃ l, computeUpcomingRunTimes lib t t task.triggerType task.triggerConfig count =
          .ok (some (l.map Datetime.ofInstant)) ∧
        FirstFrom (schedule.fireTimes lib) t count l := by
  intro h
  obtain ⟨l, hl, hfirst⟩ := h .never everyFiveMinutes .init _ _ 0 second 1 rfl
    register_everyFiveMinutes rfl (by decide) le_rfl
  rw [fireTimes_ofTrigger] at hfirst
  have hreg : buildTriggerFromTask .never 0 .interval (.interval 300) =
      .ok (.interval 300 0 none) := rfl
  have hdvd : 300 * second ∣ second - 0 :=
    ((preview_eq_iff hreg (by decide) le_rfl le_rfl).1 ⟨l, hl, hfirst⟩).1
  exact absurd hdvd (by decide)

end SchedulerLm
