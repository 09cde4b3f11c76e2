import SchedulerLm.Apscheduler
import SchedulerLm.Base.Except

/-!
# From specifications to fire times

`build_trigger` and its companions: the trigger of a specification or of a stored
configuration, and the first fire time `compute_next_run_at` gives for it.

A trigger is built several times for one task, at different times: when the task
is created, when it is registered, whenever it is previewed. Whether it can be
built depends on the specification only (`buildTrigger_isOk`), and decoding the
stored configuration gives the specification back, up to the zone of a naive
datetime (`taskToTriggerSpec_of_spec`).
-/

namespace SchedulerLm

variable (lib : Crontab)

/-- `build_trigger`, at the time `now`. -/
def buildTrigger (now : Instant) : StructuredTriggerSpec → Except Exn Trigger
  | .once runAt => .ok (.date runAt.assumeUtc false)
  | .cron expression timezone =>
    if lib.zones timezone then
      if lib.parses expression then .ok (.cron expression timezone now none) else .error .valueError
    else .error .zoneInfoNotFound
  | .interval seconds _ =>
    if seconds ≤ maxTimedelta then .ok (.interval seconds now none) else .error .overflowError

/-- `_task_to_trigger_spec`, on the trigger type and the configuration of a
    task: the fields looked up are those of the type, and validated again. -/
def taskToTriggerSpec : TriggerType → TriggerConfig → Except Exn StructuredTriggerSpec
  | .once, .once runAt => .ok (.once runAt)
  | .cron, .cron expression timezone =>
    if lib.zones timezone then .ok (.cron expression timezone) else .error .zoneInfoNotFound
  | .interval, .interval seconds =>
    if h : 0 < seconds then .ok (.interval seconds h) else .error .validationError
  | _, _ => .error .keyError

/-- `build_trigger_from_task`. -/
def buildTriggerFromTask (now : Instant) (type : TriggerType) (config : TriggerConfig) :
    Except Exn Trigger :=
  (taskToTriggerSpec lib type config).bind (buildTrigger lib now)

/-- `compute_next_run_at`: the first fire time of the trigger built at `now`. -/
def computeNextRunAt (now : Instant) (spec : StructuredTriggerSpec) : Except Exn (Option Instant) :=
  (buildTrigger lib now spec).map fun trigger =>
    (trigger.next lib).map fun f => f.1.assumeUtc.instant

/-- `compute_next_run_at_for_task`. -/
def computeNextRunAtForTask (now : Instant) (type : TriggerType) (config : TriggerConfig) :
    Except Exn (Option Instant) :=
  (taskToTriggerSpec lib type config).bind (computeNextRunAt lib now)

variable {lib} {now r : Instant} {spec : StructuredTriggerSpec} {trigger : Trigger}

/-! ## Building triggers -/

/-- A trigger that can be built at one time can be built at any other. -/
theorem buildTrigger_isOk (h : buildTrigger lib now spec = .ok trigger) (r : Instant) :
    ∃ trigger', buildTrigger lib r spec = .ok trigger' := by
  cases spec with
  | once runAt => exact ⟨_, rfl⟩
  | cron e z =>
    simp only [buildTrigger] at h ⊢
    split at h
    · split at h
      · exact ⟨.cron e z r none, by simp_all⟩
      · exact absurd h (by simp)
    · exact absurd h (by simp)
  | interval s hs =>
    simp only [buildTrigger] at h ⊢
    split at h
    · exact ⟨.interval s r none, by simp_all⟩
    · exact absurd h (by simp)

/-! ## Decoding configurations -/

/-- A specification with its naive datetimes read as UTC. -/
def StructuredTriggerSpec.assumeUtc : StructuredTriggerSpec → StructuredTriggerSpec
  | .once runAt => .once runAt.assumeUtc
  | spec => spec

/-- Reading naive datetimes as UTC does not change the trigger. -/
theorem buildTrigger_assumeUtc (now : Instant) (spec : StructuredTriggerSpec) :
    buildTrigger lib now spec.assumeUtc = buildTrigger lib now spec := by
  cases spec with
  | once runAt =>
    exact congrArg (fun d => Except.ok (Trigger.date d false)) runAt.assumeUtc_assumeUtc
  | cron | interval => rfl

theorem computeNextRunAt_assumeUtc (now : Instant) (spec : StructuredTriggerSpec) :
    computeNextRunAt lib now spec.assumeUtc = computeNextRunAt lib now spec := by
  rw [computeNextRunAt, buildTrigger_assumeUtc, computeNextRunAt]

/-- The stored configuration of a specification decodes to the specification,
    as long as its trigger can be built. -/
theorem taskToTriggerSpec_of_spec (h : buildTrigger lib now spec = .ok trigger) :
    taskToTriggerSpec lib spec.type (triggerConfigFromSpec spec) = .ok spec.assumeUtc := by
  cases spec with
  | once runAt => rfl
  | cron e z =>
    by_cases hz : lib.zones z
    · simp [StructuredTriggerSpec.type, triggerConfigFromSpec, taskToTriggerSpec, hz,
        StructuredTriggerSpec.assumeUtc]
    · simp [buildTrigger, hz] at h
  | interval s hs =>
    simp [StructuredTriggerSpec.type, triggerConfigFromSpec, taskToTriggerSpec, hs,
      StructuredTriggerSpec.assumeUtc]

/-- Building from the stored configuration is building from the specification. -/
theorem buildTriggerFromTask_of_spec (h : buildTrigger lib now spec = .ok trigger) (r : Instant) :
    buildTriggerFromTask lib r spec.type (triggerConfigFromSpec spec) =
      buildTrigger lib r spec := by
  rw [buildTriggerFromTask, taskToTriggerSpec_of_spec h]
  exact buildTrigger_assumeUtc r spec

/-- So is computing the first fire time. -/
theorem computeNextRunAtForTask_of_spec {next : Option Instant}
    (h : computeNextRunAt lib now spec = .ok next) (r : Instant) :
    computeNextRunAtForTask lib r spec.type (triggerConfigFromSpec spec) =
      computeNextRunAt lib r spec := by
  obtain ⟨trigger, hbuild, -⟩ := Raising.map_eq_ok.1 h
  rw [computeNextRunAtForTask, taskToTriggerSpec_of_spec hbuild]
  exact computeNextRunAt_assumeUtc r spec

/-- What `build_trigger_from_task` builds at the time `a`. -/
inductive BuiltFromTask (a : Instant) : TriggerType → TriggerConfig → Trigger → Prop
  | once (runAt : Datetime) : BuiltFromTask a .once (.once runAt) (.date runAt.assumeUtc false)
  | cron (e z : String) : BuiltFromTask a .cron (.cron e z) (.cron e z a none)
  | interval (s : Int) (hs : 0 < s) : BuiltFromTask a .interval (.interval s) (.interval s a none)

theorem builtFromTask_of_ok {type : TriggerType} {config : TriggerConfig}
    (h : buildTriggerFromTask lib now type config = .ok trigger) :
    BuiltFromTask now type config trigger := by
  rw [buildTriggerFromTask] at h
  cases type <;> cases config <;> simp only [taskToTriggerSpec] at h
  case once.once runAt =>
    obtain rfl := Except.ok.inj h
    exact .once runAt
  case cron.cron e z =>
    by_cases hz : lib.zones z
    · simp only [hz, if_true, Except.bind, buildTrigger] at h
      split at h
      · obtain rfl := Except.ok.inj h
        exact .cron e z
      · exact absurd h (by simp)
    · simp [hz, Except.bind] at h
  case interval.interval s =>
    by_cases hs : 0 < s
    · simp only [hs, dif_pos, Except.bind, buildTrigger] at h
      split at h
      · obtain rfl := Except.ok.inj h
        exact .interval s hs
      · exact absurd h (by simp)
    · simp [hs, Except.bind] at h
  all_goals exact absurd h (by simp [Except.bind])

/-- A trigger that can be built for a task at one time can be built at any other. -/
theorem buildTriggerFromTask_isOk {type : TriggerType} {config : TriggerConfig}
    (h : buildTriggerFromTask lib now type config = .ok trigger) (r : Instant) :
    ∃ trigger', buildTriggerFromTask lib r type config = .ok trigger' := by
  obtain ⟨spec, hspec, hbuild⟩ := Raising.bind_eq_ok.1 h
  obtain ⟨trigger', htrigger'⟩ := buildTrigger_isOk hbuild r
  exact ⟨trigger', Raising.bind_eq_ok.2 ⟨spec, hspec, htrigger'⟩⟩

/-! ## One fire -/

/-- The schedule put for a `once` task has taken its only fire time from its trigger. -/
theorem trigger_ofTrigger_once {now : Instant} {type : TriggerType} {config : TriggerConfig}
    {trigger : Trigger} (h : buildTriggerFromTask lib now type config = .ok trigger)
    (honce : type = .once) : ∃ d, Schedule.ofTrigger lib trigger =
      ⟨.date d true, some d.instant⟩ := by
  cases builtFromTask_of_ok h with
  | once runAt => exact ⟨runAt.assumeUtc, rfl⟩
  | cron | interval => exact absurd honce (by simp)

/-- A schedule of an exhausted date is dropped when it is picked up. -/
theorem pick_date {schedule : Schedule} {d : Datetime} {now f : Instant} {n : ℕ}
    {left : Option Schedule} (h : schedule.trigger = .date d true)
    (hpick : schedule.pick lib now n = some (f, left)) :
    left = none := by
  have hexhausted : Schedule.ofTrigger lib (.date d true) = ⟨.date d true, none⟩ := rfl
  rcases n with _ | n <;> obtain ⟨due, -, hpick⟩ := Option.bind_eq_some_iff.1 hpick <;>
    split at hpick
  · rw [h, hexhausted] at hpick
    exact (Prod.mk.inj (Option.some.inj hpick)).2.symm
  · exact absurd hpick (by simp)
  · rw [h, hexhausted] at hpick
    cases n <;> exact absurd hpick (by simp [Schedule.pick])
  · exact absurd hpick (by simp)

end SchedulerLm
