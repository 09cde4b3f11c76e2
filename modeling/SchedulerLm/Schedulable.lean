import SchedulerLm.Readings
import SchedulerLm.Routes
import SchedulerLm.TriggerParse

/-!
# Triggers that are too late

A trigger whose text has been read is asked for its first fire time, and refused if this
cannot be computed. Nothing looks at the fire time: it may be none, or over. So what is
accepted can be scheduled, as `activate_task` has it (`activateTask_isOk_iff`), iff
the reading the text speaks of is ahead or, if it speaks of none, the datetime that the model
has read is ahead, or its crontab matches some time (`schedulable_iff`).
-/

namespace SchedulerLm

open Zones

/-- There is a first fire time and, for a `once` trigger, it is ahead. -/
def Schedulable (lib : Crontab) (now : Instant) (spec : StructuredTriggerSpec) : Prop :=
  ∃ next, computeNextRunAt lib now spec = .ok (some next) ∧ (spec.type = .once → now < next)

section

variable {lib : Crontab} {now : Instant} {spec : StructuredTriggerSpec} {next : Option Instant}

/-- An inactive task of the trigger can be activated iff the trigger can be scheduled. -/
theorem activateTask_isOk_iff {env : Env} {user : CurrentUser} {task : ScheduledTask}
    (h : computeNextRunAt lib now spec = .ok next) (htype : task.triggerType = spec.type)
    (hconfig : task.triggerConfig = triggerConfigFromSpec spec) (hactive : task.isActive = false) :
    (∃ handled, activateTask lib env user task = .ok handled) ↔ Schedulable lib env.now spec := by
  have hnext : computeNextRunAtForTask lib env.now task.triggerType task.triggerConfig =
      computeNextRunAt lib env.now spec := by
    rw [htype, hconfig]
    exact computeNextRunAtForTask_of_spec h env.now
  constructor
  · rintro ⟨handled, hhandled⟩
    rcases activateTask_eq_ok hhandled with ⟨hactive', -⟩ | ⟨first, -, hfirst, hpast, -⟩
    · exact absurd (hactive.symm.trans hactive') (by simp)
    · exact ⟨first, hnext ▸ hfirst, fun honce => not_le.1 fun hle =>
        hpast ⟨htype.trans honce, hle⟩⟩
  · rintro ⟨first, hfirst, hahead⟩
    refine ⟨_, activateTask_of_next hactive (hnext.trans hfirst) ?_⟩
    rintro ⟨honce, hle⟩
    exact absurd (hahead (htype.symm.trans honce)) (not_lt.2 hle)

/-! ## The kinds of triggers -/

theorem schedulable_once_iff {runAt : Datetime} : Schedulable lib now (.once runAt) ↔
    now < runAt.instant := by
  have hnext : computeNextRunAt lib now (.once runAt) = .ok (some runAt.instant) := by
    simp [computeNextRunAt, buildTrigger, Trigger.next, Except.map]
  constructor
  · rintro ⟨first, hfirst, hahead⟩
    obtain rfl := Option.some.inj (Except.ok.inj (hnext.symm.trans hfirst))
    exact hahead rfl
  · exact fun h => ⟨_, hnext, fun _ => h⟩

theorem schedulable_cron_iff {expression timezone : String}
    (h : computeNextRunAt lib now (.cron expression timezone) = .ok next) :
    Schedulable lib now (.cron expression timezone) ↔ ∃ t, now ≤ t ∧
      lib.Matches expression timezone t := by
  -- The trigger has been built just now, so that it is asked for a match from now on.
  obtain ⟨trigger, hbuild, heq⟩ := Raising.map_eq_ok.1 h
  obtain rfl : trigger = .cron expression timezone now none := by
    rw [buildTrigger] at hbuild
    split at hbuild
    · split at hbuild
      · exact (Except.ok.inj hbuild).symm
      · exact absurd hbuild (by simp)
    · exact absurd hbuild (by simp)
  have hnext : next = lib.next expression timezone now := by
    rw [← heq]
    cases hfirst : lib.next expression timezone now <;> simp [Trigger.next, hfirst]
  constructor
  · rintro ⟨first, hfirst, -⟩
    have hsome := hnext.symm.trans (Except.ok.inj (h.symm.trans hfirst))
    exact ⟨first, lib.le_next hsome, lib.next_matches hsome⟩
  · rintro ⟨t, ht, hmatches⟩
    obtain ⟨first, hfirst, -⟩ := lib.next_least hmatches ht
    exact ⟨first, by rw [h, hnext, hfirst], fun honce =>
      absurd honce (by simp [StructuredTriggerSpec.type])⟩

theorem schedulable_interval {seconds : Int} {pos : 0 < seconds}
    (h : computeNextRunAt lib now (.interval seconds pos) = .ok next) :
    Schedulable lib now (.interval seconds pos) := by
  obtain ⟨trigger, hbuild, heq⟩ := Raising.map_eq_ok.1 h
  obtain rfl : trigger = .interval seconds now none := by
    rw [buildTrigger] at hbuild
    split at hbuild
    · exact (Except.ok.inj hbuild).symm
    · exact absurd hbuild (by simp)
  refine ⟨now, ?_, fun honce => absurd honce (by simp [StructuredTriggerSpec.type])⟩
  rw [h, ← heq]
  simp [Trigger.next]

end

/-! ## What is read -/

/-- The trigger of the reply is not too late: its datetime is ahead, or its crontab matches
    some time. -/
def TriggerParseLLMOutput.Timely (lib : Crontab) (timezone : String) (now : Instant)
    (output : TriggerParseLLMOutput) : Prop :=
  match output.type with
  | .once =>
    ∃ text d, output.onceDatetime = some (.text text) ∧ Datetime.fromisoformat text = some d ∧
      now < d.instant
  | .cron => ∃ expression t, output.cronExpr = some (.text expression) ∧ now ≤ t ∧
      lib.Matches expression timezone t
  | .interval => True

variable (lib : ParseLib) (timezone : String) (now : Instant) (settings : LLMSettings)
  (calls : ℕ → LlmCall)

/-- The reply is the first one that is not refused. -/
def FirstAccepted (output : TriggerParseLLMOutput) : Prop :=
  ∃ k ≤ settings.maxRetries.toNat, ∃ raw data spec, callLlm lib (calls k) = .ok raw ∧
    Json.loads lib.recursionLimit raw = .ok data ∧
    TriggerParseLLMOutput.modelValidate lib.lax data = .ok output ∧
    parseTriggerJson lib timezone now raw = .ok spec ∧
    ∀ j < k, ∃ e, parseOnce lib timezone now (calls j) = .error (.triggerParseError e)

/-- The text speaks of a reading that is ahead: the wall clock of the zone has more to go to
    it than its offset from UTC is to gain until then. -/
def Ahead (text : String) : Prop :=
  ∃ reading, ReadingMeant lib.unicode text ((lib.zoneInfo timezone).fromUtc now) reading ∧
    (lib.zoneInfo timezone).utcoffset reading - (lib.zoneInfo timezone).offsetAt now <
      reading.wall - ((lib.zoneInfo timezone).fromUtc now).wall

/-- The text speaks of a reading, and it is ahead; or it speaks of none, and the first reply that
    is not refused is not too late. -/
def Timely (text : String) : Prop :=
  Ahead lib timezone now text ∨
  (∀ reading, ¬ReadingMeant lib.unicode text ((lib.zoneInfo timezone).fromUtc now) reading) ∧
    ∀ output, FirstAccepted lib timezone now settings calls output →
      output.Timely lib.crontab timezone now

variable {lib timezone now settings calls} {text : String} {spec : StructuredTriggerSpec}
  {output output' : TriggerParseLLMOutput} {next : Option Instant}

theorem firstAccepted_unique (h : FirstAccepted lib timezone now settings calls output)
    (h' : FirstAccepted lib timezone now settings calls output') : output = output' := by
  have hle : ∀ {k k' : ℕ} {raw : String} {spec : StructuredTriggerSpec},
      callLlm lib (calls k) = .ok raw → parseTriggerJson lib timezone now raw = .ok spec →
      (∀ j < k', ∃ e, parseOnce lib timezone now (calls j) = .error (.triggerParseError e)) →
        k' ≤ k := by
    -- An accepted reply is not among those that have been refused.
    intro k k' raw spec hraw hparse hbefore
    refine not_lt.1 fun hlt => ?_
    obtain ⟨e, he⟩ := hbefore k hlt
    rw [parseOnce, hraw] at he
    exact absurd (hparse.symm.trans he) (by simp)
  obtain ⟨k, -, raw, data, spec, hraw, hdata, houtput, hparse, hbefore⟩ := h
  obtain ⟨k', -, raw', data', spec', hraw', hdata', houtput', hparse', hbefore'⟩ := h'
  obtain rfl := Nat.le_antisymm (hle hraw' hparse' hbefore) (hle hraw hparse hbefore')
  obtain rfl := Except.ok.inj (hraw.symm.trans hraw')
  obtain rfl := Except.ok.inj (hdata.symm.trans hdata')
  exact Except.ok.inj (houtput.symm.trans houtput')

/-- The specification of a reply can be scheduled iff the reply is not too late. -/
theorem schedulable_iff_timely (h : triggerSpecFromLlmOutput lib timezone output = .ok spec)
    (hnext : computeNextRunAt lib.crontab now spec = .ok next) :
    Schedulable lib.crontab now spec ↔ output.Timely lib.crontab timezone now := by
  rw [triggerSpecFromLlmOutput] at h
  rw [TriggerParseLLMOutput.Timely]
  rcases htype : output.type with _ | _ | _ <;> rw [htype] at h <;> dsimp only at h ⊢
  · rcases hdatetime : output.onceDatetime with _ | text | _ <;> rw [hdatetime] at h
    · exact absurd h (by simp)
    · dsimp only at h
      split at h
      · exact absurd h (by simp)
      · rename_i d hd
        obtain rfl := Except.ok.inj h
        rw [schedulable_once_iff]
        constructor
        · exact fun hahead => ⟨text, d, rfl, hd, hahead⟩
        · rintro ⟨text', d', htext, hd', hahead⟩
          obtain rfl : text = text' := by simpa using htext
          obtain rfl := Option.some.inj (hd.symm.trans hd')
          exact hahead
    · exact absurd h (by simp)
  · rcases hcron : output.cronExpr with _ | expression | _ <;> rw [hcron] at h
    · exact absurd h (by simp)
    · dsimp only at h
      split at h
      · obtain rfl := Except.ok.inj h
        rw [schedulable_cron_iff hnext]
        simp
      · exact absurd h (by simp)
    · exact absurd h (by simp)
  · split at h
    · split at h
      · obtain rfl := Except.ok.inj h
        exact iff_of_true (schedulable_interval hnext) trivial
      · exact absurd h (by simp)
    · exact absurd h (by simp)

/-- Where the relative parser reads a text, the text is accepted in time iff what is read is
    ahead. -/
theorem ahead_iff {runAt : ZonedDatetime} (h : relativeRunAt lib timezone now text =
    .ok (some runAt)) :
    Ahead lib timezone now text ↔ now < (lib.zoneInfo timezone).instant runAt := by
  have hmeant : ∀ reading, some runAt = some reading ↔
      ReadingMeant lib.unicode text ((lib.zoneInfo timezone).fromUtc now) reading :=
    fun _ => readingMeant_iff rfl h
  -- The wall clock is ahead of UTC by the offset.
  have hshift : ∀ wall offset later t : Int, later - offset < wall - (t + offset) ↔
      t < wall - later := by omega
  have hahead : ∀ reading, (lib.zoneInfo timezone).utcoffset reading -
    (lib.zoneInfo timezone).offsetAt now <
      reading.wall - ((lib.zoneInfo timezone).fromUtc now).wall ↔
        now < (lib.zoneInfo timezone).instant reading :=
    fun _ => hshift _ _ _ _
  constructor
  · rintro ⟨reading, hreading, hlt⟩
    obtain rfl := Option.some.inj ((hmeant reading).2 hreading)
    exact (hahead runAt).1 hlt
  · exact fun hlt => ⟨runAt, (hmeant runAt).1 rfl, (hahead runAt).2 hlt⟩

/-- A text that is accepted gives a trigger that can be scheduled iff what it speaks of, or
    what is read in it, is not too late. -/
theorem schedulable_iff
    (h : parseTriggerTextToSpec lib timezone now settings calls text = .ok spec) :
    Schedulable lib.crontab now spec ↔ Timely lib timezone now settings calls text := by
  obtain ⟨⟨next, hnext⟩, ⟨runAt, hrunAt, rfl⟩ | ⟨hrunAt, hreplies⟩⟩ :=
    parseTriggerTextToSpec_eq_ok h
  · have hmeant := (readingMeant_iff rfl hrunAt).1 rfl
    rw [onceAt, schedulable_once_iff, Timely, ahead_iff hrunAt]
    constructor
    · exact .inl
    · rintro (hahead | ⟨hnone, -⟩)
      · exact hahead
      · exact absurd hmeant (hnone runAt)
  · -- The reply the specification is from is the first one that is not refused.
    obtain ⟨k, hk, raw, hraw, hparse, hbefore⟩ := parseReplies_eq_ok hreplies
    obtain ⟨data, output, -, hdata, houtput, hspec, -⟩ := parseTriggerJson_eq_ok hparse
    have haccepted : FirstAccepted lib timezone now settings calls output :=
      ⟨k, hk, raw, data, spec, hraw, hdata, houtput, hparse, hbefore⟩
    have hnone :
        ∀ reading, ¬ReadingMeant lib.unicode text ((lib.zoneInfo timezone).fromUtc now) reading :=
      fun reading hreading => absurd ((readingMeant_iff rfl hrunAt).2 hreading) (by simp)
    rw [schedulable_iff_timely hspec hnext, Timely]
    constructor
    · exact fun htimely => .inr ⟨hnone, fun output' h' =>
        firstAccepted_unique haccepted h' ▸ htimely⟩
    · rintro (⟨reading, hreading, -⟩ | ⟨-, htimely⟩)
      · exact absurd hreading (hnone reading)
      · exact htimely output haccepted

/-- Two retries, of a model that is not there. -/
def LLMSettings.sample : LLMSettings := ⟨2, true, true⟩

/-- All requests fail. -/
def noReplies : ℕ → LlmCall := fun _ => ⟨none, none, none⟩

/-- At eight in the morning, three hours later is ahead. -/
theorem schedulable_threeHours :
    Schedulable .never 1780214400000000 (.once ⟨1780214400000000 + 10800000000, some 0⟩) := by
  have hparse : parseTriggerTextToSpec .sample "UTC" 1780214400000000 .sample noReplies
    "in three hours" =
      .ok (.once ⟨1780214400000000 + 10800000000, some 0⟩) := by decide +kernel
  have hduration : durationOf .ascii "in three hours" = some (3, 3600000000) := by decide +kernel
  exact (schedulable_iff hparse).2 (.inl ⟨_, .duration hduration, by decide⟩)

/-- What is accepted could be scheduled: "in 0 minutes" is accepted, and not ahead. -/
theorem not_schedulable : ¬∀ (lib : ParseLib) (timezone : String) (now : Instant)
    (settings : LLMSettings) (calls : ℕ → LlmCall) (text : String) (spec : StructuredTriggerSpec),
    parseTriggerTextToSpec lib timezone now settings calls text = .ok spec →
    Schedulable lib.crontab now spec := by
  intro h
  have hparse : parseTriggerTextToSpec .sample "UTC" 1780214400000000 .sample noReplies
    "in 0 minutes" =
      .ok (.once ⟨1780214400000000, some 0⟩) := by decide +kernel
  exact absurd (schedulable_once_iff.1 (h _ _ _ _ _ _ _ hparse)) (by decide)

/-- And a crontab that matches no date has no first fire time. -/
example : computeNextRunAt .never 0 (.cron "0 0 30 2 *" "UTC") = .ok none := by decide

end SchedulerLm
