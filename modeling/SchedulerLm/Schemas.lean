import Mathlib.Algebra.Order.Ring.Int
import Mathlib.Data.List.Basic

/-!
# Triggers as data

The trigger of a task passes through two representations here: the validated
specification of a request (`StructuredTriggerSpec`) and the configuration stored
with the task (`TriggerConfig`), next to the `TriggerType` of the task.

Instants are microseconds since the epoch. A `Datetime` is what the wall clock
shows, with its distance from UTC if it is aware; the JSON text of a stored
datetime is kept as the datetime it is the `isoformat` of.
-/

namespace SchedulerLm

/-- An instant: microseconds since the epoch, in UTC. -/
abbrev Instant := Int

/-- A datetime: the microseconds its wall clock shows, and its offset from UTC
    in microseconds, unless it is naive. -/
structure Datetime where
  wall : Int
  utcoffset : Option Int
  deriving DecidableEq

namespace Datetime

/-- `d.replace(tzinfo=timezone.utc)` where `d` is naive, else `d`. -/
def assumeUtc (d : Datetime) : Datetime :=
  match d.utcoffset with
  | none => { d with utcoffset := some 0 }
  | some _ => d

/-- The instant of an aware datetime. -/
def instant (d : Datetime) : Instant := d.wall - d.utcoffset.getD 0

/-- The datetime of an instant, in UTC. -/
def ofInstant (t : Instant) : Datetime := ⟨t, some 0⟩

@[simp] theorem instant_ofInstant (t : Instant) : (ofInstant t).instant = t := by
  simp [ofInstant, instant]

@[simp] theorem instant_assumeUtc (d : Datetime) : d.assumeUtc.instant = d.instant := by
  obtain ⟨w, _ | o⟩ := d <;> rfl

theorem assumeUtc_assumeUtc (d : Datetime) : d.assumeUtc.assumeUtc = d.assumeUtc := by
  obtain ⟨w, _ | o⟩ := d <;> rfl

end Datetime

/-! ## Enumerations -/

/-- The kinds of triggers. -/
inductive TriggerType
  | once
  | cron
  | interval
  deriving DecidableEq

/-- The events of the task history. -/
inductive TaskHistoryEventType
  | taskCreated
  | taskActivated
  | taskDeactivated
  | taskDeleted
  | execution
  deriving DecidableEq

/-- Who asked for an execution. -/
inductive ExecutionSource
  | scheduled
  | manual
  deriving DecidableEq

/-- The fields tasks are sorted by. -/
inductive TaskSortField
  | createdAt
  | nextRunAt
  | updatedAt
  deriving DecidableEq

/-- The directions of a sort. -/
inductive SortOrder
  | asc
  | desc
  deriving DecidableEq

/-! ## Exceptions -/

/-- The exceptions raised below the handlers. -/
inductive Exn
  | valueError
  | keyError
  | overflowError
  | validationError
  | zoneInfoNotFound
  | databaseError
  | typeError
  deriving DecidableEq

/-! ## Specifications and configurations -/

/-- A validated trigger: `OnceTrigger`, `CronTriggerSpec` or
    `IntervalTriggerSpec` (whose `seconds` are validated to be positive). -/
inductive StructuredTriggerSpec
  | once (runAt : Datetime)
  | cron (expression timezone : String)
  | interval (seconds : Int) (pos : 0 < seconds)
  deriving DecidableEq

/-- A minute is an interval. -/
theorem minute_pos : (0 : Int) < 60 := by decide

/-- The `type` of a specification. -/
def StructuredTriggerSpec.type : StructuredTriggerSpec → TriggerType
  | .once _ => .once
  | .cron _ _ => .cron
  | .interval _ _ => .interval

/-- The trigger of a request: structured, or a text with its timezone. -/
inductive TriggerSpec
  | structured (spec : StructuredTriggerSpec)
  | text (text timezone : String)
  deriving DecidableEq

/-- The stored configuration of a trigger. -/
inductive TriggerConfig
  | once (runAt : Datetime)
  | cron (expression timezone : String)
  | interval (seconds : Int)
  deriving DecidableEq

/-- `trigger_config_from_spec`: a naive `run_at` is stored as UTC. -/
def triggerConfigFromSpec : StructuredTriggerSpec → TriggerConfig
  | .once runAt => .once runAt.assumeUtc
  | .cron expression timezone => .cron expression timezone
  | .interval seconds _ => .interval seconds

end SchedulerLm
