import SchedulerLm.Schemas

/-!
# The triggers of APScheduler

What the service uses of APScheduler: triggers, which are stateful, `next()`
giving their next fire time, and the schedules the scheduler holds, each with a
trigger and its next fire time.

The calendar of cron expressions is a parameter (`Crontab`): which zones and
expressions are accepted, and the instants an expression matches in a zone,
searched by `next`. A trigger

* on a date fires once, at its date;
* on a crontab fires at the instants of its expression, from its construction on;
* on an interval fires at its construction, and then every `seconds`.

When a scheduler picks up a schedule, fires that are due are coalesced into the latest
of them. How its store works is not modelled: it keeps a schedule whose trigger is
exhausted until it cleans up, and here such a schedule, which has no fire left, is
dropped at once.
-/

namespace SchedulerLm

/-- The calendar: accepted zones and crontab expressions, and the instants an
    expression matches in a zone. -/
structure Crontab where
  /-- The names `ZoneInfo` finds. -/
  zones : String → Bool
  zones_empty : zones "" = false
  /-- The expressions `CronTrigger.from_crontab` accepts. -/
  parses : String → Bool
  /-- The expression matches at the instant, in the zone. -/
  Matches : String → String → Instant → Prop
  /-- The first match from an instant on, if there is one. -/
  next : String → String → Instant → Option Instant
  le_next : ∀ {e z t f}, next e z t = some f → t ≤ f
  next_matches : ∀ {e z t f}, next e z t = some f → Matches e z f
  next_least : ∀ {e z t g}, Matches e z g → t ≤ g → ∃ f, next e z t = some f ∧ f ≤ g

/-- The calendar of the expressions that match no date, such as 30 February. -/
def Crontab.never : Crontab where
  zones z := z = "UTC"
  zones_empty := rfl
  parses _ := true
  Matches _ _ _ := False
  next _ _ _ := none
  le_next h := absurd h (by simp)
  next_matches h := absurd h (by simp)
  next_least h := h.elim

/-- A second, in microseconds. -/
def second : Int := 1000000

/-- The longest `timedelta`, in seconds. -/
def maxTimedelta : Int := 999999999 * 86400 + 86399

/-- A trigger: `DateTrigger` (with whether it has fired), `CronTrigger` and
    `IntervalTrigger` (with their start, and their last fire time). -/
inductive Trigger
  | date (runTime : Datetime) (fired : Bool)
  | cron (expression timezone : String) (start : Instant) (last : Option Instant)
  | interval (seconds : Int) (start : Instant) (last : Option Instant)
  deriving DecidableEq

namespace Trigger

variable (lib : Crontab)

/-- `next()`: the next fire time, and the trigger afterwards. -/
def next : Trigger → Option (Datetime × Trigger)
  | date runTime fired => if fired then none else some (runTime, date runTime true)
  | cron e z start last =>
    (lib.next e z (last.elim start (· + 1))).map fun f => (.ofInstant f, cron e z start (some f))
  | interval s start last =>
    let f := last.elim start (· + s * second)
    some (.ofInstant f, interval s start (some f))

end Trigger

/-- A schedule the scheduler holds: its trigger, and its next fire time, already
    taken from the trigger. -/
structure Schedule where
  trigger : Trigger
  nextFireTime : Option Instant
  deriving DecidableEq

namespace Schedule

variable (lib : Crontab)

/-- The schedule of a trigger: its next fire time is the next one of the trigger. -/
def ofTrigger (trigger : Trigger) : Schedule :=
  match trigger.next lib with
  | none => ⟨trigger, none⟩
  | some (f, trigger') => ⟨trigger', some f.instant⟩

/-- The fire a scheduler picks up at `now`, coalescing `coalesced` earlier ones
    that are due as well, and the schedule afterwards: none when its trigger is exhausted,
    whenever the store cleans it up. -/
def pick (now : Instant) : ℕ → Schedule → Option (Instant × Option Schedule)
  | 0, s => s.nextFireTime.bind fun f =>
      if f ≤ now then
        let s' := ofTrigger lib s.trigger
        some (f, s'.nextFireTime.map fun _ => s')
      else none
  | n + 1, s => s.nextFireTime.bind fun f =>
      if f ≤ now then pick now n (ofTrigger lib s.trigger) else none

end Schedule

end SchedulerLm
