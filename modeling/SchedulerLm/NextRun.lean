import SchedulerLm.Tasks
import SchedulerLm.Upcoming

/-!
# The next run of a task

The column `next_run_at` is a copy of what the scheduler knows. It is set when a
task is created or activated, cleared when it is deactivated, and otherwise left.

* `activeIffNext_iff_hasNextRun`: a task is active iff it has a next run, in every
  state of a run, iff no creation found its trigger without a fire time: a creation
  does not look at that, an activation does.
-/

namespace SchedulerLm

open Transition

/-- The task is active iff it has a next run. -/
def ScheduledTask.ActiveIffNext (task : ScheduledTask) : Prop :=
  task.isActive = true ↔ task.nextRunAt ≠ none

/-- A creation finds a first fire time for its trigger, if that can be built. -/
def HasNextRun (lib : Crontab) : Event → Prop
  | .request _ (.create body) turn => ∀ trigger,
      resolveTriggerSpec turn.toEnv body.trigger = .ok trigger →
      computeNextRunAt lib turn.now trigger ≠ .ok none
  | _ => True

variable {lib : Crontab} {s s' : Service} {id : TaskId} {e : Event} {now r : Instant}
  {row row' : Option ScheduledTask} {schedule schedule' : Option Schedule}

/-! ## Activity -/

/-- Only a crontab has no fire time, and crontabs fit. -/
theorem intervalSeconds_of_none {trigger : StructuredTriggerSpec}
    (h : computeNextRunAt lib now trigger = .ok none) : trigger.intervalSeconds = none := by
  cases trigger with
  | once | cron => rfl
  | interval seconds pos =>
    obtain ⟨built, hbuilt, hnone⟩ := Raising.map_eq_ok.1 h
    rw [buildTrigger] at hbuilt
    split at hbuilt
    · obtain rfl := Except.ok.inj hbuilt
      exact absurd hnone (by simp [Trigger.next])
    · exact absurd hbuilt (by simp)

/-- The transitions keep it, if creations find a fire time. -/
theorem TaskStep.activeIffNext (h : TaskStep lib id e row schedule row' schedule')
    (hnext : HasNextRun lib e) (hI : ∀ task, row = some task → task.ActiveIffNext) :
    ∀ task, row' = some task → task.ActiveIffNext := by
  intro task htask
  cases h with
  | kept | skipped | executed => exact hI task htask
  | @created user body turn trigger nextRunAt built _ htrigger hcompute _ =>
    obtain rfl := Option.some.inj htask
    refine iff_of_true rfl fun hnone => hnext trigger htrigger ?_
    rwa [show nextRunAt = none from hnone] at hcompute
  | unfit | deleted => exact absurd htask (by simp)
  | activated =>
    obtain rfl := Option.some.inj htask
    exact iff_of_true rfl (Option.some_ne_none _)
  | deactivated | finished =>
    obtain rfl := Option.some.inj htask
    exact iff_of_false (by simp [ScheduledTask.deactivated]) fun hne => hne rfl

/-- A creation without a fire time leaves its task active, without a next run. -/
theorem TaskStep.not_activeIffNext {user : CurrentUser} {body : TaskCreate} {turn : Turn}
    {trigger : StructuredTriggerSpec}
    (htrigger : resolveTriggerSpec turn.toEnv body.trigger = .ok trigger)
    (hnone : computeNextRunAt lib turn.now trigger = .ok none)
    (h : TaskStep lib turn.taskId (.request user (.create body) turn) row schedule row' schedule') :
    ∃ task, row' = some task ∧ ¬task.ActiveIffNext := by
  cases h with
  | kept helsewhere =>
    obtain ⟨h, hh⟩ : ∃ h, createTask lib turn.toEnv user body = .ok h :=
      createTask_isOk htrigger hnone
    exact absurd hh (helsewhere rfl h)
  | created _ htrigger' hcompute =>
    obtain rfl := Except.ok.inj (htrigger'.symm.trans htrigger)
    obtain rfl := Except.ok.inj (hcompute.symm.trans hnone)
    exact ⟨_, rfl, fun h => h.1 rfl rfl⟩
  | unfit hfits =>
    refine absurd (fun trigger' htrigger' => ?_) hfits
    obtain rfl := Except.ok.inj (htrigger'.symm.trans htrigger)
    rw [intervalSeconds_of_none hnone]
    rfl

/-- A task is active iff it has a next run, in every state of a run, iff all
    creations of the run found a first fire time. -/
theorem activeIffNext_iff_hasNextRun {as : List Event} (h : (sequential lib).Run .init as s) :
    (∀ bs t, bs <+: as → (sequential lib).Run .init bs t →
        ∀ id task, t.row id = some task → task.ActiveIffNext) ↔
      (sequential lib).RunWith (fun _ e => HasNextRun lib e) .init as s := by
  refine System.holds_iff_runWith
    (I := fun s => Reachable lib s ∧ ∀ id task, s.row id = some task → task.ActiveIffNext)
    (P := fun s => ∀ id task, s.row id = some task → task.ActiveIffNext)
    ⟨reachable_init, fun id task h => absurd ((row_init id).symm.trans h)
      (by simp)⟩ (fun s hI => hI.2)
    (fun s e s' hI hC hs => ⟨reachable_step hI.1 hs, fun id =>
      (taskStep_of_step hI.1 hs id).activeIffNext hC (hI.2 id)⟩) (fun s e s' hI hC hs hP => ?_) h
  cases e with
  | query | execute => exact hC trivial
  | request user request turn =>
    cases request with
    | task | run => exact hC trivial
    | create body =>
      refine hC fun trigger htrigger hnone => ?_
      obtain ⟨task, hrow, hnot⟩ := (taskStep_of_step hI.1 hs turn.taskId).not_activeIffNext
        htrigger hnone
      exact hnot (hP _ task hrow)

/-- A task with the trigger `spec` is created. -/
def created (spec : StructuredTriggerSpec) : Event :=
  .request .sample (.create (.sample spec)) (.sample 0 1 .commitFirst (.response 200))

theorem activeIffNext_created :
    ∃ s task, (sequential .never).Run .init [created (.interval 60 minute_pos)] s ∧
      s.row 1 = some task ∧ task.isActive = true ∧ task.ActiveIffNext := by
  obtain ⟨s, hs, task, hrow, hactive⟩ : ∃ s, (sequential .never).RunWith (fun _ e =>
    HasNextRun .never e)
      .init [created (.interval 60 minute_pos)] s ∧ ∃ task, s.row 1 = some task ∧
        task.isActive = true := by
    refine ⟨_, .cons ?_ rfl .nil, _, rfl, rfl⟩
    rintro trigger htrigger hnone
    obtain rfl := Except.ok.inj htrigger
    exact absurd (Except.ok.inj hnone) (by decide)
  exact ⟨s, task, hs.run, hrow, hactive,
    (activeIffNext_iff_hasNextRun hs.run).2 hs _ s List.prefix_rfl hs.run 1 task hrow⟩

/-- The tasks would be active iff they have a next run: one for each 30 February is
    not. -/
theorem not_activeIffNext : ¬∀ (lib : Crontab) (as : List Event) (s : Service),
    (sequential lib).Run .init as s → ∀ id task, s.row id = some task → task.ActiveIffNext := by
  intro h
  obtain ⟨s, hs, task, hrow, hactive, hnone⟩ :
      ∃ s, (sequential .never).exec .init [created (.cron "0 0 30 2 *" "UTC")] = some s ∧
        ∃ task, s.row 1 = some task ∧ task.isActive = true ∧ task.nextRunAt = none :=
    ⟨_, rfl, _, rfl, rfl, rfl⟩
  exact (h _ _ _ (System.runWith_of_exec (D := fun _ => True)
    (fun _ _ => trivial) hs) 1 task hrow).1
    hactive hnone

end SchedulerLm
