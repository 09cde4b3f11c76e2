import SchedulerLm.Tasks

/-!
# Tasks that fire once

A `once` task has one fire. Its schedule is dropped when the fire is picked up, and
its row is deactivated after the GET, but only if that was a success: otherwise the
row stays active, with no fire left.

* `OneShot`: while an active `once` task has not fired, its schedule has taken the
  only fire time of its trigger.
* `noneStuck_iff_succeeds`: in every state of a run, the fires of active `once`
  tasks are pending, iff all executions of these are successes; and so is the
  task deactivated after each of its executions.
-/

namespace SchedulerLm

open Transition

/-- Every active `once` task has its fire pending. -/
def NoneStuck (s : Service) : Prop :=
  ∀ id task, s.row id = some task → task.triggerType = .once → task.isActive = true →
    ∃ schedule, s.schedules id = some schedule ∧ schedule.nextFireTime ≠ none

/-- An execution of an active `once` task gets a 2xx response. -/
def Succeeds (s : Service) : Event → Prop
  | .execute taskId fire => ∀ task, loadActive taskId s = some task → task.triggerType = .once →
      fire.answer.isSuccess = true
  | _ => True

/-- An execution of an active `once` task leaves it inactive, without a next run. -/
def Deactivates (lib : Crontab) (s : Service) : Event → Prop
  | .execute taskId fire => ∀ task s', loadActive taskId s = some task → task.triggerType = .once →
      (sequential lib).step s (.execute taskId fire) = some s' →
      ∃ task', s'.row taskId = some task' ∧ task'.isActive = false ∧ task'.nextRunAt = none
  | _ => True

/-! ## The invariant -/

/-- The schedule of an active `once` task has its fire time, and no other. -/
def OneShot (row : Option ScheduledTask) (schedule : Option Schedule) : Prop :=
  ∀ task, row = some task → task.triggerType = .once → task.isActive = true →
    ∃ d f, schedule = some ⟨.date d true, some f⟩

variable {lib : Crontab} {s s' : Service} {id : TaskId} {e : Event}
  {row row' : Option ScheduledTask} {schedule schedule' : Option Schedule}

/-- The transitions keep it, if executions are successes. -/
theorem TaskStep.oneShot (h : TaskStep lib id e row schedule row' schedule')
    (hI : OneShot row schedule) (hsuccess : ∀ fire task, e = .execute id fire → row = some task →
      task.isActive = true →
      task.triggerType = .once → fire.answer.isSuccess = true) : OneShot row' schedule' := by
  intro task htask honce hactive
  cases h with
  | kept => exact hI task htask honce hactive
  | created _ _ _ hbuilt =>
    obtain rfl := Option.some.inj htask
    obtain ⟨d, hd⟩ := trigger_ofTrigger_once hbuilt honce
    exact ⟨d, _, congrArg some hd⟩
  | activated _ _ hbuilt =>
    obtain rfl := Option.some.inj htask
    obtain ⟨d, hd⟩ := trigger_ofTrigger_once hbuilt honce
    exact ⟨d, _, congrArg some hd⟩
  | unfit | deleted => exact absurd htask (by simp)
  | deactivated | finished =>
    obtain rfl := Option.some.inj htask
    exact absurd hactive (by simp [ScheduledTask.deactivated])
  | skipped _ hinactive => exact absurd (hinactive task htask) (by simp [hactive])
  | executed _ _ hnot =>
    exact absurd ⟨hsuccess _ task rfl htask hactive honce, Option.some.inj htask ▸ honce⟩ hnot

/-- An execution of an active `once` task deactivates it if it is a success, and
    otherwise leaves it as it is. -/
theorem TaskStep.execute_once {fire : Fire} {task : ScheduledTask}
    (h : TaskStep lib id (.execute id fire) (some task) schedule row' schedule')
    (hactive : task.isActive = true) (honce : task.triggerType = .once) :
    (fire.answer.isSuccess = true ∧ row' = some { task.deactivated with updatedAt := fire.dbNow }) ∨
      ¬fire.answer.isSuccess = true ∧ row' = some task ∧
        (OneShot (some task) schedule → schedule' = none) := by
  cases h with
  | kept hne => exact absurd rfl hne
  | skipped _ hinactive => exact absurd (hinactive task rfl) (by simp [hactive])
  | finished _ _ hsuccess => exact .inl ⟨hsuccess, rfl⟩
  | executed hpick _ hnot =>
    refine .inr ⟨fun hsuccess => hnot ⟨hsuccess, honce⟩, rfl, fun hI => ?_⟩
    obtain ⟨d, f, hschedule⟩ := hI task rfl honce hactive
    exact pick_date (congrArg Schedule.trigger (Option.some.inj hschedule)) hpick

/-! ## Runs -/

/-- What holds after a run whose executions of `once` tasks are successes. -/
structure AllOneShot (lib : Crontab) (s : Service) : Prop where
  reachable : Reachable lib s
  oneShot : ∀ id, OneShot (s.row id) (s.schedules id)

theorem allOneShot_init : AllOneShot lib .init :=
  ⟨reachable_init, fun id task htask => absurd ((row_init id).symm.trans htask) (by simp)⟩

theorem AllOneShot.noneStuck (h : AllOneShot lib s) : NoneStuck s := by
  intro id task hrow honce hactive
  obtain ⟨d, f, hschedule⟩ := h.oneShot id task hrow honce hactive
  exact ⟨_, hschedule, Option.some_ne_none _⟩

theorem AllOneShot.step (h : AllOneShot lib s) (hsucceeds : Succeeds s e)
    (hs : (sequential lib).step s e = some s') : AllOneShot lib s' := by
  refine ⟨reachable_step h.reachable hs, fun id => ?_⟩
  refine (taskStep_of_step h.reachable hs id).oneShot (h.oneShot id) ?_
  rintro fire task rfl hrow hactive honce
  exact hsucceeds task (loadActive_eq_some.2 ⟨hrow, hactive⟩) honce

/-- A failed execution leaves its task stuck. -/
theorem AllOneShot.not_noneStuck (h : AllOneShot lib s) (hfail : ¬Succeeds s e)
    (hs : (sequential lib).step s e = some s') : ¬NoneStuck s' := by
  intro hnone
  cases e with
  | request | query => exact hfail trivial
  | execute taskId fire =>
    refine hfail fun task hload honce => ?_
    obtain ⟨hrow, hactive⟩ := loadActive_eq_some.1 hload
    have hstep := taskStep_of_step h.reachable hs taskId
    have hI := h.oneShot taskId
    rw [hrow] at hstep hI
    rcases hstep.execute_once hactive honce with ⟨hsuccess, -⟩ | ⟨-, hrow', hleft⟩
    · exact hsuccess
    · obtain ⟨schedule, hschedule, -⟩ := hnone taskId task hrow' honce hactive
      exact absurd (hschedule.symm.trans (hleft hI)) (by simp)

/-- An execution of an active `once` task deactivates it iff it is a success. -/
theorem deactivates_iff_succeeds (hreach : Reachable lib s)
    (hs : (sequential lib).step s e = some s') : Deactivates lib s e ↔ Succeeds s e := by
  cases e with
  | request | query => exact Iff.rfl
  | execute taskId fire =>
    refine forall_congr' fun task => ?_
    constructor
    · intro hdeactivates hload honce
      obtain ⟨hrow, hactive⟩ := loadActive_eq_some.1 hload
      obtain ⟨task', hrow', hinactive, -⟩ := hdeactivates s' hload honce hs
      have hstep := taskStep_of_step hreach hs taskId
      rw [hrow] at hstep
      rcases hstep.execute_once hactive honce with ⟨hsuccess, -⟩ | ⟨-, hkept, -⟩
      · exact hsuccess
      · obtain rfl := Option.some.inj (hrow'.symm.trans hkept)
        exact absurd (hinactive.symm.trans hactive) (by simp)
    · intro hsucceeds s'' hload honce hs'
      obtain ⟨hrow, hactive⟩ := loadActive_eq_some.1 hload
      have hstep := taskStep_of_step hreach hs' taskId
      rw [hrow] at hstep
      rcases hstep.execute_once hactive honce with ⟨-, hrow'⟩ | ⟨hfail, -⟩
      · exact ⟨_, hrow', rfl, rfl⟩
      · exact absurd (hsucceeds hload honce) hfail

/-- When things happen one at a time, every active `once` task has its fire pending
    in every state of a run iff its executions all get a 2xx response; and iff they do,
    each of them deactivates its task. -/
theorem noneStuck_iff_succeeds {as : List Event} (h : (sequential lib).Run .init as s) :
    ((∀ bs t, bs <+: as → (sequential lib).Run .init bs t → NoneStuck t) ↔
        (sequential lib).RunWith Succeeds .init as s) ∧
      ((sequential lib).RunWith (Deactivates lib) .init as s ↔
        (sequential lib).RunWith Succeeds .init as s) := by
  refine ⟨System.holds_iff_runWith (I := AllOneShot lib) allOneShot_init (fun _ =>
    AllOneShot.noneStuck)
    (fun _ _ _ hI hC hs => hI.step hC hs) (fun _ _ _ hI hC hs => hI.not_noneStuck hC hs) h, ?_⟩
  constructor <;> intro hrun <;>
    refine hrun.mono_of_invariant (I := Reachable lib) reachable_init
      (fun _ _ _ hI hs => reachable_step hI hs) fun _ _ _ hI hs hC => ?_
  · exact (deactivates_iff_succeeds hI hs).1 hC
  · exact (deactivates_iff_succeeds hI hs).2 hC

/-- A `once` task that is due is created, and executed with the answer `answer`. -/
def firedOnce (answer : Answer) : List Event :=
  [.request .sample (.create (.sample (.once ⟨0, some 0⟩)))
    (.sample 0 1 .commitFirst (.response 200)),
    .execute 1 { now := 0, coalesced := 0, answer := answer, historyId := 0, dbNow := 0 }]

theorem noneStuck_firedOnce :
    ∃ s, (sequential .never).Run .init (firedOnce (.response 200)) s ∧ NoneStuck s := by
  obtain ⟨s, hs⟩ : ∃ s, (sequential .never).RunWith Succeeds .init (firedOnce (.response 200)) s :=
    ⟨_, .cons trivial rfl <| .cons (fun _ _ _ => rfl) rfl .nil⟩
  exact ⟨s, hs.run, (noneStuck_iff_succeeds hs.run).1.2 hs _ s List.prefix_rfl hs.run⟩

/-- In every state the fires of active `once` tasks would be pending: one whose
    execution got a 500 stays active, without a schedule. -/
theorem not_noneStuck : ¬∀ (lib : Crontab) (as : List Event) (s : Service),
    (sequential lib).Run .init as s → NoneStuck s := by
  intro h
  obtain ⟨s, hs, ⟨task, hrow, honce, hactive⟩, hschedule⟩ :
      ∃ s, (sequential .never).exec .init (firedOnce (.response 500)) = some s ∧
        (∃ task, s.row 1 = some task ∧ task.triggerType = .once ∧ task.isActive = true) ∧
        s.schedules 1 = none := ⟨_, rfl, ⟨_, rfl, rfl, rfl⟩, rfl⟩
  obtain ⟨schedule, hpending, -⟩ := h _ _ _ (System.runWith_of_exec (D := fun _ => True)
    (fun _ _ => trivial) hs) 1 task hrow honce hactive
  exact absurd (hpending.symm.trans hschedule) (by simp)

end SchedulerLm
