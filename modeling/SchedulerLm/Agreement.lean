import SchedulerLm.Interleaving

/-!
# Agreement of the two stores

The scheduler should hold a schedule for a task iff the task is active. Requests
change the two stores in two steps, the commit and the background job, which
nothing orders, and decide on a row they have read before both.

* `not_agrees`: requests that interleave can leave a schedule without a row.
* `Orderly`: no commit and no job crosses a request of the opposite direction of
  which one of the two is done and the other is not; and no commit is made on a
  row that has changed in a way its job has not accounted for.
* `agrees_of_orderly`: when the steps of any interleaving are orderly, the stores
  agree whenever nothing is pending.

The invariant (`Agreeing`) says, task by task, in which direction the half done
requests go, and that what they have done is still there.
-/

namespace SchedulerLm

open Transition

/-- The scheduler holds a schedule for a task iff the task has a row, and is
    active. -/
def Agrees (s : Service) : Prop := ∀ id, s.scheduled id = true ↔ s.active id = true

/-- The job of a half done request, and whether it is the commit that is done. -/
def Proc.halfDone : Proc → Option (Job × Bool)
  | .finishing _ (some job) committed ran => if committed = ran then none else some (job, committed)
  | _ => none

/-- The activity the work sets for a task is that half done requests set. -/
def Uncrossed (s : Pool Service Proc) (work : UnitOfWork) : Prop :=
  ∀ q ∈ s.procs, ∀ job committed, q.halfDone = some (job, committed) →
    ∀ b, work.task.sets = some (job.taskId, b) → b = job.puts

/-- The step crosses no half done request of the opposite direction. When it is a
    commit whose job has run, its history row fits, and a row it updates is there;
    and a row that is deleted without a job is not active. -/
def Orderly (s : Pool Service Proc) : Act Arrival Choice → Prop
  | .move n (.commit _) => ∀ work job ran, s.procs[n]? = some (.finishing work job false ran) →
      Uncrossed s work ∧
        (ran = true → work.fits = true ∧
          ∀ id changes, work.task = .update id changes → s.shared.row id ≠ none) ∧
        (job = none → ∀ id, work.task = .delete id → s.shared.active id = false)
  | .move n (.job _) =>
    ∀ work job committed, s.procs[n]? = some (.finishing work job committed false) →
      Uncrossed s work
  | _ => True

/-- The step is one of requests, and does not fail. -/
def NoFailure (a : Act Arrival Choice) : Prop := ofRequests a = true ∧ ∀ n, a ≠ .move n .fail

/-! ## The invariant -/

/-- What a commit changes (`true`), and what a job does. -/
def Service.side (s : Service) (commits : Bool) (id : TaskId) : Bool :=
  if commits then s.active id else s.scheduled id

/-- On the task `id`, all half done requests go in one direction, and what they
    have done is still there; without them, the stores agree. -/
structure Agreeing (s : Pool Service Proc) (id : TaskId) : Prop where
  toward : ∃ b, ∀ p ∈ s.procs, ∀ job committed, p.halfDone = some (job, committed) →
    job.taskId = id → job.puts = b ∧ s.shared.side committed id = b
  settled : (∀ p ∈ s.procs, ∀ job committed, p.halfDone = some (job, committed) →
    job.taskId ≠ id) → s.shared.side false id = s.shared.side true id

variable {lib : Crontab} {s s' : Pool Service Proc} {id : TaskId} {p : Proc} {o : Option Proc}
  {rest : List Proc}

/-- A move that changes neither store on `id`, of a process that is not half done
    on `id`, and does not become so. -/
theorem Agreeing.other (h : Agreeing s id) (hp : s.procs.Perm (p :: rest))
    (hp' : s'.procs.Perm (o.toList ++ rest))
    (hside : ∀ c, s'.shared.side c id = s.shared.side c id)
    (hnot : ∀ job c, p.halfDone = some (job, c) → job.taskId ≠ id)
    (hnot' : ∀ q job c, o = some q → q.halfDone = some (job, c) → job.taskId ≠ id) :
    Agreeing s' id := by
  obtain ⟨⟨b, hb⟩, hsettled⟩ := h
  refine ⟨⟨b, fun q hq job c hd hid => ?_⟩, fun hnone => ?_⟩
  · rcases (mem_of_perm_toList hp').1 hq with ho | hq
    · exact absurd hid (hnot' q job c ho hd)
    · rw [hside]
      exact hb q ((mem_of_perm_cons hp).2 (.inr hq)) job c hd hid
  · rw [hside, hside]
    refine hsettled fun q hq job c hd => ?_
    rcases (mem_of_perm_cons hp).1 hq with rfl | hq
    · exact hnot job c hd
    · exact hnone q ((mem_of_perm_toList hp').2 (.inr hq)) job c hd

/-- A move that is the commit (`c`), or the job (`!c`), of a request with the
    job `job`. It was half done by the other of the two, and ends, or it is half
    done now. -/
theorem Agreeing.effect (h : Agreeing s id) (job : Job) (c : Bool)
    (hp : s.procs.Perm (p :: rest)) (hp' : s'.procs.Perm (o.toList ++ rest))
    (hside : ∀ i, s'.shared.side c i = if i = job.taskId then job.puts else s.shared.side c i)
    (hother : ∀ i, s'.shared.side (!c) i = s.shared.side (!c) i)
    (hdone : (p.halfDone = some (job, !c) ∧ o = none) ∨
      p.halfDone = none ∧ ∃ q, o = some q ∧ q.halfDone = some (job, c))
    (huncrossed : ∀ q ∈ s.procs, ∀ j d, q.halfDone = some (j, d) → j.taskId = job.taskId →
      job.puts = j.puts) :
    Agreeing s' id := by
  by_cases hid : id = job.taskId
  · subst hid
    have hnow : s'.shared.side c job.taskId = job.puts := (hside _).trans (if_pos rfl)
    obtain ⟨b, hb⟩ := h.toward
    have hmem : ∀ q ∈ rest, q ∈ s.procs := fun q hq => (mem_of_perm_cons hp).2 (.inr hq)
    have hpmem : p ∈ s.procs := (mem_of_perm_cons hp).2 (.inl rfl)
    refine ⟨⟨job.puts, fun q hq j d hd hj => ?_⟩, fun hnone => ?_⟩
    · rcases (mem_of_perm_toList hp').1 hq with rfl | hq
      · rcases hdone with ⟨-, ho⟩ | ⟨-, q', ho, hd'⟩
        · exact absurd ho (by simp)
        · obtain rfl := Option.some.inj ho
          obtain ⟨rfl, rfl⟩ := Prod.mk.inj (Option.some.inj (hd'.symm.trans hd))
          exact ⟨rfl, hnow⟩
      · have hputs := huncrossed q (hmem q hq) j d hd hj
        obtain ⟨hjb, hdb⟩ := hb q (hmem q hq) j d hd hj
        refine ⟨hputs.symm, ?_⟩
        by_cases hdc : d = c
        · rw [hdc]
          exact hnow
        · obtain rfl : d = !c := by cases d <;> cases c <;> simp_all
          rw [hother, hdb, ← hjb, hputs]
    · -- Nothing on the task is half done now, so the request has just ended.
      rcases hdone with ⟨hd, -⟩ | ⟨-, q, rfl, hd⟩
      · obtain ⟨hjb, hdb⟩ := hb p hpmem job (!c) hd rfl
        have hthen : s'.shared.side (!c) job.taskId = job.puts := by rw [hother, hdb, ← hjb]
        cases c
        · exact hnow.trans hthen.symm
        · exact hthen.trans hnow.symm
      · exact absurd rfl (hnone q ((mem_of_perm_toList hp').2 (.inl rfl)) job c hd)
  · refine h.other hp hp' (fun d => ?_) (fun j d hd => ?_) fun q j d ho hd => ?_
    · by_cases hdc : d = c
      · rw [hdc, hside, if_neg hid]
      · obtain rfl : d = !c := by cases d <;> cases c <;> simp_all
        exact hother id
    · rcases hdone with ⟨hd', -⟩ | ⟨hd', -⟩
      · obtain ⟨rfl, -⟩ := Prod.mk.inj (Option.some.inj (hd'.symm.trans hd))
        exact Ne.symm hid
      · exact absurd (hd'.symm.trans hd) (by simp)
    · rcases hdone with ⟨-, ho'⟩ | ⟨-, q', ho', hd'⟩
      · exact absurd (ho'.symm.trans ho) (by simp)
      · obtain rfl := Option.some.inj (ho'.symm.trans ho)
        obtain ⟨rfl, -⟩ := Prod.mk.inj (Option.some.inj (hd'.symm.trans hd))
        exact Ne.symm hid

/-- A move of a process that is not half done, and does not become so, that
    changes neither store. -/
theorem Agreeing.quiet (h : Agreeing s id) (hp : s.procs.Perm (p :: rest))
    (hp' : s'.procs.Perm (o.toList ++ rest))
    (hside : ∀ c, s'.shared.side c id = s.shared.side c id) (hnot : p.halfDone = none)
    (hnot' : ∀ q, o = some q → q.halfDone = none) : Agreeing s' id :=
  h.other hp hp' hside (fun _ _ hd => absurd (hnot.symm.trans hd) (by simp))
    fun q _ _ ho hd => absurd ((hnot' q ho).symm.trans hd) (by simp)

/-- A request that arrives has done nothing. -/
theorem Agreeing.arrive {i : Arrival} (h : Agreeing s id)
    (hi : ofRequests (.arrive i) = true)
    (ha : arrive lib s.shared i = some (s'.shared, o)) (hprocs : s'.procs = o.toList ++ s.procs) :
    Agreeing s' id := by
  cases i with
  | fire => exact absurd hi (by simp [ofRequests])
  | request user request =>
    obtain ⟨hsh, rfl⟩ := Prod.mk.inj (Option.some.inj ha)
    have hmem : ∀ p ∈ s'.procs, p = .arrived user request ∨ p ∈ s.procs := fun p hp => by
      rwa [hprocs, Option.toList_some, List.singleton_append, List.mem_cons] at hp
    obtain ⟨b, hb⟩ := h.toward
    rw [hsh] at hb
    refine ⟨⟨b, fun p hp j c hd hid => ?_⟩, fun hnone => ?_⟩
    · rcases hmem p hp with rfl | hp
      · exact absurd hd (by simp [Proc.halfDone])
      · exact hb p hp j c hd hid
    · rw [← hsh]
      refine h.settled fun p hp j c hd => hnone p ?_ j c hd
      rw [hprocs]
      exact List.mem_append_right _ hp

theorem Agreeing.move {n : ℕ} {k : Choice} (hsound : Sound lib s)
    (hreq : ∀ p ∈ s.procs, p.ofRequest = true) (h : Agreeing s id)
    (hm : Moves lib s.shared p k s'.shared o) (hn : s.procs[n]? = some p) (hk : k ≠ .fail)
    (hord : Orderly s (.move n k)) (hp : s.procs.Perm (p :: rest))
    (hp' : s'.procs.Perm (o.toList ++ rest)) : Agreeing s' id := by
  obtain ⟨sh', procs'⟩ := s'
  dsimp only at hm hp'
  have hpmem : p ∈ s.procs := (mem_of_perm_cons hp).2 (.inl rfl)
  have hpok := hsound.ok p hpmem
  cases hm with
  | failed => exact absurd rfl hk
  | refused hpend hcom =>
    refine h.quiet hp hp' (fun _ => rfl) ?_ (by simp)
    rcases p with _ | _ | ⟨w, j, _ | _, r⟩ | _ | _ | _ | _ | _ | _
    case finishing.false => exact absurd hpend (by simp [Proc.pending])
    case finishing.true => exact absurd rfl (hcom w j r)
    all_goals rfl
  | issued => exact h.quiet hp hp' (fun _ => rfl) rfl (by simp)
  | @created user body env hd =>
    refine h.quiet hp hp' (fun _ => rfl) rfl fun q ho => ?_
    obtain rfl := Option.some.inj ho
    rcases hd.job with _ | job <;> rfl
  | @handled user op task env hd =>
    refine h.quiet hp hp' (fun _ => rfl) rfl fun q ho => ?_
    obtain rfl := Option.some.inj ho
    rcases hd.job with _ | job <;> rfl
  | read | runRead | called | runSent =>
    exact h.quiet hp hp' (fun _ => rfl) rfl fun q ho => Option.some.inj ho ▸ rfl
  | @committed work job ran dbNow _ hc =>
    obtain ⟨⟨owner, hg⟩, -⟩ := hpok
    obtain ⟨huncrossed, -, hdelete⟩ := hord work job ran hn
    have hsch : ∀ i, sh'.side false i = s.shared.side false i := fun i => by
      simp [Service.side, Service.scheduled, (commit_eq_some hc).2.2.1]
    rcases hg.sets_eq with ⟨j, rfl, hsets⟩ | ⟨rfl, hnone⟩
    · -- The activity the commit sets is what the job is for.
      refine h.effect j true hp hp' (fun i => ?_) hsch ?_
        fun q hq j' d hd hid => huncrossed q hq j' d hd j.puts (by rw [hsets, hid])
      · simp [Service.side, active_of_commit hc, hsets]
      · cases ran
        · exact .inr ⟨rfl, _, rfl, rfl⟩
        · exact .inl ⟨rfl, rfl⟩
    · -- Without a job, nothing is deleted but what is not active.
      refine h.quiet hp hp' (fun c => ?_) rfl (by simp)
      cases c
      · exact hsch id
      · rcases hnone with hwrite | ⟨j, hwrite⟩ <;>
          simp only [Service.side, if_true, active_of_commit hc, hwrite, TaskWrite.sets,
            Option.elim_none, Option.elim_some]
        split
        · rename_i hid
          rw [hid, hdelete rfl j hwrite]
        · rfl
  | @aborted work job ran dbNow hc =>
    obtain ⟨-, hupdate, -⟩ := hord work job ran hn
    cases ran
    · refine h.quiet hp hp' (fun _ => rfl) ?_ (by simp)
      cases job <;> rfl
    · -- Its job has run, so the row it writes to is as it expects it.
      obtain ⟨hfits, hthere⟩ := hupdate rfl
      rcases commit_eq_none.1 hc hfits with ⟨row, hins, hrow⟩ | ⟨i, changes, hupd, hrow⟩
      · exact absurd (hsound.unborn _ hpmem row ⟨work, rfl, hins⟩).1 hrow
      · exact absurd hrow (hthere i changes hupd)
  | @ran work job committed now _ hj =>
    obtain ⟨⟨owner, hg⟩, -⟩ := hpok
    obtain ⟨j, hjob, hsets⟩ | ⟨hjob, -⟩ := hg.sets_eq
    · obtain rfl := Option.some.inj hjob
      refine h.effect job false hp hp' (scheduled_of_runJob hj) (fun i => ?_) ?_
        fun q hq j' d hd hid => hord work _ committed hn q hq j' d hd job.puts (by rw [hsets, hid])
      · simp [Service.side, Service.active, Service.row, (runJob_frame hj).1]
      · cases committed
        · exact .inr ⟨rfl, _, rfl, rfl⟩
        · exact .inl ⟨rfl, rfl⟩
    · exact absurd hjob (by simp)
  | @raised work job committed now e hj =>
    obtain ⟨⟨owner, hg⟩, -⟩ := hpok
    obtain ⟨t, ht⟩ := hg.runJob_isOk now s.shared
    exact absurd (hj.symm.trans ht) (by simp)
  | fireRead | fireSent | fireCommitted | fireAborted | removed =>
    exact absurd (hreq _ hpmem) (by simp [Proc.ofRequest])

/-! ## Runs -/

/-- When requests interleave in orderly steps, without failures, the scheduler
    holds a schedule for exactly the active tasks whenever nothing is pending. -/
theorem agrees_of_orderly {as : List (Act Arrival Choice)} {s : Service}
    (h : (interleaving lib).RunWith (fun s a => NoFailure a ∧ Orderly s a) ⟨.init, []⟩ as ⟨s, []⟩) :
    Agrees s := by
  have hinv := h.invariant
    (I := fun s => Sound lib s ∧ (∀ p ∈ s.procs, p.ofRequest = true) ∧ ∀ id, Agreeing s id)
    ⟨sound_init, by simp, fun id => ⟨⟨false, by simp⟩, fun _ => rfl⟩⟩ ?_
  · intro id
    have hid := (hinv.2.2 id).settled (by simp)
    simp only [Service.side, if_true, Bool.false_eq_true, if_false] at hid
    rw [hid]
  · rintro s a s' ⟨hsound, hreq, hagree⟩ ⟨hfail, hord⟩ hs
    refine ⟨hsound.step hs, ofRequest_step hreq hfail.1 hs, fun id => ?_⟩
    cases Program.moved_of_step hs with
    | @arrive i o ha hprocs => exact (hagree id).arrive hfail.1 ha hprocs
    | @move n k p o rest hn hm hp hp' =>
      exact (hagree id).move hsound hreq (moves_of_move hm) hn (fun hk => hfail.2 n (hk ▸ rfl)) hord
        hp hp'

/-- A creation, whose job runs before its commit. -/
theorem agrees_after_creation : ∃ s, s.active 1 = true ∧ Agrees s := by
  refine ⟨_, ?_, @agrees_of_orderly .never
    [.arrive (.request .sample (.create (.sample (.interval 60 minute_pos)))),
      .move 0 (.body (.sample 0 1)), .move 0 (.job 0), .move 0 (.commit 0)] _
    (.cons ⟨⟨rfl, by simp⟩, trivial⟩ rfl <| .cons ⟨⟨rfl, by simp⟩, trivial⟩ rfl <|
      .cons ⟨⟨rfl, by simp⟩, ?_⟩ rfl <| .cons ⟨⟨rfl, by simp⟩, ?_⟩ rfl .nil)⟩
  · rfl
  · rintro work job committed - q hq j c hd b -
    obtain rfl := List.mem_singleton.1 hq
    exact absurd hd (by simp [Proc.halfDone])
  · rintro work job ran hw
    obtain ⟨rfl, rfl, -, rfl⟩ := Proc.finishing.inj (Option.some.inj hw)
    refine ⟨fun q hq j c hd b hb => ?_, fun _ => ⟨rfl, fun id changes hu => absurd hu (by simp)⟩,
      fun hj => absurd hj (by simp)⟩
    obtain rfl := List.mem_singleton.1 hq
    obtain ⟨rfl, -⟩ := Prod.mk.inj (Option.some.inj hd)
    exact (Prod.mk.inj (Option.some.inj hb)).2.symm

/-! ## Requests that cross -/

/-- A task is created and deactivated. Then an activation and a deletion both
    read it inactive; the activation ends, and the deletion is committed, having
    no job. -/
def crossing : List (Act Arrival Choice) :=
  [.arrive (.request .sample (.create (.sample (.interval 60 minute_pos)))),
    .move 0 (.body (.sample 0 1)), .move 0 (.commit 0), .move 0 (.job 0),
    .arrive (.request .sample (.task .deactivate 1)),
    .move 0 .read, .move 0 (.body (.sample 0 0)), .move 0 (.commit 0), .move 0 (.job 0),
    .arrive (.request .sample (.task .delete 1)), .arrive (.request .sample (.task .activate 1)),
    .move 0 .read, .move 1 .read, .move 0 (.body (.sample 0 0)), .move 0 (.commit 0),
    .move 0 (.job 0), .move 0 (.body (.sample 0 0)), .move 0 (.commit 0)]

/-- Whatever the order of the steps, the stores would agree when nothing is
    pending: they do not. -/
theorem not_agrees : ¬∀ (lib : Crontab) (as : List (Act Arrival Choice)) (s : Service),
    (interleaving lib).RunWith (fun _ a => NoFailure a) ⟨.init, []⟩ as ⟨s, []⟩ → Agrees s := by
  intro h
  obtain ⟨⟨s, _⟩, hs, rfl, hscheduled, hactive⟩ :
      ∃ s, (interleaving .never).exec ⟨.init, []⟩ crossing = some s ∧
        s.procs = [] ∧ s.shared.scheduled 1 = true ∧ s.shared.active 1 = false :=
    ⟨_, rfl, rfl, rfl, rfl⟩
  have hrun := System.runWith_of_exec (D := NoFailure)
    (by simp [crossing, NoFailure, ofRequests]) hs
  exact absurd ((h _ _ _ hrun 1).1 hscheduled) (by simp_all)

end SchedulerLm
