import SchedulerLm.Datetimes
import SchedulerLm.Upcoming

/-!
# Run times

`_iter_upcoming_run_times` is a generator over any trigger, of which `compute_upcoming_run_times`
takes the first `count` run times. From a trigger whose fire times increase, as instants, it
comes to an end, with the first of these from now on (`runTimes_of_increasing`); the early
exit makes no difference for a trigger that fires once. What it draws it takes to UTC first,
and a datetime near the ends of the calendar may not exist there: then it raises.
-/

namespace SchedulerLm

open Calendar Iteration

/-- `(nxt.tzinfo and nxt.astimezone(timezone.utc)) or nxt.replace(tzinfo=timezone.utc)`. -/
def Datetime.toUtc (nxt : Datetime) : Except Exn Datetime :=
  match nxt.utcoffset with
  | none => .ok nxt.assumeUtc
  | some _ =>
    if Fields.InRange nxt.instant then .ok (.ofInstant nxt.instant) else .error .overflowError

/-- The datetime exists in UTC; a naive one is one of UTC. -/
def Datetime.ExistsInUtc (d : Datetime) : Prop := d.utcoffset = none ∨ Fields.InRange d.instant

section Loop

variable {σ : Type*} (next : σ → Option (Datetime × σ)) (now : Instant) (isOnce : Bool)

/-- `_iter_upcoming_run_times`, resumed: with at most `fuel` draws, it yields a run time or
    returns. -/
def iterUpcomingRunTimes : ℕ → σ → Option (Except Exn (Option (Datetime × σ)))
  | 0, _ => none
  | fuel + 1, s =>
    match next s with
    | none => some (.ok none)
    | some (nxt, s') =>
      match nxt.toUtc with
      | .error e => some (.error e)
      | .ok nxt =>
        if now ≤ nxt.instant then some (.ok (some (nxt, s')))
        else if isOnce then some (.ok none)
        else iterUpcomingRunTimes fuel s'

/-- `list(islice(_iter_upcoming_run_times(…), count))`. -/
def listUpcomingRunTimes (fuel : ℕ) : ℕ → σ → Option (Except Exn (List Datetime))
  | 0, _ => some (.ok [])
  | count + 1, s =>
    match iterUpcomingRunTimes next now isOnce fuel s with
    | none => none
    | some (.error e) => some (.error e)
    | some (.ok none) => some (.ok [])
    | some (.ok (some (nxt, s'))) =>
      (listUpcomingRunTimes fuel count s').map fun rest => rest.map (nxt :: ·)

/-- The fire times of a trigger, as instants. -/
def instants (s : σ) : Option (Instant × σ) := (next s).map fun r => (r.1.instant, r.2)

/-- The trigger fires at the datetime. -/
inductive Fires : σ → Datetime → Prop
  | here {s s' : σ} {d : Datetime} : next s = some (d, s') → Fires s d
  | later {s s' : σ} {d d' : Datetime} : next s = some (d', s') → Fires s' d → Fires s d

/-- The trigger fires once at most. -/
def FiresOnce (s : σ) : Prop := ∀ d s', next s = some (d, s') → next s' = none

/-- To find the run times `l`, the datetime has to be drawn: there are less than `count` of
    them, or one is not before it. -/
def Drawn (count : ℕ) (l : List Instant) (s : σ) (d : Datetime) : Prop :=
  Fires next s d ∧ (l.length < count ∨ ∃ f ∈ l, d.instant ≤ f)

/-- What the loop comes to, `l` being the run times: these, or an exception. -/
inductive Outcome (count : ℕ) (l : List Instant) (s : σ) : Except Exn (List Datetime) → Prop
  | returns : (∀ d, Drawn next count l s d → d.ExistsInUtc) →
      Outcome count l s (.ok (l.map Datetime.ofInstant))
  | raises {d : Datetime} : Drawn next count l s d → ¬d.ExistsInUtc →
      Outcome count l s (.error .overflowError)

end Loop

variable {σ : Type*} {next : σ → Option (Datetime × σ)} {now builtAt : Instant} {isOnce : Bool}
  {s s' : σ} {d : Datetime} {fuel fuel' count : ℕ} {l : List Instant}
  {r : Except Exn (List Datetime)}

/-! ## Datetimes in UTC -/

theorem Datetime.toUtc_of_existsInUtc (h : d.ExistsInUtc) :
    d.toUtc = .ok (.ofInstant d.instant) := by
  obtain ⟨wall, _ | o⟩ := d
  · rw [toUtc, ofInstant, instant, Option.getD_none, Int.sub_zero]
    rfl
  · rw [toUtc, if_pos (h.resolve_left (by simp))]

theorem Datetime.toUtc_of_not_existsInUtc (h : ¬d.ExistsInUtc) :
    d.toUtc = .error .overflowError := by
  obtain ⟨wall, _ | o⟩ := d
  · exact absurd (.inl rfl) h
  · rw [toUtc, if_neg fun hrange => h (.inr hrange)]

/-! ## One draw -/

theorem instants_eq_some (h : next s = some (d, s')) : instants next s = some (d.instant, s') := by
  rw [instants, h, Option.map_some]

theorem fires_iff {d' : Datetime} (h : next s = some (d, s')) :
    Fires next s d' ↔ d' = d ∨ Fires next s' d' := by
  constructor
  · intro hfires
    cases hfires with
    | here hnext => exact .inl (Prod.mk.inj (Option.some.inj (hnext.symm.trans h))).1
    | later hnext hlater =>
      obtain ⟨-, rfl⟩ := Prod.mk.inj (Option.some.inj (hnext.symm.trans h))
      exact .inr hlater
  · rintro (rfl | hlater)
    · exact .here h
    · exact .later h hlater

theorem not_fires (h : next s = none) : ¬Fires next s d := by
  intro hfires
  cases hfires with
  | here hnext => exact absurd (h.symm.trans hnext) (by simp)
  | later hnext => exact absurd (h.symm.trans hnext) (by simp)

theorem mem_elements_of_fires (h : Fires next s d) : d.instant ∈ elements (instants next) s := by
  induction h with
  | here h =>
    rw [elements_eq_insert (instants_eq_some h)]
    exact Set.mem_insert _ _
  | later h _ ih =>
    rw [elements_eq_insert (instants_eq_some h)]
    exact Set.mem_insert_of_mem _ ih

/-- More fuel makes no difference. -/
theorem iterUpcomingRunTimes_mono {r : Except Exn (Option (Datetime × σ))} (hfuel : fuel ≤ fuel')
    (h : iterUpcomingRunTimes next now isOnce fuel s = some r) :
    iterUpcomingRunTimes next now isOnce fuel' s = some r := by
  induction fuel generalizing fuel' s with
  | zero => exact absurd h (by simp [iterUpcomingRunTimes])
  | succ fuel ih =>
    obtain ⟨fuel', rfl⟩ := Nat.exists_eq_add_one_of_ne_zero (Nat.ne_zero_of_lt hfuel)
    rw [iterUpcomingRunTimes] at h ⊢
    rcases hnext : next s with _ | ⟨d, s'⟩
    · rwa [hnext] at h
    simp only [hnext] at h ⊢
    rcases hutc : d.toUtc with e | u
    · rwa [hutc] at h
    simp only [hutc] at h ⊢
    split
    · rwa [if_pos ‹_›] at h
    rw [if_neg ‹_›] at h
    split
    · rwa [if_pos ‹_›] at h
    · rw [if_neg ‹_›] at h
      exact ih (Nat.le_of_succ_le_succ hfuel) h

theorem listUpcomingRunTimes_mono (hfuel : fuel ≤ fuel')
    (h : listUpcomingRunTimes next now isOnce fuel count s = some r) :
    listUpcomingRunTimes next now isOnce fuel' count s = some r := by
  induction count generalizing s r with
  | zero => exact h
  | succ count ih =>
    rw [listUpcomingRunTimes] at h ⊢
    rcases hiter : iterUpcomingRunTimes next now isOnce fuel s with _ | resumed
    · exact absurd h (by simp [hiter])
    rw [iterUpcomingRunTimes_mono hfuel hiter]
    rw [hiter] at h
    rcases resumed with e | _ | ⟨nxt, s'⟩
    · exact h
    · exact h
    · obtain ⟨rest, hrest, rfl⟩ := Option.map_eq_some_iff.1 h
      exact Option.map_eq_some_iff.2 ⟨rest, ih hrest, rfl⟩

/-- At the end of the sequence, no more run times are listed. -/
theorem listUpcomingRunTimes_of_end (h : next s = none) :
    listUpcomingRunTimes next now isOnce (fuel + 1) count s = some (.ok []) := by
  cases count with
  | zero => rfl
  | succ count => rw [listUpcomingRunTimes, iterUpcomingRunTimes, h]

/-- A datetime that does not exist in UTC is raised for. -/
theorem listUpcomingRunTimes_of_raise (h : next s = some (d, s')) (hd : ¬d.ExistsInUtc) :
    listUpcomingRunTimes next now isOnce (fuel + 1)
      (count + 1) s = some (.error .overflowError) := by
  rw [listUpcomingRunTimes, iterUpcomingRunTimes, h]
  simp only [Datetime.toUtc_of_not_existsInUtc hd]

/-- A run time that is not past is listed. -/
theorem listUpcomingRunTimes_of_yield (h : next s = some (d, s')) (hd : d.ExistsInUtc)
    (hnow : now ≤ d.instant)
    (hrest : listUpcomingRunTimes next now isOnce (fuel + 1) count s' = some r) :
    listUpcomingRunTimes next now isOnce (fuel + 1) (count + 1) s =
      some (r.map (Datetime.ofInstant d.instant :: ·)) := by
  rw [listUpcomingRunTimes, iterUpcomingRunTimes, h]
  simp only [Datetime.toUtc_of_existsInUtc hd, Datetime.instant_ofInstant, if_pos hnow, hrest,
    Option.map_some]

/-- A past one ends the loop of a trigger that fires once. -/
theorem listUpcomingRunTimes_of_stop (h : next s = some (d, s')) (hd : d.ExistsInUtc)
    (hnow : ¬now ≤ d.instant) (honce : isOnce = true) :
    listUpcomingRunTimes next now isOnce (fuel + 1) (count + 1) s = some (.ok []) := by
  rw [listUpcomingRunTimes, iterUpcomingRunTimes, h]
  simp only [Datetime.toUtc_of_existsInUtc hd, Datetime.instant_ofInstant, if_neg hnow,
    if_pos honce]

/-- A past one is skipped otherwise. -/
theorem listUpcomingRunTimes_of_skip (h : next s = some (d, s')) (hd : d.ExistsInUtc)
    (hnow : ¬now ≤ d.instant) (honce : isOnce ≠ true)
    (hrest : listUpcomingRunTimes next now isOnce fuel (count + 1) s' = some r) :
    listUpcomingRunTimes next now isOnce (fuel + 1) (count + 1) s = some r := by
  have hiter : iterUpcomingRunTimes next now isOnce (fuel + 1) s =
      iterUpcomingRunTimes next now isOnce fuel s' := by
    rw [iterUpcomingRunTimes, h]
    simp only [Datetime.toUtc_of_existsInUtc hd, Datetime.instant_ofInstant, if_neg hnow,
      if_neg honce]
  rcases hresumed : iterUpcomingRunTimes next now isOnce fuel s' with _ | resumed
  · exact absurd hrest (by simp [listUpcomingRunTimes, hresumed])
  -- The next resumptions may take what fuel they need.
  have hmore := listUpcomingRunTimes_mono fuel.le_succ hrest
  rw [listUpcomingRunTimes, iterUpcomingRunTimes_mono fuel.le_succ hresumed] at hmore
  rw [listUpcomingRunTimes, hiter, hresumed]
  exact hmore

/-! ## The loop -/

/-- The first datetime is drawn if the run times are not before it. -/
theorem drawn_here (h : next s = some (d, s')) (hl : ∀ f ∈ l, d.instant ≤ f) :
    Drawn next (count + 1) l s d := by
  refine ⟨.here h, ?_⟩
  rcases l with _ | ⟨f, l⟩
  · exact .inl count.succ_pos
  · exact .inr ⟨f, List.mem_cons_self, hl f List.mem_cons_self⟩

/-- With the first datetime listed, the others are drawn for the rest of the list. -/
theorem drawn_cons_iff (h : next s = some (d, s'))
    (hlater : ∀ x ∈ elements (instants next) s', d.instant < x) (d' : Datetime) :
    Drawn next (count + 1) (d.instant :: l) s d' ↔ d' = d ∨ Drawn next count l s' d' := by
  constructor
  · rintro ⟨hfires, hl⟩
    refine ((fires_iff h).1 hfires).imp_right fun hfires' => ⟨hfires', ?_⟩
    rcases hl with hlt | ⟨f, hf, hle⟩
    · exact .inl (Nat.lt_of_succ_lt_succ hlt)
    · rcases List.mem_cons.1 hf with rfl | hf
      · exact absurd hle (not_le.2 (hlater _ (mem_elements_of_fires hfires')))
      · exact .inr ⟨f, hf, hle⟩
  · rintro (rfl | ⟨hfires, hl⟩)
    · exact ⟨.here h, .inr ⟨_, List.mem_cons_self, le_rfl⟩⟩
    · refine ⟨.later h hfires, ?_⟩
      rcases hl with hlt | ⟨f, hf, hle⟩
      · exact .inl (Nat.succ_lt_succ hlt)
      · exact .inr ⟨f, List.mem_cons_of_mem _ hf, hle⟩

/-- With the first datetime skipped, the others are drawn for the same list. -/
theorem drawn_skip_iff (h : next s = some (d, s')) (hl : ∀ f ∈ l, d.instant ≤ f) (d' : Datetime) :
    Drawn next (count + 1) l s d' ↔ d' = d ∨ Drawn next (count + 1) l s' d' := by
  constructor
  · rintro ⟨hfires, hl'⟩
    exact ((fires_iff h).1 hfires).imp_right fun hfires' => ⟨hfires', hl'⟩
  · rintro (rfl | ⟨hfires, hl'⟩)
    · exact drawn_here h hl
    · exact ⟨.later h hfires, hl'⟩

/-- Nothing is drawn for no run times. -/
theorem Outcome.zero : Outcome next 0 [] s (.ok []) := by
  refine .returns fun d hd => ?_
  rcases hd.2 with hlt | ⟨f, hf, -⟩
  · exact absurd hlt (Nat.not_lt_zero _)
  · exact absurd hf List.not_mem_nil

theorem Outcome.of_end (h : next s = none) : Outcome next count [] s (.ok []) :=
  .returns fun _ hd => absurd hd.1 (not_fires h)

/-- Of a trigger that fires once, one datetime is drawn. -/
theorem Outcome.of_once (h : next s = some (d, s')) (hend : next s' = none) (hd : d.ExistsInUtc) :
    Outcome next count [] s (.ok []) := by
  refine .returns fun d' hd' => ?_
  rcases (fires_iff h).1 hd'.1 with rfl | hfires
  · exact hd
  · exact absurd hfires (not_fires hend)

theorem Outcome.cons (hd : d.ExistsInUtc)
    (hdrawn : ∀ d', Drawn next (count + 1) (d.instant :: l) s d' ↔
      d' = d ∨ Drawn next count l s' d')
    (ho : Outcome next count l s' r) :
    Outcome next (count + 1) (d.instant :: l) s (r.map (Datetime.ofInstant d.instant :: ·)) := by
  cases ho with
  | returns hall =>
    exact .returns fun d' hd' => ((hdrawn d').1 hd').elim (fun heq => heq ▸ hd) (hall d')
  | raises hd' hnot => exact .raises ((hdrawn _).2 (.inr hd')) hnot

theorem Outcome.skip (hd : d.ExistsInUtc)
    (hdrawn : ∀ d', Drawn next count l s d' ↔ d' = d ∨ Drawn next count l s' d')
    (ho : Outcome next count l s' r) : Outcome next count l s r := by
  cases ho with
  | returns hall =>
    exact .returns fun d' hd' => ((hdrawn d').1 hd').elim (fun heq => heq ▸ hd) (hall d')
  | raises hd' hnot => exact .raises ((hdrawn _).2 (.inr hd')) hnot

/-- Where the elements are collected, the loop lists them, or raises. -/
theorem exists_outcome (hs : Increasing (instants next) s)
    (honce : isOnce = true → FiresOnce next s)
    (hcollect : collect (instants next) now isOnce fuel count s = some l) :
    ∃ r, Outcome next count l s r ∧ listUpcomingRunTimes next now isOnce fuel count s = some r := by
  induction fuel generalizing count s l with
  | zero =>
    cases count with
    | zero =>
      obtain rfl := Option.some.inj hcollect
      exact ⟨.ok [], .zero, rfl⟩
    | succ count => exact absurd hcollect (by simp [collect])
  | succ fuel ih =>
    cases count with
    | zero =>
      obtain rfl := Option.some.inj hcollect
      exact ⟨.ok [], .zero, rfl⟩
    | succ count =>
      have hmem : ∀ f ∈ l, f ∈ elements (instants next) s := fun f => mem_of_collect hcollect
      rw [collect] at hcollect
      rcases hnext : next s with _ | ⟨d, s'⟩
      · rw [instants, hnext] at hcollect
        obtain rfl := Option.some.inj hcollect
        exact ⟨.ok [], .of_end hnext, listUpcomingRunTimes_of_end hnext⟩
      have hinstants := instants_eq_some hnext
      have hlater : ∀ x ∈ elements (instants next) s', d.instant < x :=
        fun x => hs.lt_of_mem hinstants
      have hge : ∀ f ∈ l, d.instant ≤ f := by
        intro f hf
        have hel := hmem f hf
        rw [elements_eq_insert hinstants] at hel
        rcases hel with rfl | hel
        · exact le_rfl
        · exact (hlater f hel).le
      by_cases hd : d.ExistsInUtc
      · simp only [hinstants] at hcollect
        split at hcollect
        · -- The first datetime is a run time.
          rename_i hnow
          obtain ⟨l, hcollect', rfl⟩ := Option.map_eq_some_iff.1 hcollect
          have honce' : isOnce = true → FiresOnce next s' := fun h d' s'' hnext' =>
            absurd ((honce h d s' hnext).symm.trans hnext') (by simp)
          obtain ⟨r, ho, hlist⟩ := ih (hs.tail hinstants) honce' hcollect'
          refine ⟨_, .cons hd (drawn_cons_iff hnext hlater) ho, ?_⟩
          exact listUpcomingRunTimes_of_yield hnext hd hnow
            (listUpcomingRunTimes_mono fuel.le_succ hlist)
        rename_i hnow
        split at hcollect
        · -- It is past, and no other one follows.
          rename_i hstop
          obtain rfl := Option.some.inj hcollect
          exact ⟨.ok [], .of_once hnext (honce hstop d s' hnext) hd,
            listUpcomingRunTimes_of_stop hnext hd hnow hstop⟩
        · -- It is past, and skipped.
          rename_i hstop
          obtain ⟨r, ho, hlist⟩ := ih (hs.tail hinstants) (fun h => absurd h hstop) hcollect
          exact ⟨r, .skip hd (drawn_skip_iff hnext hge) ho,
            listUpcomingRunTimes_of_skip hnext hd hnow hstop hlist⟩
      · exact ⟨.error .overflowError, .raises (drawn_here hnext hge) hd,
          listUpcomingRunTimes_of_raise hnext hd⟩

/-- Enough is drawn for the elements to be collected. -/
theorem exists_collect (hs : Increasing (instants next) s)
    (honce : isOnce = true → FiresOnce next s) (now : Instant) (count : ℕ) :
    ∃ fuel l, collect (instants next) now isOnce fuel count s = some l ∧
      FirstFrom (elements (instants next) s) now count l := by
  obtain ⟨b, hb⟩ := hs.exists_le
  have hstop : isOnce = true → ∀ x ∈ elements (instants next) s, x < now →
      ∀ y ∈ elements (instants next) s, y < now := by
    intro h x hx hnow y hy
    rcases hnext : next s with _ | ⟨d, s'⟩
    · rw [elements_eq_empty (by rw [instants, hnext, Option.map_none])] at hx
      exact absurd hx (Set.notMem_empty x)
    -- There is one element.
    · rw [elements_eq_insert (instants_eq_some hnext),
        elements_eq_empty (by rw [instants, honce h d s' hnext, Option.map_none]), insert_empty_eq,
        Set.mem_singleton_iff] at hx hy
      rwa [hy, ← hx]
  obtain ⟨l, hl⟩ := collect_spec hs hb hstop (Nat.lt_succ_self (count + (now - b).toNat))
  exact ⟨_, l, hl⟩

/-! ## Triggers -/

theorem instants_next (lib : Crontab) : instants (Trigger.next lib) = Trigger.nextInstant lib := by
  funext trigger
  rw [instants, Trigger.nextInstant]
  simp only [Datetime.instant_assumeUtc]

theorem firesOnce_date (lib : Crontab) (d : Datetime) :
    FiresOnce (Trigger.next lib) (.date d false) := by
  intro d' trigger h
  obtain ⟨-, rfl⟩ := Prod.mk.inj (Option.some.inj h)
  rfl

/-- The fire times of a trigger just built increase. -/
theorem increasing_of_built {lib : Crontab} {type : TriggerType} {config : TriggerConfig}
    {trigger : Trigger} (h : BuiltFromTask builtAt type config trigger) :
    Increasing (instants (Trigger.next lib)) trigger := by
  rw [instants_next]
  by_cases honce : type = .once
  · subst honce
    obtain ⟨runAt⟩ := h
    exact increasing_of_triggerBound (.inr le_rfl)
  · exact increasing_of_triggerBound (bound_of_built h honce)

/-! ## The first run times -/

/-- From a trigger whose fire times increase, the loop comes to an end, with the first `count` from
    now on, in UTC, if what it draws exists there; also if it exits early, for a trigger that fires
    once. -/
theorem runTimes_of_increasing (hs : Increasing (instants next) s) (now : Instant) (count : ℕ) :
    ∃ l, FirstFrom (elements (instants next) s) now count l ∧
      ∀ isOnce, (isOnce = true → FiresOnce next s) →
        ((∀ d, Drawn next count l s d → d.ExistsInUtc) → ∃ steps, ∀ fuel ≥ steps,
          listUpcomingRunTimes next now isOnce fuel count s =
            some (.ok (l.map Datetime.ofInstant))) ∧
        (¬(∀ d, Drawn next count l s d → d.ExistsInUtc) → ∃ steps, ∀ fuel ≥ steps,
          listUpcomingRunTimes next now isOnce fuel count s = some (.error .overflowError)) := by
  have hoften : false = true → FiresOnce next s := fun h => absurd h (by simp)
  obtain ⟨-, l, -, hfirst⟩ := exists_collect hs hoften now count
  refine ⟨l, hfirst, fun isOnce honce => ?_⟩
  obtain ⟨steps, l', hcollect, hfirst'⟩ := exists_collect hs honce now count
  obtain rfl := hfirst'.unique hfirst
  obtain ⟨r, ho, hlist⟩ := exists_outcome hs honce hcollect
  have hsteps : ∀ fuel ≥ steps, listUpcomingRunTimes next now isOnce fuel count s = some r :=
    fun fuel hfuel => listUpcomingRunTimes_mono hfuel hlist
  cases ho with
  | returns hall => exact ⟨fun _ => ⟨steps, hsteps⟩, fun hnot => absurd hall hnot⟩
  | raises hd hnot => exact ⟨fun hall => absurd (hall _ hd) hnot, fun _ => ⟨steps, hsteps⟩⟩

/-- The only fire time is past: whether the loop exits early makes no difference. -/
theorem runTimes_past :
    (∃ steps, ∀ fuel ≥ steps,
      listUpcomingRunTimes (Trigger.next .never) 1 true fuel 5 (.date (.ofInstant 0) false) =
        some (.ok [])) ∧
    ∃ steps, ∀ fuel ≥ steps,
      listUpcomingRunTimes (Trigger.next .never) 1 false fuel 5 (.date (.ofInstant 0) false) =
        some (.ok []) := by
  have hs : Increasing (instants (Trigger.next .never)) (.date (.ofInstant 0) false) := by
    rw [instants_next]
    exact increasing_of_triggerBound (.inr le_rfl)
  have honce := firesOnce_date .never (.ofInstant 0)
  obtain ⟨l, hfirst, hloop⟩ := runTimes_of_increasing hs 1 5
  have hnil : FirstFrom (elements (instants (Trigger.next .never))
      (.date (.ofInstant 0) false)) 1 5 [] := by
    refine .nil fun x hx => ?_
    rw [instants_next, ← Trigger.fireTimes, fireTimes_date, Set.mem_singleton_iff] at hx
    rw [hx]
    decide
  obtain rfl := hfirst.unique hnil
  have hutc : ∀ d, Drawn (Trigger.next .never) 5 [] (.date (.ofInstant 0) false) d →
      d.ExistsInUtc := by
    intro d hd
    rcases (fires_iff rfl).1 hd.1 with rfl | hfires
    · exact .inr (by decide)
    · exact absurd hfires (not_fires rfl)
  exact ⟨(hloop true fun _ => honce).1 hutc, (hloop false fun _ => honce).1 hutc⟩

/-- The last day of the calendar, at 23:00 five hours behind UTC. -/
def lastEvening : Datetime := ⟨253402297200000000, some (-18000000000)⟩

theorem not_existsInUtc_lastEvening : ¬lastEvening.ExistsInUtc := by
  rintro (h | h)
  · exact absurd h (by decide)
  · exact absurd h (by decide)

/-- The loop would come to the first run times for all datetimes: for this one, it raises. -/
theorem not_runTimes : ¬∀ (σ : Type) (next : σ → Option (Datetime × σ)) (s : σ)
    (now : Instant) (count : ℕ) (isOnce : Bool), Increasing (instants next) s →
      (∀ d, Fires next s d → d.Valid) → 1 ≤ count →
    (isOnce = true → FiresOnce next s) →
    ∃ l, FirstFrom (elements (instants next) s) now count l ∧ ∃ steps, ∀ fuel ≥ steps,
      listUpcomingRunTimes next now isOnce fuel count s =
        some (.ok (l.map Datetime.ofInstant)) := by
  intro h
  have hs : Increasing (instants (Trigger.next .never)) (.date lastEvening false) := by
    rw [instants_next]
    exact increasing_of_triggerBound (.inr le_rfl)
  have hvalid : lastEvening.Valid := by
    refine ⟨by decide, fun o ho => ?_⟩
    obtain rfl := Option.some.inj ho
    decide
  have hfires : ∀ d, Fires (Trigger.next .never) (.date lastEvening false) d → d.Valid := by
    intro d hd
    rcases (fires_iff rfl).1 hd with rfl | hlater
    · exact hvalid
    · exact absurd hlater (not_fires rfl)
  obtain ⟨l, -, steps, hlist⟩ := h Trigger (Trigger.next .never)
    (.date lastEvening false) 0 1 true hs hfires
    le_rfl fun _ => firesOnce_date .never lastEvening
  have hraise :
    listUpcomingRunTimes (Trigger.next .never) 0 true (steps + 1) 1 (.date lastEvening false) =
      some (.error .overflowError) := listUpcomingRunTimes_of_raise rfl not_existsInUtc_lastEvening
  exact absurd (hraise.symm.trans (hlist (steps + 1) steps.le_succ)) (by simp)

end SchedulerLm
