import SchedulerLm.Base.Pool
import Mathlib.Data.List.Basic

/-!
# Serializability

A program whose shared state has a part for each key, and each of whose processes acts
on the part of one key (`Separation`). If processes on the same key do not overlap, what
they do is what they would do one at a time, whatever overlaps otherwise.

A process that starts may not have a key yet, and draws it by a move; one that has done
what it does may have none any more (`Stage`). For its key, a move changes that part
only, and depends on that part only (`Separated`).

* `Serves`: a system that does by one action what arrives and a process does alone.
* `Separated.serializable`: the parts after an interleaving of processes that do not
  overlap on a key are those after a run of that system, which serves all that has
  arrived, each once. Processes are served in the order in which they end; each has kept
  beside it how it would have come as far alone (`Alone`).
-/

namespace Transition

variable {σ π ι κ Key ν τ ε : Type*}

/-! ## Alone -/

namespace Program

variable (P : Program σ π ι κ)

/-- What a process comes to alone, by some choices: it has gone on, or ended. -/
def alone : List κ → σ → π → Option (σ × Option π)
  | [], s, p => some (s, some p)
  | c :: cs, s, p => (P.move s p c).bind fun r =>
      r.2.elim (if cs.isEmpty then some (r.1, none) else none) fun q => alone cs r.1 q

variable {P}

theorem alone_concat {cs : List κ} {c : κ} {s s' s'' : σ} {p q : π} {o : Option π}
    (h : P.alone cs s p = some (s', some q)) (hm : P.move s' q c = some (s'', o)) :
    P.alone (cs ++ [c]) s p = some (s'', o) := by
  induction cs generalizing s p with
  | nil =>
    obtain ⟨rfl, hq⟩ := Prod.mk.inj (Option.some.inj h)
    obtain rfl := Option.some.inj hq
    rw [List.nil_append, alone, hm]
    cases o <;> rfl
  | cons d cs ih =>
    rw [alone] at h
    obtain ⟨⟨t, o'⟩, hd, h⟩ := Option.bind_eq_some_iff.1 h
    rw [List.cons_append, alone, hd]
    cases o' with
    | none =>
      rw [Option.elim_none] at h
      split at h
      · exact absurd (Prod.mk.inj (Option.some.inj h)).2 (by simp)
      · exact absurd h (by simp)
    | some q' => exact ih h

/-- A process that ends alone makes a move, and ends by it, or goes on and ends. -/
theorem alone_eq_end {cs : List κ} {s t : σ} {p : π} (h : P.alone cs s p = some (t, none)) :
    ∃ c rest, cs = c :: rest ∧ (P.move s p c = some (t, none) ∧ rest = [] ∨
      ∃ s' q, P.move s p c = some (s', some q) ∧ P.alone rest s' q = some (t, none)) := by
  cases cs with
  | nil => exact absurd (Prod.mk.inj (Option.some.inj h)).2 (by simp)
  | cons c rest =>
    obtain ⟨⟨s', o⟩, hm, h⟩ := Option.bind_eq_some_iff.1 h
    refine ⟨c, rest, rfl, ?_⟩
    cases o with
    | none =>
      rw [Option.elim_none] at h
      split at h
      · rename_i hempty
        obtain ⟨rfl, -⟩ := Prod.mk.inj (Option.some.inj h)
        exact .inl ⟨hm, List.isEmpty_iff.1 hempty⟩
      · exact absurd h (by simp)
    | some q => exact .inr ⟨s', q, hm, h⟩

/-! ## What processes arrived by -/

variable (P) in
/-- The processes, each with what it arrived by. -/
def tagged : Program σ (π × ι) ι κ where
  arrive s i := (P.arrive s i).map fun r => (r.1, r.2.map (·, i))
  move s p c := (P.move s p.1 c).map fun r => (r.1, r.2.map (·, p.2))

theorem tagged_arrive {s s' : σ} {i : ι} {o : Option (π × ι)}
    (h : P.tagged.arrive s i = some (s', o)) :
    ∃ o', P.arrive s i = some (s', o') ∧ o = o'.map (·, i) := by
  obtain ⟨⟨t, o'⟩, ha, hr⟩ := Option.map_eq_some_iff.1 h
  obtain ⟨rfl, rfl⟩ := Prod.mk.inj hr
  exact ⟨o', ha, rfl⟩

theorem tagged_move {s s' : σ} {p : π × ι} {c : κ} {o : Option (π × ι)}
    (h : P.tagged.move s p c = some (s', o)) :
    ∃ o', P.move s p.1 c = some (s', o') ∧ o = o'.map (·, p.2) := by
  obtain ⟨⟨t, o'⟩, hm, hr⟩ := Option.map_eq_some_iff.1 h
  obtain ⟨rfl, rfl⟩ := Prod.mk.inj hr
  exact ⟨o', hm, rfl⟩

theorem map_replace (ps : List (π × ι)) (n : ℕ) (o : Option π) (i : ι) :
    (Pool.replace ps n (o.map (·, i))).map Prod.fst = Pool.replace (ps.map Prod.fst) n o := by
  cases o with
  | none => exact (List.eraseIdx_map ..).symm
  | some q => exact List.map_set

/-- A pool, without what its processes arrived by. -/
def untag (s : Pool σ (π × ι)) : Pool σ π := ⟨s.shared, s.procs.map Prod.fst⟩

/-- Every run is one of processes with what they arrived by. -/
theorem tagged_of_runWith {C : Pool σ π → Act ι κ → Prop} {s : σ} {as : List (Act ι κ)}
    {s' : Pool σ π} (h : P.system.RunWith C ⟨s, []⟩ as s') :
    ∃ s'', P.tagged.system.RunWith (fun s a => C (untag s) a) ⟨s, []⟩ as s'' ∧ untag s'' = s' := by
  induction h with
  | nil => exact ⟨⟨s, []⟩, .nil, rfl⟩
  | @snoc as s₁ s₂ a _ hC hs ih =>
    obtain ⟨t, hrun, rfl⟩ := ih
    -- What a step does to the pool, it does to the tagged one.
    suffices hstep : ∃ t', P.tagged.system.step t a = some t' ∧ untag t' = s₂ by
      obtain ⟨t', ht, heq⟩ := hstep
      exact ⟨t', hrun.snoc hC ht, heq⟩
    cases a with
    | arrive i =>
      obtain ⟨⟨sh, o⟩, hr, rfl⟩ := Option.map_eq_some_iff.1 hs
      refine ⟨⟨sh, (o.map (·, i)).toList ++ t.procs⟩, ?_, ?_⟩
      · have hr' : P.tagged.arrive t.shared i = some (sh, o.map (·, i)) :=
          Option.map_eq_some_iff.2 ⟨_, hr, rfl⟩
        exact Option.map_eq_some_iff.2 ⟨_, hr', rfl⟩
      · cases o <;> rfl
    | move n c =>
      obtain ⟨p, hn, hs⟩ := Option.bind_eq_some_iff.1 hs
      obtain ⟨⟨sh, o⟩, hr, rfl⟩ := Option.map_eq_some_iff.1 hs
      rw [untag, List.getElem?_map] at hn
      obtain ⟨⟨p', i⟩, hn', rfl⟩ := Option.map_eq_some_iff.1 hn
      refine ⟨⟨sh, Pool.replace t.procs n (o.map (·, i))⟩, ?_, ?_⟩
      · have hr' : P.tagged.move t.shared (p', i) c = some (sh, o.map (·, i)) :=
          Option.map_eq_some_iff.2 ⟨_, hr, rfl⟩
        exact Option.bind_eq_some_iff.2 ⟨_, hn', Option.map_eq_some_iff.2 ⟨_, hr', rfl⟩⟩
      · exact Pool.ext rfl (map_replace ..)

theorem step_of_tagged {s s' : Pool σ (π × ι)} {a : Act ι κ}
    (h : P.tagged.system.step s a = some s') :
    P.system.step (untag s) a = some (untag s') := by
  cases a with
  | arrive i =>
    obtain ⟨⟨sh, o⟩, hr, rfl⟩ := Option.map_eq_some_iff.1 h
    obtain ⟨o', ha, rfl⟩ := tagged_arrive hr
    refine Option.map_eq_some_iff.2 ⟨_, ha, Pool.ext rfl ?_⟩
    cases o' <;> rfl
  | move n c =>
    obtain ⟨p, hn, h⟩ := Option.bind_eq_some_iff.1 h
    obtain ⟨⟨sh, o⟩, hr, rfl⟩ := Option.map_eq_some_iff.1 h
    obtain ⟨o', hm, rfl⟩ := tagged_move hr
    refine Option.bind_eq_some_iff.2 ⟨p.1, ?_, Option.map_eq_some_iff.2 ⟨_, hm, ?_⟩⟩
    swap
    · exact Pool.ext rfl (map_replace ..).symm
    rw [untag, List.getElem?_map, hn]
    rfl

end Program

/-! ## Actions -/

/-- What arrives by an action. -/
def Act.arrival : Act ι κ → Option ι
  | .arrive i => some i
  | .move _ _ => none

/-- The stamp of an action. -/
def stampOf (stamp : κ → Option τ) : Act ι κ → Option τ
  | .arrive _ => none
  | .move _ c => stamp c

/-! ## Separation -/

/-- What a process is to the keys: it has none yet, acts on one, or on none any more. -/
inductive Stage (Key : Type*)
  | fresh
  | on (k : Key)
  | spent

def Stage.isSpent : Stage Key → Bool
  | .spent => true
  | _ => false

/-- The parts of the keys, and which processes are on them. -/
structure Separation (σ π ι κ Key ν : Type*) where
  /-- The part of a key. -/
  part : Key → σ → ν
  /-- The key what arrives is on; nothing if it has none yet. -/
  arrivesOn : ι → Option Key
  stage : π → Stage Key
  /-- The key a process that has none yet draws by a choice. -/
  draws : κ → Option Key
  /-- The choices considered. -/
  Allowed : κ → Prop
  /-- What holds of every process. -/
  Ok : π → Prop

namespace Separation

variable (S : Separation σ π ι κ Key ν)

/-- The key a move is for. -/
def target (p : π) (c : κ) : Option Key :=
  match S.stage p with
  | .fresh => S.draws c
  | .on k => some k
  | .spent => none

/-- The step neither overlaps with a process on its key, nor makes a choice that is not
    considered. -/
def Apart (s : Pool σ π) : Act ι κ → Prop
  | .arrive i => ∀ k, S.arrivesOn i = some k → ∀ p ∈ s.procs, S.stage p ≠ .on k
  | .move n c =>
    S.Allowed c ∧ ∀ p k, s.procs[n]? = some p → S.stage p = .fresh → S.draws c = some k →
      ∀ q ∈ s.procs, S.stage q ≠ .on k

/-- The processes of the program act on the part of one key each. A choice that ends a
    spent process has no stamp. -/
structure Separated (P : Program σ π ι κ) (stamp : κ → Option τ) : Prop where
  arrive_stage : ∀ {s s' i o}, P.arrive s i = some (s', o) →
    ∃ p, o = some p ∧ S.stage p = (S.arrivesOn i).elim .fresh .on
  arrive_fresh : ∀ {s s' i o}, P.arrive s i = some (s', o) → S.arrivesOn i = none →
    s' = s ∧ ∀ t, P.arrive t i = some (t, o)
  arrive_frame : ∀ {s s' i o k}, P.arrive s i = some (s', o) → S.arrivesOn i ≠ some k →
    S.part k s' = S.part k s
  arrive_part : ∀ {s s' t i o k}, P.arrive s i = some (s', o) → S.arrivesOn i = some k →
    S.part k s = S.part k t → ∃ t', P.arrive t i = some (t', o) ∧ S.part k s' = S.part k t'
  move_draws : ∀ {s s' p c o}, P.move s p c = some (s', o) → S.Allowed c → S.stage p = .fresh →
    S.draws c ≠ none
  move_stage : ∀ {s s' p c q}, P.move s p c = some (s', some q) → S.Ok p → S.Allowed c →
    S.stage q = .spent ∨ ∃ k, S.stage q = .on k ∧ S.target p c = some k
  move_frame : ∀ {s s' p c o k}, P.move s p c = some (s', o) → S.Ok p → S.Allowed c →
    S.target p c ≠ some k → S.part k s' = S.part k s
  move_part : ∀ {s s' t p c o k}, P.move s p c = some (s', o) → S.Ok p → S.Allowed c →
    S.target p c = some k → S.part k s = S.part k t →
    ∃ t', P.move t p c = some (t', o) ∧ S.part k s' = S.part k t'
  spent_ends : ∀ {p}, S.Ok p → S.stage p = .spent →
    ∃ c, S.Allowed c ∧ stamp c = none ∧ ∀ s, ∃ s', P.move s p c = some (s', none)

variable {S}

/-- From `s`, the process `p` comes to `s'`, and goes on as `o`, by moves for the key `k`. -/
inductive Alone (S : Separation σ π ι κ Key ν) (P : Program σ π ι κ) (k : Key) (s : σ) (p : π) :
    List κ → σ → Option π → Prop
  | nil : Alone S P k s p [] s (some p)
  | snoc {cs : List κ} {c : κ} {s' s'' : σ} {q : π} {o : Option π} :
      Alone S P k s p cs s' (some q) →
      S.Ok q → S.Allowed c → S.target q c = some k → P.move s' q c = some (s'', o) →
      Alone S P k s p (cs ++ [c]) s'' o

variable {P : Program σ π ι κ} {stamp : κ → Option τ} {k j : Key} {s s' t u : σ} {p q : π}
  {o : Option π} {cs : List κ} {c : κ} {i : ι}

namespace Alone

theorem alone (h : Alone S P k s p cs s' o) : P.alone cs s p = some (s', o) := by
  induction h with
  | nil => rfl
  | snoc _ _ _ _ hm ih => exact Program.alone_concat ih hm

theorem allowed (h : Alone S P k s p cs s' o) : ∀ c ∈ cs, S.Allowed c := by
  induction h with
  | nil => exact fun c hc => absurd hc List.not_mem_nil
  | snoc _ _ hc _ _ ih =>
    intro d hd
    rcases List.mem_append.1 hd with hd | hd
    · exact ih d hd
    · exact List.mem_singleton.1 hd ▸ hc

/-- It leaves the parts of other keys. -/
theorem frame (h : Alone S P k s p cs s' o) (hS : S.Separated P stamp) (hj : j ≠ k) :
    S.part j s' = S.part j s := by
  induction h with
  | nil => rfl
  | snoc _ hq hc ht hm ih => rw [hS.move_frame hm hq hc (by rw [ht]; simpa using hj.symm), ih]

/-- It comes to the same from any state with that part of the key. -/
theorem rebase (h : Alone S P k s p cs s' o) (hS : S.Separated P stamp)
    (hpart : S.part k s = S.part k t) :
    ∃ t', Alone S P k t p cs t' o ∧ S.part k s' = S.part k t' := by
  induction h with
  | nil => exact ⟨t, .nil, hpart⟩
  | snoc _ hq hc ht hm ih =>
    obtain ⟨t', h', hpart'⟩ := ih
    obtain ⟨t'', hm', hpart''⟩ := hS.move_part hm hq hc ht hpart'
    exact ⟨t'', .snoc h' hq hc ht hm', hpart''⟩

end Alone

/-! ## Serializability -/

/-- The system `M` does by one action what arrives and a process does alone, if the stamps
    of the process are in order. -/
def Serves (S : Separation σ π ι κ Key ν) (P : Program σ π ι κ) (stamp : κ → Option τ)
    (r : τ → τ → Prop) (M : System σ ε) (origin : ε → Option ι) : Prop :=
  ∀ t i t₀ p cs u, P.arrive t i = some (t₀, some p) → P.alone cs t₀ p = some (u, none) →
    (∀ c ∈ cs, S.Allowed c) → (cs.filterMap stamp).Pairwise r →
    ∃ e t', M.step t e = some t' ∧ origin e = some i ∧ ∀ k, S.part k u = S.part k t'

/-- Alone, from `t`, the process could have come as far as in a run with the actions `as`,
    which has led to `s`: it finds the part of its key as it would be. -/
def Pending (S : Separation σ π ι κ Key ν) (P : Program σ π ι κ) (stamp : κ → Option τ) (t : σ)
    (as : List (Act ι κ)) (s : σ) (k : Key) (p : π × ι) : Prop :=
  ∃ t₀ p₀ cs u, P.arrive t p.2 = some (t₀, some p₀) ∧
    (∀ j, S.arrivesOn p.2 = some j → j = k) ∧
    Alone S P k t₀ p₀ cs u (some p.1) ∧ S.part k s = S.part k u ∧
    (cs.filterMap stamp).Sublist (as.filterMap (stampOf stamp))

/-- What has arrived by processes that are still to be served. -/
def unserved (S : Separation σ π ι κ Key ν) (ps : List (π × ι)) : List ι :=
  (ps.filter fun p => !(S.stage p.1).isSpent).map Prod.snd

/-- The state `t`, reached by serving what is in `done`, explains the state of a pool. -/
structure Explained (S : Separation σ π ι κ Key ν) (P : Program σ π ι κ)
    (stamp : κ → Option τ) (t : σ) (done : List ι) (as : List (Act ι κ))
    (s : Pool σ (π × ι)) : Prop where
  apart : s.procs.Pairwise fun p q => ∀ k, S.stage p.1 = .on k → S.stage q.1 ≠ .on k
  fresh : ∀ p ∈ s.procs, S.stage p.1 = .fresh →
    S.arrivesOn p.2 = none ∧ ∀ t, P.arrive t p.2 = some (t, some p.1)
  pending : ∀ p ∈ s.procs, ∀ k, S.stage p.1 = .on k → Pending S P stamp t as s.shared k p
  idle : ∀ k, (∀ p ∈ s.procs, S.stage p.1 ≠ .on k) → S.part k s.shared = S.part k t
  served : (done ++ unserved S s.procs).Perm (as.filterMap Act.arrival)

section

variable {as : List (Act ι κ)} {a : Act ι κ} {p : π × ι} {o : Option (π × ι)}

/-- The state reached one at a time may go on, where the part of the key stays. -/
theorem Pending.rebase (h : Pending S P stamp t as s k p) (hS : S.Separated P stamp)
    (hpart : S.part k t = S.part k t') : Pending S P stamp t' as s k p := by
  obtain ⟨t₀, p₀, cs, u, ha, hon, halone, hu, hstamps⟩ := h
  obtain ⟨t₀', ha', hpart₀⟩ : ∃ t₀', P.arrive t' p.2 = some (t₀', some p₀) ∧
      S.part k t₀ = S.part k t₀' := by
    cases harrives : S.arrivesOn p.2 with
    | none =>
      obtain ⟨rfl, hany⟩ := hS.arrive_fresh ha harrives
      exact ⟨t', hany t', hpart⟩
    | some j =>
      obtain rfl := hon j harrives
      exact hS.arrive_part ha harrives hpart
  obtain ⟨u', halone', hu'⟩ := halone.rebase hS hpart₀
  exact ⟨t₀', p₀, cs, u', ha', hon, halone', hu.trans hu', hstamps⟩

/-- So may the pool. -/
theorem Pending.weaken (h : Pending S P stamp t as s k p) (hpart : S.part k s' = S.part k s) :
    Pending S P stamp t (as ++ [a]) s' k p := by
  obtain ⟨t₀, p₀, cs, u, ha, hon, halone, hu, hstamps⟩ := h
  refine ⟨t₀, p₀, cs, u, ha, hon, halone, hpart.trans hu, hstamps.trans ?_⟩
  rw [List.filterMap_append]
  exact List.sublist_append_left _ _

theorem unserved_perm {ps qs : List (π × ι)} (h : ps.Perm qs) :
    (unserved S ps).Perm (unserved S qs) :=
  (h.filter _).map _

theorem unserved_append (ps qs : List (π × ι)) :
    unserved S (ps ++ qs) = unserved S ps ++ unserved S qs := by
  rw [unserved, List.filter_append, List.map_append]
  rfl

theorem unserved_spent {ps : List (π × ι)} (h : ∀ p ∈ ps, S.stage p.1 = .spent) :
    unserved S ps = [] := by
  rw [unserved, List.filter_eq_nil_iff.2 fun p hp => ?_]
  · rfl
  · rw [h p hp]
    exact Bool.false_ne_true

theorem unserved_singleton (h : S.stage p.1 ≠ .spent) : unserved S [p] = [p.2] := by
  rw [unserved, List.filter_singleton]
  cases hst : S.stage p.1 with
  | spent => exact absurd hst h
  | fresh | on => rfl

variable {s s' : Pool σ (π × ι)} {rest : List (π × ι)} {done done' : List ι}

/-- A step for a key, after which the process on it is explained, or the key is idle, is
    explained if it leaves the other parts, and the state reached one at a time does. -/
theorem Explained.next (h : Explained S P stamp t done as s) (hS : S.Separated P stamp)
    (key : Option Key) (before : Option (π × ι)) (hbefore : s.procs.Perm (before.toList ++ rest))
    (hafter : s'.procs.Perm (o.toList ++ rest))
    (hfree : ∀ k, key = some k → ∀ r ∈ rest, S.stage r.1 ≠ .on k)
    (hself : ∀ p k, before = some p → S.stage p.1 = .on k → key = some k)
    (hframe : ∀ k, key ≠ some k → S.part k s'.shared = S.part k s.shared)
    (hserial : ∀ k, key ≠ some k → S.part k t = S.part k t')
    (hfresh : ∀ q, o = some q → S.stage q.1 = .fresh →
      S.arrivesOn q.2 = none ∧ ∀ t, P.arrive t q.2 = some (t, some q.1))
    (hon : ∀ q k, o = some q → S.stage q.1 = .on k →
      key = some k ∧ Pending S P stamp t' (as ++ [a]) s'.shared k q)
    (hidle : ∀ k, key = some k → (∀ q, o = some q → S.stage q.1 ≠ .on k) →
      S.part k s'.shared = S.part k t')
    (hserved : (done' ++ unserved S o.toList).Perm (done ++ unserved S before.toList ++
      a.arrival.toList)) :
    Explained S P stamp t' done' (as ++ [a]) s' := by
  have hsymm : Std.Symm fun p q : π × ι => ∀ k, S.stage p.1 = .on k → S.stage q.1 ≠ .on k :=
    ⟨fun p q hpq k hq hp => hpq k hp hq⟩
  have hrest : ∀ r ∈ rest, r ∈ s.procs := fun r hr =>
    hbefore.mem_iff.2 (List.mem_append_right _ hr)
  have hcases : ∀ r ∈ s'.procs, o = some r ∨ r ∈ rest :=
    fun r hr => (mem_of_perm_toList hafter).1 hr
  refine ⟨?_, fun r hr hst => ?_, fun r hr k hst => ?_, fun k hk => ?_, ?_⟩
  · have hpairs : rest.Pairwise fun p q => ∀ k, S.stage p.1 = .on k → S.stage q.1 ≠ .on k :=
      ((hbefore.pairwise_iff (fun h => hsymm.symm _ _ h)).1 h.apart).sublist
        (List.sublist_append_right _ _)
    rw [hafter.pairwise_iff (fun h => hsymm.symm _ _ h)]
    cases o with
    | none => exact hpairs
    | some q =>
      exact List.pairwise_cons.2 ⟨fun r hr k hq => hfree k (hon q k rfl hq).1 r hr, hpairs⟩
  · rcases hcases r hr with hq | hr
    · exact hfresh r hq hst
    · exact h.fresh r (hrest r hr) hst
  · -- The others are on other keys, whose parts neither the pool nor the serial run changes.
    rcases hcases r hr with hq | hr
    · exact (hon r k hq hst).2
    · have hne : key ≠ some k := fun hkey => hfree k hkey r hr hst
      exact ((h.pending r (hrest r hr) k hst).weaken (hframe k hne)).rebase hS (hserial k hne)
  · by_cases hkey : key = some k
    · exact hidle k hkey fun q hq => hk q ((mem_of_perm_toList hafter).2 (.inl hq))
    · rw [hframe k hkey, ← hserial k hkey]
      refine h.idle k fun r hr hst => ?_
      rcases List.mem_append.1 (hbefore.mem_iff.1 hr) with hp | hr
      · exact hkey (hself r k (Option.mem_toList.1 hp) hst)
      · exact hk r ((mem_of_perm_toList hafter).2 (.inr hr)) hst
  · calc List.Perm (done' ++ unserved S s'.procs)
          (done' ++ unserved S o.toList ++ unserved S rest) := by
          rw [List.append_assoc, ← unserved_append]
          exact (unserved_perm hafter).append_left _
      List.Perm _ (done ++ unserved S before.toList ++ a.arrival.toList ++ unserved S rest) :=
          hserved.append_right _
      List.Perm _ (done ++ unserved S before.toList ++ (unserved S rest ++ a.arrival.toList)) := by
          rw [List.append_assoc]
          exact List.perm_append_comm.append_left _
      List.Perm _ (done ++ unserved S s.procs ++ a.arrival.toList) := by
          rw [← List.append_assoc, List.append_assoc done, ← unserved_append]
          exact ((unserved_perm hbefore.symm).append_left _).append_right _
      List.Perm _ ((as ++ [a]).filterMap Act.arrival) := by
          rw [List.filterMap_append, List.filterMap_eq_flatMap_toList _ [a], List.flatMap_singleton]
          exact h.served.append_right _

/-- An arrival is explained by the same state. -/
theorem Explained.arrive (h : Explained S P stamp t done as s) (hS : S.Separated P stamp)
    (hap : S.Apart (Program.untag s) (.arrive i))
    (htagged : P.tagged.arrive s.shared i = some (s'.shared, o)) (hprocs : s'.procs = o.toList ++
      s.procs) : Explained S P stamp t done (as ++ [.arrive i]) s' := by
  obtain ⟨o', ha, rfl⟩ := Program.tagged_arrive htagged
  obtain ⟨p, rfl, hp⟩ := hS.arrive_stage ha
  refine h.next hS (S.arrivesOn i) none (List.Perm.refl _) (List.Perm.of_eq hprocs)
    (fun k hk r hr => hap k hk r.1 (List.mem_map_of_mem hr))
      (fun _ _ hnone => absurd hnone (by simp))
    (fun k hk => hS.arrive_frame ha hk) (fun _ _ => rfl) (fun q hq hst => ?_) (fun q k hq hst => ?_)
    (fun k hk hidle => ?_) ?_
  · obtain rfl := Option.some.inj hq
    cases hon : S.arrivesOn i with
    | none => exact ⟨rfl, (hS.arrive_fresh ha hon).2⟩
    | some k => exact absurd (hp.symm.trans hst) (by simp [hon])
  · obtain rfl := Option.some.inj hq
    cases hon : S.arrivesOn i with
    | none => exact absurd (hp.symm.trans hst) (by simp [hon])
    | some j =>
      rw [hp, hon] at hst
      obtain rfl := Stage.on.inj hst
      have hidle := h.idle j fun r hr => hap j hon r.1 (List.mem_map_of_mem hr)
      obtain ⟨t₀, ha', hpart⟩ := hS.arrive_part ha hon hidle
      exact ⟨rfl, t₀, p, [], t₀, ha', fun k hk => Option.some.inj (hk.symm.trans hon), .nil, hpart,
        List.nil_sublist _⟩
  · exact absurd (hp.trans (by rw [hk]; rfl)) (hidle (p, i) rfl)
  · have hst : S.stage p ≠ .spent := by
      rw [hp]
      cases S.arrivesOn i <;> simp
    change List.Perm (done ++ unserved S [(p, i)]) (done ++ [] ++ [i])
    rw [unserved_singleton hst, List.append_nil]

/-- A process that moves for a key is pending on it. -/
theorem Explained.pending_of_target (h : Explained S P stamp t done as s) {n : ℕ}
    (hap : S.Apart (Program.untag s) (.move n c)) (hn : s.procs[n]? = some p) {k : Key}
    (ht : S.target p.1 c = some k) : Pending S P stamp t as s.shared k p := by
  have hp : p ∈ s.procs := List.mem_of_getElem? hn
  rw [Separation.target] at ht
  split at ht
  · rename_i hst
    obtain ⟨hi, hany⟩ := h.fresh p hp hst
    have hn' : (Program.untag s).procs[n]? = some p.1 := by
      rw [Program.untag, List.getElem?_map, hn]
      rfl
    have hidle := h.idle k fun r hr => hap.2 p.1 k hn' hst ht r.1 (List.mem_map_of_mem hr)
    exact ⟨t, p.1, [], t, hany t, fun j hj => absurd (hi.symm.trans hj) (by simp), .nil, hidle,
      List.nil_sublist _⟩
  · rename_i j hst
    obtain rfl := Option.some.inj ht
    exact h.pending p hp j hst
  · exact absurd ht (by simp)

/-- What a process has come to alone, in its last step. -/
theorem Pending.move {n : ℕ} {s s' : σ} {o : Option π} (h : Pending S P stamp t as s k p)
    (hS : S.Separated P stamp) (hok : S.Ok p.1) (hc : S.Allowed c) (ht : S.target p.1 c = some k)
    (hm : P.move s p.1 c = some (s', o)) :
    ∃ t₀ p₀ cs u, P.arrive t p.2 = some (t₀, some p₀) ∧
      (∀ j, S.arrivesOn p.2 = some j → j = k) ∧
      Alone S P k t₀ p₀ cs u o ∧ S.part k s' = S.part k u ∧
      (cs.filterMap stamp).Sublist ((as ++ [Act.move n c]).filterMap (stampOf stamp)) := by
  obtain ⟨t₀, p₀, cs, u, ha, hon, halone, hu, hstamps⟩ := h
  obtain ⟨u', hm', hu'⟩ := hS.move_part hm hok hc ht hu
  refine ⟨t₀, p₀, cs ++ [c], u', ha, hon, .snoc halone hok hc ht hm', hu', ?_⟩
  rw [List.filterMap_append, List.filterMap_append]
  exact hstamps.append (List.Sublist.refl _)

/-- A move for no key is explained by the same state. -/
theorem Explained.move_none {n : ℕ} (h : Explained S P stamp t done as s) (hS : S.Separated P stamp)
    (hok : S.Ok p.1) (hc : S.Allowed c) (ht : S.target p.1 c = none)
    (htagged : P.tagged.move s.shared p c = some (s'.shared, o)) (hp : s.procs.Perm (p :: rest))
    (hp' : s'.procs.Perm (o.toList ++ rest)) :
    Explained S P stamp t done (as ++ [.move n c]) s' := by
  obtain ⟨o', hm, rfl⟩ := Program.tagged_move htagged
  have hself : S.stage p.1 = .spent := by
    rw [Separation.target] at ht
    split at ht
    · rename_i hst
      exact absurd ht (hS.move_draws hm hc hst)
    · exact absurd ht (by simp)
    · assumption
  have hspent : ∀ q, o'.map (·, p.2) = some q → S.stage q.1 = .spent := by
    intro q hq
    obtain ⟨q', rfl, rfl⟩ := Option.map_eq_some_iff.1 hq
    rcases hS.move_stage hm hok hc with hspent | ⟨k, -, hk⟩
    · exact hspent
    · exact absurd (ht.symm.trans hk) (by simp)
  refine h.next hS none (some p) hp hp' (fun _ hk => absurd hk (by simp)) (fun q k hq hst => ?_)
    (fun k _ => hS.move_frame hm hok hc (by simp [ht])) (fun _ _ => rfl)
    (fun q hq hst => absurd ((hspent q hq).symm.trans hst) (by simp))
    (fun q k hq hst => absurd ((hspent q hq).symm.trans hst) (by simp))
      (fun _ hk => absurd hk (by simp)) ?_
  · obtain rfl := Option.some.inj hq
    exact absurd (hself.symm.trans hst) (by simp)
  · rw [unserved_spent fun q hq => hspent q (Option.mem_toList.1 hq), unserved_spent fun q hq => ?_]
    · exact List.Perm.of_eq (List.append_nil _).symm
    · obtain rfl := List.mem_singleton.1 hq
      exact hself

/-- A move for a key is explained by the same state, or by the one its process comes to
    alone, if it has ended, or is to do nothing more. -/
theorem Explained.move_some {n : ℕ} {r : τ → τ → Prop} {M : System σ ε} {origin : ε → Option ι}
    (h : Explained S P stamp t done as s) (hS : S.Separated P stamp)
    (hM : Serves S P stamp r M origin) (hok : S.Ok p.1) (hok' : ∀ q, o = some q → S.Ok q.1)
    (hap : S.Apart (Program.untag s) (.move n c)) (hn : s.procs[n]? = some p)
    (ht : S.target p.1 c = some k) (htagged : P.tagged.move s.shared p c = some (s'.shared, o))
    (hp : s.procs.Perm (p :: rest)) (hp' : s'.procs.Perm (o.toList ++ rest))
    (hstamps : ((as ++ [Act.move n c]).filterMap (stampOf stamp)).Pairwise r) :
    ∃ es t', M.Run t es t' ∧
      Explained S P stamp t' (done ++ es.filterMap origin) (as ++ [.move n c]) s' := by
  obtain ⟨o', hm, rfl⟩ := Program.tagged_move htagged
  have hfree : ∀ r ∈ rest, S.stage r.1 ≠ .on k := by
    intro r hr
    have ht := ht
    rw [Separation.target] at ht
    split at ht
    · rename_i hst
      exact hap.2 p.1 k (by rw [Program.untag, List.getElem?_map, hn]; rfl) hst ht r.1
        (List.mem_map_of_mem (hp.mem_iff.2 (List.mem_cons_of_mem _ hr)))
    · rename_i j hst
      obtain rfl := Option.some.inj ht
      have hpairs := (hp.pairwise_iff fun {x y} hxy l hy hx => hxy l hx hy).1 h.apart
      exact (List.pairwise_cons.1 hpairs).1 r hr j hst
    · exact absurd ht (by simp)
  have hself : S.stage p.1 ≠ .spent := fun hst => by
    rw [Separation.target, hst] at ht
    exact absurd ht (by simp)
  have hnext : ∀ t' done', (∀ j, j ≠ k → S.part j t = S.part j t') →
      (∀ q, o' = some q → S.stage q = .on k →
        Pending S P stamp t' (as ++ [.move n c]) s'.shared k (q, p.2)) →
      ((∀ q, o' = some q → S.stage q ≠ .on k) → S.part k s'.shared = S.part k t') →
      (done' ++ unserved S (o'.map (·, p.2)).toList).Perm (done ++ [p.2]) →
      Explained S P stamp t' done' (as ++ [.move n c]) s' := by
    intro t' done' hserial hpending hidle hserved
    have hstage : ∀ q, o' = some q → S.stage q = .spent ∨ S.stage q = .on k := by
      rintro q rfl
      refine (hS.move_stage hm hok hap.1).imp_right fun ⟨j, hon, hj⟩ => ?_
      rw [hon, Option.some.inj (hj.symm.trans ht)]
    refine h.next hS (some k) (some p) hp hp' (fun j hj => Option.some.inj hj ▸ hfree)
      (fun q j hq hst => ?_)
      (fun j hj => hS.move_frame hm hok hap.1 (ht ▸ hj))
        (fun j hj => hserial j fun hjk => hj (by rw [hjk]))
      (fun q hq hst => ?_) (fun q j hq hst => ?_) (fun j hj hne => ?_) ?_
    · obtain rfl := Option.some.inj hq
      rw [Separation.target, hst] at ht
      exact ht.symm
    · obtain ⟨q', hq', rfl⟩ := Option.map_eq_some_iff.1 hq
      rcases hstage q' hq' with hst' | hst' <;> exact absurd (hst'.symm.trans hst) (by simp)
    · obtain ⟨q', hq', rfl⟩ := Option.map_eq_some_iff.1 hq
      rcases hstage q' hq' with hst' | hst'
      · exact absurd (hst'.symm.trans hst) (by simp)
      · obtain rfl := Stage.on.inj (hst'.symm.trans hst)
        exact ⟨rfl, hpending q' hq' hst⟩
    · obtain rfl := Option.some.inj hj
      exact hidle fun q hq => hne (q, p.2) (Option.map_eq_some_iff.2 ⟨q, hq, rfl⟩)
    · change List.Perm _ (done ++ unserved S [p] ++ [])
      rwa [unserved_singleton hself, List.append_nil]
  obtain ⟨t₀, p₀, cs, u, ha, hon, halone, hu, hsub⟩ :=
    (h.pending_of_target hap hn ht).move hS hok hap.1 ht hm (n := n)
  have hframe : ∀ j, j ≠ k → S.part j t = S.part j u := by
    intro j hj
    rw [halone.frame hS hj, hS.arrive_frame ha fun harrives => hj (hon j harrives)]
  have hnil : ∀ {e}, origin e = some p.2 → ∀ {ps : List (π × ι)},
    (∀ q ∈ ps, S.stage q.1 = .spent) →
      (done ++ [e].filterMap origin ++ unserved S ps).Perm (done ++ [p.2]) := by
    intro e he ps hps
    rw [unserved_spent hps, List.append_nil, List.filterMap_cons_some he]
    exact List.Perm.refl _
  cases o' with
  | none =>
    -- The process has ended, and is served by all the choices it has made.
    obtain ⟨e, t', hs, horigin, hserves⟩ := hM t p.2 t₀ p₀ cs u ha halone.alone halone.allowed
      (hstamps.sublist hsub)
    exact ⟨[e], t', .cons trivial hs .nil, hnext t' _ (fun j hj => (hframe j hj).trans (hserves j))
      (fun q hq => absurd hq (by simp)) (fun _ => hu.trans (hserves k))
      (hnil horigin fun q hq => absurd hq List.not_mem_nil)⟩
  | some q =>
    rcases hS.move_stage hm hok hap.1 with hspent | ⟨j, hst, hj⟩
    · -- The process is to end without doing anything more: it may do so right away.
      obtain ⟨d, hd, hstamp, hends⟩ := hS.spent_ends (hok' (q, p.2) rfl) hspent
      obtain ⟨u', hm'⟩ := hends u
      have hsame : ∀ j, S.part j u' = S.part j u := fun j =>
        hS.move_frame hm' (hok' (q, p.2) rfl) hd (by rw [Separation.target, hspent]; simp)
      have hallowed : ∀ b ∈ cs ++ [d], S.Allowed b := fun b hb =>
        (List.mem_append.1 hb).elim (halone.allowed b) fun hb => List.mem_singleton.1 hb ▸ hd
      have hlast : (cs ++ [d]).filterMap stamp = cs.filterMap stamp := by
        rw [List.filterMap_append, List.filterMap_cons_none hstamp, List.filterMap_nil,
          List.append_nil]
      obtain ⟨e, t', hs, horigin, hserves⟩ := hM t p.2 t₀ p₀ (cs ++ [d]) u' ha
        (Program.alone_concat halone.alone hm') hallowed (hlast ▸ hstamps.sublist hsub)
      refine ⟨[e], t', .cons trivial hs .nil, hnext t' _
        (fun j hj => (hframe j hj).trans ((hsame j).symm.trans (hserves j))) (fun r hr hst => ?_)
        (fun _ => hu.trans ((hsame k).symm.trans (hserves k))) (hnil horigin fun r hr => ?_)⟩
      · obtain rfl := Option.some.inj hr
        exact absurd (hspent.symm.trans hst) (by simp)
      · obtain rfl := List.mem_singleton.1 hr
        exact hspent
    · -- It goes on for its key, and is still to be served.
      obtain rfl := Option.some.inj (ht.symm.trans hj)
      refine ⟨[], t, .nil, hnext t _ (fun _ _ => rfl) (fun r hr _ => ?_)
        (fun hne => absurd hst (hne q rfl)) ?_⟩
      · obtain rfl := Option.some.inj hr
        exact ⟨t₀, p₀, cs, u, ha, hon, halone, hu, hsub⟩
      · change List.Perm (done ++ [] ++ unserved S [(q, p.2)]) _
        rw [unserved_singleton (by rw [hst]; simp), List.append_nil]

end

/-- What processes that do not overlap on a key do is what a system does that serves what
    arrives one at a time: a run of it that serves all that has arrived, each once, leaves
    the same parts. -/
theorem Separated.serializable {I : Pool σ π → Prop} {as : List (Act ι κ)} {r : τ → τ → Prop}
    {M : System σ ε} {origin : ε → Option ι} (hS : S.Separated P stamp)
    (hM : Serves S P stamp r M origin) (h : P.system.RunWith S.Apart ⟨s, []⟩ as ⟨s', []⟩)
    (hstamps : (as.filterMap (stampOf stamp)).Pairwise r) (hI : I ⟨s, []⟩)
    (hkeep : ∀ s a s', I s → P.system.step s a = some s' → I s')
    (hok : ∀ s, I s → ∀ p ∈ s.procs, S.Ok p) :
    ∃ es t, M.Run s es t ∧ (∀ k, S.part k s' = S.part k t) ∧
      (es.filterMap origin).Perm (as.filterMap Act.arrival) := by
  -- By induction on the run of the tagged processes, each state of which is explained.
  suffices hall : ∀ s₁, P.tagged.system.RunWith (fun s a => S.Apart (Program.untag s) a)
    ⟨s, []⟩ as s₁ →
      I (Program.untag s₁) ∧ ∃ es t, M.Run s es t ∧
        Explained S P stamp t (es.filterMap origin) as s₁ by
    obtain ⟨s₁, hrun, heq⟩ := Program.tagged_of_runWith h
    have hnil : s₁.procs = [] := List.map_eq_nil_iff.1 (congrArg Pool.procs heq)
    obtain ⟨-, es, t, hrun, hexplained⟩ := hall s₁ hrun
    refine ⟨es, t, hrun, fun k => ?_, ?_⟩
    · obtain rfl : s₁.shared = s' := congrArg Pool.shared heq
      exact hexplained.idle k fun p hp => absurd hp (by simp [hnil])
    · simpa [hnil, unserved] using hexplained.served
  clear h
  intro s₁ h
  induction h with
  | nil =>
    refine ⟨hI, [], s, .nil, ⟨.nil, ?_, ?_, fun _ _ => rfl, List.Perm.refl _⟩⟩ <;>
      exact fun p hp => absurd hp List.not_mem_nil
  | @snoc as s₁ s₂ a _ hap hs ih =>
    have hsub : (as.filterMap (stampOf stamp)).Pairwise r := by
      rw [List.filterMap_append] at hstamps
      exact hstamps.sublist (List.sublist_append_left _ _)
    obtain ⟨hI₁, es, t, hrun, hexplained⟩ := ih hsub
    have hI₂ := hkeep _ _ _ hI₁ (Program.step_of_tagged hs)
    refine ⟨hI₂, ?_⟩
    have hok₁ : ∀ p ∈ s₁.procs, S.Ok p.1 := fun p hp => hok _ hI₁ p.1 (List.mem_map_of_mem hp)
    have hok₂ : ∀ p ∈ s₂.procs, S.Ok p.1 := fun p hp => hok _ hI₂ p.1 (List.mem_map_of_mem hp)
    cases Program.moved_of_step hs with
    | arrive ha hprocs => exact ⟨es, t, hrun, hexplained.arrive hS hap ha hprocs⟩
    | @move n c p o rest hn hm hp hp' =>
      have hp₁ : S.Ok p.1 := hok₁ p (List.mem_of_getElem? hn)
      cases ht : S.target p.1 c with
      | none => exact ⟨es, t, hrun, hexplained.move_none hS hp₁ hap.1 ht hm hp hp'⟩
      | some k =>
        obtain ⟨fs, t', hrun', hexplained'⟩ := hexplained.move_some hS hM hp₁
          (fun q hq => hok₂ q ((mem_of_perm_toList hp').2 (.inl hq))) hap hn ht hm hp hp' hstamps
        exact ⟨es ++ fs, t', hrun.append hrun', by rwa [List.filterMap_append]⟩

end Separation

end Transition
