import Mathlib.Data.List.Sort
import Mathlib.Data.Set.Basic
import Mathlib.Order.Interval.Set.Basic
import Mathlib.Tactic.Common

/-!
# Sources

A *source* is a stateful iterator: `next s` is the next element in the state `s`
and the state afterwards, or `none` at its end. Here the elements of sources are
integers (instants, for example).

* `collect`: a loop drawing from a source until it has collected `count` elements
  from `t` on. Earlier elements are skipped, or, under `stop`, end the loop.
* `FirstFrom S t n l`: `l` lists the first `n` elements of the set `S` from `t`
  on, in order, or all of them if there are fewer. It only depends on the elements
  from `t` on (`FirstFrom.congr`).
* `collect_spec`: from an increasing source, the loop ends, with the first
  elements from `t` on. What decreases is the number of elements to collect, and
  the distance of the source from `t`.
-/

namespace Iteration

variable {σ : Type*} (next : σ → Option (Int × σ))

/-- The `n`-th element of a source. -/
def nth : ℕ → σ → Option Int
  | 0, s => (next s).map Prod.fst
  | n + 1, s => (next s).bind fun r => nth n r.2

/-- The elements of a source. -/
def elements (s : σ) : Set Int := {x | ∃ n, nth next n s = some x}

/-- The elements of a source increase strictly. -/
def Increasing (s : σ) : Prop :=
  ∀ m n x y, m < n → nth next m s = some x → nth next n s = some y → x < y

/-- The loop: at most `fuel` draws, until `count` elements from `t` on have been
    collected; an earlier element ends the loop under `stop`. -/
def collect (t : Int) (stop : Bool) : ℕ → ℕ → σ → Option (List Int)
  | _, 0, _ => some []
  | 0, _ + 1, _ => none
  | fuel + 1, count + 1, s =>
    match next s with
    | none => some []
    | some (x, s') =>
      if t ≤ x then (collect t stop fuel count s').map (x :: ·)
      else if stop then some []
      else collect t stop fuel (count + 1) s'

/-- `l` lists the first `n` elements of `S` from `t` on, or all of them if there
    are fewer. -/
structure FirstFrom (S : Set Int) (t : Int) (n : ℕ) (l : List Int) : Prop where
  sorted : l.Pairwise (· < ·)
  mem : ∀ x ∈ l, x ∈ S ∧ t ≤ x
  length_le : l.length ≤ n
  complete : ∀ x ∈ S, t ≤ x → x ∈ l ∨ l.length = n ∧ ∀ y ∈ l, y < x

variable {next} {s s' : σ} {x y t : Int} {n : ℕ} {l l' : List Int} {S S' : Set Int}

/-! ## Elements -/

theorem elements_eq_empty (h : next s = none) : elements next s = ∅ := by
  ext x
  simp only [elements, Set.mem_ofPred_eq, Set.mem_empty_iff_false, iff_false, not_exists]
  intro n
  cases n <;> simp [nth, h]

theorem elements_eq_insert (h : next s = some (x, s')) :
    elements next s = insert x (elements next s') := by
  ext y
  simp only [elements, Set.mem_insert_iff, Set.mem_ofPred_eq]
  constructor
  · rintro ⟨n, hn⟩
    cases n with
    | zero => exact .inl (by simpa [nth, h, eq_comm] using hn)
    | succ n => exact .inr ⟨n, by simpa [nth, h] using hn⟩
  · rintro (rfl | ⟨n, hn⟩)
    · exact ⟨0, by simp [nth, h]⟩
    · exact ⟨n + 1, by simpa [nth, h] using hn⟩

theorem Increasing.tail (hs : Increasing next s) (h : next s = some (x, s')) :
    Increasing next s' := fun m n y z hmn hy hz =>
  hs (m + 1) (n + 1) y z (Nat.succ_lt_succ hmn) (by simpa [nth, h] using hy)
    (by simpa [nth, h] using hz)

/-- The elements after the first one are greater. -/
theorem Increasing.lt_of_mem (hs : Increasing next s) (h : next s = some (x, s'))
    (hy : y ∈ elements next s') : x < y := by
  obtain ⟨n, hn⟩ := hy
  exact hs 0 (n + 1) x y n.succ_pos (by simp [nth, h]) (by simpa [nth, h] using hn)

theorem Increasing.exists_le (hs : Increasing next s) : ∃ b, ∀ x ∈ elements next s, b ≤ x := by
  rcases h : next s with _ | ⟨b, s'⟩
  · rw [elements_eq_empty h]
    exact ⟨0, fun x hx => absurd hx (Set.notMem_empty x)⟩
  · rw [elements_eq_insert h]
    refine ⟨b, fun x hx => ?_⟩
    rcases hx with rfl | hx
    · exact le_rfl
    · exact (hs.lt_of_mem h hx).le

/-- If every element is at least the bound its state comes with, and the state
    afterwards comes with a greater one, all elements are. -/
theorem le_of_bound {R : σ → Int → Prop}
    (hR : ∀ s b x s', R s b → next s = some (x, s') → b ≤ x ∧ R s' (x + 1)) {b : Int} (hb : R s b)
    (hx : x ∈ elements next s) : b ≤ x := by
  obtain ⟨n, hn⟩ := hx
  induction n generalizing s b with
  | zero =>
    obtain ⟨⟨y, s'⟩, hr, rfl⟩ := Option.map_eq_some_iff.1 hn
    exact (hR s b y s' hb hr).1
  | succ n ih =>
    obtain ⟨⟨y, s'⟩, hr, hn⟩ := Option.bind_eq_some_iff.1 hn
    obtain ⟨hby, hR'⟩ := hR s b y s' hb hr
    have := ih hR' hn
    omega

/-- Sources with such bounds are increasing. -/
theorem increasing_of_bound {R : σ → Int → Prop}
    (hR : ∀ s b x s', R s b → next s = some (x, s') → b ≤ x ∧ R s' (x + 1)) {b : Int} (hb : R s b) :
    Increasing next s := by
  intro m n x y hmn hx hy
  induction m generalizing s b n with
  | zero =>
    obtain ⟨⟨z, s'⟩, hr, rfl⟩ := Option.map_eq_some_iff.1 hx
    obtain ⟨n, rfl⟩ := Nat.exists_eq_succ_of_ne_zero hmn.ne'
    have hmem : y ∈ elements next s' := ⟨n, by simpa [nth, hr] using hy⟩
    have := le_of_bound hR (hR s b z s' hb hr).2 hmem
    omega
  | succ m ih =>
    obtain ⟨⟨z, s'⟩, hr, hx⟩ := Option.bind_eq_some_iff.1 hx
    obtain ⟨n, rfl⟩ := Nat.exists_eq_succ_of_ne_zero (Nat.zero_lt_of_lt hmn).ne'
    exact ih (hR s b z s' hb hr).2 n (Nat.lt_of_succ_lt_succ hmn) hx (by simpa [nth, hr] using hy)

/-! ## First elements -/

theorem FirstFrom.congr (h : ∀ x, t ≤ x → (x ∈ S ↔ x ∈ S')) (hl : FirstFrom S t n l) :
    FirstFrom S' t n l where
  sorted := hl.sorted
  mem x hx := ⟨(h x (hl.mem x hx).2).1 (hl.mem x hx).1, (hl.mem x hx).2⟩
  length_le := hl.length_le
  complete x hx htx := hl.complete x ((h x htx).2 hx) htx

/-- The elements collected before the end of the list and the rest of the set:
    the first elements are listed one by one. -/
theorem FirstFrom.cons (htx : t ≤ x) (hlt : ∀ y ∈ S, x < y) (hl : FirstFrom S t n l) :
    FirstFrom (insert x S) t (n + 1) (x :: l) where
  sorted := List.pairwise_cons.2 ⟨fun y hy => hlt y (hl.mem y hy).1, hl.sorted⟩
  mem y hy := by
    rcases List.mem_cons.1 hy with rfl | hy
    · exact ⟨Set.mem_insert _ _, htx⟩
    · exact ⟨Set.mem_insert_of_mem _ (hl.mem y hy).1, (hl.mem y hy).2⟩
  length_le := Nat.succ_le_succ hl.length_le
  complete y hy hty := by
    rcases hy with rfl | hy
    · exact .inl List.mem_cons_self
    · rcases hl.complete y hy hty with hmem | ⟨hlen, hall⟩
      · exact .inl (List.mem_cons_of_mem _ hmem)
      · refine .inr ⟨by rw [List.length_cons, hlen], fun z hz => ?_⟩
        rcases List.mem_cons.1 hz with rfl | hz
        · exact hlt y hy
        · exact hall z hz

theorem FirstFrom.zero : FirstFrom S t 0 [] where
  sorted := .nil
  mem _ hx := absurd hx List.not_mem_nil
  length_le := le_rfl
  complete _ _ _ := .inr ⟨rfl, fun _ hy => absurd hy List.not_mem_nil⟩

theorem FirstFrom.nil (h : ∀ x ∈ S, x < t) : FirstFrom S t n [] where
  sorted := .nil
  mem _ hx := absurd hx List.not_mem_nil
  length_le := n.zero_le
  complete x hx htx := absurd (h x hx) (not_lt.2 htx)

theorem FirstFrom.subset (hl : FirstFrom S t n l) (hl' : FirstFrom S t n l') : l ⊆ l' := by
  intro x hx
  rcases hl'.complete x (hl.mem x hx).1 (hl.mem x hx).2 with hmem | ⟨hlength, hlt⟩
  · exact hmem
  -- Otherwise, `l` has all of `l'`, and `x` as well: too many.
  have hsub : x :: l' ⊆ l := by
    intro y hy
    rcases List.mem_cons.1 hy with rfl | hy
    · exact hx
    rcases hl.complete y (hl'.mem y hy).1 (hl'.mem y hy).2 with hmem | ⟨-, hlt'⟩
    · exact hmem
    · exact absurd (hlt' x hx) (hlt y hy).asymm
  have hnodup : (x :: l').Nodup := List.nodup_cons.2 ⟨fun hmem => lt_irrefl x (hlt x hmem),
    hl'.sorted.nodup⟩
  have hle := (List.subperm_of_subset hnodup hsub).length_le
  have hlength_le := hl.length_le
  rw [List.length_cons] at hle
  omega

/-- There is one list of the first elements. -/
theorem FirstFrom.unique (hl : FirstFrom S t n l) (hl' : FirstFrom S t n l') : l = l' :=
  List.Subset.antisymm_of_pairwise hl.sorted hl'.sorted (hl.subset hl') (hl'.subset hl)

/-! ## The loop -/

/-- What is collected are elements of the source. -/
theorem mem_of_collect {stop : Bool} {fuel : ℕ} (h : collect next t stop fuel n s = some l)
    (hx : x ∈ l) :
    x ∈ elements next s := by
  have hnil : ∀ {l}, some [] = some l → x ∉ l := fun h => Option.some.inj h ▸ List.not_mem_nil
  induction fuel generalizing n s l with
  | zero =>
    cases n with
    | zero => exact absurd hx (hnil h)
    | succ n => exact absurd h (by simp [collect])
  | succ fuel ih =>
    cases n with
    | zero => exact absurd hx (hnil h)
    | succ n =>
      rw [collect] at h
      split at h
      · exact absurd hx (hnil h)
      rename_i y s' hnext
      rw [elements_eq_insert hnext]
      split at h
      · obtain ⟨rest, hrest, rfl⟩ := Option.map_eq_some_iff.1 h
        rcases List.mem_cons.1 hx with rfl | hx
        · exact Set.mem_insert _ _
        · exact Set.mem_insert_of_mem _ (ih hrest hx)
      split at h
      · exact absurd hx (hnil h)
      · exact Set.mem_insert_of_mem _ (ih h hx)

/-- At the end of the source, the loop ends. -/
theorem collect_of_end {stop : Bool} (h : next s = none) (fuel : ℕ) :
    collect next t stop (fuel + 1) n s = some [] := by
  cases n <;> simp [collect, h]

/-- From an increasing source whose elements are at least `b`, enough fuel for the
    elements to collect and those before `t`, the loop ends, with the first `n`
    elements from `t` on. It may stop at an earlier element only if no later
    element follows. -/
theorem collect_spec {stop : Bool} (hs : Increasing next s) {b : Int}
    (hb : ∀ x ∈ elements next s, b ≤ x)
    (hstop : stop = true → ∀ x ∈ elements next s, x < t → ∀ y ∈ elements next s, y < t)
    {fuel : ℕ} (hfuel : n + (t - b).toNat < fuel) :
    ∃ l, collect next t stop fuel n s = some l ∧ FirstFrom (elements next s) t n l := by
  induction fuel generalizing n s b with
  | zero => exact absurd hfuel (Nat.not_lt_zero _)
  | succ fuel ih =>
    cases n with
    | zero => exact ⟨[], rfl, .zero⟩
    | succ n =>
      cases hnext : next s with
      | none =>
        refine ⟨[], by simp [collect, hnext], .nil fun x hx => ?_⟩
        rw [elements_eq_empty hnext] at hx
        exact absurd hx (Set.notMem_empty x)
      | some r =>
        obtain ⟨x, s'⟩ := r
        have hel := elements_eq_insert hnext
        have hlt : ∀ y ∈ elements next s', x < y := fun y hy => hs.lt_of_mem hnext hy
        have hbx : b ≤ x := hb x (hel ▸ Set.mem_insert _ _)
        have hstop' : stop = true → ∀ y ∈ elements next s', y < t →
            ∀ z ∈ elements next s', z < t := fun h y hy hyt z hz =>
          hstop h y (hel ▸ Set.mem_insert_of_mem _ hy) hyt z (hel ▸ Set.mem_insert_of_mem _ hz)
        by_cases htx : t ≤ x
        · -- The element is collected: one less to collect.
          obtain ⟨l, hl, hfirst⟩ := ih (n := n) (hs.tail hnext) (b := b)
            (fun y hy => hb y (hel ▸ Set.mem_insert_of_mem _ hy)) hstop' (by omega)
          refine ⟨x :: l, by simp [collect, hnext, htx, hl], ?_⟩
          rw [hel]
          exact hfirst.cons htx hlt
        · cases stop with
          | true =>
            refine ⟨[], by simp [collect, hnext, htx], .nil ?_⟩
            exact hstop rfl x (hel ▸ Set.mem_insert _ _) (not_le.1 htx)
          | false =>
            -- The element is skipped: the source is nearer to `t`.
            obtain ⟨l, hl, hfirst⟩ := ih (n := n + 1) (hs.tail hnext) (b := x + 1)
              (fun y hy => hlt y hy) hstop' (by omega)
            refine ⟨l, by simp [collect, hnext, htx, hl], hfirst.congr fun y hty => ?_⟩
            rw [hel, Set.mem_insert_iff]
            exact ⟨.inr, fun h => h.resolve_left fun he => htx (he ▸ hty)⟩

end Iteration
