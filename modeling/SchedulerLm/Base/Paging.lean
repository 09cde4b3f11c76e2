import Mathlib.Data.List.Count
import Mathlib.Data.List.Sort

/-!
# Pages of sorted rows

Rows with keys, in a list sorted by the keys, in which rows with equal keys come in any
order (`Arranged`). They are read page by page, each page from a list of its own (`pages`),
and of each row an item is shown.

* The pages are sorted, one after the other (`sorted_pages`).
* They show each row once if no two rows with equal keys that show different items lie on
  both sides of the end of a page (`Undivided`, `perm_pages`). If two do, lists that put one
  item first among equal keys, and last, show it too often (`not_perm_pages`).

In every list, the rows with the key `v` are at the places from `below v` to `upTo v`
(`Arranged.eq_append`).
-/

namespace Paging

variable {ρ β κ : Type*} [LinearOrder κ] (key : ρ → κ) (item : ρ → β) (rows : List ρ)

/-- The list is of the rows, sorted by their keys. -/
structure Arranged (l : List ρ) : Prop where
  perm : l.Perm rows
  sorted : l.Pairwise fun a b => key a ≤ key b

/-- How many rows come before the key. -/
def below (v : κ) : ℕ := rows.countP fun r => key r < v

/-- How many rows come up to the key. -/
def upTo (v : κ) : ℕ := rows.countP fun r => key r ≤ v

/-- Rows with equal keys on both sides of the end of a page show the same item. -/
def Undivided (limit : ℕ) : Prop :=
  ∀ k, ∀ a ∈ rows, ∀ b ∈ rows, key a = key b → below key rows (key a) < k * limit →
    k * limit < upTo key rows (key a) → item a = item b

/-- The first `n` pages of `limit` rows, each from its own list. -/
def pages (limit : ℕ) (lists : ℕ → List ρ) (n : ℕ) : List ρ :=
  (List.range n).flatMap fun k => ((lists k).drop (k * limit)).take limit

variable {key item rows} {l l' : List ρ} {v : κ} {limit m n : ℕ} {lists : ℕ → List ρ} {a b : ρ}

theorem pages_succ (limit : ℕ) (lists : ℕ → List ρ) (n : ℕ) :
    pages limit lists (n + 1) = pages limit lists n ++ ((lists n).drop (n * limit)).take limit := by
  rw [pages, List.range_succ, List.flatMap_append, List.flatMap_singleton, pages]

theorem take_succ_mul (l : List ρ) (limit n : ℕ) :
    l.take ((n + 1) * limit) = l.take (n * limit) ++ (l.drop (n * limit)).take limit := by
  rw [Nat.succ_mul, List.take_add]

theorem Arranged.length_eq (h : Arranged key rows l) : l.length = rows.length := h.perm.length_eq

/-! ## Places -/

/-- A list in which no row with `p` comes after one without begins with the rows with `p`. -/
theorem eq_filter_append {p : ρ → Bool} (h : l.Pairwise fun a b => p b = true → p a = true) :
    l = l.filter p ++ l.filter fun r => !p r := by
  induction l with
  | nil => rfl
  | cons a l ih =>
    obtain ⟨ha, hl⟩ := List.pairwise_cons.1 h
    by_cases hp : p a = true
    · rw [List.filter_cons_of_pos hp, List.filter_cons_of_neg (by simp [hp]),
        List.cons_append, ← ih hl]
    · have hnone : l.filter p = [] := List.filter_eq_nil_iff.2 fun b hb hpb => hp (ha b hb hpb)
      rw [List.filter_cons_of_neg hp, hnone, List.nil_append,
        List.filter_cons_of_pos (by simpa using hp),
        List.filter_eq_self.2 fun b hb => by simpa using fun hpb => hp (ha b hb hpb)]

/-- The rows before a key come first, then those with the key. -/
theorem Arranged.eq_append (h : Arranged key rows l) (v : κ) :
    l = l.filter (fun r => key r < v) ++ (l.filter (fun r => key r = v) ++ l.filter fun r =>
      v < key r) := by
  have hbefore : l.Pairwise fun a b => decide (key b < v) = true → decide (key a < v) = true :=
    h.sorted.imp fun hab hb => by simpa using hab.trans_lt (by simpa using hb)
  have hhere : (l.filter fun r => !decide (key r < v)).Pairwise
      fun a b => decide (key b = v) = true → decide (key a = v) = true := by
    refine (h.sorted.filter _).imp_of_mem fun {a b} ha _ hab hb => ?_
    have hva : v ≤ key a := by simpa using (List.mem_filter.1 ha).2
    have hbv : key b = v := by simpa using hb
    simpa using le_antisymm (hbv ▸ hab) hva
  conv_lhs => rw [eq_filter_append hbefore, eq_filter_append hhere, List.filter_filter,
    List.filter_filter]
  congr 2
  · refine List.filter_congr fun r _ => ?_
    rcases lt_trichotomy (key r) v with hr | hr | hr
    · simp [hr, hr.ne]
    · simp [hr]
    · simp [hr.ne', hr.not_gt]
  · refine List.filter_congr fun r _ => ?_
    rcases lt_trichotomy (key r) v with hr | hr | hr
    · simp [hr, hr.not_gt]
    · simp [hr]
    · simp [hr, hr.ne', hr.not_gt]

theorem upTo_eq (rows : List ρ) (v : κ) : upTo key rows v = below key rows v + rows.countP fun r =>
    key r = v := by
  induction rows with
  | nil => rfl
  | cons a rows ih =>
    rw [upTo, below] at ih ⊢
    rw [List.countP_cons, List.countP_cons, List.countP_cons, ih]
    rcases lt_trichotomy (key a) v with hv | hv | hv
    · simp [hv, hv.le, hv.ne, Nat.add_right_comm]
    · simp [hv, Nat.add_assoc]
    · simp [hv.not_ge, hv.not_gt, hv.ne']

theorem Arranged.length_before (h : Arranged key rows l) (v : κ) :
    (l.filter fun r => key r < v).length = below key rows v := by
  rw [← List.countP_eq_length_filter, h.perm.countP_eq, below]

theorem Arranged.length_here (h : Arranged key rows l) (v : κ) :
    below key rows v + (l.filter fun r => key r = v).length = upTo key rows v := by
  rw [upTo_eq, ← List.countP_eq_length_filter, h.perm.countP_eq]

/-- The first rows of a list, up to a place among the rows with the key `v`. -/
theorem Arranged.take_eq (h : Arranged key rows l) (hlow : below key rows v ≤ m)
    (hup : m ≤ upTo key rows v) :
    l.take m = l.filter (fun r => key r < v) ++
      (l.filter fun r => key r = v).take (m - below key rows v) := by
  conv_lhs => rw [h.eq_append v]
  have hbefore := h.length_before v
  have hhere := h.length_here v
  rw [List.take_append, List.take_of_length_le (by omega), hbefore,
    List.take_append_of_le_length (by omega)]

/-- The rows before the key of one of the first rows are among these, and it is another one. -/
theorem Arranged.below_lt (h : Arranged key rows l) (ha : a ∈ l.take m) :
    below key rows (key a) < m := by
  have hdrop : (l.drop m).countP (fun r => key r < key a) = 0 := by
    refine List.countP_eq_zero.2 fun r hr => ?_
    have hle := (List.pairwise_append.1 ((List.take_append_drop m l).symm ▸ h.sorted)).2.2 a ha r hr
    simpa using hle
  have htake : (l.take m).countP (fun r => key r < key a) < (l.take m).length :=
    List.countP_lt_length_iff.2 ⟨a, ha, by simp⟩
  rw [below, ← h.perm.countP_eq, ← List.take_append_drop m l, List.countP_append, hdrop,
    Nat.add_zero]
  exact lt_of_lt_of_le htake (List.length_take_le m l)

/-- The first rows come up to the key of a later one, and it is another one. -/
theorem Arranged.lt_upTo (h : Arranged key rows l) (ha : a ∈ l.drop m) :
    m < upTo key rows (key a) := by
  have htake : (l.take m).countP (fun r => key r ≤ key a) = (l.take m).length := by
    refine List.countP_eq_length.2 fun r hr => ?_
    have hle := (List.pairwise_append.1 ((List.take_append_drop m l).symm ▸ h.sorted)).2.2 r hr a ha
    simpa using hle
  have hdrop : 0 < (l.drop m).countP fun r => key r ≤ key a :=
    List.countP_pos_iff.2 ⟨a, ha, by simp⟩
  have hlength : 0 < (l.drop m).length := List.length_pos_of_mem ha
  rw [List.length_drop] at hlength
  rw [upTo, ← h.perm.countP_eq, ← List.take_append_drop m l, List.countP_append, htake,
    List.length_take]
  omega

/-! ## Pages -/

/-- Every page, and the first rows of every list, come before the later rows of another list. -/
theorem le_of_mem_take_of_mem_drop (h : Arranged key rows l) (h' : Arranged key rows l')
    (ha : a ∈ l.take m) (hb : b ∈ l'.drop m) : key a ≤ key b := by
  by_contra hlt
  have hle : upTo key rows (key b) ≤ below key rows (key a) :=
    List.countP_mono_left fun r _ hr => by
      have hle : key r ≤ key b := by simpa using hr
      simpa using hle.trans_lt (not_le.1 hlt)
  have hbelow := h.below_lt ha
  have hupTo := h'.lt_upTo hb
  omega

theorem exists_of_mem_pages (h : a ∈ pages limit lists n) :
    ∃ k, a ∈ (lists k).take (n * limit) := by
  obtain ⟨k, hk, ha⟩ := List.mem_flatMap.1 h
  refine ⟨k, ?_⟩
  have hle : (k + 1) * limit ≤ n * limit := Nat.mul_le_mul_right limit (List.mem_range.1 hk)
  refine List.take_subset_take_left _ hle ?_
  rw [take_succ_mul]
  exact List.mem_append_right _ ha

/-- The pages are sorted. -/
theorem sorted_pages (h : ∀ k, Arranged key rows (lists k)) (n : ℕ) :
    (pages limit lists n).Pairwise fun a b => key a ≤ key b := by
  induction n with
  | zero => exact .nil
  | succ n ih =>
    rw [pages_succ, List.pairwise_append]
    refine ⟨ih, (h n).sorted.sublist ((List.take_sublist _ _).trans (List.drop_sublist _ _)),
      fun a ha b hb => ?_⟩
    obtain ⟨k, ha⟩ := exists_of_mem_pages ha
    exact le_of_mem_take_of_mem_drop (h k) (h n) ha (List.mem_of_mem_take hb)

/-- The items of the first rows, up to a place among rows with equal keys and items. -/
theorem Arranged.perm_take (h : Arranged key rows l) (hlow : below key rows (key a) ≤ m)
    (hup : m ≤ upTo key rows (key a))
    (hitem : below key rows (key a) < m → ∀ r ∈ rows, key r = key a → item r = item a) :
    ((l.take m).map item).Perm ((rows.filter fun r => key r < key a).map item ++
      List.replicate (m - below key rows (key a)) (item a)) := by
  rw [h.take_eq hlow hup, List.map_append]
  refine (((h.perm.filter _).map item).append_right _).trans (.of_eq ?_)
  rw [List.append_cancel_left_eq]
  refine List.eq_replicate_iff.2 ⟨?_, ?_⟩
  · have hhere := h.length_here (key a)
    rw [List.length_map, List.length_take]
    omega
  · intro x hx
    obtain ⟨r, hr, rfl⟩ := List.mem_map.1 hx
    have hlength := List.length_pos_of_mem hr
    rw [List.length_take] at hlength
    obtain ⟨hmem, hkey⟩ := List.mem_filter.1 (List.mem_of_mem_take hr)
    exact hitem (by omega) r (h.perm.mem_iff.1 hmem) (by simpa using hkey)

/-- The items of the first pages do not depend on the list. -/
theorem perm_take_of_undivided (hundivided : Undivided key item rows limit)
    (h : Arranged key rows l) (h' : Arranged key rows l') (k : ℕ) :
    ((l.take (k * limit)).map item).Perm ((l'.take (k * limit)).map item) := by
  by_cases hm : k * limit < l.length
  · -- The row at the end of the page says which rows come before the end.
    obtain ⟨a, ha⟩ : ∃ a, l[k * limit]? = some a := ⟨_, List.getElem?_eq_getElem hm⟩
    have hdrop : a ∈ l.drop (k * limit) := by
      rw [List.drop_eq_getElem_cons hm]
      exact List.mem_cons.2 (.inl (by simpa [List.getElem?_eq_getElem hm] using ha.symm))
    have htake : a ∈ l.take (k * limit + 1) := by
      rw [List.take_add_one, ha]
      simp
    have hlow := Nat.lt_succ_iff.1 (h.below_lt htake)
    have hup := h.lt_upTo hdrop
    have hitem : below key rows (key a) < k * limit → ∀ r ∈ rows, key r = key a → item r = item a :=
      fun hlt r hr hkey => (hundivided k a (h.perm.mem_iff.1 (List.mem_of_mem_drop hdrop))
        r hr hkey.symm
        hlt hup).symm
    exact (h.perm_take hlow hup.le hitem).trans (h'.perm_take hlow hup.le hitem).symm
  · rw [List.take_of_length_le (not_lt.1 hm),
      List.take_of_length_le (by rw [h'.length_eq, ← h.length_eq]; omega)]
    exact (h.perm.trans h'.perm.symm).map item

/-- The pages show each row once. -/
theorem perm_pages (hundivided : Undivided key item rows limit)
    (h : ∀ k, Arranged key rows (lists k)) (hn : rows.length ≤ n * limit) :
    ((pages limit lists n).map item).Perm (rows.map item) := by
  have hfirst : ∀ n l, Arranged key rows l → ((pages limit lists n).map item).Perm
      ((l.take (n * limit)).map item) := by
    intro n
    induction n with
    | zero => simp [pages]
    | succ n ih =>
      intro l hl
      refine .trans ?_ (perm_take_of_undivided hundivided (h n) hl (n + 1))
      rw [pages_succ, take_succ_mul, List.map_append, List.map_append]
      exact (ih _ (h n)).append_right _
  have hlength : (lists 0).length ≤ n * limit := (h 0).length_eq.trans_le hn
  have hall := hfirst n _ (h 0)
  rw [List.take_of_length_le hlength] at hall
  exact hall.trans ((h 0).perm.map item)

/-! ## Divided pages -/

theorem pages_const (l : List ρ) (limit n : ℕ) :
    pages limit (fun _ => l) n = l.take (n * limit) := by
  induction n with
  | zero => simp [pages]
  | succ n ih => rw [pages_succ, ih, take_succ_mul]

/-- The pages before the `k`-th one are from one list, the others from another one. -/
theorem pages_switch (l l' : List ρ) (limit k d : ℕ) :
    pages limit (fun j => if j < k then l else l') (k + d) =
      l.take (k * limit) ++ (l'.drop (k * limit)).take (d * limit) := by
  induction d with
  | zero =>
    rw [Nat.zero_mul, List.take_zero, List.append_nil, Nat.add_zero, ← pages_const, pages, pages,
      List.flatMap_congr fun j hj => by rw [if_pos (List.mem_range.1 hj)]]
  | succ d ih =>
    rw [← Nat.add_assoc, pages_succ, ih, if_neg (by omega), take_succ_mul, List.append_assoc,
      List.drop_drop, Nat.add_mul]

/-- How many of the first rows have `p`, if these come first. -/
theorem countP_take {p : ρ → Bool} (h : l.Pairwise fun a b => p b = true → p a = true) (m : ℕ) :
    (l.take m).countP p = min m (l.countP p) := by
  have hfirst : ((l.filter p).take m).countP p = ((l.filter p).take m).length :=
    List.countP_eq_length.2 fun r hr => (List.mem_filter.1 (List.mem_of_mem_take hr)).2
  have hrest : ((l.filter fun r => !p r).take (m - (l.filter p).length)).countP p = 0 :=
    List.countP_eq_zero.2 fun r hr => by simpa using (List.mem_filter.1 (List.mem_of_mem_take hr)).2
  conv_lhs => rw [eq_filter_append h, List.take_append, List.countP_append, hfirst, hrest]
  rw [List.length_take, Nat.add_zero, List.countP_eq_length_filter]

/-- If rows with equal keys, on both sides of the end of a page, show different items, there is
    one item of which the first rows hold more, if it comes first among equal keys, than if it
    comes last. -/
theorem countP_take_lt [DecidableEq β] (h : Arranged key rows l) (h' : Arranged key rows l')
    (hfirst : l.Pairwise fun r s => key r = key s → item s = item a → item r = item a)
    (hlast : l'.Pairwise fun r s => key r = key s → item r = item a → item s = item a)
    (ha : a ∈ rows) (hb : b ∈ rows) (hkey : key a = key b) (hne : item a ≠ item b)
    (hlow : below key rows (key a) < m) (hup : m < upTo key rows (key a)) :
    (l'.take m).countP (fun r => item r = item a) < (l.take m).countP fun r => item r = item a := by
  have hsame : ∀ {r s : ρ} {l₀ : List ρ}, r ∈ l₀.filter (fun r => key r = key a) →
      s ∈ l₀.filter (fun r => key r = key a) → key r = key s := fun hr hs =>
    (of_decide_eq_true (List.mem_filter.1 hr).2).trans
      (of_decide_eq_true (List.mem_filter.1 hs).2).symm
  -- Among the rows with the key, those with the item of `a` come first, or last.
  have hfirst' : (l.filter fun r => key r = key a).Pairwise
      fun r s => decide (item s = item a) = true → decide (item r = item a) = true :=
    (hfirst.filter _).imp_of_mem fun hr hs hrs => by simpa using hrs (hsame hr hs)
  have hlast' : (l'.filter fun r => key r = key a).Pairwise
      fun r s => decide (item s ≠ item a) = true → decide (item r ≠ item a) = true :=
    (hlast.filter _).imp_of_mem fun hr hs hrs => by
      simpa using fun hs' hr' => hs' (hrs (hsame hr hs) hr')
  have hcount := countP_take hfirst' (m - below key rows (key a))
  have hcount' := countP_take hlast' (m - below key rows (key a))
  have hsplit := List.length_eq_countP_add_countP (fun r => decide (item r = item a))
    (l := (l'.filter fun r => key r = key a).take (m - below key rows (key a)))
  have hsplitAll := List.length_eq_countP_add_countP (fun r => decide (item r = item a))
    (l := l'.filter fun r => key r = key a)
  have hpos : 0 < (l.filter fun r => key r = key a).countP fun r => item r = item a :=
    List.countP_pos_iff.2 ⟨a, List.mem_filter.2 ⟨h.perm.mem_iff.2 ha, by simp⟩, by simp⟩
  have hpos' : 0 < (l'.filter fun r => key r = key a).countP fun r => item r ≠ item a :=
    List.countP_pos_iff.2 ⟨b, List.mem_filter.2
      ⟨h'.perm.mem_iff.2 hb, by simp [hkey]⟩, by simpa using hne.symm⟩
  have hhere : (l.filter fun r => key r = key a).countP (fun r => item r = item a) =
      (l'.filter fun r => key r = key a).countP fun r => item r = item a :=
    ((h.perm.trans h'.perm.symm).filter _).countP_eq _
  have hbefore : (l.filter fun r => key r < key a).countP (fun r => item r = item a) =
      (l'.filter fun r => key r < key a).countP fun r => item r = item a :=
    ((h.perm.trans h'.perm.symm).filter _).countP_eq _
  have hlength := h'.length_here (key a)
  rw [h.take_eq hlow.le hup.le, h'.take_eq hlow.le hup.le, List.countP_append,
    List.countP_append, hbefore]
  rw [List.length_take] at hsplit
  simp only [decide_not, ne_eq, Bool.decide_eq_true] at *
  omega

/-- Then the pages show this item too often, from a list in which it comes first and after that
    from one in which it comes last. -/
theorem not_perm_pages [DecidableEq β] {k : ℕ} (h : Arranged key rows l) (h' : Arranged key rows l')
    (hfirst : l.Pairwise fun r s => key r = key s → item s = item a → item r = item a)
    (hlast : l'.Pairwise fun r s => key r = key s → item r = item a → item s = item a)
    (ha : a ∈ rows) (hb : b ∈ rows) (hkey : key a = key b) (hne : item a ≠ item b)
    (hlow : below key rows (key a) < k * limit) (hup : k * limit < upTo key rows (key a))
    (hn : rows.length ≤ n * limit) :
    ¬((pages limit (fun j => if j < k then l else l') n).map item).Perm (rows.map item) := by
  intro hperm
  have hle : upTo key rows (key a) ≤ rows.length := List.countP_le_length
  obtain ⟨d, rfl⟩ : ∃ d, n = k + d :=
    Nat.exists_eq_add_of_le (Nat.le_of_mul_le_mul_right (by omega : k * limit ≤ n * limit)
      (Nat.pos_of_mul_pos_left (by omega : 0 < k * limit)))
  have hrest : (l'.drop (k * limit)).length ≤ d * limit := by
    rw [List.length_drop, h'.length_eq]
    rw [Nat.add_mul] at hn
    omega
  rw [pages_switch, List.take_of_length_le hrest] at hperm
  have hcount := hperm.countP_eq fun x => decide (x = item a)
  have hrows := h'.perm.countP_eq fun r => decide (item r = item a)
  rw [← List.take_append_drop (k * limit) l', List.countP_append] at hrows
  rw [List.countP_map, List.countP_map, List.countP_append] at hcount
  have hlt := countP_take_lt h h' hfirst hlast ha hb hkey hne hlow hup
  simp only [Function.comp_def] at hcount
  omega

end Paging
