import Mathlib.Data.List.Basic
import Mathlib.Tactic.Common

/-!
# Regular expressions, by backtracking

Patterns over any characters, matched as a backtracking matcher does: the matches at
a place of a text are tried in an order (`attempts`), repetitions being greedy, and a
search takes the first one at the leftmost place that has one (`search`). Groups
capture what their pattern has read.

What is matched, in whatever order, is a relation (`Reads`): a pattern reads a part
of a text between what is before it and what is after it. The matcher tries what the
relation says, and nothing else (`mem_attempts`), so that what a search finds is read
(`search_eq_some`), something is found where something is read (`exists_search`), and
what a group captures is read by the pattern of the group (`group_of_search`). Patterns
that agree on the characters of a text find the same in it (`search_congr`).
-/

namespace Regex

/-- Patterns: a word boundary, `lo` to `hi` characters of a class, greedily, one
    pattern after another, or else another, or not at all, and a group. -/
inductive Pattern (α : Type*)
  | boundary
  | chars (p : α → Bool) (lo : ℕ) (hi : Option ℕ)
  | seq (a b : Pattern α)
  | alt (a b : Pattern α)
  | opt (a : Pattern α)
  | group (n : ℕ) (a : Pattern α)

/-- A match: what is read, what is after it, and what the groups have captured. -/
structure Match (α : Type*) where
  read : List α
  rest : List α
  groups : List (ℕ × List α)
  deriving DecidableEq

variable {α : Type*}

/-- What the group `n` has captured last. -/
def Match.group (m : Match α) (n : ℕ) : Option (List α) := m.groups.reverse.lookup n

/-- A word begins or ends between what is before, last first, and what is after. -/
def isBoundary (isWord : α → Bool) (before after : List α) : Bool :=
  before.head?.any isWord != after.head?.any isWord

/-- The ways to read `lo` to `hi` characters of a class, the longest first. -/
def spans (p : α → Bool) : ℕ → Option ℕ → List α → List (List α × List α)
  | lo, _, [] => if lo = 0 then [([], [])] else []
  | lo, hi, x :: xs =>
    (if p x ∧ hi ≠ some 0 then
      (spans p (lo - 1) (hi.map (· - 1)) xs).map fun (u, v) => (x :: u, v) else []) ++
    if lo = 0 then [([], x :: xs)] else []

/-- The matches at a place of a text, in the order they are tried. -/
def attempts (isWord : α → Bool) : Pattern α → List α → List α → List (Match α)
  | .boundary, before, after => if isBoundary isWord before after then [⟨[], after, []⟩] else []
  | .chars p lo hi, _, after => (spans p lo hi after).map fun (u, v) => ⟨u, v, []⟩
  | .seq a b, before, after => (attempts isWord a before after).flatMap fun m =>
      (attempts isWord b (m.read.reverse ++ before) m.rest).map fun m' =>
        ⟨m.read ++ m'.read, m'.rest, m.groups ++ m'.groups⟩
  | .alt a b, before, after => attempts isWord a before after ++ attempts isWord b before after
  | .opt a, before, after => attempts isWord a before after ++ [⟨[], after, []⟩]
  | .group n a, before, after => (attempts isWord a before after).map fun m =>
      { m with groups := m.groups ++ [(n, m.read)] }

/-- The first match at the leftmost place of `after`, with what is before it. -/
def searchFrom (isWord : α → Bool) (p : Pattern α) : List α → List α → Option (List α × Match α)
  | before, [] => (attempts isWord p before []).head?.map fun m => (before, m)
  | before, x :: xs =>
    match (attempts isWord p before (x :: xs)).head? with
    | some m => some (before, m)
    | none => searchFrom isWord p (x :: before) xs

/-- The first match in a text. -/
def search (isWord : α → Bool) (p : Pattern α) (text : List α) : Option (Match α) :=
  (searchFrom isWord p [] text).map Prod.snd

/-! ## What is read -/

/-- The pattern reads `u` between `before`, last first, and `after`. -/
inductive Reads (isWord : α → Bool) :
    Pattern α → List α → List α → List α → List (ℕ × List α) → Prop
  | boundary {before after : List α} : isBoundary isWord before after = true →
      Reads isWord .boundary before [] after []
  | chars {p : α → Bool} {lo : ℕ} {hi : Option ℕ} {before u after : List α} :
      (∀ x ∈ u, p x = true) → lo ≤ u.length → (∀ n, hi = some n → u.length ≤ n) →
      Reads isWord (.chars p lo hi) before u after []
  | seq {a b : Pattern α} {before u v after : List α} {g g' : List (ℕ × List α)} :
      Reads isWord a before u (v ++ after) g → Reads isWord b (u.reverse ++ before) v after g' →
      Reads isWord (.seq a b) before (u ++ v) after (g ++ g')
  | left {a b : Pattern α} {before u after : List α} {g : List (ℕ × List α)} :
      Reads isWord a before u after g → Reads isWord (.alt a b) before u after g
  | right {a b : Pattern α} {before u after : List α} {g : List (ℕ × List α)} :
      Reads isWord b before u after g → Reads isWord (.alt a b) before u after g
  | some {a : Pattern α} {before u after : List α} {g : List (ℕ × List α)} :
      Reads isWord a before u after g → Reads isWord (.opt a) before u after g
  | none {a : Pattern α} {before after : List α} : Reads isWord (.opt a) before [] after []
  | group {n : ℕ} {a : Pattern α} {before u after : List α} {g : List (ℕ × List α)} :
      Reads isWord a before u after g → Reads isWord (.group n a) before u after (g ++ [(n, u)])

variable {isWord p : α → Bool} {lo : ℕ} {hi : Option ℕ} {pat : Pattern α}
  {before after u v : List α} {m : Match α}

theorem reads_boundary {g : List (ℕ × List α)} : Reads isWord .boundary before u after g ↔
    u = [] ∧ g = [] ∧ isBoundary isWord before after = true := by
  constructor
  · intro h
    cases h with
    | boundary h => exact ⟨rfl, rfl, h⟩
  · rintro ⟨rfl, rfl, h⟩
    exact .boundary h

theorem reads_chars {g : List (ℕ × List α)} : Reads isWord (.chars p lo hi) before u after g ↔
    g = [] ∧ (∀ x ∈ u, p x = true) ∧ lo ≤ u.length ∧ ∀ n, hi = some n → u.length ≤ n := by
  constructor
  · intro h
    cases h with
    | chars hall hlo hhi => exact ⟨rfl, hall, hlo, hhi⟩
  · rintro ⟨rfl, hall, hlo, hhi⟩
    exact .chars hall hlo hhi

theorem reads_seq {a b : Pattern α} {g : List (ℕ × List α)} :
    Reads isWord (.seq a b) before u after g ↔
    ∃ v w g₁ g₂, u = v ++ w ∧ g = g₁ ++ g₂ ∧ Reads isWord a before v (w ++ after) g₁ ∧
      Reads isWord b (v.reverse ++ before) w after g₂ := by
  constructor
  · intro h
    cases h with
    | seq ha hb => exact ⟨_, _, _, _, rfl, rfl, ha, hb⟩
  · rintro ⟨v, w, g₁, g₂, rfl, rfl, ha, hb⟩
    exact .seq ha hb

theorem reads_group {n : ℕ} {g : List (ℕ × List α)} : Reads isWord (.group n pat) before u after g ↔
    ∃ g', g = g' ++ [(n, u)] ∧ Reads isWord pat before u after g' := by
  constructor
  · intro h
    cases h with
    | group h => exact ⟨_, rfl, h⟩
  · rintro ⟨g', rfl, h⟩
    exact .group h

/-- A word begins after what is no part of one. -/
theorem isBoundary_start (hu : ∀ x ∈ u, isWord x = true) (hne : u ≠ [])
    (hbefore : before.head?.any isWord = false) : isBoundary isWord before (u ++ after) = true := by
  obtain ⟨x, xs, rfl⟩ := List.exists_cons_of_ne_nil hne
  simp [isBoundary, hbefore, hu x List.mem_cons_self]

theorem any_head?_reverse (hu : ∀ x ∈ u, isWord x = true) (hne : u ≠ []) :
    (u.reverse ++ before).head?.any isWord = true := by
  rw [List.head?_append, List.head?_reverse, List.getLast?_eq_some_getLast hne]
  exact hu _ (List.getLast_mem hne)

/-- It ends before what is no part of one. -/
theorem isBoundary_end (hu : ∀ x ∈ u, isWord x = true) (hne : u ≠ [])
    (hafter : after.head?.any isWord = false) :
    isBoundary isWord (u.reverse ++ before) after = true := by
  rw [isBoundary, any_head?_reverse hu hne, hafter]
  rfl

/-- Where a word is followed by a boundary, what is after it is no part of one. -/
theorem head_of_isBoundary (hu : ∀ x ∈ u, isWord x = true) (hne : u ≠ [])
    (h : isBoundary isWord (u.reverse ++ before) after = true) :
    after.head?.any isWord = false := by
  rw [isBoundary, any_head?_reverse hu hne] at h
  simpa using h

theorem mem_spans : (u, v) ∈ spans p lo hi after ↔
    after = u ++ v ∧ (∀ x ∈ u, p x = true) ∧ lo ≤ u.length ∧ ∀ n, hi = some n →
      u.length ≤ n := by
  induction after generalizing lo hi u with
  | nil =>
    rw [spans]
    constructor
    · intro h
      split at h
      · rename_i hlo
        obtain ⟨rfl, rfl⟩ := Prod.mk.inj (List.mem_singleton.1 h)
        exact ⟨rfl, by simp, by simp [hlo], by simp⟩
      · exact absurd h List.not_mem_nil
    · rintro ⟨happ, -, hlo, -⟩
      obtain ⟨rfl, rfl⟩ := List.append_eq_nil_iff.1 happ.symm
      rw [if_pos (Nat.le_zero.1 hlo)]
      exact List.mem_singleton.2 rfl
  | cons x xs ih =>
    rw [spans, List.mem_append]
    constructor
    · rintro (h | h)
      · split at h
        · rename_i hx
          obtain ⟨⟨u', v'⟩, hmem, heq⟩ := List.mem_map.1 h
          obtain ⟨rfl, rfl⟩ := Prod.mk.inj heq
          obtain ⟨rfl, hall, hlo, hhi⟩ := ih.1 hmem
          refine ⟨rfl, by simpa [hx.1] using hall, by rw [List.length_cons]; omega, fun n hn => ?_⟩
          subst hn
          have hle := hhi (n - 1) rfl
          have hne : n ≠ 0 := fun h0 => hx.2 (congrArg _ h0)
          rw [List.length_cons]
          omega
        · exact absurd h List.not_mem_nil
      · split at h
        · rename_i hlo
          obtain ⟨rfl, rfl⟩ := Prod.mk.inj (List.mem_singleton.1 h)
          exact ⟨rfl, by simp, by simp [hlo], by simp⟩
        · exact absurd h List.not_mem_nil
    · rintro ⟨happ, hall, hlo, hhi⟩
      rcases u with _ | ⟨y, u⟩
      · refine .inr ?_
        rw [if_pos (Nat.le_zero.1 hlo), show v = x :: xs from happ.symm]
        exact List.mem_singleton.2 rfl
      · obtain ⟨rfl, rfl⟩ := List.cons.inj happ
        rw [List.length_cons] at hlo hhi
        have hne : hi ≠ some 0 := fun h0 => absurd (hhi 0 h0) (by omega)
        refine .inl ?_
        rw [if_pos ⟨hall x List.mem_cons_self, hne⟩]
        refine List.mem_map.2 ⟨(u, v), ih.2 ⟨rfl, fun z hz => hall z (List.mem_cons_of_mem x hz),
          by omega, fun n hn => ?_⟩, rfl⟩
        obtain ⟨k, hk, rfl⟩ := Option.map_eq_some_iff.1 hn
        have hle := hhi k hk
        omega

/-! ## What is tried -/

/-- The matcher tries what the pattern reads, wherever that is. -/
def TriesReads (isWord : α → Bool) (pat : Pattern α) : Prop :=
  ∀ {before after : List α} {m : Match α}, m ∈ attempts isWord pat before after ↔
    after = m.read ++ m.rest ∧ Reads isWord pat before m.read m.rest m.groups

theorem triesReads_boundary : TriesReads isWord .boundary := by
  rintro before after ⟨read, rest, groups⟩
  rw [attempts, reads_boundary]
  constructor
  · intro h
    split at h
    · rename_i hb
      obtain ⟨rfl, rfl, rfl⟩ := Match.mk.inj (List.mem_singleton.1 h)
      exact ⟨rfl, rfl, rfl, hb⟩
    · exact absurd h List.not_mem_nil
  · rintro ⟨rfl, rfl, rfl, hb⟩
    rw [List.nil_append, if_pos hb]
    exact List.mem_singleton.2 rfl

theorem triesReads_chars : TriesReads isWord (.chars p lo hi) := by
  rintro before after ⟨read, rest, groups⟩
  rw [attempts, List.mem_map, reads_chars]
  constructor
  · rintro ⟨⟨u, v⟩, hmem, heq⟩
    obtain ⟨rfl, rfl, rfl⟩ := Match.mk.inj heq
    obtain ⟨happ, hread⟩ := mem_spans.1 hmem
    exact ⟨happ, rfl, hread⟩
  · rintro ⟨happ, rfl, hread⟩
    exact ⟨(read, rest), mem_spans.2 ⟨happ, hread⟩, rfl⟩

/-- The second pattern is tried on what the first one has left. -/
theorem TriesReads.seq {a b : Pattern α} (ha : TriesReads isWord a) (hb : TriesReads isWord b) :
    TriesReads isWord (.seq a b) := by
  rintro before after ⟨read, rest, groups⟩
  rw [attempts, List.mem_flatMap, reads_seq]
  constructor
  · rintro ⟨ma, hma, hmem⟩
    obtain ⟨mb, hmb, heq⟩ := List.mem_map.1 hmem
    obtain ⟨rfl, rfl, rfl⟩ := Match.mk.inj heq
    obtain ⟨rfl, hreads⟩ := ha.1 hma
    obtain ⟨hrest, hreads'⟩ := hb.1 hmb
    rw [hrest] at hreads ⊢
    exact ⟨(List.append_assoc ..).symm, _, _, _, _, rfl, rfl, hreads, hreads'⟩
  · rintro ⟨rfl, u, v, g, g', rfl, rfl, hreads, hreads'⟩
    refine ⟨⟨u, v ++ rest, g⟩, ha.2 ⟨List.append_assoc .., hreads⟩, ?_⟩
    exact List.mem_map.2 ⟨⟨v, rest, g'⟩, hb.2 ⟨rfl, hreads'⟩, rfl⟩

theorem TriesReads.alt {a b : Pattern α} (ha : TriesReads isWord a) (hb : TriesReads isWord b) :
    TriesReads isWord (.alt a b) := by
  intro before after m
  rw [attempts, List.mem_append, ha, hb]
  constructor
  · rintro (⟨happ, h⟩ | ⟨happ, h⟩)
    · exact ⟨happ, .left h⟩
    · exact ⟨happ, .right h⟩
  · rintro ⟨happ, h⟩
    cases h with
    | left h => exact .inl ⟨happ, h⟩
    | right h => exact .inr ⟨happ, h⟩

theorem TriesReads.opt {a : Pattern α} (ha : TriesReads isWord a) : TriesReads isWord (.opt a) := by
  rintro before after ⟨read, rest, groups⟩
  rw [attempts, List.mem_append, ha]
  constructor
  · rintro (⟨happ, h⟩ | h)
    · exact ⟨happ, .some h⟩
    · obtain ⟨rfl, rfl, rfl⟩ := Match.mk.inj (List.mem_singleton.1 h)
      exact ⟨rfl, .none⟩
  · rintro ⟨happ, h⟩
    cases h with
    | some h => exact .inl ⟨happ, h⟩
    | none => exact .inr (List.mem_singleton.2 (by rw [show after = rest from happ]))

theorem TriesReads.group {a : Pattern α} (ha : TriesReads isWord a) (n : ℕ) :
    TriesReads isWord (.group n a) := by
  rintro before after ⟨read, rest, groups⟩
  rw [attempts, List.mem_map, reads_group]
  constructor
  · rintro ⟨m, hm, heq⟩
    obtain ⟨rfl, rfl, rfl⟩ := Match.mk.inj heq
    obtain ⟨happ, h⟩ := ha.1 hm
    exact ⟨happ, m.groups, rfl, h⟩
  · rintro ⟨happ, g, hg, h⟩
    dsimp only at hg
    subst hg
    exact ⟨⟨read, rest, g⟩, ha.2 ⟨happ, h⟩, rfl⟩

/-- The matcher tries what the pattern reads. -/
theorem mem_attempts (pat : Pattern α) : TriesReads isWord pat := by
  induction pat with
  | boundary => exact triesReads_boundary
  | chars p lo hi => exact triesReads_chars
  | seq a b iha ihb => exact iha.seq ihb
  | alt a b iha ihb => exact iha.alt ihb
  | opt a iha => exact iha.opt
  | group n a iha => exact iha.group n

/-! ## Searching -/

/-- A search finds what the pattern reads somewhere. -/
theorem searchFrom_eq_some {pre : List α} (h : searchFrom isWord pat before after = some (pre, m)) :
    ∃ skipped, after = skipped ++ (m.read ++ m.rest) ∧ pre = skipped.reverse ++ before ∧
      Reads isWord pat pre m.read m.rest m.groups := by
  have hhere : ∀ {before after : List α}, (attempts isWord pat before after).head? = some m →
      after = m.read ++ m.rest ∧ Reads isWord pat before m.read m.rest m.groups :=
    fun hhead => (mem_attempts pat).1 (List.mem_of_head? hhead)
  induction after generalizing before with
  | nil =>
    obtain ⟨m', hhead, hm⟩ := Option.map_eq_some_iff.1 h
    obtain ⟨rfl, rfl⟩ := Prod.mk.inj hm
    obtain ⟨happ, hreads⟩ := hhere hhead
    exact ⟨[], happ, rfl, hreads⟩
  | cons x xs ih =>
    rw [searchFrom] at h
    split at h
    · rename_i hhead
      obtain ⟨rfl, rfl⟩ := Prod.mk.inj (Option.some.inj h)
      obtain ⟨happ, hreads⟩ := hhere hhead
      exact ⟨[], happ, rfl, hreads⟩
    · obtain ⟨skipped, happ, hpre, hreads⟩ := ih h
      exact ⟨x :: skipped, by rw [happ, List.cons_append], by rw [hpre]; simp, hreads⟩

theorem search_eq_some {text : List α} (h : search isWord pat text = some m) :
    ∃ skipped, text = skipped ++ (m.read ++ m.rest) ∧
      Reads isWord pat skipped.reverse m.read m.rest m.groups := by
  obtain ⟨⟨pre, m'⟩, hfrom, rfl⟩ := Option.map_eq_some_iff.1 h
  obtain ⟨skipped, happ, rfl, hreads⟩ := searchFrom_eq_some hfrom
  rw [List.append_nil] at hreads
  exact ⟨skipped, happ, hreads⟩

/-- A search finds what is read somewhere, or something to the left of it. -/
theorem exists_searchFrom {skipped : List α} {g : List (ℕ × List α)} (before : List α)
    (h : Reads isWord pat (skipped.reverse ++ before) u after g) :
    ∃ m pre, searchFrom isWord pat before (skipped ++ (u ++ after)) =
      some (pre.reverse ++ before, m) ∧
      pre.length ≤ skipped.length ∧ skipped ++ (u ++ after) = pre ++ (m.read ++ m.rest) ∧
      Reads isWord pat (pre.reverse ++ before) m.read m.rest m.groups := by
  induction skipped generalizing before with
  | nil =>
    -- Something is tried here, and so the first thing tried is found.
    have hmem : (⟨u, after, g⟩ : Match α) ∈ attempts isWord pat before (u ++ after) :=
      (mem_attempts pat).2 ⟨rfl, h⟩
    obtain ⟨m, hm⟩ := Option.isSome_iff_exists.1 (List.isSome_head?.2 (List.ne_nil_of_mem hmem))
    obtain ⟨happ, hreads⟩ := (mem_attempts pat).1 (List.mem_of_head? hm)
    refine ⟨m, [], ?_, Nat.le_refl 0, happ, hreads⟩
    rw [List.nil_append]
    rcases hua : u ++ after with _ | ⟨x, xs⟩ <;> rw [hua] at hm <;> rw [searchFrom, hm]
    · rfl
    · rfl
  | cons x xs ih =>
    rw [List.cons_append, searchFrom]
    rcases hm : (attempts isWord pat before (x :: (xs ++ (u ++ after)))).head? with _ | m
    · obtain ⟨m, pre, hfrom, hle, happ, hreads⟩ := ih (x :: before) (by simpa using h)
      refine ⟨m, x :: pre, by simpa using hfrom, Nat.succ_le_succ hle, ?_, by simpa using hreads⟩
      rw [happ, List.cons_append]
    · obtain ⟨happ, hreads⟩ := (mem_attempts pat).1 (List.mem_of_head? hm)
      exact ⟨m, [], rfl, Nat.zero_le _, happ, hreads⟩

theorem exists_search {skipped : List α} {g : List (ℕ × List α)}
    (h : Reads isWord pat skipped.reverse u after g) :
    ∃ m pre, search isWord pat (skipped ++ (u ++ after)) = some m ∧ pre.length ≤ skipped.length ∧
      skipped ++ (u ++ after) = pre ++ (m.read ++ m.rest) ∧
      Reads isWord pat pre.reverse m.read m.rest m.groups := by
  obtain ⟨m, pre, hfrom, hle, happ, hreads⟩ := exists_searchFrom [] (by simpa using h)
  exact ⟨m, pre, by rw [search, hfrom]; rfl, hle, happ, by simpa using hreads⟩

/-! ## Groups -/

/-- The groups of a pattern, with their patterns. -/
def Pattern.subpatterns : Pattern α → List (ℕ × Pattern α)
  | .boundary | .chars _ _ _ => []
  | .seq a b | .alt a b => a.subpatterns ++ b.subpatterns
  | .opt a => a.subpatterns
  | .group n a => a.subpatterns ++ [(n, a)]

/-- The group `n` captures whenever the pattern reads. -/
def Pattern.sets (n : ℕ) : Pattern α → Bool
  | .boundary | .chars _ _ _ | .opt _ => false
  | .seq a b => a.sets n || b.sets n
  | .alt a b => a.sets n && b.sets n
  | .group k a => k = n || a.sets n

variable {g : List (ℕ × List α)} {n : ℕ}

/-- What a group captures is read by its pattern, and is part of what is read. -/
theorem Reads.captured (h : Reads isWord pat before u after g) (hv : (n, v) ∈ g) :
    v <:+: u ∧ ∃ a before' after' g', (n, a) ∈ pat.subpatterns ∧
      Reads isWord a before' v after' g' := by
  induction h with
  | boundary | chars | none => exact absurd hv List.not_mem_nil
  | @seq a b before u w after g g' _ _ iha ihb =>
    rcases List.mem_append.1 hv with hv | hv
    · obtain ⟨hpart, a', before', after', g', hmem, hreads⟩ := iha hv
      exact ⟨hpart.trans (List.infix_append' [] u w), a', before', after', g',
        List.mem_append_left _ hmem, hreads⟩
    · obtain ⟨hpart, a', before', after', g', hmem, hreads⟩ := ihb hv
      exact ⟨hpart.trans (List.suffix_append u w).isInfix, a', before', after', g',
        List.mem_append_right _ hmem, hreads⟩
  | left _ ih =>
    obtain ⟨hpart, a', before', after', g', hmem, hreads⟩ := ih hv
    exact ⟨hpart, a', before', after', g', List.mem_append_left _ hmem, hreads⟩
  | right _ ih =>
    obtain ⟨hpart, a', before', after', g', hmem, hreads⟩ := ih hv
    exact ⟨hpart, a', before', after', g', List.mem_append_right _ hmem, hreads⟩
  | some _ ih => exact ih hv
  | @group k a before u after g h ih =>
    rcases List.mem_append.1 hv with hv | hv
    · obtain ⟨hpart, a', before', after', g', hmem, hreads⟩ := ih hv
      exact ⟨hpart, a', before', after', g', List.mem_append_left _ hmem, hreads⟩
    · obtain ⟨rfl, rfl⟩ := Prod.mk.inj (List.mem_singleton.1 hv)
      exact ⟨List.infix_rfl, a, before, after, g,
        List.mem_append_right _ (List.mem_singleton.2 rfl), h⟩

/-- A pattern without groups captures nothing. -/
theorem Reads.groups_eq_nil (h : Reads isWord pat before u after g) (hpat : pat.subpatterns = []) :
    g = [] := by
  refine List.eq_nil_iff_forall_not_mem.2 ?_
  rintro ⟨n, v⟩ hv
  obtain ⟨-, a, -, -, -, hmem, -⟩ := h.captured hv
  rw [hpat] at hmem
  exact List.not_mem_nil hmem

theorem Reads.exists_captured (h : Reads isWord pat before u after g) (hn : pat.sets n = true) :
    ∃ v, (n, v) ∈ g := by
  induction h with
  | boundary | chars | some | none => exact absurd hn (by simp [Pattern.sets])
  | seq _ _ iha ihb =>
    rw [Pattern.sets, Bool.or_eq_true] at hn
    rcases hn with hn | hn
    · obtain ⟨v, hv⟩ := iha hn
      exact ⟨v, List.mem_append_left _ hv⟩
    · obtain ⟨v, hv⟩ := ihb hn
      exact ⟨v, List.mem_append_right _ hv⟩
  | left _ ih =>
    rw [Pattern.sets, Bool.and_eq_true] at hn
    exact ih hn.1
  | right _ ih =>
    rw [Pattern.sets, Bool.and_eq_true] at hn
    exact ih hn.2
  | @group k a before u after g h ih =>
    rw [Pattern.sets, Bool.or_eq_true, decide_eq_true_eq] at hn
    rcases hn with rfl | hn
    · exact ⟨u, List.mem_append_right _ (List.mem_singleton.2 rfl)⟩
    · obtain ⟨v, hv⟩ := ih hn
      exact ⟨v, List.mem_append_left _ hv⟩

theorem mem_of_group (h : m.group n = some v) : (n, v) ∈ m.groups := by
  obtain ⟨l₁, l₂, heq, -⟩ := List.lookup_eq_some_iff.1 h
  rw [← List.mem_reverse, heq]
  simp

/-- What a group of a match that is found has captured is part of the text. -/
theorem infix_of_search {text : List α} (h : search isWord pat text = some m)
    (hv : m.group n = some v) :
    v <:+: text := by
  obtain ⟨skipped, rfl, hreads⟩ := search_eq_some h
  exact (hreads.captured (mem_of_group hv)).1.trans (List.infix_append' skipped m.read m.rest)

/-- And it is read by the pattern of the group. -/
theorem group_of_search {text : List α} (h : search isWord pat text = some m)
    (hv : m.group n = some v) :
    v.length ≤ text.length ∧
      ∃ a before' after' g', (n, a) ∈ pat.subpatterns ∧ Reads isWord a before' v after' g' := by
  obtain ⟨skipped, -, hreads⟩ := search_eq_some h
  exact ⟨(infix_of_search h hv).length_le, (hreads.captured (mem_of_group hv)).2⟩

/-- A group that captures whenever its pattern reads has captured. -/
theorem exists_group_of_search {text : List α} (h : search isWord pat text = some m)
    (hn : pat.sets n = true) : ∃ v, m.group n = some v := by
  obtain ⟨skipped, -, hreads⟩ := search_eq_some h
  obtain ⟨v, hv⟩ := hreads.exists_captured hn
  rw [← Option.isSome_iff_exists, Match.group, List.lookup_isSome_iff]
  exact ⟨(n, v), List.mem_reverse.2 hv, by simp⟩

/-! ## Characters of a kind -/

/-- The patterns are the same, but for characters not of the kind `s`. -/
inductive Agree (s : α → Prop) : Pattern α → Pattern α → Prop
  | boundary : Agree s .boundary .boundary
  | chars {p q : α → Bool} {lo : ℕ} {hi : Option ℕ} : (∀ x, s x → p x = q x) →
      Agree s (.chars p lo hi) (.chars q lo hi)
  | seq {a a' b b' : Pattern α} : Agree s a a' → Agree s b b' → Agree s (.seq a b) (.seq a' b')
  | alt {a a' b b' : Pattern α} : Agree s a a' → Agree s b b' → Agree s (.alt a b) (.alt a' b')
  | opt {a a' : Pattern α} : Agree s a a' → Agree s (.opt a) (.opt a')
  | group {n : ℕ} {a a' : Pattern α} : Agree s a a' → Agree s (.group n a) (.group n a')

variable {s : α → Prop} {pat' : Pattern α} {isWord' q : α → Bool}

theorem Agree.refl (s : α → Prop) (pat : Pattern α) : Agree s pat pat := by
  induction pat with
  | boundary => exact .boundary
  | chars p lo hi => exact .chars fun _ _ => rfl
  | seq a b iha ihb => exact .seq iha ihb
  | alt a b iha ihb => exact .alt iha ihb
  | opt a iha => exact .opt iha
  | group n a iha => exact .group iha

theorem any_head?_congr {l : List α} (h : ∀ x ∈ l, p x = q x) : l.head?.any p = l.head?.any q := by
  cases l with
  | nil => rfl
  | cons x xs => exact h x List.mem_cons_self

theorem spans_congr (h : ∀ x ∈ after, p x = q x) : spans p lo hi after = spans q lo hi after := by
  induction after generalizing lo hi with
  | nil => rfl
  | cons x xs ih =>
    rw [spans, spans, h x List.mem_cons_self, ih fun y hy => h y (List.mem_cons_of_mem x hy)]

/-- The same is tried, in the same order, where all characters are of the kind. -/
theorem attempts_congr (h : Agree s pat pat') (hword : ∀ x, s x → isWord x = isWord' x)
    (hbefore : ∀ x ∈ before, s x) (hafter : ∀ x ∈ after, s x) :
    attempts isWord pat before after = attempts isWord' pat' before after := by
  induction h generalizing before after with
  | boundary =>
    rw [attempts, attempts, isBoundary, isBoundary, any_head?_congr fun x hx =>
      hword x (hbefore x hx), any_head?_congr fun x hx => hword x (hafter x hx)]
  | chars hpq => rw [attempts, attempts, spans_congr fun x hx => hpq x (hafter x hx)]
  | @seq a a' b b' _ _ iha ihb =>
    rw [attempts, attempts, ← iha hbefore hafter]
    refine List.flatMap_congr fun m hm => ?_
    obtain ⟨rfl, -⟩ := (mem_attempts a).1 hm
    have hread : ∀ x ∈ m.read.reverse ++ before, s x := by
      intro x hx
      rcases List.mem_append.1 hx with hx | hx
      · exact hafter x (List.mem_append_left _ (List.mem_reverse.1 hx))
      · exact hbefore x hx
    rw [ihb hread fun x hx => hafter x (List.mem_append_right _ hx)]
  | alt _ _ iha ihb => rw [attempts, attempts, iha hbefore hafter, ihb hbefore hafter]
  | opt _ iha => rw [attempts, attempts, iha hbefore hafter]
  | group _ iha => rw [attempts, attempts, iha hbefore hafter]

theorem searchFrom_congr (h : Agree s pat pat') (hword : ∀ x, s x → isWord x = isWord' x)
    (hbefore : ∀ x ∈ before, s x) (hafter : ∀ x ∈ after, s x) :
    searchFrom isWord pat before after = searchFrom isWord' pat' before after := by
  induction after generalizing before with
  | nil => rw [searchFrom, searchFrom, attempts_congr h hword hbefore hafter]
  | cons x xs ih =>
    have hx : ∀ y ∈ x :: before, s y := by
      intro y hy
      rcases List.mem_cons.1 hy with rfl | hy
      · exact hafter y List.mem_cons_self
      · exact hbefore y hy
    rw [searchFrom, searchFrom, attempts_congr h hword hbefore hafter,
      ih hx fun y hy => hafter y (List.mem_cons_of_mem x hy)]

/-- The same is found in a text of characters of the kind. -/
theorem search_congr {text : List α} (h : Agree s pat pat')
    (hword : ∀ x, s x → isWord x = isWord' x) (htext : ∀ x ∈ text, s x) :
    search isWord pat text = search isWord' pat' text := by
  rw [search, search, searchFrom_congr h hword (fun _ hx => absurd hx List.not_mem_nil) htext]

end Regex
