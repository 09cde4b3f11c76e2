import Mathlib.Data.List.Infix
import Mathlib.Tactic.Common

/-!
# Templates

A template is a text with *placeholders*: each of them begins with a bracket, which is
nowhere else in it, and none is the beginning of another. With the values that are put in
for them, these are the *entries* of the template.

* `Filled entries text result`: the placeholders in the text are replaced by their values, all
  at once, and the rest is kept.
* `replace old new text`: the occurrences of `old` are replaced by `new`, from the left.
* `foldl_replace`: the placeholders replaced one after another are replaced all at once. For this,
  no value may bring an occurrence of a placeholder about (`Foreign`).
* `Filled.isInfix_iff`: a mark the placeholders begin with is left iff it is somewhere else in the
  text.
-/

namespace Templates

variable {α : Type*}

/-- The placeholders of the entries in the text are replaced by their values. -/
inductive Filled (entries : List (List α × List α)) : List α → List α → Prop
  | nil : Filled entries [] []
  | hole {e : List α × List α} {text result : List α} : e ∈ entries → Filled entries text result →
      Filled entries (e.1 ++ text) (e.2 ++ result)
  | char {c : α} {text result : List α} : (∀ e ∈ entries, ¬e.1 <+: c :: text) →
      Filled entries text result → Filled entries (c :: text) (c :: result)

/-- No occurrence of `u` has the value `v` in it, or ends in `v`. -/
structure Foreign (u v : List α) : Prop where
  not_inside : ¬v <:+: u
  not_across : ∀ w, w ≠ [] → w <+: v → ¬w <:+ u

/-- The entries of a template: placeholders, and values that bring none of them about. -/
structure Entries (bracket : α) (entries : List (List α × List α)) : Prop where
  opens : ∀ e ∈ entries, ∃ w, e.1 = bracket :: w ∧ bracket ∉ w
  unique : ∀ e ∈ entries, ∀ e' ∈ entries, e.1 <+: e'.1 → e = e'
  not_mem : ∀ e ∈ entries, bracket ∉ e.2
  foreign : ∀ e ∈ entries, ∀ e' ∈ entries, Foreign e.1 e'.2

section Replace

variable [DecidableEq α] (old new : List α)

/-- `replace`, the first `skip` elements being left of an occurrence. -/
def replaceFrom : ℕ → List α → List α
  | _, [] => []
  | skip + 1, _ :: text => replaceFrom skip text
  | 0, c :: text =>
    if old <+: c :: text then new ++ replaceFrom (old.length - 1) text else c :: replaceFrom 0 text

/-- The occurrences of `old`, which is not empty, are replaced by `new`, from the left. -/
def replace (text : List α) : List α := replaceFrom old new 0 text

end Replace

variable {entries : List (List α × List α)} {e : List α × List α} {bracket c : α}
  {text rest result before after old new u v w mark : List α}

/-! ## Replacing -/

section Replace

variable [DecidableEq α]

theorem replaceFrom_length (w text : List α) :
    replaceFrom old new w.length (w ++ text) = replace old new text := by
  induction w with
  | nil => rfl
  | cons c w ih => rw [List.length_cons, List.cons_append, replaceFrom, ih]

/-- An occurrence is replaced. -/
theorem replace_self (h : old ≠ []) (text : List α) :
    replace old new (old ++ text) = new ++ replace old new text := by
  obtain ⟨c, w, rfl⟩ := List.exists_cons_of_ne_nil h
  rw [List.cons_append, replace, replaceFrom, if_pos ⟨text, List.cons_append⟩, List.length_cons,
    Nat.add_sub_cancel, replaceFrom_length]

/-- Where there is no occurrence, the element is kept. -/
theorem replace_cons (h : ¬old <+: c :: text) :
    replace old new (c :: text) = c :: replace old new text := by
  rw [replace, replaceFrom, if_neg h, replace]

/-- No occurrence begins in what its first element is not in. -/
theorem replace_append (h : bracket ∉ v) (text : List α) :
    replace (bracket :: w) new (v ++ text) = v ++ replace (bracket :: w) new text := by
  induction v with
  | nil => rfl
  | cons c v ih =>
    rw [List.mem_cons, not_or] at h
    rw [List.cons_append, replace_cons fun hstart => h.1 (List.cons_prefix_cons.1 hstart).1, ih h.2,
      List.cons_append]

end Replace

/-! ## Occurrences -/

/-- What ends in a bracket that is not in `v` does not end in a part of `v`. -/
theorem foreign_of_getLast (hclose : c ∉ v) (hu : u.getLast? = some c) (hinside : ¬v <:+: u) :
    Foreign u v where
  not_inside := hinside
  not_across := by
    rintro w hne hstart ⟨t, rfl⟩
    rw [List.getLast?_append_of_ne_nil t hne] at hu
    exact hclose (hstart.subset (List.mem_of_getLast? hu))

theorem Foreign.of_suffix (h : Foreign u v) (hw : w <:+ u) : Foreign w v where
  not_inside hinside := h.not_inside (hinside.trans hw.isInfix)
  not_across w' hne hstart hsuffix := h.not_across w' hne hstart (hsuffix.trans hw)

/-- Nothing that `v` is foreign to is at the beginning of `v` and what follows it. -/
theorem Foreign.not_prefix_append (h : Foreign u v) (hu : u ≠ []) (text : List α) :
    ¬u <+: v ++ text := by
  intro hstart
  rcases List.prefix_or_prefix_of_prefix hstart (List.prefix_append v text) with huv | hvu
  · exact h.not_across u hu huv List.suffix_rfl
  · exact h.not_inside hvu.isInfix

theorem Entries.not_prefix_of_ne (h : Entries bracket entries) (he : e ∈ entries) (hc : c ≠ bracket)
    (text : List α) : ¬e.1 <+: c :: text := by
  obtain ⟨w, hw, -⟩ := h.opens e he
  rw [hw]
  exact fun hstart => hc (List.cons_prefix_cons.1 hstart).1.symm

/-- No placeholder begins in what has no bracket. -/
theorem Filled.append (h : Entries bracket entries) (hw : bracket ∉ w)
    (hfilled : Filled entries text result) : Filled entries (w ++ text) (w ++ result) := by
  induction w with
  | nil => exact hfilled
  | cons c w ih =>
    rw [List.mem_cons, not_or] at hw
    exact .char (fun e he => h.not_prefix_of_ne he (Ne.symm hw.1) _) (ih hw.2)

/-- What has no bracket, and the values are foreign to, is where it was before. -/
theorem Filled.isPrefix_iff (h : Entries bracket entries) (hw : bracket ∉ w)
    (hforeign : ∀ e ∈ entries, Foreign w e.2) (hfilled : Filled entries text result) :
    w <+: result ↔ w <+: text := by
  induction hfilled generalizing w with
  | nil => rfl
  | @hole e text result he _ ih =>
    rcases w with _ | ⟨c, w⟩
    · simp
    · obtain ⟨w', hw', -⟩ := h.opens e he
      have hresult : ¬c :: w <+: e.2 ++ result :=
        (hforeign e he).not_prefix_append (List.cons_ne_nil c w) result
      have htext : ¬c :: w <+: e.1 ++ text := by
        rw [hw', List.cons_append]
        exact fun hstart => hw ((List.cons_prefix_cons.1 hstart).1 ▸ List.mem_cons_self)
      exact iff_of_false hresult htext
  | @char c' text result _ _ ih =>
    rcases w with _ | ⟨c, w⟩
    · simp
    · rw [List.cons_prefix_cons, List.cons_prefix_cons,
        ih (fun hmem => hw (List.mem_cons_of_mem c hmem))
          fun e he => (hforeign e he).of_suffix (List.suffix_cons c w)]

/-! ## One after another -/

theorem Entries.of_subset {entries' : List (List α × List α)} (h : Entries bracket entries')
    (hsub : entries ⊆ entries') : Entries bracket entries where
  opens e he := h.opens e (hsub he)
  unique e he e' he' := h.unique e (hsub he) e' (hsub he')
  not_mem e he := h.not_mem e (hsub he)
  foreign e he e' he' := h.foreign e (hsub he) e' (hsub he')

/-- The order of the entries does not matter. -/
theorem Filled.of_perm {entries' : List (List α × List α)} (h : entries.Perm entries')
    (hfilled : Filled entries text result) : Filled entries' text result := by
  induction hfilled with
  | nil => exact .nil
  | hole he _ ih => exact .hole (h.mem_iff.1 he) ih
  | char hnone _ ih => exact .char (fun e he => hnone e (h.mem_iff.2 he)) ih

variable [DecidableEq α]

/-- With one more entry, its placeholder is replaced after the others. -/
theorem exists_filled_of_append (h : Entries bracket (entries ++ [e]))
    (hfilled : Filled (entries ++ [e]) text result) :
    ∃ result', Filled entries text result' ∧ replace e.1 e.2 result' = result := by
  have he : e ∈ entries ++ [e] := List.mem_append_right _ List.mem_cons_self
  have hentries := h.of_subset (List.subset_append_left entries [e])
  obtain ⟨w, hw, hbracket⟩ := h.opens e he
  induction hfilled with
  | nil => exact ⟨[], .nil, rfl⟩
  | @hole e' text result he' _ ih =>
    obtain ⟨result', hresult', rfl⟩ := ih
    by_cases hmem : e' ∈ entries
    · refine ⟨e'.2 ++ result', .hole hmem hresult', ?_⟩
      rw [hw, replace_append (h.not_mem e' he')]
    · obtain rfl : e' = e := by simpa [hmem] using he'
      refine ⟨e'.1 ++ result', ?_, replace_self (by simp [hw]) _⟩
      rw [hw, List.cons_append, List.cons_append]
      refine .char (fun e'' he'' hstart => ?_) (.append hentries hbracket hresult')
      -- A placeholder at the same place is the beginning of this one, or this one is its beginning.
      rw [← List.cons_append, ← hw] at hstart
      have hmem'' := List.mem_append_left [e'] he''
      rcases List.prefix_or_prefix_of_prefix hstart (List.prefix_append e'.1 text) with hle | hle
      · exact hmem (h.unique e'' hmem'' e' he hle ▸ he'')
      · exact hmem (h.unique e' he e'' hmem'' hle ▸ he'')
  | @char c text result hnone _ ih =>
    obtain ⟨result', hresult', rfl⟩ := ih
    refine ⟨c :: result', .char (fun e' he' => hnone e' (List.mem_append_left _ he')) hresult',
      replace_cons ?_⟩
    have hforeign : ∀ e' ∈ entries, Foreign w e'.2 := fun e' he' =>
      (h.foreign e he e' (List.mem_append_left _ he')).of_suffix (hw ▸ List.suffix_cons bracket w)
    have hnot := hnone e he
    rw [hw, List.cons_prefix_cons] at hnot ⊢
    rwa [hresult'.isPrefix_iff hentries hbracket hforeign]

/-- The placeholders replaced one after another are replaced all at once. -/
theorem foldl_replace (h : Entries bracket entries) (hfilled : Filled entries text result) :
    entries.foldl (fun text e => replace e.1 e.2 text) text = result := by
  induction entries using List.reverseRecOn generalizing result with
  | nil =>
    rw [List.foldl_nil]
    induction hfilled with
    | nil => rfl
    | hole he => exact absurd he List.not_mem_nil
    | char _ _ ih => rw [← ih]
  | append_singleton entries e ih =>
    obtain ⟨result', hresult', rfl⟩ := exists_filled_of_append h hfilled
    rw [List.foldl_append, List.foldl_cons, List.foldl_nil,
      ih (h.of_subset (List.subset_append_left entries [e])) hresult']

omit [DecidableEq α]

/-- Every text can be filled. -/
theorem exists_filled (h : Entries bracket entries) (text : List α) :
    ∃ result, Filled entries text result := by
  induction hn : text.length using Nat.strong_induction_on generalizing text with
  | _ n ih =>
    by_cases hsome : ∃ e ∈ entries, e.1 <+: text
    · obtain ⟨e, he, rest, rfl⟩ := hsome
      obtain ⟨w, hw, -⟩ := h.opens e he
      have hlt : rest.length < n := by
        rw [← hn, List.length_append, hw, List.length_cons]
        omega
      obtain ⟨result, hresult⟩ := ih rest.length hlt rest rfl
      exact ⟨e.2 ++ result, .hole he hresult⟩
    · rcases text with _ | ⟨c, rest⟩
      · exact ⟨[], .nil⟩
      · have hlt : rest.length < n := by
          rw [← hn, List.length_cons]
          exact rest.length.lt_succ_self
        obtain ⟨result, hresult⟩ := ih rest.length hlt rest rfl
        exact ⟨c :: result, .char (fun e he hstart => hsome ⟨e, he, hstart⟩) hresult⟩

/-! ## Marks -/

/-- The mark is somewhere in the text, and no placeholder begins there. -/
def Unfilled (entries : List (List α × List α)) (mark text : List α) : Prop :=
  ∃ before after, text = before ++ after ∧ mark <+: after ∧ ∀ e ∈ entries, ¬e.1 <+: after

theorem not_unfilled_nil (hmark : mark ≠ []) : ¬Unfilled entries mark [] := by
  rintro ⟨before, after, heq, hstart, -⟩
  rw [(List.append_eq_nil_iff.1 heq.symm).2] at hstart
  exact hmark (List.prefix_nil.1 hstart)

/-- It is at the beginning of the text, or further on. -/
theorem unfilled_cons_iff : Unfilled entries mark (c :: text) ↔
    (mark <+: c :: text ∧ ∀ e ∈ entries, ¬e.1 <+: c :: text) ∨ Unfilled entries mark text := by
  constructor
  · rintro ⟨before, after, heq, hstart, hnone⟩
    rcases List.cons_eq_append_iff.1 heq with ⟨-, rfl⟩ | ⟨before', rfl, rfl⟩
    · exact .inl ⟨hstart, hnone⟩
    · exact .inr ⟨before', after, rfl, hstart, hnone⟩
  · rintro (⟨hstart, hnone⟩ | ⟨before, after, rfl, hstart, hnone⟩)
    · exact ⟨[], c :: text, rfl, hstart, hnone⟩
    · exact ⟨c :: before, after, rfl, hstart, hnone⟩

/-- It is not in what has no bracket. -/
theorem unfilled_append_iff (hv : bracket ∉ v) :
    Unfilled entries (bracket :: w) (v ++ text) ↔ Unfilled entries (bracket :: w) text := by
  induction v with
  | nil => rfl
  | cons c v ih =>
    rw [List.mem_cons, not_or] at hv
    rw [List.cons_append, unfilled_cons_iff, ih hv.2, or_iff_right]
    exact fun h => hv.1 (List.cons_prefix_cons.1 h.1).1

theorem isInfix_append_iff (hv : bracket ∉ v) : bracket :: w <:+: v ++ text ↔
    bracket :: w <:+: text := by
  induction v with
  | nil => rfl
  | cons c v ih =>
    rw [List.mem_cons, not_or] at hv
    rw [List.cons_append, List.infix_cons_iff, ih hv.2, or_iff_right]
    exact fun h => hv.1 (List.cons_prefix_cons.1 h).1

/-- A mark that begins with the bracket is left iff it was somewhere no placeholder begins. -/
theorem Filled.isInfix_iff (h : Entries bracket entries) (hw : bracket ∉ w)
    (hforeign : ∀ e ∈ entries, Foreign (bracket :: w) e.2) (hfilled : Filled entries text result) :
    bracket :: w <:+: result ↔ Unfilled entries (bracket :: w) text := by
  induction hfilled with
  | nil => exact iff_of_false (by simp) (not_unfilled_nil (List.cons_ne_nil bracket w))
  | @hole e text result he _ ih =>
    obtain ⟨w', hw', hbracket⟩ := h.opens e he
    rw [isInfix_append_iff (h.not_mem e he), ih, hw', List.cons_append, unfilled_cons_iff,
      unfilled_append_iff hbracket, or_iff_right]
    exact fun hmark => hmark.2 e he (hw' ▸ List.prefix_append e.1 text)
  | @char c text result hnone hrest ih =>
    have hstart : w <+: result ↔ w <+: text :=
      hrest.isPrefix_iff h hw fun e he => (hforeign e he).of_suffix (List.suffix_cons bracket w)
    rw [List.infix_cons_iff, unfilled_cons_iff, ih, List.cons_prefix_cons,
      List.cons_prefix_cons, hstart, and_iff_left hnone]

end Templates
