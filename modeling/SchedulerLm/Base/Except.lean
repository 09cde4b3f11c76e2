import Mathlib.Tactic.Common

/-!
# Results of computations that may raise

When a computation composed of others returns, each of them has returned. An attempt
that is made again comes to what one of the attempts comes to (`exists_retry_eq`).
-/

namespace Raising

variable {ε ε' α β : Type*} {x : Except ε α} {b : β} {a : α}

theorem bind_eq_ok {f : α → Except ε β} : x.bind f = .ok b ↔ ∃ a, x = .ok a ∧ f a = .ok b := by
  cases x <;> simp [Except.bind]

theorem map_eq_ok {f : α → β} : x.map f = .ok b ↔ ∃ a, x = .ok a ∧ f a = b := by
  cases x <;> simp [Except.map]

theorem map_eq_error {f : α → β} {e : ε} : x.map f = .error e ↔ x = .error e := by
  cases x <;> simp [Except.map]

theorem map_map {γ : Type*} (g : β → γ) (f : α → β) (x : Except ε α) :
    (x.map f).map g = x.map (g ∘ f) := by
  cases x <;> rfl

theorem mapError_eq_ok {f : ε → ε'} : x.mapError f = .ok a ↔ x = .ok a := by
  cases x <;> simp [Except.mapError]

theorem bind_eq_error {f : α → Except ε β} {e : ε} :
    x.bind f = .error e ↔ x = .error e ∨ ∃ a, x = .ok a ∧ f a = .error e := by
  cases x <;> simp [Except.bind]

theorem mapError_eq_error {f : ε → ε'} {e : ε'} : x.mapError f = .error e ↔ ∃ e', x = .error e' ∧
    f e' = e := by
  cases x <;> simp [Except.mapError]

theorem mapM_eq_ok {f : α → Except ε β} {l : List α} {ys : List β} :
    l.mapM f = .ok ys ↔ l.map f = ys.map .ok := by
  induction l generalizing ys with
  | nil => cases ys <;> simp [pure, Except.pure]
  | cons a l ih =>
    have hcons : (a :: l).mapM f = (f a).bind fun b => (l.mapM f).map fun bs => b :: bs := by
      rw [List.mapM_cons]
      cases f a with
      | error e => rfl
      | ok b => cases l.mapM f <;> rfl
    rw [hcons, bind_eq_ok]
    simp only [map_eq_ok, ih, List.map_cons]
    constructor
    · rintro ⟨b, hb, bs, hbs, rfl⟩
      rw [hb, hbs, List.map_cons]
    · intro h
      cases ys with
      | nil => exact absurd h (by simp)
      | cons b bs =>
        obtain ⟨hb, hbs⟩ := List.cons.inj h
        exact ⟨b, hb, bs, hbs, rfl⟩

theorem mapError_injective {g : ε → ε'} (hg : Function.Injective g) :
    Function.Injective (Except.mapError g : Except ε α → Except ε' α) := by
  rintro (e | a) (e' | a') h <;> simp_all [Except.mapError]
  exact hg h

theorem mapM_mapError (f : α → Except ε β) (g : ε → ε') (l : List α) :
    (l.mapM f).mapError g = l.mapM fun a => (f a).mapError g := by
  induction l with
  | nil => rfl
  | cons a l ih =>
    rw [List.mapM_cons, List.mapM_cons, ← ih]
    cases f a with
    | error e => rfl
    | ok b => cases l.mapM f <;> rfl

theorem mapM_ok (f : α → β) (l : List α) : l.mapM (fun a => (.ok (f a) : Except ε β)) =
    .ok (l.map f) :=
  mapM_eq_ok.2 List.map_map.symm

theorem mapM_isOk {f : α → Except ε β} {l : List α} (h : ∀ a ∈ l, ∃ b, f a = .ok b) :
    ∃ ys, l.mapM f = .ok ys := by
  simp only [mapM_eq_ok]
  induction l with
  | nil => exact ⟨[], rfl⟩
  | cons a l ih =>
    obtain ⟨b, hb⟩ := h a List.mem_cons_self
    obtain ⟨bs, hbs⟩ := ih fun c hc => h c (List.mem_cons_of_mem a hc)
    exact ⟨b :: bs, by rw [List.map_cons, hb, hbs, List.map_cons]⟩

/-! ## Retrying -/

/-- Attempts from the `k`-th on, with `n` more after an error that is to be retried. -/
def retry (again : ε → Bool) (attempt : ℕ → Except ε α) : ℕ → ℕ → Except ε α
  | 0, k => attempt k
  | n + 1, k =>
    match attempt k with
    | .ok a => .ok a
    | .error e => if again e then retry again attempt n (k + 1) else .error e

/-- The result is that of an attempt, and those before it have failed and were to be
    retried. -/
theorem exists_retry_eq (again : ε → Bool) (attempt : ℕ → Except ε α) (n k : ℕ) :
    ∃ i ≤ n, retry again attempt n k = attempt (k + i) ∧
      ∀ j < i, ∃ e, attempt (k + j) = .error e ∧ again e = true := by
  have hstop : ∀ n k, ∃ i ≤ n, attempt k = attempt (k + i) ∧
      ∀ j < i, ∃ e, attempt (k + j) = .error e ∧ again e = true :=
    fun n k => ⟨0, Nat.zero_le n, rfl, fun j hj => absurd hj (Nat.not_lt_zero j)⟩
  induction n generalizing k with
  | zero => exact hstop 0 k
  | succ n ih =>
    rw [retry]
    have hk := hstop (n + 1) k
    rcases h : attempt k with e | a
    · dsimp only
      by_cases hagain : again e = true
      · obtain ⟨i, hi, heq, hbefore⟩ := ih (k + 1)
        refine ⟨i + 1, Nat.succ_le_succ hi, ?_, fun j hj => ?_⟩
        · rw [if_pos hagain, heq, Nat.add_right_comm, Nat.add_assoc]
        · rcases j with _ | j
          · exact ⟨e, h, hagain⟩
          · rw [Nat.add_comm j, ← Nat.add_assoc]
            exact hbefore j (Nat.lt_of_succ_lt_succ hj)
      · rw [if_neg hagain]
        rw [h] at hk
        exact hk
    · dsimp only
      rw [h] at hk
      exact hk

end Raising
