import Mathlib.Logic.Function.Iterate
import SchedulerLm.Base.Except

/-!
# Retrying, with a state

Attempts that may raise, and change a state. An attempt that raises an error that is to be
retried is followed by another one, up to a number, and before that the error changes
the state (`run`). The states before the attempts are those of a run without a limit
(`next`): the run stops at the first attempt that is not to be retried, or at its limit
(`exists_run_eq`). Where the outcomes of the attempts are known beforehand, it comes to
what the attempts come to without a state (`mapError_run`).
-/

namespace Retrying

variable {σ ε ε' α : Type*} (again : ε → Bool) (beforeSleep : ε → σ → σ)
  (attempt : σ → Except ε α × σ)

/-- An attempt, with up to `n` more. -/
def run : ℕ → σ → Except ε α × σ
  | 0, s => attempt s
  | n + 1, s =>
    match attempt s with
    | (.ok a, s') => (.ok a, s')
    | (.error e, s') => if again e then run n (beforeSleep e s') else (.error e, s')

/-- The state after an attempt, before the next one. -/
def next (s : σ) : σ :=
  match attempt s with
  | (.ok _, s') => s'
  | (.error e, s') => beforeSleep e s'

/-- The attempt is to be retried. -/
def Fails (s : σ) : Prop := ∃ e, (attempt s).1 = .error e ∧ again e = true

variable {again beforeSleep attempt} {s : σ}

theorem next_of_error {e : ε} (h : (attempt s).1 = .error e) :
    next beforeSleep attempt s = beforeSleep e (attempt s).2 := by
  rcases hs : attempt s with ⟨result, s'⟩
  rw [hs] at h
  subst h
  rw [next, hs]

theorem run_of_fails {n : ℕ} (h : Fails again attempt s) :
    run again beforeSleep attempt (n + 1) s =
      run again beforeSleep attempt n (next beforeSleep attempt s) := by
  obtain ⟨e, he, hagain⟩ := h
  rw [next_of_error he]
  rcases hs : attempt s with ⟨result, s'⟩
  rw [hs] at he
  subst he
  rw [run, hs]
  dsimp only
  rw [if_pos hagain]

theorem run_of_not_fails {n : ℕ} (h : ¬Fails again attempt s) :
    run again beforeSleep attempt n s = attempt s := by
  cases n with
  | zero => rfl
  | succ n =>
    rcases hs : attempt s with ⟨e | a, s'⟩
    · have hagain : ¬again e = true := fun hagain => h ⟨e, by rw [hs], hagain⟩
      rw [run, hs]
      dsimp only
      rw [if_neg hagain]
    · rw [run, hs]

variable (again beforeSleep attempt) in
/-- The run stops at an attempt: those before it are retried, and it is the last one there may be,
    or is not to be retried. -/
theorem exists_run_eq (n : ℕ) (s : σ) :
    ∃ k ≤ n, run again beforeSleep attempt n s = attempt ((next beforeSleep attempt)^[k] s) ∧
      (∀ j < k, Fails again attempt ((next beforeSleep attempt)^[j] s)) ∧
      (k = n ∨ ¬Fails again attempt ((next beforeSleep attempt)^[k] s)) := by
  induction n generalizing s with
  | zero => exact ⟨0, Nat.le_refl 0, rfl, fun j hj => absurd hj (Nat.not_lt_zero j), .inl rfl⟩
  | succ n ih =>
    by_cases hfails : Fails again attempt s
    · obtain ⟨k, hk, heq, hbefore, hlast⟩ := ih (next beforeSleep attempt s)
      refine ⟨k + 1, Nat.succ_le_succ hk, by rw [run_of_fails hfails, heq]; rfl, ?_, ?_⟩
      · rintro (_ | j) hj
        · exact hfails
        · exact hbefore j (Nat.lt_of_succ_lt_succ hj)
      · exact hlast.imp (congrArg (· + 1)) id
    · exact ⟨0, Nat.zero_le _, run_of_not_fails hfails, fun j hj =>
        absurd hj (Nat.not_lt_zero j), .inr hfails⟩

/-- Where the outcomes are known, the state is of no account. -/
theorem mapError_run {again' : ε' → Bool} {f : ε → ε'} {outcome : ℕ → Except ε' α}
    (n i : ℕ) (s : σ) (hagain : ∀ e, again e = again' (f e))
    (h : ∀ j, (attempt ((next beforeSleep attempt)^[j] s)).1.mapError f = outcome (i + j)) :
    (run again beforeSleep attempt n s).1.mapError f = Raising.retry again' outcome n i := by
  have hhead := h 0
  rw [Nat.add_zero, Function.iterate_zero_apply] at hhead
  induction n generalizing i s with
  | zero => exact hhead
  | succ n ih =>
    by_cases hfails : Fails again attempt s
    · have htail :
        ∀ j, (attempt ((next beforeSleep attempt)^[j] (next beforeSleep attempt s))).1.mapError f =
          outcome (i + 1 + j) := by
        intro j
        rw [Nat.add_right_comm, Nat.add_assoc]
        exact h (j + 1)
      rw [run_of_fails hfails, ih (i + 1) _ htail (htail 0)]
      obtain ⟨e, he, hretry⟩ := hfails
      rw [he] at hhead
      rw [Raising.retry, ← hhead]
      dsimp only [Except.mapError]
      rw [if_pos (by rw [← hagain, hretry])]
    · rw [run_of_not_fails hfails, hhead, Raising.retry]
      rcases houtcome : outcome i with e' | a
      · rw [houtcome] at hhead
        obtain ⟨e, he, rfl⟩ := Raising.mapError_eq_error.1 hhead
        have hstop : ¬again e = true := fun hretry => hfails ⟨e, he, hretry⟩
        dsimp only
        rw [← hagain, if_neg hstop]
      · rfl

end Retrying
