import OnlineJudger.Lib.Run
import Mathlib.Data.List.Basic

/-!
# `OnlineJudger.Lib.Progress`: how far a transition system can go

Rules for an executable transition system `step : σ → α → Option σ` with a natural number for
each state.

* `run_countP_le`: the rule of amortised costs. If in every step the potential of the state and
  what comes in pay for a counted action, then they pay for the counted actions of every run.
* `exists_run_of_variant`: while the goal is not reached, some allowed action makes the number
  smaller. Then a run of allowed actions reaches the goal.
* `Stuck`: no allowed action can be taken.
-/

set_option autoImplicit false

namespace OnlineJudger.Lib

variable {σ α : Type} {step : σ → α → Option σ}

/-- The counted actions of a run are paid from the potential of its first state and from what
comes in during the run. -/
theorem run_countP_le (Inv : σ → Prop) (counted : α → Bool) (potential income : σ → ℕ)
    (hstep : ∀ s a s', Inv s → step s a = some s' → Inv s' ∧
      potential s' + income s + (if counted a then 1 else 0) ≤ potential s + income s')
    {s s' : σ} {as : List α} (hs : Inv s) (h : run step s as = some s') :
    as.countP counted + potential s' + income s ≤ potential s + income s' := by
  induction as generalizing s with
  | nil =>
    rw [run_nil, Option.some.injEq] at h
    subst h
    simp only [List.countP_nil, Nat.zero_add, Nat.le_refl]
  | cons a as ih =>
    obtain ⟨m, hm, h⟩ := run_cons_eq_some.mp h
    obtain ⟨hinv, hle⟩ := hstep s a m hs hm
    have hrest := ih hinv h
    rw [List.countP_cons]
    omega

/-- A run of allowed actions reaches the goal. -/
theorem exists_run_of_variant {Inv goal : σ → Prop} {allowed : α → Prop} (variant : σ → ℕ)
    (hstep : ∀ s, Inv s → ¬goal s →
      ∃ a s', allowed a ∧ step s a = some s' ∧ Inv s' ∧ variant s' < variant s)
    {s : σ} (hs : Inv s) :
    ∃ as s', (∀ a ∈ as, allowed a) ∧ run step s as = some s' ∧ goal s' := by
  induction hn : variant s using Nat.strongRecOn generalizing s with
  | ind n ih =>
    subst hn
    by_cases hgoal : goal s
    · exact ⟨[], s, fun _ ha => absurd ha List.not_mem_nil, run_nil s, hgoal⟩
    · obtain ⟨a, m, ha, hm, hinv, hlt⟩ := hstep s hs hgoal
      obtain ⟨as, s', has, hrun, hgoal⟩ := ih _ hlt hinv rfl
      refine ⟨a :: as, s', ?_, run_cons_eq_some.mpr ⟨m, hm, hrun⟩, hgoal⟩
      intro b hb
      rcases List.mem_cons.mp hb with rfl | hb
      · exact ha
      · exact has b hb

/-- No allowed action can be taken. The others may still have something to do. -/
def Stuck (step : σ → α → Option σ) (allowed : α → Prop) (s : σ) : Prop :=
  ∀ a, allowed a → step s a = none

/-- A step of an allowed action, in a state in which there is none. The form in which a proof by
contradiction meets it. -/
theorem Stuck.not_some {allowed : α → Prop} {s s' : σ} {a : α} (h : Stuck step allowed s)
    (ha : allowed a) : step s a ≠ some s' := by
  rw [h a ha]
  simp only [ne_eq, reduceCtorEq, not_false_eq_true]

end OnlineJudger.Lib
