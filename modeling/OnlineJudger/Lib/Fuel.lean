import Mathlib.Data.Nat.Notation

/-!
# `OnlineJudger.Lib.Fuel`: partial functions with fuel

A loop that need not end is a function `f : ℕ → σ → Option ρ`. The number is the fuel, and
`none` means that the fuel ran out. `FuelMono f` says that more fuel keeps a result.
`Evals f x y` says that some fuel yields `y`. For such an `f` the result is unique
(`FuelMono.unique`), and any fuel that suffices finds it (`FuelMono.eq_of_isSome`).
-/

set_option autoImplicit false

namespace OnlineJudger.Lib

variable {σ ρ : Type} {f : ℕ → σ → Option ρ}

/-- More fuel keeps a result. One unit is enough to show it for, and `FuelMono.le` has it for
any. -/
def FuelMono (f : ℕ → σ → Option ρ) : Prop :=
  ∀ n x y, f n x = some y → f (n + 1) x = some y

/-- Some fuel yields `y`: the loop ends, with `y`. -/
def Evals (f : ℕ → σ → Option ρ) (x : σ) (y : ρ) : Prop := ∃ n, f n x = some y

/-- Any amount of fuel above one that yields a result yields it too. -/
theorem FuelMono.le (h : FuelMono f) {n m : ℕ} {x : σ} {y : ρ} (hnm : n ≤ m)
    (hn : f n x = some y) : f m x = some y := by
  induction hnm with
  | refl => exact hn
  | step _ ih => exact h _ _ _ ih

/-- The result does not depend on the fuel: with the larger of two amounts, both results are
found. -/
theorem FuelMono.unique (h : FuelMono f) {x : σ} {y y' : ρ} (hy : Evals f x y)
    (hy' : Evals f x y') : y = y' := by
  obtain ⟨n, hn⟩ := hy
  obtain ⟨m, hm⟩ := hy'
  have hn' := h.le (Nat.le_max_left n m) hn
  have hm' := h.le (Nat.le_max_right n m) hm
  rw [hn', Option.some.injEq] at hm'
  exact hm'

/-- Fuel that suffices finds the result. -/
theorem FuelMono.eq_of_isSome (h : FuelMono f) {x : σ} {y : ρ} (hy : Evals f x y) {n : ℕ}
    (hn : (f n x).isSome = true) : f n x = some y := by
  obtain ⟨y', hy'⟩ := Option.isSome_iff_exists.mp hn
  rw [hy', h.unique hy ⟨n, hy'⟩]

/-- Two evaluations have a common fuel. -/
theorem FuelMono.common (h : FuelMono f) {x x' : σ} {y y' : ρ} (hy : Evals f x y)
    (hy' : Evals f x' y') : ∃ n, f n x = some y ∧ f n x' = some y' := by
  obtain ⟨n, hn⟩ := hy
  obtain ⟨m, hm⟩ := hy'
  exact ⟨max n m, h.le (Nat.le_max_left n m) hn, h.le (Nat.le_max_right n m) hm⟩

end OnlineJudger.Lib
