import Mathlib.Logic.Relation

/-!
# `OnlineJudger.Lib.Run`: runs of an executable transition system

A system is a function `step : σ → α → Option σ`. `none` means that the action is not enabled
in the state. `run` takes a list of actions, so it covers every interleaving of the parties
whose actions they are.

* `run_invariant`: what every step keeps holds at the end of every run. The run may be
  restricted to actions that satisfy a predicate.
* `Along`: each action of a run satisfies a predicate in the state before it.
  `run_invariant_along` is the invariant rule for such runs, `Along.imp` and `along_congr` change
  the predicate, and `exists_of_not_along` finds an action that does not satisfy it.
* `run_refines`: a relation to an abstract system that every step keeps, with abstract steps
  or none, is kept by every run.
-/

set_option autoImplicit false

namespace OnlineJudger.Lib

variable {σ τ α : Type} {step : σ → α → Option σ}

/-- Take the actions in order. The run ends with `none` at the first action that is not enabled, so
a run that returns a state has taken all of them. -/
def run (step : σ → α → Option σ) : σ → List α → Option σ
  | s, [] => some s
  | s, a :: as =>
    match step s a with
    | none => none
    | some s' => run step s' as

/-- No action, no change. -/
@[simp] theorem run_nil (s : σ) : run step s [] = some s := rfl

/-- A run is its first step and a run from there. -/
theorem run_cons_eq_some {s s' : σ} {a : α} {as : List α} :
    run step s (a :: as) = some s' ↔ ∃ m, step s a = some m ∧ run step m as = some s' := by
  rw [run]
  cases step s a with
  | none => simp only [reduceCtorEq, false_and, exists_false]
  | some m => simp only [Option.some.injEq, exists_eq_left']

/-- A run can be cut anywhere: the two parts meet in one state. -/
theorem run_append_eq_some {s s' : σ} {as bs : List α} :
    run step s (as ++ bs) = some s' ↔ ∃ m, run step s as = some m ∧ run step m bs = some s' := by
  induction as generalizing s with
  | nil => simp only [List.nil_append, run_nil, Option.some.injEq, exists_eq_left']
  | cons a as ih =>
    rw [List.cons_append, run_cons_eq_some]
    simp only [run_cons_eq_some, ih]
    constructor
    · rintro ⟨m, hm, m', hm', h⟩
      exact ⟨m', ⟨m, hm, hm'⟩, h⟩
    · rintro ⟨m', ⟨m, hm, hm'⟩, h⟩
      exact ⟨m, hm, m', hm', h⟩

/-! ### Runs whose steps satisfy a predicate -/

/-- Each action that is taken satisfies `ok` in the state before it. Actions behind one that is not
enabled are not taken, and nothing is asked of them. -/
def Along (step : σ → α → Option σ) (ok : σ → α → Prop) : σ → List α → Prop
  | _, [] => True
  | s, a :: as => ok s a ∧
    match step s a with
    | none => True
    | some s' => Along step ok s' as

/-- A predicate that can be decided for each step can be decided for a run, which is how concrete
runs are checked. -/
instance decidableAlong (step : σ → α → Option σ) (ok : σ → α → Prop)
    [∀ s a, Decidable (ok s a)] : ∀ s as, Decidable (Along step ok s as)
  | _, [] => inferInstanceAs (Decidable True)
  | s, a :: as => by
    unfold Along
    cases step s a with
    | none => exact inferInstanceAs (Decidable (ok s a ∧ True))
    | some s' =>
      have := decidableAlong step ok s' as
      exact inferInstanceAs (Decidable (ok s a ∧ Along step ok s' as))

section Along

variable {ok : σ → α → Prop} {s s' m : σ} {a : α} {as bs : List α}

/-- The predicate holds for the first action, and along the rest of the run. -/
theorem along_cons (hm : step s a = some m) :
    Along step ok s (a :: as) ↔ ok s a ∧ Along step ok m as := by
  rw [Along, hm]

/-- A predicate along a run, in two parts. -/
theorem along_append (hm : run step s as = some m) :
    Along step ok s (as ++ bs) ↔ Along step ok s as ∧ Along step ok m bs := by
  induction as generalizing s with
  | nil =>
    rw [run_nil, Option.some.injEq] at hm
    rw [List.nil_append, hm]
    exact (and_iff_right trivial).symm
  | cons a as ih =>
    obtain ⟨m₁, hm₁, hm⟩ := run_cons_eq_some.mp hm
    rw [List.cons_append, along_cons hm₁, along_cons hm₁, ih hm, and_assoc]

/-- What the actions satisfy in every state they satisfy along each run. -/
theorem along_of_forall (h : ∀ s, ∀ a ∈ as, ok s a) : Along step ok s as := by
  induction as generalizing s with
  | nil => trivial
  | cons a as ih =>
    refine ⟨h s a (List.mem_cons_self ..), ?_⟩
    split
    · trivial
    · exact ih fun s b hb => h s b (List.mem_cons_of_mem _ hb)

/-- What every step keeps that satisfies `ok` holds at the end of the run. The rule for a system
that breaks the invariant in some steps. -/
theorem run_invariant_along {Inv : σ → Prop}
    (hstep : ∀ s a s', ok s a → Inv s → step s a = some s' → Inv s')
    (hok : Along step ok s as) (hs : Inv s) (h : run step s as = some s') : Inv s' := by
  induction as generalizing s with
  | nil =>
    rw [run_nil, Option.some.injEq] at h
    exact h ▸ hs
  | cons a as ih =>
    obtain ⟨m, hm, h⟩ := run_cons_eq_some.mp h
    rw [along_cons hm] at hok
    exact ih hok.2 (hstep s a m hok.1 hs hm) h

/-- Two predicates that agree under an invariant hold along the same runs. It turns what a step does
into what is known of the state before it. -/
theorem along_congr {Inv : σ → Prop} {P Q : σ → α → Prop}
    (hstep : ∀ s a s', ok s a → Inv s → step s a = some s' → Inv s')
    (hiff : ∀ s a, ok s a → Inv s → (P s a ↔ Q s a))
    (hok : Along step ok s as) (hs : Inv s) : Along step P s as ↔ Along step Q s as := by
  induction as generalizing s with
  | nil => exact Iff.rfl
  | cons a as ih =>
    rw [Along, Along, hiff s a hok.1 hs]
    refine and_congr_right fun _ => ?_
    cases hm : step s a with
    | none => exact Iff.rfl
    | some m => exact ih ((along_cons hm).mp hok).2 (hstep s a m hok.1 hs hm)

/-- Another predicate holds along the run when an invariant makes it follow. -/
theorem Along.imp {Inv : σ → Prop} {ok' : σ → α → Prop}
    (hstep : ∀ s a s', ok s a → Inv s → step s a = some s' → Inv s' ∧ ok' s a)
    (hok : Along step ok s as) (hs : Inv s) (h : run step s as = some s') :
    Along step ok' s as := by
  induction as generalizing s with
  | nil => trivial
  | cons a as ih =>
    obtain ⟨m, hm, h⟩ := run_cons_eq_some.mp h
    rw [along_cons hm] at hok ⊢
    obtain ⟨hinv, hok'⟩ := hstep s a m hok.1 hs hm
    exact ⟨hok', ih hok.2 hinv h⟩

/-- What every step keeps holds at the end of every run. `allowed` restricts the actions, and is
`fun _ => True` where all of them are meant. -/
theorem run_invariant {Inv : σ → Prop} {allowed : α → Prop}
    (hstep : ∀ s a s', allowed a → Inv s → step s a = some s' → Inv s')
    (hok : ∀ a ∈ as, allowed a) (hs : Inv s) (h : run step s as = some s') : Inv s' :=
  run_invariant_along hstep (along_of_forall fun _ => hok) hs h

/-- A run that breaks the predicate breaks it at one of its actions, and the run up to there is a
run too. -/
theorem exists_of_not_along (h : run step s as = some s') (hnot : ¬Along step ok s as) :
    ∃ before b after m, as = before ++ b :: after ∧ run step s before = some m ∧ ¬ok m b := by
  induction as generalizing s with
  | nil => exact absurd trivial hnot
  | cons a as ih =>
    obtain ⟨m₁, hm₁, h⟩ := run_cons_eq_some.mp h
    rw [along_cons hm₁, not_and] at hnot
    by_cases ha : ok s a
    · obtain ⟨before, b, after, m, rfl, hm, hb⟩ := ih h (hnot ha)
      exact ⟨a :: before, b, after, m, rfl, run_cons_eq_some.mpr ⟨m₁, hm₁, hm⟩, hb⟩
    · exact ⟨[], a, as, s, rfl, rfl, ha⟩

end Along

/-- The same for a relation between the two ends of a run: reflexive, transitive, and true of each
step. -/
theorem run_relation {R : σ → σ → Prop} {Inv : σ → Prop} (hrefl : ∀ s, R s s)
    (htrans : ∀ s m s', R s m → R m s' → R s s')
    (hstep : ∀ s a s', Inv s → step s a = some s' → Inv s' ∧ R s s') {s s' : σ} {as : List α}
    (hs : Inv s) (h : run step s as = some s') : R s s' := by
  induction as generalizing s with
  | nil =>
    rw [run_nil, Option.some.injEq] at h
    exact h ▸ hrefl s
  | cons a as ih =>
    obtain ⟨m, hm, h⟩ := run_cons_eq_some.mp h
    obtain ⟨hinv, hR⟩ := hstep s a m hs hm
    exact htrans s m s' hR (ih hinv h)

/-- A relation to an abstract system that every step keeps is kept by every run. One step may be
several abstract steps, or none. -/
theorem run_refines {Abs : σ → τ → Prop} {Next : τ → τ → Prop}
    (hstep : ∀ s a s' t, Abs s t → step s a = some s' →
      ∃ t', Relation.ReflTransGen Next t t' ∧ Abs s' t')
    {s s' : σ} {as : List α} {t : τ} (hs : Abs s t) (h : run step s as = some s') :
    ∃ t', Relation.ReflTransGen Next t t' ∧ Abs s' t' := by
  induction as generalizing s t with
  | nil =>
    rw [run_nil, Option.some.injEq] at h
    exact ⟨t, .refl, h ▸ hs⟩
  | cons a as ih =>
    obtain ⟨m, hm, h⟩ := run_cons_eq_some.mp h
    -- the abstract steps of the first action, and then those of the rest
    obtain ⟨t₁, ht₁, hm⟩ := hstep s a m t hs hm
    obtain ⟨t₂, ht₂, h⟩ := ih hm h
    exact ⟨t₂, ht₁.trans ht₂, h⟩

end OnlineJudger.Lib
