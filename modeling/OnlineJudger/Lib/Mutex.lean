import OnlineJudger.Lib.Slots

/-!
# `OnlineJudger.Lib.Mutex`: the threads inside a critical section

Threads are kept in a list, and a predicate says of each whether it is inside. `Guards` says that
the owner of the mutex is the only one. The rules say what becomes of it when one thread moves.
-/

set_option autoImplicit false

namespace OnlineJudger.Lib

variable {C : Type} {inside : C → Bool} {threads : List C} {owner : Option ℕ} {i j : ℕ} {c c' : C}

/-- The owner is inside, and nobody else. The owner is one of the threads, which the first field
does not say of a list that is too short. -/
structure Guards (inside : C → Bool) (threads : List C) (owner : Option ℕ) : Prop where
  inside_iff : ∀ i c, threads[i]? = some c → (inside c = true ↔ owner = some i)
  owner_lt : ∀ i, owner = some i → i < threads.length

namespace Guards

/-- At the beginning nobody is inside, and the mutex is free. -/
theorem of_forall (h : ∀ c ∈ threads, inside c = false) : Guards inside threads none where
  inside_iff i c hc := by
    rw [h c (List.mem_of_getElem? hc)]
    exact iff_of_false Bool.false_ne_true (fun h => Option.some_ne_none _ h.symm)
  owner_lt i hi := by cases hi

/-- A thread moves and stays inside or outside. -/
theorem stay (h : Guards inside threads owner) (hc : threads[i]? = some c)
    (hsame : inside c' = inside c) : Guards inside (threads.set i c') owner where
  inside_iff j d hd := by
    rcases getElem?_set_cases hc hd with ⟨rfl, rfl⟩ | ⟨-, hd⟩
    · rw [hsame]
      exact h.inside_iff i c hc
    · exact h.inside_iff j d hd
  owner_lt j hj := by
    rw [List.length_set]
    exact h.owner_lt j hj

/-- A thread takes the free mutex. -/
theorem enter (h : Guards inside threads none) (hc : threads[i]? = some c)
    (hinside : inside c' = true) : Guards inside (threads.set i c') (some i) where
  inside_iff j d hd := by
    rcases getElem?_set_cases hc hd with ⟨rfl, rfl⟩ | ⟨hij, hd⟩
    · exact iff_of_true hinside rfl
    · refine iff_of_false ?_ fun heq => hij (Option.some.inj heq)
      rw [h.inside_iff j d hd]
      exact fun h => Option.some_ne_none _ h.symm
  owner_lt j hj := by
    obtain ⟨hi, -⟩ := List.getElem?_eq_some_iff.mp hc
    rw [List.length_set, ← Option.some.inj hj]
    exact hi

/-- The owner gives the mutex back. -/
theorem leave (h : Guards inside threads owner) (hc : threads[i]? = some c)
    (hinside : inside c = true) (houtside : inside c' = false) :
    Guards inside (threads.set i c') none where
  inside_iff j d hd := by
    refine iff_of_false ?_ (fun h => Option.some_ne_none _ h.symm)
    rcases getElem?_set_cases hc hd with ⟨rfl, rfl⟩ | ⟨hij, hd⟩
    · rw [houtside]
      exact Bool.false_ne_true
    · rw [h.inside_iff j d hd, (h.inside_iff i c hc).mp hinside]
      exact fun heq => hij (Option.some.inj heq)
  owner_lt j hj := by cases hj

/-- What one move may do to the mutex: nothing, take it, or give it back. -/
inductive Change (inside : C → Bool) (i : ℕ) (c c' : C) (owner : Option ℕ) : Option ℕ → Prop where
  | stay : inside c' = inside c → Change inside i c c' owner owner
  | enter : owner = none → inside c' = true → Change inside i c c' owner (some i)
  | leave : inside c = true → inside c' = false → Change inside i c c' owner none

/-- The step lemma: whatever one thread does of the three, the owner is inside afterwards, and
nobody else. -/
theorem step (h : Guards inside threads owner) (hc : threads[i]? = some c) {owner' : Option ℕ}
    (hchange : Change inside i c c' owner owner') : Guards inside (threads.set i c') owner' := by
  cases hchange with
  | stay hsame => exact h.stay hc hsame
  | enter hfree hinside =>
    rw [hfree] at h
    exact h.enter hc hinside
  | leave hinside houtside => exact h.leave hc hinside houtside

/-- A thread that leaves the mutex to itself or to nobody has found it so. -/
theorem owner_of_change (h : Guards inside threads owner) (hc : threads[i]? = some c)
    {owner' : Option ℕ} (hchange : Change inside i c c' owner owner')
    (howner' : ∀ k, owner' = some k → k = i) : ∀ k, owner = some k → k = i := by
  intro k hk
  cases hchange with
  | stay _ => exact howner' k hk
  | enter hfree _ =>
    rw [hfree] at hk
    cases hk
  | leave hinside _ =>
    rw [(h.inside_iff i c hc).mp hinside] at hk
    exact (Option.some.inj hk).symm

/-- Two threads inside are the same. -/
theorem eq_of_inside (h : Guards inside threads owner) (hc : threads[i]? = some c)
    (hinside : inside c = true) (hc' : threads[j]? = some c') (hinside' : inside c' = true) :
    i = j := by
  have hi := (h.inside_iff i c hc).mp hinside
  have hj := (h.inside_iff j c' hc').mp hinside'
  rw [hi] at hj
  exact Option.some.inj hj

/-- The owner of a mutex that is not free is inside. -/
theorem exists_inside (h : Guards inside threads owner) (hi : owner = some i) :
    ∃ c, threads[i]? = some c ∧ inside c = true := by
  have hlt := h.owner_lt i hi
  have hc := List.getElem?_eq_getElem hlt
  exact ⟨_, hc, (h.inside_iff i _ hc).mpr hi⟩

end Guards

end OnlineJudger.Lib
