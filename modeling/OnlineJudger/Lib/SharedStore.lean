import OnlineJudger.Lib.Run
import Mathlib.Data.List.Basic
import Mathlib.Logic.Function.Basic

/-!
# `OnlineJudger.Lib.SharedStore`: programs that share a store

A program `Prog L V α` reads and writes locations `L` that hold values `V`, one at a time, and
returns an `α`. `exec` is the program alone. `Par` is a list of programs over one store, and in
each step one of them makes its next access.

* `Within`: the program stays in a part of the store. Then `exec` depends on this part only, and
  changes this part only.
* `Alone`: if the parts are disjoint, then each program of a `Par` does what it does alone.
-/

set_option autoImplicit false

namespace OnlineJudger.Lib

/-- A program over a store. It is a tree: behind each access there is one program for each value
that the access can find, so another program can act between any two accesses. -/
inductive Prog (L V α : Type) where
  | ret (a : α)
  /-- The value `v` at `l` becomes `f v`, and the program goes on with `v`. -/
  | access (l : L) (f : V → V) (next : V → Prog L V α)

namespace Prog

variable {L V α β : Type}

/-- One program, and behind it the one that depends on what the first returned. The accesses of both
keep their order. -/
def bind : Prog L V α → (α → Prog L V β) → Prog L V β
  | ret a, k => k a
  | access l f next, k => access l f fun v => (next v).bind k

/-- Programs are written with `do`. -/
instance : Monad (Prog L V) where
  pure := ret
  bind := bind

/-- Read a location: an access that puts back what it finds. -/
def read (l : L) : Prog L V V := access l id ret

/-- Write a location: an access that does not use what it finds. -/
def write (l : L) (v : V) : Prog L V Unit := access l (fun _ => v) fun _ => ret ()

/-! ### The part of the store of a program -/

/-- The program stays in the locations that satisfy `P`, and what it returns satisfies `Q`.

The condition is on the tree, so it holds for whatever values the accesses find. It stays true of a
program that runs among others, which `exec` alone does not tell. -/
def Within (P : L → Prop) (Q : α → Prop) : Prog L V α → Prop
  | ret a => Q a
  | access l _ next => P l ∧ ∀ v, (next v).Within P Q

section Within

variable {P : L → Prop} {Q : α → Prop} {R : β → Prop}

/-- A program that accesses nothing stays in every part. -/
theorem within_pure {a : α} (h : Q a) : (pure a : Prog L V α).Within P Q := h

/-- A read stays in a part that has the location. -/
theorem within_read {l : L} (h : P l) : (read l : Prog L V V).Within P fun _ => True :=
  ⟨h, fun _ => trivial⟩

/-- A write stays in a part that has the location. -/
theorem within_write {l : L} (h : P l) (v : V) :
    (write l v : Prog L V Unit).Within P fun _ => True := ⟨h, fun _ => trivial⟩

/-- The rule for a sequence: the second program may use what is known of the result of the first. By
induction on the tree of the first program. -/
theorem within_bind {p : Prog L V α} {k : α → Prog L V β} (hp : p.Within P Q)
    (hk : ∀ a, Q a → (k a).Within P R) : (p >>= k).Within P R := by
  show (p.bind k).Within P R
  induction p with
  | ret a => exact hk a hp
  | access l f next ih => exact ⟨hp.1, fun v => ih v (hp.2 v)⟩

/-- Less is said about the program: it stays in a larger part, and less is known of its result. -/
theorem Within.imp {P' : L → Prop} {Q' : α → Prop} {p : Prog L V α} (hp : p.Within P Q)
    (hl : ∀ l, P l → P' l) (ha : ∀ a, Q a → Q' a) : p.Within P' Q' := by
  induction p with
  | ret a => exact ha a hp
  | access l f next ih => exact ⟨hl l hp.1, fun v => ih v (hp.2 v)⟩

end Within

/-! ### The program alone -/

variable [DecidableEq L]

/-- What it returns, and the store behind it, when nobody else uses the store. -/
def exec : Prog L V α → (L → V) → α × (L → V)
  | ret a, s => (a, s)
  | access l f next, s => (next (s l)).exec (Function.update s l (f (s l)))

/-- The number of its accesses. -/
def accesses : Prog L V α → (L → V) → ℕ
  | ret _, _ => 0
  | access l f next, s => (next (s l)).accesses (Function.update s l (f (s l))) + 1

section Exec

variable {s : L → V}

/-- A program that accesses nothing leaves the store. -/
@[simp] theorem exec_pure (a : α) : (pure a : Prog L V α).exec s = (a, s) := rfl

/-- A sequence is executed one after the other, the second one on the store that the first one
leaves. -/
@[simp] theorem exec_bind (p : Prog L V α) (k : α → Prog L V β) :
    (p >>= k).exec s = (k (p.exec s).1).exec (p.exec s).2 := by
  show (p.bind k).exec s = _
  induction p generalizing s with
  | ret a => rfl
  | access l f next ih => exact ih (s l)

/-- A read returns what is there. -/
@[simp] theorem exec_read (l : L) : (read l : Prog L V V).exec s = (s l, s) := by
  rw [read, exec, id, Function.update_eq_self]
  rfl

/-- A write changes its location only. -/
@[simp] theorem exec_write (l : L) (v : V) :
    (write l v : Prog L V Unit).exec s = ((), Function.update s l v) := rfl

/-- An access counts one, and then those of the program behind it. -/
@[simp] theorem accesses_access (l : L) (f : V → V) (next : V → Prog L V α) :
    (access l f next).accesses s = (next (s l)).accesses (Function.update s l (f (s l))) + 1 := rfl

/-- An access is executed first, and the program behind it on the changed store. -/
@[simp] theorem exec_access (l : L) (f : V → V) (next : V → Prog L V α) :
    (access l f next).exec s = (next (s l)).exec (Function.update s l (f (s l))) := rfl

end Exec

section Footprint

variable {P : L → Prop} {Q : α → Prop} {s t : L → V}

/-- What it returns satisfies `Q`, from any store. -/
theorem Within.exec {p : Prog L V α} (hp : p.Within P Q) : Q (p.exec s).1 := by
  induction p generalizing s with
  | ret a => exact hp
  | access l f next ih => exact ih _ (hp.2 _)

/-- Two stores that agree on the part still agree on it after the same change, whether the changed
location is in the part or not. -/
theorem agree_update {l : L} (hagree : ∀ m, P m → s m = t m) (v : V) :
    ∀ m, P m → Function.update s l v m = Function.update t l v m := by
  intro m hm
  by_cases h : m = l
  · subst h
    rw [Function.update_self, Function.update_self]
  · rw [Function.update_of_ne h, Function.update_of_ne h]
    exact hagree m hm

/-- The rest of the store is not read: from two stores that agree on its part, a program returns the
same, leaves the same in its part and makes the same number of accesses. -/
theorem exec_congr {p : Prog L V α} (hp : p.Within P Q) (hagree : ∀ l, P l → s l = t l) :
    (p.exec s).1 = (p.exec t).1 ∧ (∀ l, P l → (p.exec s).2 l = (p.exec t).2 l) ∧
      p.accesses s = p.accesses t := by
  induction p generalizing s t with
  | ret a => exact ⟨rfl, hagree, rfl⟩
  | access l f next ih =>
    rw [exec_access, exec_access, accesses_access, accesses_access, hagree l hp.1]
    obtain ⟨hret, hstore, haccesses⟩ := ih (t l) (hp.2 _) (agree_update hagree (f (t l)))
    exact ⟨hret, hstore, by rw [haccesses]⟩

end Footprint

end Prog

/-! ### Programs side by side -/

/-- Programs over one store. The list keeps the programs that have returned, so that a position
names a program for the whole run. -/
structure Par (L V α : Type) where
  store : L → V
  progs : List (Prog L V α)

namespace Par

variable {L V α : Type} [DecidableEq L]

/-- Program `i` makes its next access. A program that has returned has no step. -/
def step (s : Par L V α) (i : ℕ) : Option (Par L V α) :=
  match s.progs[i]? with
  | some (.access l f next) =>
    some ⟨Function.update s.store l (f (s.store l)), s.progs.set i (next (s.store l))⟩
  | _ => none

/-- What a step can do: it takes one access of a program that has one, on the common store, and
leaves the other programs as they are. -/
theorem step_eq_some {s s' : Par L V α} {i : ℕ} (h : s.step i = some s') :
    ∃ l f next, s.progs[i]? = some (.access l f next) ∧
      s' = ⟨Function.update s.store l (f (s.store l)), s.progs.set i (next (s.store l))⟩ := by
  unfold step at h
  split at h
  · next l f next hi => exact ⟨l, f, next, hi, (Option.some.inj h).symm⟩
  · cases h

/-- What is left of a program `p` that has made `n` accesses since the store was `s₀`: it stays in
its part, and does from here what `p` does alone. -/
structure Alone (P : L → Prop) (Q : α → Prop) (s₀ : L → V) (p : Prog L V α) (n : ℕ) (s : L → V)
    (q : Prog L V α) : Prop where
  within : q.Within P Q
  ret : (q.exec s).1 = (p.exec s₀).1
  store : ∀ l, P l → (q.exec s).2 l = (p.exec s₀).2 l
  accesses : n + q.accesses s = p.accesses s₀

section Alone

variable {P : L → Prop} {Q : α → Prop} {s₀ s t : L → V} {p q : Prog L V α} {n : ℕ}

/-- The others change what is not in the part. The program does not see that. -/
theorem Alone.congr (h : Alone P Q s₀ p n s q) (hagree : ∀ l, P l → s l = t l) :
    Alone P Q s₀ p n t q := by
  obtain ⟨hret, hstore, haccesses⟩ := Prog.exec_congr h.within hagree
  refine ⟨h.within, hret ▸ h.ret, ?_, haccesses ▸ h.accesses⟩
  intro l hl
  rw [← hstore l hl]
  exact h.store l hl

/-- The program makes its next access, and is one access further in what it does alone. -/
theorem Alone.access {l : L} {f : V → V} {next : V → Prog L V α}
    (h : Alone P Q s₀ p n s (.access l f next)) :
    Alone P Q s₀ p (n + 1) (Function.update s l (f (s l))) (next (s l)) := by
  refine ⟨h.within.2 _, h.ret, h.store, ?_⟩
  rw [← h.accesses, Prog.accesses_access]
  omega

end Alone

/-- Each program of a run does what it does alone, and the rest of the store is unchanged. -/
structure Apart (P : ℕ → L → Prop) (Q : ℕ → α → Prop) (start : Par L V α) (is : List ℕ)
    (s : Par L V α) : Prop where
  alone : ∀ (i : ℕ) (p : Prog L V α), start.progs[i]? = some p →
    ∃ q, s.progs[i]? = some q ∧ Alone (P i) (Q i) start.store p (is.count i) s.store q
  length : s.progs.length = start.progs.length
  rest : ∀ l, (∀ i < start.progs.length, ¬ P i l) → s.store l = start.store l

variable {P : ℕ → L → Prop} {Q : ℕ → α → Prop} {start u u' : Par L V α} {is : List ℕ} {i : ℕ}

/-- Nothing has been accessed at the start, and each program is still to do what it does alone. -/
theorem apart_start (hwithin : ∀ (i : ℕ) (p : Prog L V α), start.progs[i]? = some p →
    p.Within (P i) (Q i)) : Apart P Q start [] start where
  alone i p hp := ⟨p, hp, hwithin i p hp, rfl, fun _ _ => rfl, Nat.zero_add _⟩
  length := rfl
  rest _ _ := rfl

/-- The step lemma: the program of the step moves on, and for each other program the change is
outside its part, because the parts are disjoint. -/
theorem Apart.step (h : Apart P Q start is u)
    (hdisjoint : ∀ i j l, i < start.progs.length → j < start.progs.length → P i l → P j l → i = j)
    (hstep : u.step i = some u') : Apart P Q start (is ++ [i]) u' := by
  obtain ⟨l, f, next, hi, rfl⟩ := step_eq_some hstep
  obtain ⟨hlt, -⟩ := List.getElem?_eq_some_iff.mp hi
  have hlt' : i < start.progs.length := h.length ▸ hlt
  obtain ⟨q, hq, hown⟩ := h.alone i _ (List.getElem?_eq_getElem hlt')
  rw [hi, Option.some.injEq] at hq
  subst hq
  refine ⟨?_, ?_, ?_⟩
  -- program `i` has made its next access on its own locations
  · intro j p hp
    rw [List.count_append, List.count_singleton]
    by_cases hij : i = j
    · subst hij
      rw [List.getElem?_eq_getElem hlt', Option.some.injEq] at hp
      subst hp
      refine ⟨_, List.getElem?_set_self hlt, ?_⟩
      simpa only [beq_self_eq_true, if_true] using hown.access
    -- another program sees none of the locations written
    · obtain ⟨q, hq, hother⟩ := h.alone j p hp
      obtain ⟨hj, -⟩ := List.getElem?_eq_some_iff.mp hp
      refine ⟨q, (List.getElem?_set_ne hij).trans hq, ?_⟩
      rw [if_neg fun heq => hij (beq_iff_eq.mp heq), Nat.add_zero]
      refine hother.congr fun m hm => (Function.update_of_ne ?_ _ _).symm
      rintro rfl
      exact hij (hdisjoint i j m hlt' hj hown.within.1 hm)
  · exact (List.length_set ..).trans h.length
  -- a location of nobody is not written
  · intro m hm
    refine (Function.update_of_ne ?_ _ _).trans (h.rest m hm)
    rintro rfl
    exact hm i hlt' hown.within.1

/-- Programs in disjoint parts of the store do in every interleaving what they do alone. By
induction on the run, with `Apart.step`. -/
theorem apart_of_run
    (hwithin : ∀ (i : ℕ) (p : Prog L V α), start.progs[i]? = some p → p.Within (P i) (Q i))
    (hdisjoint : ∀ i j l, i < start.progs.length → j < start.progs.length → P i l → P j l → i = j)
    (h : run Par.step start is = some u) : Apart P Q start is u := by
  -- the steps made before are generalised for the induction
  suffices hgen : ∀ before m, Apart P Q start before m → run Par.step m is = some u →
      Apart P Q start (before ++ is) u from hgen [] start (apart_start hwithin) h
  clear h
  induction is with
  | nil =>
    intro before m hm h
    rw [run_nil, Option.some.injEq] at h
    rw [List.append_nil, ← h]
    exact hm
  | cons i is ih =>
    intro before m hm h
    obtain ⟨m', hstep, h⟩ := run_cons_eq_some.mp h
    rw [List.append_cons]
    exact ih _ m' (hm.step hdisjoint hstep) h

end Par

end OnlineJudger.Lib
