import OnlineJudger.Lib.Run
import Mathlib.Data.List.Perm.Subperm

/-!
# `OnlineJudger.Lib.Deque`: an atomic double-ended queue

Values are pushed at both ends and popped at the front. The deque also keeps the values that were
popped, so a sequence of operations determines what each pop returns. A pop of an empty deque is
not enabled.

* `perm_of_run`: what was pushed is popped or still there, each value as often as it was pushed.
-/

set_option autoImplicit false

namespace OnlineJudger.Lib

/-- The values in the deque, and those that were popped. -/
structure Deque (α : Type) where
  items : List α := []
  popped : List α := []

namespace Deque

variable {α : Type}

/-- The operations. A pop takes from the front only. -/
inductive Op (α : Type) where
  | pushBack (a : α)
  | pushFront (a : α)
  | popFront

/-- The value that an operation pushes. A pop pushes none. -/
def Op.pushed : Op α → Option α
  | .pushBack a => some a
  | .pushFront a => some a
  | .popFront => none

/-- One operation. A pop moves the first value to those that were popped, and is not enabled when
there is none. -/
def step (d : Deque α) : Op α → Option (Deque α)
  | .pushBack a => some { d with items := d.items ++ [a] }
  | .pushFront a => some { d with items := a :: d.items }
  | .popFront =>
    match d.items with
    | [] => none
    | a :: items => some { items, popped := d.popped ++ [a] }

/-- One operation changes the values by what it pushes. A pop only moves one of them. -/
theorem perm_of_step {d d' : Deque α} (op : Op α) (h : d.step op = some d') :
    (d'.popped ++ d'.items).Perm (d.popped ++ d.items ++ op.pushed.toList) := by
  cases op with
  | pushBack a =>
    obtain rfl := Option.some.inj h
    rw [List.append_assoc]
    exact List.Perm.refl _
  | pushFront a =>
    obtain rfl := Option.some.inj h
    rw [List.append_assoc]
    exact (List.perm_append_singleton a d.items).symm.append_left _
  | popFront =>
    obtain ⟨items, popped⟩ := d
    cases items with
    | nil => simp only [step, reduceCtorEq] at h
    | cons a items =>
      obtain rfl := Option.some.inj h
      rw [Op.pushed, Option.toList_none, List.append_nil, List.append_assoc]
      exact List.Perm.refl _

/-- What was pushed is popped or still there, each value as often as it was pushed, in whatever
order the operations come. By induction on the run. -/
theorem perm_of_run {d d' : Deque α} {ops : List (Op α)} (h : run step d ops = some d') :
    (d'.popped ++ d'.items).Perm (d.popped ++ d.items ++ ops.filterMap Op.pushed) := by
  induction ops generalizing d with
  | nil =>
    rw [run_nil, Option.some.injEq] at h
    rw [h, List.filterMap_nil, List.append_nil]
  | cons op ops ih =>
    obtain ⟨m, hm, h⟩ := run_cons_eq_some.mp h
    refine (ih h).trans ?_
    refine ((perm_of_step op hm).append_right _).trans ?_
    rw [List.append_assoc]
    refine List.Perm.append_left _ (List.Perm.of_eq ?_)
    rw [List.filterMap_cons]
    cases op.pushed <;> rfl

end Deque

end OnlineJudger.Lib
