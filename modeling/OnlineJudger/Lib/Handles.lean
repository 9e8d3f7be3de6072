import Mathlib.Algebra.BigOperators.Group.Finset.Basic
import Mathlib.Algebra.Order.Group.Multiset
import Mathlib.Tactic.Abel

/-!
# `OnlineJudger.Lib.Handles`: who closes what was opened

A program keeps handles of the system in variables. `Owner` is the table of the system together
with the variables of one party. A handle that stands in no variable any more is lost: nobody can
close it.

* `Balanced base lost`: the open handles are those that were open before, the lost ones and the
  ones in the variables, each of them once, and no call has closed a handle that was not open.
* `Balanced.assign`, `Balanced.safeClose` and the other rules say how each operation changes what
  is lost. A program is balanced because its operations are.
-/

set_option autoImplicit false

namespace OnlineJudger.Lib

/-- The value of a variable: nothing, the value of a failed call, or an open handle. -/
inductive Handle where
  | null
  | invalid
  | opened (id : ℕ)
  deriving DecidableEq, Repr

/-- The handle itself, if there is one. -/
def Handle.ids : Handle → Multiset ℕ
  | .opened id => {id}
  | _ => 0

/-- The table of the system, and the variables of the party. -/
structure Owner (M : Type) where
  next : ℕ := 0
  live : List ℕ := []
  /-- The calls that close, and whether they succeeded. -/
  closes : List (Handle × Bool) := []
  var : M → Handle := fun _ => .null

namespace Owner

variable {M : Type}

/-- A call that opens a handle. The handle is one that the table has not given out before. -/
def acquire (o : Owner M) : Handle × Owner M :=
  (.opened o.next, { o with next := o.next + 1, live := o.next :: o.live })

/-- A lost handle that is closed after all. It leaves the lost handles and the live ones, and what
the variables hold is as before. -/
def close (o : Owner M) (h : Handle) : Owner M :=
  match h with
  | .opened id =>
    { o with live := o.live.erase id, closes := o.closes ++ [(h, decide (id ∈ o.live))] }
  | _ => { o with closes := o.closes ++ [(h, false)] }

/-- Opening a handle alone puts it into no variable. -/
@[simp] theorem acquire_var (o : Owner M) : o.acquire.2.var = o.var := rfl

/-- Closing a handle leaves it in the variables it stands in. -/
@[simp] theorem close_var (o : Owner M) (h : Handle) : (o.close h).var = o.var := by
  cases h <;> rfl

/-! ### What is held -/

section Held

variable [Fintype M]

/-- The handles in the variables, as often as they stand there. -/
def held (o : Owner M) : Multiset ℕ := ∑ m, (o.var m).ids

/-- Empty variables hold nothing. -/
theorem held_eq_zero {o : Owner M} (h : ∀ m, o.var m = .null) : o.held = 0 :=
  Finset.sum_eq_zero fun m _ => by rw [h m]; rfl

/-- The open handles are those of the others, the lost ones and those in the variables. `nodup` says
that each of them is there once, and `closes` that no call has closed what was not open. -/
structure Balanced (base lost : Multiset ℕ) (o : Owner M) : Prop where
  live : (o.live : Multiset ℕ) = base + lost + o.held
  nodup : o.live.Nodup
  fresh : ∀ id ∈ o.live, id < o.next
  /-- Only the value of a failed call is closed without being open. -/
  closes : ∀ c ∈ o.closes, c.2 = true ∨ c.1 = .invalid

namespace Balanced

variable {base lost : Multiset ℕ} {o : Owner M}

/-- Before the party has done anything. -/
theorem start {o : Owner M} (hnodup : o.live.Nodup) (hfresh : ∀ id ∈ o.live, id < o.next)
    (hcloses : o.closes = []) (hnull : ∀ m, o.var m = .null) : Balanced o.live 0 o where
  live := by rw [held_eq_zero hnull, add_zero, add_zero]
  nodup := hnodup
  fresh := hfresh
  closes := by
    rw [hcloses]
    exact List.forall_mem_nil _

/-- A new handle that is put nowhere. -/
theorem acquire (h : Balanced base lost o) : Balanced base (lost + {o.next}) o.acquire.2 where
  live := by
    -- the new handle is live and counts as lost until a variable holds it
    show ((o.next :: o.live : List ℕ) : Multiset ℕ) = base + (lost + {o.next}) + o.held
    rw [← Multiset.cons_coe, ← Multiset.singleton_add, h.live]
    abel
  nodup := List.nodup_cons.mpr ⟨fun hmem => Nat.lt_irrefl _ (h.fresh _ hmem), h.nodup⟩
  fresh := by
    intro id hid
    show id < o.next + 1
    -- its number is larger than any before
    rcases List.mem_cons.mp hid with rfl | hid
    · exact Nat.lt_succ_self _
    · exact Nat.lt_succ_of_lt (h.fresh id hid)
  closes := h.closes

/-- A lost handle that is closed after all. -/
theorem close {id : ℕ} (h : Balanced base (lost + {id}) o) :
    Balanced base lost (o.close (.opened id)) where
  live := by
    show ((o.live.erase id : List ℕ) : Multiset ℕ) = base + lost + o.held
    have hlive := h.live
    rw [← Multiset.coe_erase, hlive]
    -- the closed handle is taken out of the lost ones
    have hcons : base + (lost + {id}) + o.held = id ::ₘ (base + lost + o.held) := by
      rw [← Multiset.singleton_add]
      abel
    rw [hcons, Multiset.erase_cons_head]
  nodup := h.nodup.erase id
  fresh := fun i hi => h.fresh i (List.mem_of_mem_erase hi)
  closes := by
    -- it was live, so the close is a proper one
    have hmem : id ∈ o.live := by
      rw [← Multiset.mem_coe, h.live]
      simp
    intro c hc
    rcases List.mem_append.mp hc with hc | hc
    · exact h.closes c hc
    · rw [List.mem_singleton.mp hc]
      exact .inl (decide_eq_true hmem)

end Balanced

end Held

/-! ### Variables -/

section Variables

variable [DecidableEq M]

/-- An assignment. -/
def assign (o : Owner M) (m : M) (h : Handle) : Owner M :=
  { o with var := Function.update o.var m h }

/-- Close what stands in the variable, and forget it. -/
def safeClose (o : Owner M) (m : M) : Owner M :=
  if o.var m = .null then o else (o.close (o.var m)).assign m .null

/-- A call that opens a handle, and puts it into a variable. -/
def acquireInto (o : Owner M) (m : M) : Owner M := o.acquire.2.assign m o.acquire.1

/-- An assignment changes its variable only. -/
@[simp] theorem assign_var (o : Owner M) (m m' : M) (h : Handle) :
    (o.assign m h).var m' = if m' = m then h else o.var m' := Function.update_apply ..

/-- A new handle is in its variable, and the others keep what they have. -/
@[simp] theorem acquireInto_var (o : Owner M) (m m' : M) :
    (o.acquireInto m).var m' = if m' = m then .opened o.next else o.var m' := assign_var ..

/-- A variable that is closed is empty, also when it was so before. -/
@[simp] theorem safeClose_var (o : Owner M) (m m' : M) :
    (o.safeClose m).var m' = if m' = m then .null else o.var m' := by
  rw [safeClose]
  by_cases hnull : o.var m = .null
  · rw [if_pos hnull]
    split_ifs with h
    · rw [h, hnull]
    · rfl
  · rw [if_neg hnull, assign_var, close_var]

variable [Fintype M]

/-- What an assignment does to the handles held: the new value instead of the old one. Stated as a
sum, because multisets have no subtraction that would serve here. -/
theorem held_assign (o : Owner M) (m : M) (h : Handle) :
    (o.assign m h).held + (o.var m).ids = o.held + h.ids := by
  have hrest : ∑ x ∈ Finset.univ.erase m, ((o.assign m h).var x).ids =
      ∑ x ∈ Finset.univ.erase m, (o.var x).ids := by
    refine Finset.sum_congr rfl ?_
    intro x hx
    rw [assign_var, if_neg (Finset.ne_of_mem_erase hx)]
  have hmem := Finset.mem_univ m
  rw [held, held, ← Finset.add_sum_erase _ _ hmem, ← Finset.add_sum_erase _ _ hmem, hrest,
    assign_var, if_pos rfl]
  abel

namespace Balanced

variable {base lost : Multiset ℕ} {o : Owner M}

/-- The old value of the variable is lost, and the new one no longer. -/
theorem assign {v : Handle} (h : Balanced base (lost + v.ids) o) (m : M) :
    Balanced base (lost + (o.var m).ids) (o.assign m v) where
  live := by
    show (o.live : Multiset ℕ) = _
    calc (o.live : Multiset ℕ) = base + (lost + v.ids) + o.held := h.live
      _ = base + lost + (o.held + v.ids) := by abel
      _ = base + lost + ((o.assign m v).held + (o.var m).ids) := by rw [held_assign]
      _ = base + (lost + (o.var m).ids) + (o.assign m v).held := by abel
  nodup := h.nodup
  fresh := h.fresh
  closes := h.closes

/-- A new handle is put into a variable. -/
theorem acquireInto (h : Balanced base lost o) (m : M) :
    Balanced base (lost + (o.var m).ids) (o.acquireInto m) :=
  assign (v := .opened o.next) h.acquire m

/-- A variable is forgotten or gets the value of a failed call. -/
theorem assign_none {v : Handle} (h : Balanced base lost o) (hv : v.ids = 0) (m : M) :
    Balanced base (lost + (o.var m).ids) (o.assign m v) := by
  refine assign ?_ m
  rw [hv, add_zero]
  exact h

/-- Nothing is lost by closing: the handle of the variable is open and closed once, and the variable
forgets it. -/
theorem safeClose (h : Balanced base lost o) (m : M) : Balanced base lost (o.safeClose m) := by
  rw [Owner.safeClose]
  cases hv : o.var m with
  | null =>
    rw [if_pos rfl]
    exact h
  -- the value that a failed open returns is closed too, which does no harm
  | invalid =>
    rw [if_neg (by simp)]
    have hassign := h.assign_none (v := .null) rfl m
    rw [hv, show Handle.invalid.ids = 0 from rfl, add_zero] at hassign
    refine ⟨hassign.live, hassign.nodup, hassign.fresh, ?_⟩
    intro c hc
    rcases List.mem_append.mp hc with hc | hc
    · exact h.closes c hc
    · rw [List.mem_singleton.mp hc]
      exact .inr rfl
  -- an open handle is closed once, and its variable is NULL from here on
  | opened id =>
    rw [if_neg (by simp)]
    have hassign := h.assign_none (v := .null) rfl m
    rw [hv] at hassign
    exact hassign.close

end Balanced

end Variables

end Owner

end OnlineJudger.Lib
