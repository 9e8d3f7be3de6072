import OnlineJudger.Commen.RefPtr
import OnlineJudger.Lib.Slots
import Mathlib.Data.Finset.Card
import Mathlib.Data.Finset.Range

/-!
# `OnlineJudger.Proofs.Commen.RefHeap`: the references of a heap

`h.target k` is what the `RefPtr` `k` points to while it is live, and `h.refs S x` is the number
of the `RefPtr`s to `x`, without those in `S`.

* `Exact`: what holds between two operations. Each living object has as many references as its
  counter says, no reference leads to a destroyed object, and each object is destroyed once.
* `Falls h l x`: the object `x` is kept alive through the `RefPtr` `l` only.
-/

set_option autoImplicit false

namespace OnlineJudger

namespace Heap

variable {h h₀ h₁ : Heap} {S T : List Nat} {k l x y : Nat}

/-! ### Objects and references -/

/-- The object exists and was not destroyed. -/
def Alive (h : Heap) (x : Nat) : Prop := ∃ obj, h.objects[x]? = some obj ∧ obj.destroyed = false

/-- The object was destroyed. -/
def Gone (h : Heap) (x : Nat) : Prop := ∃ obj, h.objects[x]? = some obj ∧ obj.destroyed = true

/-- An object is not both. -/
theorem not_alive_of_gone (hx : h.Gone x) : ¬ h.Alive x := by
  rintro ⟨obj, hobj, halive⟩
  obtain ⟨obj', hobj', hgone⟩ := hx
  rw [hobj, Option.some.injEq] at hobj'
  rw [← hobj', halive] at hgone
  exact Bool.false_ne_true hgone

/-- An object that exists is alive or gone. -/
theorem alive_iff : h.Alive x ↔ x < h.objects.length ∧ ¬ h.Gone x := by
  refine ⟨fun hx => ⟨?_, fun hgone => not_alive_of_gone hgone hx⟩, ?_⟩
  · obtain ⟨obj, hobj, -⟩ := hx
    exact (List.getElem?_eq_some_iff.mp hobj).1
  · rintro ⟨hlt, hnot⟩
    refine ⟨h.objects[x], List.getElem?_eq_getElem hlt, ?_⟩
    rw [← Bool.not_eq_true]
    exact fun hd => hnot ⟨h.objects[x], List.getElem?_eq_getElem hlt, hd⟩

/-- What a live `RefPtr` points to. A destructed one counts for nothing, whatever it held. -/
def target (h : Heap) (k : Nat) : Option Nat :=
  match h.refPtrs[k]? with
  | none => none
  | some p => if p.live then p.ptr else none

/-- The `RefPtr` exists, and its destructor has not run. -/
def Live (h : Heap) (k : Nat) : Prop := ∃ p, h.refPtrs[k]? = some p ∧ p.live = true

/-- The destructor of the `RefPtr` has run. -/
def Dead (h : Heap) (k : Nat) : Prop := ∃ p, h.refPtrs[k]? = some p ∧ p.live = false

/-- The object that a `RefPtr` is a member of. -/
def owner (h : Heap) (k : Nat) : Option Nat := h.refPtrs[k]?.bind RefPtr.owner

/-- A target is the pointer of a live `RefPtr`. -/
theorem target_eq_some_iff : h.target k = some x ↔
    ∃ p, h.refPtrs[k]? = some p ∧ p.live = true ∧ p.ptr = some x := by
  unfold target
  cases h.refPtrs[k]? with
  | none => simp only [reduceCtorEq, false_and, exists_false]
  | some p =>
    cases hlive : p.live with
    | false => simp only [Bool.false_eq_true, if_false, reduceCtorEq, Option.some.injEq,
        exists_eq_left', hlive, false_and]
    | true => simp only [if_true, Option.some.injEq, exists_eq_left', hlive, true_and]

/-- A destructed `RefPtr` has no target. -/
theorem Dead.target (hk : h.Dead k) : h.target k = none := by
  obtain ⟨p, hp, hdead⟩ := hk
  rw [Heap.target, hp]
  exact if_neg (hdead ▸ Bool.false_ne_true)

/-- A `RefPtr` that is `NULL` has no target. -/
theorem target_eq_none_of_null {p : RefPtr} (hp : h.refPtrs[k]? = some p) (hptr : p.ptr = none) :
    h.target k = none := by
  rw [target, hp]
  exact ite_eq_right_iff.mpr fun _ => hptr

/-- The owner is a field that no operation changes. -/
theorem owner_eq_some_iff {c : Nat} :
    h.owner k = some c ↔ ∃ p, h.refPtrs[k]? = some p ∧ p.owner = some c :=
  Option.bind_eq_some_iff

/-- The members of an object are the `RefPtr`s that it owns, live or not. -/
theorem mem_members_iff : k ∈ h.members x ↔ h.owner k = some x := by
  rw [members, List.mem_filter, List.mem_reverse, List.mem_range, owner]
  cases hp : h.refPtrs[k]? with
  | none => simp only [Bool.false_eq_true, and_false, Option.bind_none, reduceCtorEq]
  | some p =>
    rw [Option.bind_some, beq_iff_eq, and_iff_right (List.getElem?_eq_some_iff.mp hp).1]

/-- So each member is destructed once. -/
theorem members_nodup (h : Heap) (x : Nat) : (h.members x).Nodup :=
  (List.nodup_reverse.mpr List.nodup_range).filter _

/-- The live `RefPtr`s to an object, without those in `S`. In the middle of a release `S` has the
ones that are no longer counted and still have their pointer. -/
def refSet (h : Heap) (S : List Nat) (x : Nat) : Finset Nat :=
  (Finset.range h.refPtrs.length).filter fun k => h.target k = some x ∧ k ∉ S

/-- The number of live `RefPtr`s to an object, without those in `S`. It is what the counter should
be. -/
def refs (h : Heap) (S : List Nat) (x : Nat) : Nat := (h.refSet S x).card

/-- Who is in the set is seen from its target and from `S`, and not from its place in the list. -/
theorem mem_refSet_iff : k ∈ h.refSet S x ↔ h.target k = some x ∧ k ∉ S := by
  rw [refSet, Finset.mem_filter, Finset.mem_range, and_iff_right_iff_imp]
  rintro ⟨htarget, -⟩
  obtain ⟨p, hp, -⟩ := target_eq_some_iff.mp htarget
  exact (List.getElem?_eq_some_iff.mp hp).1

/-- The number depends on the targets and on `S` only. -/
theorem refs_congr (hkeep : ∀ k, h.target k = some x ∧ k ∉ S ↔ h₁.target k = some x ∧ k ∉ T) :
    h.refs S x = h₁.refs T x := by
  refine congrArg Finset.card (Finset.ext fun k => ?_)
  rw [mem_refSet_iff, mem_refSet_iff, hkeep]

/-- An object without references has at most those that are set aside. -/
theorem refs_eq_zero_iff : h.refs S x = 0 ↔ ∀ k, h.target k = some x → k ∈ S := by
  rw [refs, Finset.card_eq_zero, Finset.eq_empty_iff_forall_notMem]
  refine forall_congr' fun k => ?_
  rw [mem_refSet_iff, not_and, not_not]

/-- A `RefPtr` to the object that is set aside takes one off. -/
theorem refs_eq_succ (hk : h.target k = some x) (hS : k ∉ S) :
    h.refs S x = h.refs (k :: S) x + 1 := by
  have herase : h.refSet (k :: S) x = (h.refSet S x).erase k := by
    ext j
    rw [Finset.mem_erase, mem_refSet_iff, mem_refSet_iff, List.mem_cons, not_or]
    tauto
  rw [refs, refs, herase, Finset.card_erase_add_one (mem_refSet_iff.mpr ⟨hk, hS⟩)]

/-- One that points elsewhere takes nothing off. -/
theorem refs_cons_of_ne (hk : h.target k ≠ some x) : h.refs (k :: S) x = h.refs S x := by
  refine refs_congr fun j => and_congr_right fun hj => ?_
  rw [List.mem_cons, not_or, and_iff_right_iff_imp]
  rintro - rfl
  exact hk hj

/-! ### Changes of the heap -/

/-- A `RefPtr` that changes leaves the objects alone. -/
@[simp] theorem setRefPtr_objects (h : Heap) (k : Nat) (p : RefPtr) :
    (h.setRefPtr k p).objects = h.objects := rfl

/-- The objects after one of them has changed. -/
theorem setObject_object {obj obj' : IBase} (hx : h.objects[x]? = some obj) (y : Nat) :
    (h.setObject x obj').objects[y]? = if x = y then some obj' else h.objects[y]? :=
  Lib.getElem?_set_of_some hx obj' y

/-- The `RefPtr`s after one of them has changed. -/
theorem setRefPtr_refPtr {p p' : RefPtr} (hk : h.refPtrs[k]? = some p) (j : Nat) :
    (h.setRefPtr k p').refPtrs[j]? = if k = j then some p' else h.refPtrs[j]? :=
  Lib.getElem?_set_of_some hk p' j

/-- What the `RefPtr`s point to behind an assignment of one of them. -/
theorem setRefPtr_target {p p' : RefPtr} (hk : h.refPtrs[k]? = some p) (j : Nat) :
    (h.setRefPtr k p').target j =
      if k = j then (if p'.live then p'.ptr else none) else h.target j := by
  rw [target, setRefPtr_refPtr hk]
  by_cases hj : k = j
  · rw [if_pos hj, if_pos hj]
  · rw [if_neg hj, if_neg hj]
    rfl

/-- One `RefPtr` does not point to anything any more. The others keep their targets. -/
theorem target_setRefPtr_null {p q : RefPtr} (hk : h.refPtrs[k]? = some p) (hq : q.ptr = none)
    (j x : Nat) : (h.setRefPtr k q).target j = some x ↔ j ≠ k ∧ h.target j = some x := by
  rw [setRefPtr_target hk]
  by_cases hj : k = j
  · rw [if_pos hj, hq, ite_self]
    exact iff_of_false (fun h => nomatch h) fun h => h.1 hj.symm
  · rw [if_neg hj, and_iff_right (Ne.symm hj)]

/-- This changes no number if the `RefPtr` was set aside, or pointed to nothing: it was not counted
before, either. -/
theorem refs_setRefPtr_null {S' : List Nat} {p q : RefPtr} (hp : h.refPtrs[k]? = some p)
    (hq : q.ptr = none) (hk : h.target k = none ∨ k ∈ S) (hS : ∀ j, j ∈ S' ↔ j ≠ k ∧ j ∈ S)
    (x : Nat) : (h.setRefPtr k q).refs S' x = h.refs S x := by
  -- the pointers counted are the same: all but `k`, or `k` is not counted either way
  refine refs_congr fun j => ?_
  rw [target_setRefPtr_null hp hq, hS]
  constructor
  · rintro ⟨⟨hjk, hj⟩, hjS⟩
    exact ⟨hj, fun hjS' => hjS ⟨hjk, hjS'⟩⟩
  · rintro ⟨hj, hjS⟩
    refine ⟨⟨?_, hj⟩, fun hjS' => hjS hjS'.2⟩
    rintro rfl
    -- `k` was NULL, or it has been set aside
    rcases hk with hnone | hjS'
    · rw [hnone] at hj
      exact absurd hj (Option.some_ne_none x).symm
    · exact hjS hjS'

/-- Which objects are destroyed after one of them has changed. -/
theorem setObject_gone {obj obj' : IBase} (hx : h.objects[x]? = some obj) (y : Nat) :
    (h.setObject x obj').Gone y ↔ if x = y then obj'.destroyed = true else h.Gone y := by
  unfold Gone
  rw [setObject_object hx]
  by_cases hy : x = y
  · rw [if_pos hy, if_pos hy]
    simp only [Option.some.injEq, exists_eq_left']
  · rw [if_neg hy, if_neg hy]

/-- A counter does not tell which objects are destroyed. -/
theorem setObject_gone_same {obj : IBase} (hx : h.objects[x]? = some obj) (count : Int) (y : Nat) :
    (h.setObject x { obj with refCounter := count }).Gone y ↔ h.Gone y := by
  rw [setObject_gone hx]
  by_cases hy : x = y
  · rw [if_pos hy, ← hy, Gone, hx]
    simp only [Option.some.injEq, exists_eq_left']
  · rw [if_neg hy]

/-- All objects stay managed if the changed one is. -/
theorem setObject_managed {obj obj' : IBase} (hx : h.objects[x]? = some obj)
    (hobj : obj'.managed = true)
    (hmanaged : ∀ (y : Nat) (o : IBase), h.objects[y]? = some o → o.managed = true) (y : Nat)
    (o : IBase) (hy : (h.setObject x obj').objects[y]? = some o) : o.managed = true := by
  rw [setObject_object hx] at hy
  split_ifs at hy with hxy
  · rw [← Option.some.inj hy, hobj]
  · exact hmanaged y o hy

/-- The object is destroyed, and nothing else happens yet. This is the first half of
`destroyThis`. -/
def mark (h : Heap) (x : Nat) (obj : IBase) : Heap :=
  { h.setObject x { obj with destroyed := true } with log := x :: h.log }

/-- One more object is gone. -/
theorem mark_gone {obj : IBase} (hx : h.objects[x]? = some obj) (y : Nat) :
    (h.mark x obj).Gone y ↔ y = x ∨ h.Gone y := by
  refine (setObject_gone hx y).trans ?_
  by_cases hy : x = y
  · rw [if_pos hy]
    exact iff_of_true rfl (.inl hy.symm)
  · rw [if_neg hy, or_iff_right (Ne.symm hy)]

/-! ### Between two operations -/

/-- The counters and the references agree. This holds between two operations of a program that does
nothing wrong, and it is the invariant of `counted_references_iff`. -/
structure Exact (h : Heap) : Prop where
  counter : ∀ (x : Nat) (obj : IBase), h.objects[x]? = some obj → obj.destroyed = false →
    obj.refCounter = (h.refs [] x : Int)
  /-- No live `RefPtr` points to a destroyed object. -/
  alive : ∀ k x : Nat, h.target k = some x → h.Alive x
  /-- The members of a destroyed object are destructed. -/
  members : ∀ (k c : Nat) (p : RefPtr), h.refPtrs[k]? = some p → p.owner = some c →
    h.Alive c ∧ p.live = true ∨ h.Gone c ∧ p.live = false
  dead : ∀ (k : Nat) (p : RefPtr), h.refPtrs[k]? = some p → p.live = false → p = p.destructed
  managed : ∀ (x : Nat) (obj : IBase), h.objects[x]? = some obj → obj.managed = true
  /-- No object is destroyed twice. -/
  nodup : h.log.Nodup
  log : ∀ x : Nat, x ∈ h.log ↔ h.Gone x

/-- Each `RefPtr` to `x` is `l`, or a member of an object that falls, and there is one. So the
release of `l` destroys `x`, directly or through a chain of members. Objects that keep each other
alive in a cycle do not fall, because the definition is inductive. -/
inductive Falls (h : Heap) (l : Nat) : Nat → Prop
  | intro {x : Nat} : (∃ k, h.target k = some x) →
      (∀ k, h.target k = some x → k ≠ l → h.owner k ≠ none) →
      (∀ k c, h.target k = some x → k ≠ l → h.owner k = some c → Falls h l c) → Falls h l x

end Heap

end OnlineJudger
