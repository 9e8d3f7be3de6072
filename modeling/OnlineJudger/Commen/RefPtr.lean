import OnlineJudger.Lib.Run

/-!
# `OnlineJudger.Commen.RefPtr`: counted references

The model of `Commen/RefPtr.h`, for one thread. Objects and `RefPtr`s are named by their places
in the lists of a `Heap`. A `RefPtr` belongs to an object or stands on its own, and the members of
an object are destructed with it, the last one first.

The destructor of an object releases its members, and a release may delete a further object. So
`delRef` is recursive, and it runs on fuel here. Each deletion takes a living object away, so
their number suffices.

Where the code uses an object behind its `delete this`, the model stops with a fault. The
counters are unbounded.
-/

set_option autoImplicit false

namespace OnlineJudger

/-- An `IBase`: the base of every counted object. Its other data is left out, but for the members
that are themselves `RefPtr`s, and these are in the list of the heap with this object as their
owner. -/
structure IBase where
  managed : Bool := true
  refCounter : Int := 0
  /-- `destroyThis` was called. -/
  destroyed : Bool := false
  deriving DecidableEq, Repr

/-- A `RefPtr`, on its own or as a member. The one in a destroyed object stays in the list, with
`live` cleared. -/
structure RefPtr where
  ptr : Option Nat := none
  /-- The object that it is a member of. -/
  owner : Option Nat := none
  /-- The destructor was not called. -/
  live : Bool := true
  deriving DecidableEq, Repr

/-- The `RefPtr` behind its destructor. Its place stays, so that a later use of it is seen. -/
def RefPtr.destructed (p : RefPtr) : RefPtr := { p with ptr := none, live := false }

/-- The objects and the `RefPtr`s of a program, in the order in which they were made. Nothing is
ever taken out of the lists, so a place names the same object for good. -/
structure Heap where
  objects : List IBase := []
  refPtrs : List RefPtr := []
  /-- The objects that were destroyed, the last one first. -/
  log : List Nat := []
  deriving DecidableEq, Repr

/-- What the code must not do. The language does not say what happens then, so a run stops there. -/
inductive RefFault where
  /-- The object is used, and it does not exist, or was destroyed. -/
  | object (x : Nat)
  /-- The `RefPtr` is used, and it does not exist, or was destructed. -/
  | refPtr (k : Nat)
  /-- The recursion of `delRef` is too deep for the model. -/
  | fuel
  deriving DecidableEq, Repr

namespace Heap

/-- An object changes. -/
def setObject (h : Heap) (x : Nat) (obj : IBase) : Heap :=
  { h with objects := h.objects.set x obj }

/-- A `RefPtr` changes. -/
def setRefPtr (h : Heap) (k : Nat) (p : RefPtr) : Heap :=
  { h with refPtrs := h.refPtrs.set k p }

/-- The members of an object, in the order in which they are destructed: the last one first. -/
def members (h : Heap) (x : Nat) : List Nat :=
  (List.range h.refPtrs.length).reverse.filter fun k =>
    match h.refPtrs[k]? with
    | none => false
    | some p => p.owner == some x

/-- `addRef`. A destroyed object has no counter any more, so counting there is a fault. -/
def addRef (h : Heap) (x : Nat) : Except RefFault Heap :=
  match h.objects[x]? with
  | none => .error (.object x)
  | some obj =>
    if obj.destroyed then .error (.object x)
    else .ok (h.setObject x { obj with refCounter := obj.refCounter + 1 })

/-- `~RefPtr`: the release of the target, and then `m_ptr = NULL`. `delRef` is the function that
releases an object, so that the two can call each other. While the release runs, the pointer still
holds its old target. -/
def destruct (delRef : Heap → Nat → Except RefFault Heap) (h : Heap) (k : Nat) :
    Except RefFault Heap :=
  match h.refPtrs[k]? with
  | none => .error (.refPtr k)
  | some p =>
    match p.ptr with
    | none => .ok (h.setRefPtr k p.destructed)
    | some x =>
      match delRef h x with
      | .error f => .error f
      | .ok h => .ok (h.setRefPtr k p.destructed)

/-- The destructors of several `RefPtr`s, one after the other. The first fault ends them. -/
def destructAll (delRef : Heap → Nat → Except RefFault Heap) : Heap → List Nat →
    Except RefFault Heap
  | h, [] => .ok h
  | h, k :: ks =>
    match destruct delRef h k with
    | .error f => .error f
    | .ok h => destructAll delRef h ks

/-- `destroyThis`, which is `delete this`. The object is destroyed first, and then the destructors
of its members run. -/
def destroyThis (delRef : Heap → Nat → Except RefFault Heap) (h : Heap) (x : Nat) (obj : IBase) :
    Except RefFault Heap :=
  let h := { h.setObject x { obj with destroyed := true } with log := x :: h.log }
  destructAll delRef h (h.members x)

/-- `delRef`, with fuel for the recursion through the members. The source deletes at a counter of 0
or less, and only an object that is managed. -/
def delRef : Nat → Heap → Nat → Except RefFault Heap
  | 0, _, _ => .error .fuel
  | fuel + 1, h, x =>
    match h.objects[x]? with
    | none => .error (.object x)
    | some obj =>
      -- a second `delete this` is no better than any other use
      if obj.destroyed then .error (.object x)
      else
        let obj := { obj with refCounter := obj.refCounter - 1 }
        if obj.refCounter ≤ 0 ∧ obj.managed then
          (h.setObject x obj).destroyThis (delRef fuel) x obj
        else .ok (h.setObject x obj)

/-- `m_ptr->delRef()`, unless `m_ptr` is `NULL`. The fuel is enough for every object once. -/
def release (h : Heap) : Option Nat → Except RefFault Heap
  | none => .ok h
  | some x => delRef (h.objects.length + 1) h x

/-- `operator=(T* ptr)`. The old target is released before the new one is stored and counted, and
this order is what can go wrong: the release may destroy the new target, or the object that the
`RefPtr` is a member of. -/
def assignPtr (h : Heap) (l : Nat) (ptr : Option Nat) : Except RefFault Heap :=
  match h.refPtrs[l]? with
  | none => .error (.refPtr l)
  | some p =>
    if ptr = p.ptr then .ok h
    else
      match h.release p.ptr with
      | .error f => .error f
      | .ok h =>
        -- `m_ptr` is written behind the release
        match h.refPtrs[l]? with
        | none => .error (.refPtr l)
        | some p =>
          if p.live = false then .error (.refPtr l)
          else
            let h := h.setRefPtr l { p with ptr := ptr }
            match ptr with
            | none => .ok h
            | some x => h.addRef x

/-- `RefPtr(T* ptr)`: a new pointer that is `NULL`, and then the assignment. -/
def construct (h : Heap) (ptr : Option Nat) : Except RefFault Heap :=
  { h with refPtrs := h.refPtrs ++ [({} : RefPtr)] }.assignPtr h.refPtrs.length ptr

/-- `get`. The pointer is read and not counted. -/
def get (h : Heap) (k : Nat) : Option Nat := h.refPtrs[k]?.bind RefPtr.ptr

/-- A new object, whose members are `NULL`. Nothing refers to it yet, so its counter is 0. -/
def create (h : Heap) (members : Nat) : Heap :=
  { h with
    objects := h.objects ++ [{}]
    refPtrs := h.refPtrs ++ List.replicate members { owner := some h.objects.length } }

end Heap

/-- What a program does with objects and `RefPtr`s. The members of an object are assigned like any
other `RefPtr`, but they are not destructed by themselves. -/
inductive RefAction where
  /-- `new`, with this many members. -/
  | create (members : Nat)
  /-- `RefPtr(T* ptr)`. -/
  | construct (ptr : Option Nat)
  /-- `RefPtr(const RefPtr<T>& ptr)`. -/
  | copy (k : Nat)
  /-- `operator=(T* ptr)` on the `RefPtr` `l`. -/
  | assignPtr (l : Nat) (ptr : Option Nat)
  /-- `operator=(const RefPtr<T>& ptr)` on the `RefPtr` `l`. -/
  | assign (l k : Nat)
  /-- `~RefPtr` of one that is no member. -/
  | destruct (l : Nat)
  deriving DecidableEq, Repr

/-- One operation. The constructor and the assignment from another `RefPtr` pass on its pointer. -/
def Heap.step (h : Heap) : RefAction → Except RefFault Heap
  | .create members => .ok (h.create members)
  | .construct ptr => h.construct ptr
  | .copy k => h.construct (h.get k)
  | .assignPtr l ptr => h.assignPtr l ptr
  | .assign l k => h.assignPtr l (h.get k)
  | .destruct l => h.destruct (Heap.delRef (h.objects.length + 1)) l

/-- The heap after an operation that runs into no fault. A run of this function is a program without
undefined behaviour. -/
def Heap.next (h : Heap) (a : RefAction) : Option Heap := (h.step a).toOption

/-- The heap after several operations. -/
def Heap.run (h : Heap) (actions : List RefAction) : Option Heap := Lib.run Heap.next h actions

end OnlineJudger
