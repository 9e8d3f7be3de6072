import OnlineJudger.Proofs.Commen.RefCascade

/-!
# `OnlineJudger.Proofs.Commen.RefPtr`: what the operations keep

Each operation is made of a few steps: new `RefPtr`s (`Exact.grow`), the release of an old
target (`release_spec`), the deletion of the pointer (`Released.clear`) and a new target
(`Exact.attach`).

* `assignPtr_spec`: an assignment does what it should, unless the new target, or the object of
  which the `RefPtr` is a member, falls with the old target.
* `counted_references_iff`: so the counters are exact, and each object is destroyed with its last
  reference, along a run in which each assignment is safe, and along no other.
-/

set_option autoImplicit false

namespace OnlineJudger

open Lib

namespace Heap

variable {h h₀ h₁ h' : Heap} {S : List Nat} {k l x y c : Nat} {p q : RefPtr} {ptr : Option Nat}

/-- The objects that are destroyed are those that have lost their last reference. An object that
never had one is not destroyed. -/
def Accounts (h h' : Heap) : Prop :=
  ∀ x, h.Alive x → (h'.Gone x ↔ 0 < h.refs [] x ∧ h'.refs [] x = 0)

/-- A heap in which nothing was destroyed, and no reference was lost. -/
theorem accounts_of_le (hgone : ∀ x, h'.Gone x ↔ h.Gone x)
    (hrefs : ∀ x, h.refs [] x ≤ h'.refs [] x) : Accounts h h' := by
  intro x halive
  refine iff_of_false (fun hx => not_alive_of_gone ((hgone x).mp hx) halive) ?_
  rintro ⟨hpos, hzero⟩
  exact absurd (hzero ▸ hrefs x) (Nat.not_le_of_lt hpos)

/-! ### New objects and new `RefPtr`s -/

/-- The heap with new objects, and new `RefPtr`s that are `NULL`. -/
def grow (h : Heap) (n : Nat) (owners : List (Option Nat)) : Heap :=
  { h with
    objects := h.objects ++ List.replicate n {}
    refPtrs := h.refPtrs ++ owners.map fun owner => { owner := owner } }

section Grow

variable {n : Nat} {owners : List (Option Nat)}

/-- An object of the larger heap was there, or it is new and counts nothing. -/
theorem grow_object {obj : IBase} (hx : (h.grow n owners).objects[x]? = some obj) :
    h.objects[x]? = some obj ∨ obj = {} ∧ h.objects.length ≤ x := by
  rw [grow, List.getElem?_append] at hx
  split_ifs at hx with hlt
  · exact .inl hx
  · exact .inr ⟨(List.mem_replicate.mp (List.mem_of_getElem? hx)).2, Nat.le_of_not_lt hlt⟩

/-- A `RefPtr` of the larger heap was there, or it is new and `NULL`. -/
theorem grow_refPtr (hp : (h.grow n owners).refPtrs[k]? = some p) :
    h.refPtrs[k]? = some p ∨ ∃ owner ∈ owners, p = { owner := owner } := by
  rw [grow, List.getElem?_append] at hp
  split_ifs at hp with hlt
  · exact .inl hp
  · obtain ⟨owner, howner, rfl⟩ := List.mem_map.mp (List.mem_of_getElem? hp)
    exact .inr ⟨owner, howner, rfl⟩

/-- No new object is destroyed. -/
theorem grow_gone : (h.grow n owners).Gone x ↔ h.Gone x := by
  constructor
  · rintro ⟨obj, hx, hd⟩
    rcases grow_object hx with hx | ⟨rfl, -⟩
    · exact ⟨obj, hx, hd⟩
    · exact absurd hd Bool.false_ne_true
  · rintro ⟨obj, hx, hd⟩
    exact ⟨obj, (List.getElem?_append_left (List.getElem?_eq_some_iff.mp hx).1).trans hx, hd⟩

/-- The new objects are alive. -/
theorem grow_alive : (h.grow n owners).Alive x ↔ x < h.objects.length + n ∧ ¬ h.Gone x := by
  rw [alive_iff, grow_gone, grow, List.length_append, List.length_replicate]

/-- A new `RefPtr` has no target, as a place without a `RefPtr` has none. -/
theorem grow_target (k : Nat) : (h.grow n owners).target k = h.target k := by
  refine Option.ext fun x => ?_
  rw [target_eq_some_iff, target_eq_some_iff]
  constructor
  · rintro ⟨p, hp, hlive, hptr⟩
    rcases grow_refPtr hp with hp | ⟨owner, -, rfl⟩
    · exact ⟨p, hp, hlive, hptr⟩
    · exact absurd hptr (Option.some_ne_none x).symm
  · rintro ⟨p, hp, hlive, hptr⟩
    exact ⟨p, (List.getElem?_append_left (List.getElem?_eq_some_iff.mp hp).1).trans hp, hlive, hptr⟩

/-- No object is counted differently. -/
theorem grow_refs (S : List Nat) (x : Nat) : (h.grow n owners).refs S x = h.refs S x :=
  refs_congr fun k => by rw [grow_target]

/-- The counters stay exact. Each new `RefPtr` belongs to one of the new objects, or to none, and
none of them points anywhere yet. -/
theorem Exact.grow (hexact : Exact h)
    (howners : ∀ owner ∈ owners, ∀ c, owner = some c →
      h.objects.length ≤ c ∧ c < h.objects.length + n) : Exact (h.grow n owners) where
  counter x obj hx hd := by
    rw [grow_refs]
    -- an old object keeps its owners, a new one has none
    rcases grow_object hx with hx | ⟨rfl, hle⟩
    · exact hexact.counter x obj hx hd
    -- no pointer can have aimed at an object that was not there
    · have hzero : h.refs [] x = 0 := refs_eq_zero_iff.mpr fun k hk =>
        absurd (alive_iff.mp (hexact.alive k x hk)).1 (Nat.not_lt_of_le hle)
      rw [hzero]
      rfl
  alive k x hk := by
    rw [grow_target] at hk
    have halive := alive_iff.mp (hexact.alive k x hk)
    exact grow_alive.mpr ⟨Nat.lt_add_right n halive.1, halive.2⟩
  members k c p hp hc := by
    rw [grow_alive, grow_gone]
    -- the members of old objects
    rcases grow_refPtr hp with hp | ⟨owner, howner, rfl⟩
    · refine (hexact.members k c p hp hc).imp_left fun ⟨halive, hlive⟩ => ⟨?_, hlive⟩
      exact ⟨Nat.lt_add_right n (alive_iff.mp halive).1, (alive_iff.mp halive).2⟩
    -- the members of the new ones are alive with them
    · obtain ⟨hle, hlt⟩ := howners owner howner c hc
      refine .inl ⟨⟨hlt, ?_⟩, rfl⟩
      rintro ⟨obj, hobj, -⟩
      exact absurd (List.getElem?_eq_some_iff.mp hobj).1 (Nat.not_lt_of_le hle)
  dead k p hp hdead := by
    -- a new pointer is never dead
    rcases grow_refPtr hp with hp | ⟨owner, -, rfl⟩
    · exact hexact.dead k p hp hdead
    · exact absurd hdead.symm Bool.false_ne_true
  managed x obj hx := by
    rcases grow_object hx with hx | ⟨rfl, -⟩
    · exact hexact.managed x obj hx
    · rfl
  nodup := hexact.nodup
  log x := (hexact.log x).trans grow_gone.symm

/-- Nothing was destroyed. -/
theorem grow_accounts : Accounts h (h.grow n owners) :=
  accounts_of_le (fun _ => grow_gone) fun x => (grow_refs [] x).ge

end Grow

/-! ### A release -/

/-- The heap `h₁` behind the release of the `RefPtr` `l`, which still has its pointer. It is the
only element of `S`, unless it was `NULL`. -/
structure Released (h : Heap) (l : Nat) (h₁ : Heap) (S : List Nat) : Prop where
  cascade : Cascade h l h₁ S []
  kept : Kept h h₁ S
  only : ∀ j ∈ S, j = l
  self : h₁.target l = none ∨ l ∈ S
  refPtr : h₁.refPtrs[l]? = h.refPtrs[l]?

/-- A release goes through, or it destroys the object of which `l` is a member. The fuel of the
model is never used up. -/
theorem release_spec (hexact : Exact h) (hp : h.refPtrs[l]? = some p) (hlive : p.live = true) :
    match h.release p.ptr with
    | .error f => f ≠ .fuel ∧ ∃ c, h.owner l = some c ∧ Falls h l c
    | .ok h₁ => ∃ S, Released h l h₁ S := by
  -- a NULL pointer releases nothing
  cases hptr : p.ptr with
  | none =>
    exact ⟨[], hexact.cascade l, fun _ _ h => h, fun _ hj => absurd hj List.not_mem_nil,
      .inl (target_eq_none_of_null hp hptr), rfl⟩
  | some x =>
    -- otherwise `delRef` goes down from the target, with fuel for every survivor
    have hk : h.target l = some x := target_eq_some_iff.mpr ⟨p, hp, hlive, hptr⟩
    have hends := delRef_spec (T := []) hexact (h.objects.length + 1)
      { cascade := hexact.cascade l, kept := fun _ _ h => h, fresh := List.not_mem_nil
        turn := .inl ⟨rfl, rfl⟩, first := fun hne => absurd rfl hne }
      hk (Nat.lt_succ_of_le (card_survivors_le h))
    rw [release]
    -- an error is a fall of the cascade, which `delRef_spec` locates
    cases hr : delRef (h.objects.length + 1) h x with
    | error f =>
      rw [hr] at hends
      exact hends
    | ok h₁ =>
      rw [hr] at hends
      obtain ⟨hc, hkept, -⟩ := hends
      obtain ⟨⟨y, hy⟩, -⟩ := hc.pending l (List.mem_cons_self ..)
      exact ⟨[l], hc, hkept, fun _ => List.mem_singleton.mp, .inr (List.mem_cons_self ..),
        (hc.refPtr_eq hy).symm⟩

namespace Released

/-- What is left of `S` when `l` gets a new pointer: nothing. -/
theorem only_iff (hr : Released h l h₁ S) (j : Nat) : j ∈ ([] : List Nat) ↔ j ≠ l ∧ j ∈ S :=
  iff_of_false List.not_mem_nil fun hj => hj.1 (hr.only j hj.2)

/-- The members of the objects that were destroyed are destructed. -/
theorem dead_of_owner (hr : Released h l h₁ S) (howner : h.owner k = some c) (hc : h₁.Gone c) :
    h₁.Dead k := by
  rcases hr.cascade.members k c howner hc with hk | hk | hdead
  · exact absurd hk List.not_mem_nil
  · exact absurd ((hr.only_iff k).mpr hk.symm) List.not_mem_nil
  · exact hdead

/-- What falls is destroyed. The induction is on the derivation of `Falls`: the owners of all other
references are gone, so these are destructed, and the counter has come to 0. -/
theorem gone_of_falls (hr : Released h l h₁ S) (hexact : Exact h) (hx : Falls h l x) :
    h₁.Gone x := by
  induction hx with
  | @intro x hsome howned _ ih =>
    obtain ⟨k, hk⟩ := hsome
    refine (hr.cascade.alive_or_gone (hexact.alive k x hk)).resolve_left fun halive => ?_
    -- each reference that is left is `l`
    have hzero : h₁.refs S x = 0 := by
      refine refs_eq_zero_iff.mpr fun j hj => ?_
      have hj₀ := hr.cascade.target₀ hj
      by_cases hjl : j = l
      · refine hjl ▸ hr.self.resolve_left fun hnone => ?_
        rw [← hjl, hj] at hnone
        exact Option.some_ne_none x hnone
      · obtain ⟨c, howner⟩ := Option.ne_none_iff_exists'.mp (howned j hj₀ hjl)
        have hdead := hr.dead_of_owner howner (ih j c hj₀ hjl howner)
        rw [hdead.target] at hj
        exact absurd hj (Option.some_ne_none x).symm
    exact List.not_mem_nil (refs_eq_zero_iff.mp (hr.kept x halive hzero) k hk)

/-- What the release destroys is what falls, and nothing else. -/
theorem gone_iff (hr : Released h l h₁ S) (hexact : Exact h) :
    h₁.Gone x ↔ h.Gone x ∨ Falls h l x :=
  ⟨hr.cascade.falls x, fun hx => hx.elim (hr.cascade.gone x) (hr.gone_of_falls hexact)⟩

/-- The object of which `l` is a member is not destroyed: `l` would be destructed with it, and
`m_ptr` would be written to a dead member. -/
theorem owner_not_gone (hr : Released h l h₁ S) (hl : h.Live l) (howner : h.owner l = some c) :
    ¬ h₁.Gone c := by
  intro hgone
  obtain ⟨p, hp, hdead⟩ := hr.dead_of_owner howner hgone
  obtain ⟨p', hp', hlive⟩ := hl
  rw [hr.refPtr, hp', Option.some.injEq] at hp
  rw [hp, hdead] at hlive
  exact Bool.false_ne_true hlive

/-- `m_ptr = NULL` behind the release. With the last element of `S` gone, the counters are exact
again. -/
theorem clear (hr : Released h l h₁ S) (hexact : Exact h) (hp : h.refPtrs[l]? = some p)
    (hlive : p.live = true) (howner : q.owner = p.owner) (hnull : q.ptr = none)
    (hq : q.live = true ∨ p.owner = none) : Exact (h₁.setRefPtr l q) := by
  have hp₁ : h₁.refPtrs[l]? = some p := hr.refPtr.trans hp
  have hrefs := refs_setRefPtr_null hp₁ hnull hr.self hr.only_iff
  refine
    { counter := fun x obj hx hd => (hr.cascade.counter x obj hx hd).trans
        (congrArg _ (hrefs x).symm)
      alive := ?alive, members := ?members, dead := ?dead
      managed := hr.cascade.managed, nodup := hr.cascade.nodup, log := hr.cascade.log }
  -- a pointer other than the cleared one aims at an object that the cascade has spared
  case alive =>
    intro k x hk
    obtain ⟨hkl, hk⟩ := (target_setRefPtr_null hp₁ hnull k x).mp hk
    refine (hr.cascade.alive_or_gone (hexact.alive k x (hr.cascade.target₀ hk))).resolve_right ?_
    exact fun hgone => hkl (hr.only k (hr.cascade.released k x hk hgone))
  case members =>
    intro k c p' hp' hc
    rw [setRefPtr_refPtr hp₁] at hp'
    -- the cleared pointer: its owner is alive, since the cascade did not take it
    split_ifs at hp' with hkl
    · obtain rfl := Option.some.inj hp'
      rw [howner] at hc
      refine .inl ⟨?_, hq.resolve_right fun hnone => Option.some_ne_none c (hc.symm.trans hnone)⟩
      rcases hexact.members l c p hp hc with ⟨halive, -⟩ | ⟨-, hdead⟩
      · exact (hr.cascade.alive_or_gone halive).resolve_right
          (hr.owner_not_gone ⟨p, hp, hlive⟩ (owner_eq_some_iff.mpr ⟨p, hp, hc⟩))
      · exact absurd (hlive.symm.trans hdead) Bool.noConfusion
    -- another member: it has died with its owner, or both have been spared
    · have howner' : h.owner k = some c :=
        (hr.cascade.owner_eq k).symm.trans (owner_eq_some_iff.mpr ⟨p', hp', hc⟩)
      have hdead : h₁.Gone c → p'.live = false := fun hgone => by
        obtain ⟨p'', hp'', hdead⟩ := hr.dead_of_owner howner' hgone
        rwa [Option.some.inj (hp'.symm.trans hp'')]
      obtain ⟨p₀, hp₀, rfl | ⟨rfl, c', hc', hgone⟩⟩ := hr.cascade.refPtr₀ hp'
      · rcases hexact.members k c p' hp₀ hc with ⟨halive, hlive'⟩ | ⟨hgone, -⟩
        · rcases hr.cascade.alive_or_gone halive with halive | hgone
          · exact .inl ⟨halive, hlive'⟩
          · exact .inr ⟨hgone, hdead hgone⟩
        · exact .inr ⟨hr.cascade.gone c hgone, hdead (hr.cascade.gone c hgone)⟩
      · exact .inr ⟨Option.some.inj (hc'.symm.trans hc) ▸ hgone, rfl⟩
  case dead =>
    intro k p' hp' hdead
    rw [setRefPtr_refPtr hp₁] at hp'
    -- a dead pointer is NULL
    split_ifs at hp' with hkl
    · obtain rfl := Option.some.inj hp'
      rw [RefPtr.destructed, ← hnull, ← hdead]
    · obtain ⟨p₀, hp₀, rfl | ⟨rfl, -⟩⟩ := hr.cascade.refPtr₀ hp'
      · exact hexact.dead k p' hp₀ hdead
      · rfl

/-- The release destroys what it has to, whatever happens to `l` afterwards. -/
theorem accounts (hr : Released h l h₁ S) (hexact : Exact h') (hgone : ∀ x, h'.Gone x ↔ h₁.Gone x)
    (hrefs : ∀ x, h₁.refs S x ≤ h'.refs [] x) : Accounts h h' := by
  intro x halive
  rw [hgone]
  constructor
  · intro hx
    refine ⟨?_, refs_eq_zero_iff.mpr fun k hk => ?_⟩
    · rcases hr.cascade.falls x hx with hx | hx
      · exact absurd halive (not_alive_of_gone hx)
      · obtain ⟨⟨k, hk⟩, -⟩ := hx
        refine Nat.pos_of_ne_zero fun hzero => ?_
        exact List.not_mem_nil (refs_eq_zero_iff.mp hzero k hk)
    · exact absurd (hexact.alive k x hk) (not_alive_of_gone ((hgone x).mpr hx))
  · rintro ⟨hpos, hzero⟩
    refine (hr.cascade.alive_or_gone halive).resolve_left fun halive' => ?_
    have := hr.kept x halive' (Nat.eq_zero_of_le_zero (hzero ▸ hrefs x))
    exact absurd this (Nat.ne_of_gt hpos)

end Released

/-! ### An assignment -/

/-- The heap in which the `RefPtr` `l` is set to a living object, which counts it. This is the end
of an assignment that found its old target released. -/
def attach (h : Heap) (l : Nat) (p : RefPtr) (x : Nat) (obj : IBase) : Heap :=
  (h.setRefPtr l { p with ptr := some x }).setObject x { obj with refCounter := obj.refCounter + 1 }

section Attach

variable {obj : IBase}

/-- Nothing is destroyed by it. -/
theorem attach_gone (hx : h.objects[x]? = some obj) (y : Nat) :
    (h.attach l p x obj).Gone y ↔ h.Gone y :=
  setObject_gone_same (h := h.setRefPtr l { p with ptr := some x }) hx _ y

/-- One target is new. -/
theorem attach_target (hp : h.refPtrs[l]? = some p) (hlive : p.live = true) (k : Nat) :
    (h.attach l p x obj).target k = if l = k then some x else h.target k := by
  refine (setRefPtr_target hp k).trans ?_
  rw [hlive]
  rfl

/-- The new target has one reference more, and no other object has. -/
theorem attach_refs (hp : h.refPtrs[l]? = some p) (hlive : p.live = true) (hnull : p.ptr = none)
    (y : Nat) : (h.attach l p x obj).refs [] y = h.refs [] y + if x = y then 1 else 0 := by
  have hl : (h.attach l p x obj).target l = some x := (attach_target hp hlive l).trans (if_pos rfl)
  -- without `l`, nothing is new
  have hrest : (h.attach l p x obj).refs [l] y = h.refs [] y := by
    refine refs_congr fun k => ?_
    rw [attach_target hp hlive, List.mem_singleton, and_iff_left List.not_mem_nil]
    split_ifs with hk
    · subst hk
      rw [target_eq_none_of_null hp hnull]
      exact iff_of_false (fun h => h.2 rfl) (fun h => nomatch h)
    · exact and_iff_left (Ne.symm hk)
  split_ifs with hxy
  · subst hxy
    rw [refs_eq_succ hl List.not_mem_nil, hrest]
  · rw [← hrest, refs_cons_of_ne, Nat.add_zero]
    rw [hl]
    exact fun heq => hxy (Option.some.inj heq)

/-- The counter was incremented with the number of references, so it stays exact. Only one `RefPtr`
and one counter change; for every other object both sides are as before. -/
theorem Exact.attach (hexact : Exact h) (hp : h.refPtrs[l]? = some p) (hlive : p.live = true)
    (hnull : p.ptr = none) (hx : h.objects[x]? = some obj) (halive : obj.destroyed = false) :
    Exact (h.attach l p x obj) := by
  have hgone : ∀ y, (h.attach l p x obj).Gone y ↔ h.Gone y := attach_gone hx
  have hsame : ∀ y, (h.attach l p x obj).Alive y ↔ h.Alive y := fun y => by
    rw [alive_iff, alive_iff, hgone]
    refine and_congr_left fun _ => ?_
    rw [Heap.attach, setObject, List.length_set, setRefPtr_objects]
  have hobject : ∀ y, (h.attach l p x obj).objects[y]? = if x = y then
      some { obj with refCounter := obj.refCounter + 1 } else h.objects[y]? :=
    setObject_object (h := h.setRefPtr l { p with ptr := some x }) hx
  have hrefPtr : ∀ k, (h.attach l p x obj).refPtrs[k]? = if l = k then
      some { p with ptr := some x } else h.refPtrs[k]? := setRefPtr_refPtr hp
  refine
    { counter := ?counter, alive := ?alive, members := ?members, dead := ?dead
      managed := setObject_managed (h := h.setRefPtr l { p with ptr := some x }) hx
        (hexact.managed x obj hx) hexact.managed
      nodup := hexact.nodup
      log := fun y => (hexact.log y).trans (hgone y).symm }
  -- one more pointer and one more in the counter
  case counter =>
    intro y obj' hy hd
    rw [attach_refs hp hlive hnull]
    rw [hobject] at hy
    split_ifs at hy ⊢ with hxy
    · rw [← Option.some.inj hy, ← hxy, Int.natCast_add, ← hexact.counter x obj hx halive]
      rfl
    · exact hexact.counter y obj' hy hd
  case alive =>
    -- the new target is the object just checked to be alive
    intro k y hk
    rw [attach_target hp hlive] at hk
    rw [hsame]
    split_ifs at hk
    · exact Option.some.inj hk ▸ ⟨obj, hx, halive⟩
    · exact hexact.alive k y hk
  case members =>
    intro k c p' hp' hc
    rw [hsame, hgone]
    rw [hrefPtr] at hp'
    -- owner and life of the pointer are untouched
    split_ifs at hp' with hk
    · obtain rfl := Option.some.inj hp'
      exact hexact.members l c p hp hc
    · exact hexact.members k c p' hp' hc
  case dead =>
    intro k p' hp' hdead
    rw [hrefPtr] at hp'
    split_ifs at hp' with hk
    · obtain rfl := Option.some.inj hp'
      exact absurd (hlive.symm.trans hdead) Bool.noConfusion
    · exact hexact.dead k p' hp' hdead

end Attach

/-- Nothing that the assignment still needs falls with the old target of `l`: neither the new
target, which it counts, nor the object that `l` is a member of, to which it writes. An assignment
of the pointer that is there already does nothing. -/
def SafeAssign (h : Heap) (l : Nat) (ptr : Option Nat) : Prop :=
  ptr = h.get l ∨
    (∀ x, ptr = some x → ¬ Falls h l x) ∧ ∀ c, h.owner l = some c → ¬ Falls h l c

/-- A living object counts one more. -/
theorem addRef_of_alive {obj : IBase} (hx : h.objects[x]? = some obj)
    (halive : obj.destroyed = false) :
    h.addRef x = .ok (h.setObject x { obj with refCounter := obj.refCounter + 1 }) := by
  rw [addRef, hx]
  exact if_neg (halive ▸ Bool.false_ne_true)

/-- A destroyed one is a fault. -/
theorem addRef_of_gone (hx : h.Gone x) : h.addRef x = .error (.object x) := by
  obtain ⟨obj, hobj, hd⟩ := hx
  rw [addRef, hobj]
  exact if_pos hd

/-- The guard `ptr != m_ptr`. -/
theorem assignPtr_of_eq (hp : h.refPtrs[l]? = some p) (heq : ptr = p.ptr) :
    h.assignPtr l ptr = .ok h := by
  rw [assignPtr, hp]
  exact if_pos heq

/-- A fault of the release is one of the assignment. -/
theorem assignPtr_of_error {f : RefFault} (hp : h.refPtrs[l]? = some p) (hne : ptr ≠ p.ptr)
    (hr : h.release p.ptr = .error f) : h.assignPtr l ptr = .error f := by
  rw [assignPtr, hp]
  refine (if_neg hne).trans ?_
  rw [hr]

/-- Behind a release that leaves `l` as it is, the new pointer is stored and counted. -/
theorem assignPtr_of_release (hp : h.refPtrs[l]? = some p) (hne : ptr ≠ p.ptr)
    (hr : h.release p.ptr = .ok h₁) (hp₁ : h₁.refPtrs[l]? = some p) (hlive : p.live = true) :
    h.assignPtr l ptr =
      match ptr with
      | none => .ok (h₁.setRefPtr l { p with ptr := none })
      | some x => (h₁.setRefPtr l { p with ptr := some x }).addRef x := by
  rw [assignPtr, hp]
  refine (if_neg hne).trans ?_
  simp only [hr, hp₁, hlive, Bool.true_eq_false, if_false]
  cases ptr <;> rfl

/-- What an assignment does: it keeps the counters exact if it is safe, and it is a fault if not.
The cases are the same pointer, a release that destroys the owner, and a release that goes through,
behind which the new target is alive or gone. -/
theorem assignPtr_spec (hexact : Exact h) (hl : h.Live l) (hptr : ∀ x, ptr = some x → h.Alive x) :
    match h.assignPtr l ptr with
    | .error f => f ≠ .fuel ∧ ¬ SafeAssign h l ptr
    | .ok h' => SafeAssign h l ptr ∧ Exact h' ∧ Accounts h h' := by
  obtain ⟨p, hp, hlive⟩ := hl
  have hget : h.get l = p.ptr := by rw [get, hp, Option.bind_some]
  by_cases heq : ptr = p.ptr
  · rw [assignPtr_of_eq hp heq]
    exact ⟨.inl (heq.trans hget.symm), hexact,
      accounts_of_le (fun _ => Iff.rfl) fun _ => Nat.le_refl _⟩
  have hrelease := release_spec hexact hp hlive
  cases hr : h.release p.ptr with
  | error f =>
    rw [hr] at hrelease
    obtain ⟨hfuel, c, howner, hfalls⟩ := hrelease
    rw [assignPtr_of_error hp heq hr]
    refine ⟨hfuel, ?_⟩
    rintro (hsame | ⟨-, hsafe⟩)
    · exact heq (hsame.trans hget)
    · exact hsafe c howner hfalls
  | ok h₁ =>
    rw [hr] at hrelease
    obtain ⟨S, hr'⟩ := hrelease
    have hp₁ := hr'.refPtr.trans hp
    rw [assignPtr_of_release hp heq hr hp₁ hlive]
    have howner : ∀ c, h.owner l = some c → ¬ Falls h l c := fun c hc hfalls =>
      hr'.owner_not_gone ⟨p, hp, hlive⟩ hc (hr'.gone_of_falls hexact hfalls)
    have hnull := refs_setRefPtr_null (q := { p with ptr := none }) hp₁ rfl hr'.self hr'.only_iff
    have hclear := hr'.clear (q := { p with ptr := none }) hexact hp hlive rfl rfl (.inl hlive)
    cases ptr with
    | none =>
      exact ⟨.inr ⟨fun _ hx => absurd hx (Option.some_ne_none _).symm, howner⟩, hclear,
        hr'.accounts hclear (fun _ => Iff.rfl) fun x => (hnull x).ge⟩
    | some x =>
      by_cases hgone : h₁.Gone x
      · -- the new target fell with the old one
        simp only [addRef_of_gone (h := h₁.setRefPtr l { p with ptr := some x }) hgone]
        refine ⟨RefFault.noConfusion, ?_⟩
        rintro (hsame | ⟨hsafe, -⟩)
        · exact heq (hsame.trans hget)
        · refine hsafe x rfl (((hr'.gone_iff hexact).mp hgone).resolve_left fun hgone₀ => ?_)
          exact not_alive_of_gone hgone₀ (hptr x rfl)
      · obtain ⟨obj, hx, halive⟩ :=
          (hr'.cascade.alive_or_gone (hptr x rfl)).resolve_right hgone
        have hpn : (h₁.setRefPtr l { p with ptr := none }).refPtrs[l]? =
            some { p with ptr := none } := by
          rw [setRefPtr_refPtr hp₁, if_pos rfl]
        have hattach := hclear.attach hpn hlive rfl hx halive
        have hresult : (h₁.setRefPtr l { p with ptr := some x }).addRef x =
            .ok ((h₁.setRefPtr l { p with ptr := none }).attach l { p with ptr := none } x
              obj) := by
          rw [addRef_of_alive (h := h₁.setRefPtr l { p with ptr := some x }) hx halive, attach,
            setRefPtr, setRefPtr, setRefPtr, List.set_set]
        simp only [hresult]
        refine ⟨.inr ⟨fun y hy hfalls => ?_, howner⟩, hattach, ?_⟩
        · exact hgone (Option.some.inj hy ▸ hr'.gone_of_falls hexact hfalls)
        · refine hr'.accounts hattach (attach_gone hx) fun y => ?_
          rw [attach_refs hpn hlive rfl, hnull]
          exact Nat.le_add_right ..

/-! ### The operations -/

/-- Nothing falls with a `RefPtr` that is `NULL`: what falls has a reference, and so has the object
that falls first. -/
theorem not_falls_of_null (hl : h.target l = none) : ¬ Falls h l x := by
  intro hx
  induction hx with
  | @intro x hsome howned _ ih =>
    obtain ⟨k, hk⟩ := hsome
    have hkl : k ≠ l := by
      rintro rfl
      rw [hl] at hk
      exact Option.some_ne_none x hk.symm
    obtain ⟨c, howner⟩ := Option.ne_none_iff_exists'.mp (howned k hk hkl)
    exact ih k c hk hkl howner

/-- What a program may do: it uses `RefPtr`s that were not destructed and objects that were not
destroyed, and leaves it to an object to destruct its members. -/
def Allowed (h : Heap) : RefAction → Prop
  | .create _ => True
  | .construct ptr => ∀ x, ptr = some x → h.Alive x
  | .copy k => h.Live k
  | .assignPtr l ptr => h.Live l ∧ ∀ x, ptr = some x → h.Alive x
  | .assign l k => h.Live l ∧ h.Live k
  | .destruct l => h.Live l ∧ h.owner l = none

/-- The assignments in which nothing that is still needed falls with the old target. The other
operations are always safe. -/
def Safe (h : Heap) : RefAction → Prop
  | .assignPtr l ptr => h.SafeAssign l ptr
  | .assign l k => h.SafeAssign l (h.get k)
  | _ => True

/-- The pointer of a live `RefPtr` leads to a living object. -/
theorem Exact.alive_of_get (hexact : Exact h) (hk : h.Live k) (hx : h.get k = some x) :
    h.Alive x := by
  obtain ⟨p, hp, hlive⟩ := hk
  rw [get, hp, Option.bind_some] at hx
  exact hexact.alive k x (target_eq_some_iff.mpr ⟨p, hp, hlive, hx⟩)

/-- `new` is a larger heap, with one object and its members. -/
theorem create_eq (h : Heap) (members : Nat) :
    h.create members = h.grow 1 (List.replicate members (some h.objects.length)) := by
  rw [create, grow, List.map_replicate]
  rfl

/-- A constructor is an assignment to a new `RefPtr` that is `NULL`. -/
theorem construct_eq (h : Heap) (ptr : Option Nat) :
    h.construct ptr = (h.grow 0 [none]).assignPtr h.refPtrs.length ptr := by
  rw [construct, grow, List.replicate_zero, List.append_nil]
  rfl

/-- A constructor is always right, since nothing is released. The new `RefPtr` is attached to the
object, if there is one. -/
theorem construct_spec (hexact : Exact h) (hptr : ∀ x, ptr = some x → h.Alive x) :
    ∃ h', h.construct ptr = .ok h' ∧ Exact h' ∧ Accounts h h' := by
  -- the new variable is a NULL pointer without owner, and then `=` is called on it
  have hgrow : Exact (h.grow 0 [none]) := hexact.grow fun owner howner c hc => by
    rw [List.mem_singleton.mp howner] at hc
    exact absurd hc (Option.some_ne_none c).symm
  have hnew : (h.grow 0 [none]).refPtrs[h.refPtrs.length]? = some {} := List.getElem?_concat_length
  have hspec := assignPtr_spec (l := h.refPtrs.length) hgrow ⟨_, hnew, rfl⟩
    fun x hx => grow_alive.mpr (alive_iff.mp (hptr x hx))
  -- a fall would need an old target, which the new pointer does not have
  rw [construct_eq]
  cases hr : (h.grow 0 [none]).assignPtr h.refPtrs.length ptr with
  | error f =>
    rw [hr] at hspec
    have hnull : (h.grow 0 [none]).target h.refPtrs.length = none :=
      target_eq_none_of_null hnew rfl
    exact absurd (.inr ⟨fun _ _ => not_falls_of_null hnull, fun _ _ => not_falls_of_null hnull⟩)
      hspec.2
  | ok h' =>
    rw [hr] at hspec
    refine ⟨h', rfl, hspec.2.1, fun x halive => ?_⟩
    rw [hspec.2.2 x (grow_alive.mpr (alive_iff.mp halive)), grow_refs]

/-- The destructor of a `RefPtr` that is no member is always right. Its place ends with it, and what
it was the last reference to goes with everything below. -/
theorem destruct_spec (hexact : Exact h) (hl : h.Live l) (howner : h.owner l = none) :
    ∃ h', h.destruct (delRef (h.objects.length + 1)) l = .ok h' ∧ Exact h' ∧ Accounts h h' := by
  obtain ⟨p, hp, hlive⟩ := hl
  have hpo : p.owner = none := by rwa [owner, hp] at howner
  have hrelease := release_spec hexact hp hlive
  -- `~RefPtr` is `release` and then the end of the variable
  have hdestruct : ∀ h₁, h.release p.ptr = .ok h₁ →
      h.destruct (delRef (h.objects.length + 1)) l = .ok (h₁.setRefPtr l p.destructed) := by
    intro h₁ hr
    rw [destruct, hp]
    cases hptr : p.ptr with
    | none =>
      rw [hptr, release, Except.ok.injEq] at hr
      simp only [hptr, hr]
    | some x =>
      rw [hptr, release] at hr
      simp only [hptr, hr]
  -- a fall needs an owner, and a variable has none
  cases hr : h.release p.ptr with
  | error f =>
    rw [hr] at hrelease
    obtain ⟨-, c, hc, -⟩ := hrelease
    exact absurd (howner.symm.trans hc) (Option.some_ne_none c).symm
  | ok h₁ =>
    rw [hr] at hrelease
    obtain ⟨S, hr'⟩ := hrelease
    have hclear := hr'.clear (q := p.destructed) hexact hp hlive rfl rfl (.inr hpo)
    refine ⟨_, hdestruct h₁ hr, hclear, hr'.accounts hclear (fun _ => Iff.rfl) fun x => ?_⟩
    exact (refs_setRefPtr_null (hr'.refPtr.trans hp) rfl hr'.self hr'.only_iff x).ge

/-- What an operation does: with exact counters it is completed and right if it is safe, and it is a
fault if not. -/
theorem step_spec {a : RefAction} (hexact : Exact h) (hallowed : h.Allowed a) :
    match h.step a with
    | .error f => f ≠ .fuel ∧ ¬ h.Safe a
    | .ok h' => h.Safe a ∧ Exact h' ∧ Accounts h h' := by
  cases a with
  -- every member of the new object belongs to that object
  | create members =>
    rw [step, create_eq]
    refine ⟨trivial, hexact.grow fun owner howner c hc => ?_, grow_accounts⟩
    rw [(List.mem_replicate.mp howner).2, Option.some.injEq] at hc
    exact ⟨hc.le, hc ▸ Nat.lt_succ_self _⟩
  -- `RefPtr(ptr)` and its copy are one constructor on different pointers
  | construct ptr =>
    obtain ⟨h', hr, hspec⟩ := construct_spec hexact hallowed
    rw [step, hr]
    exact ⟨trivial, hspec⟩
  | copy k =>
    obtain ⟨h', hr, hspec⟩ := construct_spec hexact fun x hx => hexact.alive_of_get hallowed hx
    rw [step, hr]
    exact ⟨trivial, hspec⟩
  -- so are the two assignments
  | assignPtr l ptr => exact assignPtr_spec hexact hallowed.1 hallowed.2
  | assign l k =>
    exact assignPtr_spec hexact hallowed.1 fun x hx => hexact.alive_of_get hallowed.2 hx
  | destruct l =>
    obtain ⟨h', hr, hspec⟩ := destruct_spec hexact hallowed.1 hallowed.2
    rw [step, hr]
    exact ⟨trivial, hspec⟩

/-- The operation is completed, the counters are exact, and no object was destroyed but those that
have lost their last reference. -/
def Correct (h : Heap) (a : RefAction) : Prop :=
  ∃ h', h.step a = .ok h' ∧ Exact h' ∧ Accounts h h'

/-- One operation: the step of the induction in `counted_references_iff`. -/
theorem correct_iff_safe {a : RefAction} (hexact : Exact h) (hallowed : h.Allowed a) :
    h.Correct a ↔ h.Safe a := by
  have hspec := step_spec hexact hallowed
  unfold Correct
  cases hr : h.step a with
  | error f =>
    rw [hr] at hspec
    refine iff_of_false ?_ hspec.2
    rintro ⟨h', heq, -⟩
    exact nomatch heq
  | ok h' =>
    rw [hr] at hspec
    exact iff_of_true ⟨h', rfl, hspec.2⟩ hspec.1

/-- So the next operation finds exact counters again. -/
theorem exact_of_next {a : RefAction} (hexact : Exact h) (hallowed : h.Allowed a)
    (hnext : h.next a = some h') : Exact h' := by
  have hspec := step_spec hexact hallowed
  rw [next] at hnext
  cases hr : h.step a with
  | error f =>
    rw [hr] at hnext
    exact absurd hnext (Option.some_ne_none h').symm
  | ok h₁ =>
    rw [hr] at hspec hnext
    exact Option.some.inj hnext ▸ hspec.2.1

/-- A program begins without objects. -/
theorem exact_empty : Exact {} where
  counter _ _ hx := nomatch hx
  alive _ _ hk := nomatch hk
  members _ _ _ hp := nomatch hp
  dead _ _ hp := nomatch hp
  managed _ _ hx := nomatch hx
  nodup := List.nodup_nil
  log _ := iff_of_false List.not_mem_nil fun ⟨_, hx, _⟩ => nomatch hx

/-- The operations are correct along a run exactly if each of its assignments is safe: the counter
of each object is the number of the pointers that aim at it, and an object is destroyed once, when
its last reference goes. The run may begin in any heap with exact counters, as `{}` is, and it is of
any length. -/
theorem counted_references_iff (actions : List RefAction) (hexact : Exact h)
    (hallowed : Along next Allowed h actions) :
    Along next Correct h actions ↔ Along next Safe h actions :=
  along_congr (fun _ _ _ hallowed hexact => exact_of_next hexact hallowed)
    (fun _ _ hallowed hexact => correct_iff_safe hexact hallowed) hallowed hexact

/-- `p->next = r`, `r` ends, and `p = q`. Then `p` held the last reference to its object, and the
member `next` of that object the last one to a second object. Both are destroyed. -/
theorem counted_references_replaced :
    let actions : List RefAction :=
      [.create 1, .create 0, .create 0, .construct (some 0), .construct (some 1),
        .construct (some 2), .assign 0 2, .destruct 2, .assign 1 3, .destruct 3]
    Along next Correct {} actions ∧ (run {} actions).map Heap.log = some [1, 0] := by
  refine ⟨(counted_references_iff _ exact_empty ?_).mpr ?_, rfl⟩
  · have hcreated {h : Heap} {x : Nat} (hx : h.Alive x) : h.Allowed (.construct (some x)) :=
      fun y hy => Option.some.inj hy ▸ hx
    exact ⟨trivial, trivial, trivial, hcreated ⟨_, rfl, rfl⟩, hcreated ⟨_, rfl, rfl⟩,
      hcreated ⟨_, rfl, rfl⟩, ⟨⟨_, rfl, rfl⟩, ⟨_, rfl, rfl⟩⟩, ⟨⟨_, rfl, rfl⟩, rfl⟩,
      ⟨⟨_, rfl, rfl⟩, ⟨_, rfl, rfl⟩⟩, ⟨⟨_, rfl, rfl⟩, rfl⟩, trivial⟩
  · refine ⟨trivial, trivial, trivial, trivial, trivial, trivial, .inr ⟨?_, ?_⟩, trivial,
      .inr ⟨?_, ?_⟩, trivial, trivial⟩
    · -- `r` still leads to the second object
      rintro _ ⟨rfl⟩ ⟨-, howned, -⟩
      exact howned 2 rfl (by decide) rfl
    · -- and `p` to the first one
      rintro _ ⟨rfl⟩ ⟨-, howned, -⟩
      exact howned 1 rfl (by decide) rfl
    · -- the object of `q` has a reference that is no member
      rintro _ ⟨rfl⟩ ⟨-, howned, -⟩
      exact howned 3 rfl (by decide) rfl
    · exact fun c hc => absurd hc (Option.some_ne_none c).symm

/-- `p = p->next`, where `p` and `next` hold the last references to their objects. The release of
the old target destroys `next` and its target before the new one is counted. -/
theorem counted_references_fail :
    Along next Allowed {}
        [.create 1, .create 0, .construct (some 0), .assignPtr 0 (some 1), .assign 1 0] ∧
      (run {} [.create 1, .create 0, .construct (some 0), .assignPtr 0 (some 1)]).map
        (fun h => h.step (.assign 1 0)) = some (.error (.object 1)) ∧
      ¬ Along next Correct {}
        [.create 1, .create 0, .construct (some 0), .assignPtr 0 (some 1), .assign 1 0] := by
  refine ⟨⟨trivial, trivial, ?_, ⟨⟨_, rfl, rfl⟩, ?_⟩, ⟨⟨_, rfl, rfl⟩, _, rfl, rfl⟩, trivial⟩,
    rfl, ?_⟩
  · rintro _ ⟨rfl⟩
    exact ⟨_, rfl, rfl⟩
  · rintro _ ⟨rfl⟩
    exact ⟨_, rfl, rfl⟩
  · rintro ⟨-, -, -, -, ⟨h', heq, -⟩, -⟩
    exact nomatch heq

end Heap

end OnlineJudger
