import OnlineJudger.Proofs.Commen.RefHeap

/-!
# `OnlineJudger.Proofs.Commen.RefCascade`: what a release destroys

A release decrements a counter, and where that leaves nothing the object is destroyed, and its
members are released in turn. `Cascade h₀ l h S T` relates the heap `h` in the middle of this to
the heap `h₀` in which the release of the `RefPtr` `l` began. `S` are the `RefPtr`s that are
released and still have their pointer, and `T` the members that are still to be destructed.

* `decrement`, `destroy`, `destructed`: the steps of a release keep this relation.
* `delRef_spec`: each nested call keeps it. A call runs into a fault only if `l` is a member of an
  object that falls.
-/

set_option autoImplicit false

namespace OnlineJudger

/-- The object behind `--m_nRefCounter_`. -/
def IBase.decremented (obj : IBase) : IBase :=
  { obj with refCounter := obj.refCounter - 1 }

namespace Heap

variable {h h₀ h₁ : Heap} {S T ks : List Nat} {k l x y c : Nat} {p : RefPtr} {obj : IBase}

/-- A heap in the middle of the release of `l`. What was destroyed so far falls with `l`, the
members of destroyed objects are destructed or in `T`, and the counters agree with the references
that are not in `S`. -/
structure Cascade (h₀ : Heap) (l : Nat) (h : Heap) (S T : List Nat) : Prop where
  objects : h.objects.length = h₀.objects.length
  refPtrs : h.refPtrs.length = h₀.refPtrs.length
  /-- A `RefPtr` is as it was, or it was destructed with its object. -/
  refPtr : ∀ (k : Nat) (p : RefPtr), h₀.refPtrs[k]? = some p → h.refPtrs[k]? = some p ∨
    h.refPtrs[k]? = some p.destructed ∧ ∃ c, p.owner = some c ∧ h.Gone c
  counter : ∀ (x : Nat) (obj : IBase), h.objects[x]? = some obj → obj.destroyed = false →
    obj.refCounter = (h.refs S x : Int)
  /-- Only released `RefPtr`s point to a destroyed object. -/
  released : ∀ k x : Nat, h.target k = some x → h.Gone x → k ∈ S
  pending : ∀ k ∈ S, (∃ x, h.target k = some x) ∧ (k = l ∨ ∃ c, h₀.owner k = some c ∧ h.Gone c)
  gone : ∀ x : Nat, h₀.Gone x → h.Gone x
  falls : ∀ x : Nat, h.Gone x → h₀.Gone x ∨ Falls h₀ l x
  todo : ∀ k ∈ T, (∃ c, h₀.owner k = some c ∧ h.Gone c) ∧ (k ∈ S → k = l)
  todo_nodup : T.Nodup
  members : ∀ k c : Nat, h₀.owner k = some c → h.Gone c →
    k ∈ T ∨ k ∈ S ∧ k ≠ l ∨ h.Dead k
  managed : ∀ (x : Nat) (obj : IBase), h.objects[x]? = some obj → obj.managed = true
  nodup : h.log.Nodup
  log : ∀ x : Nat, x ∈ h.log ↔ h.Gone x

/-- An object that has lost its last reference is destroyed. So a living object without one never
had any. -/
def Kept (h₀ h : Heap) (S : List Nat) : Prop :=
  ∀ x, h.Alive x → h.refs S x = 0 → h₀.refs [] x = 0

/-- Nothing has happened, and no `RefPtr` is set aside. This is where the release of `l` starts, and
an exact heap is all that it needs. -/
theorem Exact.cascade (h : Exact h₀) (l : Nat) : Cascade h₀ l h₀ [] [] where
  objects := rfl
  refPtrs := rfl
  refPtr _ _ hp := .inl hp
  counter := h.counter
  released k x hk hx := absurd (h.alive k x hk) (not_alive_of_gone hx)
  pending _ hk := absurd hk List.not_mem_nil
  gone _ hx := hx
  falls _ hx := .inl hx
  todo _ hk := absurd hk List.not_mem_nil
  todo_nodup := List.nodup_nil
  members k c howner hgone := by
    obtain ⟨p, hp, hc⟩ := owner_eq_some_iff.mp howner
    -- a destructed object has no live member
    rcases h.members k c p hp hc with ⟨halive, -⟩ | ⟨-, hdead⟩
    · exact absurd halive (not_alive_of_gone hgone)
    · exact .inr (.inr ⟨p, hp, hdead⟩)
  managed := h.managed
  nodup := h.nodup
  log := h.log

namespace Cascade

/-- Where a `RefPtr` of the heap in the middle comes from: it is as it was, or it was destructed
with its object. -/
theorem refPtr₀ (hc : Cascade h₀ l h S T) (hp : h.refPtrs[k]? = some p) :
    ∃ p₀, h₀.refPtrs[k]? = some p₀ ∧
      (p = p₀ ∨ p = p₀.destructed ∧ ∃ c, p₀.owner = some c ∧ h.Gone c) := by
  have hlt : k < h₀.refPtrs.length := hc.refPtrs ▸ (List.getElem?_eq_some_iff.mp hp).1
  refine ⟨_, List.getElem?_eq_getElem hlt, ?_⟩
  rcases hc.refPtr k _ (List.getElem?_eq_getElem hlt) with heq | ⟨heq, hgone⟩
  · rw [hp, Option.some.injEq] at heq
    exact .inl heq
  · rw [hp, Option.some.injEq] at heq
    exact .inr ⟨heq, hgone⟩

/-- Nobody gets a new owner. -/
theorem owner_eq (hc : Cascade h₀ l h S T) (k : Nat) : h.owner k = h₀.owner k := by
  rw [owner, owner]
  cases hp : h.refPtrs[k]? with
  | none =>
    rw [List.getElem?_eq_none_iff, hc.refPtrs, ← List.getElem?_eq_none_iff] at hp
    rw [hp]
  | some p =>
    obtain ⟨p₀, hp₀, rfl | ⟨rfl, -⟩⟩ := hc.refPtr₀ hp
    · rw [hp₀]
    · rw [hp₀]
      rfl

/-- Nobody gets a new target. -/
theorem target₀ (hc : Cascade h₀ l h S T) (hk : h.target k = some x) : h₀.target k = some x := by
  obtain ⟨p, hp, hlive, hptr⟩ := target_eq_some_iff.mp hk
  obtain ⟨p₀, hp₀, rfl | ⟨rfl, -⟩⟩ := hc.refPtr₀ hp
  · exact target_eq_some_iff.mpr ⟨p, hp₀, hlive, hptr⟩
  · exact absurd hlive Bool.false_ne_true

/-- A `RefPtr` that points to something is as it was. -/
theorem refPtr_eq (hc : Cascade h₀ l h S T) (hk : h.target k = some x) :
    h₀.refPtrs[k]? = h.refPtrs[k]? := by
  obtain ⟨p, hp, hlive, -⟩ := target_eq_some_iff.mp hk
  obtain ⟨p₀, hp₀, rfl | ⟨rfl, -⟩⟩ := hc.refPtr₀ hp
  · rw [hp, hp₀]
  · exact absurd hlive Bool.false_ne_true

/-- Where a `RefPtr` of the first heap is now: it has its target, or its object is gone. -/
theorem target_or (hc : Cascade h₀ l h S T) (hk : h₀.target k = some x) :
    h.target k = some x ∨ ∃ c, h₀.owner k = some c ∧ h.Gone c := by
  obtain ⟨p, hp, hlive, hptr⟩ := target_eq_some_iff.mp hk
  rcases hc.refPtr k p hp with heq | ⟨-, c, howner, hgone⟩
  · exact .inl (target_eq_some_iff.mpr ⟨p, heq, hlive, hptr⟩)
  · exact .inr ⟨c, owner_eq_some_iff.mpr ⟨p, hp, howner⟩, hgone⟩

/-- A `RefPtr` with a pointer is live, since a destructor leaves `NULL`. -/
theorem target_of_ptr (hc : Cascade h₀ l h S T) (hexact : Exact h₀) (hp : h.refPtrs[k]? = some p)
    (hptr : p.ptr = some x) : h.target k = some x := by
  refine target_eq_some_iff.mpr ⟨p, hp, ?_, hptr⟩
  obtain ⟨p₀, hp₀, rfl | ⟨rfl, -⟩⟩ := hc.refPtr₀ hp
  · rw [← Bool.not_eq_false]
    intro hdead
    rw [hexact.dead k p hp₀ hdead] at hptr
    exact absurd hptr (Option.some_ne_none x).symm
  · exact absurd hptr (Option.some_ne_none x).symm

/-- No object is taken out of the heap. -/
theorem alive_or_gone (hc : Cascade h₀ l h S T) (hx : h₀.Alive x) : h.Alive x ∨ h.Gone x := by
  rw [alive_iff, hc.objects, and_iff_right (alive_iff.mp hx).1]
  exact (em (h.Gone x)).symm

/-- A destroyed owner of a live `RefPtr` falls. So a fault at such a `RefPtr` is one that
`SafeAssign` excludes. -/
theorem falls_owner (hc : Cascade h₀ l h S T) (hexact : Exact h₀) (hk : h₀.target k = some x)
    (howner : h₀.owner k = some c) (hgone : h.Gone c) : Falls h₀ l c := by
  obtain ⟨p, hp, hlive, -⟩ := target_eq_some_iff.mp hk
  obtain ⟨p', hp', hpc⟩ := owner_eq_some_iff.mp howner
  obtain rfl : p = p' := Option.some.inj (hp.symm.trans hp')
  refine (hc.falls c hgone).resolve_left fun hgone₀ => ?_
  rcases hexact.members k c p hp hpc with ⟨halive, -⟩ | ⟨-, hdead⟩
  · exact not_alive_of_gone hgone₀ halive
  · rw [hdead] at hlive
    exact Bool.false_ne_true hlive

/-! ### The steps of a release -/

/-- `--m_nRefCounter_`. The `RefPtr` `k` is `l`, or the next member to be destructed. It moves to
`S`, because it still has its pointer and is not counted any more. -/
theorem decrement {T' : List Nat} (hc : Cascade h₀ l h S T') (hk : h.target k = some x)
    (hS : k ∉ S) (hT : k = l ∧ T' = T ∨ k ≠ l ∧ T' = k :: T) (hx : h.objects[x]? = some obj)
    (halive : obj.destroyed = false) :
    Cascade h₀ l (h.setObject x obj.decremented) (k :: S) T := by
  -- no object is destructed by a change of its counter
  have hgone : ∀ y, (h.setObject x obj.decremented).Gone y ↔ h.Gone y :=
    fun y => setObject_gone_same hx (obj.refCounter - 1) y
  -- what is still to come was to come before
  have hsub : ∀ j ∈ T, j ∈ T' := by
    rcases hT with ⟨-, rfl⟩ | ⟨-, rfl⟩
    · exact fun _ hj => hj
    · exact fun _ hj => List.mem_cons_of_mem _ hj
  refine
    { objects := (List.length_set ..).trans hc.objects
      refPtrs := hc.refPtrs
      refPtr := ?refPtr, counter := ?counter, released := ?released, pending := ?pending
      gone := fun y hy => (hgone y).mpr (hc.gone y hy)
      falls := fun y hy => hc.falls y ((hgone y).mp hy)
      todo := ?todo, todo_nodup := ?todo_nodup, members := ?members
      managed := setObject_managed hx (hc.managed x obj hx) hc.managed
      nodup := hc.nodup
      log := fun y => (hc.log y).trans (hgone y).symm }
  case refPtr =>
    simp only [hgone]
    exact hc.refPtr
  case counter =>
    intro y obj' hy hd
    rw [setObject_object hx] at hy
    -- the counter of `x` and the number of its owners go down together
    by_cases hxy : x = y
    · rw [if_pos hxy, Option.some.injEq] at hy
      rw [← hy, ← hxy]
      have hcount := hc.counter x obj hx halive
      rw [refs_eq_succ hk hS] at hcount
      refine (congrArg (· - 1) hcount).trans ?_
      push_cast
      exact Int.add_sub_cancel _ _
    -- another object has neither
    · rw [if_neg hxy] at hy
      have hne : h.target k ≠ some y := by
        rw [hk]
        exact fun heq => hxy (Option.some.inj heq)
      exact (hc.counter y obj' hy hd).trans (congrArg _ (refs_cons_of_ne hne).symm)
  case released =>
    exact fun j y hj hy => List.mem_cons_of_mem _ (hc.released j y hj ((hgone y).mp hy))
  case pending =>
    simp only [hgone]
    intro j hj
    -- `k` has been released: it is the first pointer, or a member whose owner is gone
    rcases List.mem_cons.mp hj with rfl | hj
    · refine ⟨⟨x, hk⟩, ?_⟩
      rcases hT with ⟨hkl, -⟩ | ⟨-, rfl⟩
      · exact .inl hkl
      · exact .inr (hc.todo j (List.mem_cons_self ..)).1
    · exact hc.pending j hj
  case todo =>
    simp only [hgone]
    refine fun j hj => ⟨(hc.todo j (hsub j hj)).1, fun hjS => ?_⟩
    -- `k` does not come again, unless it is the pointer that the release began with
    rcases List.mem_cons.mp hjS with rfl | hjS
    · rcases hT with ⟨hjl, -⟩ | ⟨-, rfl⟩
      · exact hjl
      · exact absurd hj (List.nodup_cons.mp hc.todo_nodup).1
    · exact (hc.todo j (hsub j hj)).2 hjS
  case todo_nodup =>
    rcases hT with ⟨-, rfl⟩ | ⟨-, rfl⟩
    · exact hc.todo_nodup
    · exact (List.nodup_cons.mp hc.todo_nodup).2
  case members =>
    intro j c hj hy
    -- a member of a gone object that was still to come may be `k` itself
    rcases hc.members j c hj ((hgone c).mp hy) with hjT | ⟨hjS, hjl⟩ | hdead
    · rcases hT with ⟨-, rfl⟩ | ⟨hkl, rfl⟩
      · exact .inl hjT
      · rcases List.mem_cons.mp hjT with rfl | hjT
        · exact .inr (.inl ⟨List.mem_cons_self .., hkl⟩)
        · exact .inl hjT
    · exact .inr (.inl ⟨List.mem_cons_of_mem _ hjS, hjl⟩)
    · exact .inr (.inr hdead)

/-- `destroyThis`, before the members are destructed: they are put in front of the list `T`. The
object itself leaves the survivors, and a member that pointed to another object still counts for
that one. -/
theorem destroy (hc : Cascade h₀ l h S T) (hexact : Exact h₀) (hk : h.target k = some x)
    (hx : h.objects[x]? = some obj) (halive : obj.destroyed = false) (hrefs : h.refs S x = 0) :
    Cascade h₀ l (h.mark x obj) S (h.members x ++ T) := by
  have hgone := fun y => mark_gone hx y
  have hmono : ∀ y, h.Gone y → (h.mark x obj).Gone y := fun y hy => (hgone y).mpr (.inr hy)
  have hnot : ¬ h.Gone x := fun hx' => not_alive_of_gone hx' ⟨obj, hx, halive⟩
  have hmember : ∀ j ∈ h.members x, h₀.owner j = some x := fun j hj =>
    (hc.owner_eq j).symm.trans (mem_members_iff.mp hj)
  refine
    { objects := (List.length_set ..).trans hc.objects
      refPtrs := hc.refPtrs
      refPtr := ?refPtr, counter := ?counter, released := ?released, pending := ?pending
      gone := fun y hy => hmono y (hc.gone y hy)
      falls := ?falls, todo := ?todo, todo_nodup := ?todo_nodup, members := ?members
      managed := setObject_managed hx (hc.managed x obj hx) hc.managed
      nodup := List.nodup_cons.mpr ⟨fun hlog => hnot ((hc.log x).mp hlog), hc.nodup⟩
      log := ?log }
  case refPtr =>
    intro j p hp
    rcases hc.refPtr j p hp with heq | ⟨heq, c, howner, hc'⟩
    · exact .inl heq
    · exact .inr ⟨heq, c, howner, hmono c hc'⟩
  case counter =>
    intro y obj' hy hd
    by_cases hxy : x = y
    · exact absurd ⟨obj', hy, hd⟩ (not_alive_of_gone ((hgone y).mpr (.inl hxy.symm)))
    · rw [mark, setObject_object hx, if_neg hxy] at hy
      exact hc.counter y obj' hy hd
  case released =>
    intro j y hj hy
    rcases (hgone y).mp hy with rfl | hy
    · exact refs_eq_zero_iff.mp hrefs j hj
    · exact hc.released j y hj hy
  case pending =>
    intro j hj
    obtain ⟨htarget, hjl | ⟨c, howner, hc'⟩⟩ := hc.pending j hj
    · exact ⟨htarget, .inl hjl⟩
    · exact ⟨htarget, .inr ⟨c, howner, hmono c hc'⟩⟩
  case falls =>
    intro y hy
    rcases (hgone y).mp hy with rfl | hy
    · -- the references that it had in `h₀` are released, or were destructed with their owner
      have howner : ∀ j, h₀.target j = some y → j ≠ l → ∃ c, h₀.owner j = some c ∧ h.Gone c := by
        intro j hj hjl
        rcases hc.target_or hj with hj' | howner
        · exact (hc.pending j (refs_eq_zero_iff.mp hrefs j hj')).2.resolve_left hjl
        · exact howner
      refine .inr (.intro ⟨k, hc.target₀ hk⟩ (fun j hj hjl => ?_) fun j c hj hjl hjc => ?_)
      · obtain ⟨c, hjc, -⟩ := howner j hj hjl
        rw [hjc]
        exact Option.some_ne_none c
      · obtain ⟨c', hjc', hc'⟩ := howner j hj hjl
        obtain rfl : c = c' := Option.some.inj (hjc.symm.trans hjc')
        exact hc.falls_owner hexact hj hjc hc'
    · exact hc.falls y hy
  case todo =>
    intro j hj
    rcases List.mem_append.mp hj with hj | hj
    · refine ⟨⟨x, hmember j hj, (hgone x).mpr (.inl rfl)⟩, fun hjS => ?_⟩
      refine (hc.pending j hjS).2.resolve_right ?_
      rintro ⟨c, howner, hc'⟩
      rw [hmember j hj, Option.some.injEq] at howner
      exact hnot (howner ▸ hc')
    · obtain ⟨⟨c, howner, hc'⟩, hjS⟩ := hc.todo j hj
      exact ⟨⟨c, howner, hmono c hc'⟩, hjS⟩
  case todo_nodup =>
    refine List.nodup_append'.mpr ⟨members_nodup h x, hc.todo_nodup, fun j hj hjT => ?_⟩
    obtain ⟨⟨c, howner, hc'⟩, -⟩ := hc.todo j hjT
    rw [hmember j hj, Option.some.injEq] at howner
    exact hnot (howner ▸ hc')
  case members =>
    intro j c howner hc'
    rcases (hgone c).mp hc' with rfl | hc'
    · exact .inl (List.mem_append_left _ (mem_members_iff.mpr ((hc.owner_eq j).trans howner)))
    · exact (hc.members j c howner hc').imp_left (List.mem_append_right _)
  case log =>
    intro y
    rw [hgone, mark, List.mem_cons, hc.log]

/-- `m_ptr = NULL` in the destructor of a member. It is the one that is released, or it has no
pointer, so no living object loses a reference here. -/
theorem destructed {S' T' : List Nat} (hc : Cascade h₀ l h S T) (hp : h.refPtrs[k]? = some p)
    (howner : ∃ c, h₀.owner k = some c ∧ h.Gone c) (hk : h.target k = none ∨ k ∈ S)
    (hS : ∀ j, j ∈ S' ↔ j ≠ k ∧ j ∈ S) (hT : T'.Sublist T) (hk' : ∀ j ∈ T, j ≠ k → j ∈ T') :
    Cascade h₀ l (h.setRefPtr k p.destructed) S' T' := by
  -- the pointer is NULL from here on
  have htarget := fun j y => target_setRefPtr_null (q := p.destructed) hp rfl j y
  have hne : ∀ j, j ≠ k → (h.setRefPtr k p.destructed).target j = h.target j := fun j hj => by
    rw [setRefPtr_target hp, if_neg (Ne.symm hj)]
  refine
    { hc with
      refPtrs := (List.length_set ..).trans hc.refPtrs
      refPtr := ?refPtr
      counter := fun y obj hy hd => (hc.counter y obj hy hd).trans
        (congrArg _ (refs_setRefPtr_null hp rfl hk hS y).symm)
      released := ?released, pending := ?pending, todo := ?todo
      todo_nodup := hT.nodup hc.todo_nodup
      members := ?members }
  case refPtr =>
    intro j p₀ hp₀
    rw [setRefPtr_refPtr hp]
    -- the pointer destructed: its owner is gone
    by_cases hjk : k = j
    · subst hjk
      obtain ⟨c, hkc, hgone⟩ := howner
      rw [owner, hp₀, Option.bind_some] at hkc
      rw [if_pos rfl]
      refine .inr ⟨?_, c, hkc, hgone⟩
      rcases hc.refPtr k p₀ hp₀ with heq | ⟨heq, -⟩
      · rw [Option.some.inj (hp.symm.trans heq)]
      · rw [Option.some.inj (hp.symm.trans heq)]
        rfl
    -- another pointer is what it was
    · rw [if_neg hjk]
      exact hc.refPtr j p₀ hp₀
  case released =>
    intro j y hj hy
    obtain ⟨hjk, hj⟩ := (htarget j y).mp hj
    exact (hS j).mpr ⟨hjk, hc.released j y hj hy⟩
  case pending =>
    intro j hj
    obtain ⟨hjk, hj⟩ := (hS j).mp hj
    rw [hne j hjk]
    exact hc.pending j hj
  case todo =>
    intro j hj
    obtain ⟨howner, hjS⟩ := hc.todo j (hT.subset hj)
    exact ⟨howner, fun hj => hjS ((hS j).mp hj).2⟩
  case members =>
    intro j c hjc hgone
    -- `k` is dead now
    by_cases hjk : j = k
    · refine .inr (.inr ⟨p.destructed, ?_, rfl⟩)
      rw [hjk, setRefPtr_refPtr hp, if_pos rfl]
    -- the other members are still to come, released, or dead
    · rw [hS, Dead, setRefPtr_refPtr hp, if_neg (Ne.symm hjk)]
      rcases hc.members j c hjc hgone with hj | ⟨hj, hjl⟩ | hdead
      · exact .inl (hk' j hj hjk)
      · exact .inr (.inl ⟨⟨hjk, hj⟩, hjl⟩)
      · exact .inr (.inr hdead)

end Cascade

/-- One more `RefPtr` is released, and the object that it points to is destroyed, or has other
references. -/
theorem Kept.cons (hkept : Kept h₀ h S) (hk : h.target k = some x) (hrefs : h₁.refPtrs = h.refPtrs)
    (halive : ∀ y, h₁.Alive y → h.refs (k :: S) y = 0 → y ≠ x ∧ h.Alive y) :
    Kept h₀ h₁ (k :: S) := by
  intro y hy hzero
  have hsame : h₁.refs (k :: S) y = h.refs (k :: S) y := refs_congr fun j => by
    rw [target, target, hrefs]
  rw [hsame] at hzero
  obtain ⟨hyx, hy⟩ := halive y hy hzero
  refine hkept y hy ?_
  rw [← refs_cons_of_ne, hzero]
  rw [hk]
  exact fun heq => hyx (Option.some.inj heq).symm

/-- The end of a destructor takes no reference away. -/
theorem Kept.destructed {S' : List Nat} (hkept : Kept h₀ h S) (hp : h.refPtrs[k]? = some p)
    (hk : h.target k = none ∨ k ∈ S) (hS : ∀ j, j ∈ S' ↔ j ≠ k ∧ j ∈ S) :
    Kept h₀ (h.setRefPtr k p.destructed) S' := by
  intro x halive hrefs
  rw [refs_setRefPtr_null hp rfl hk hS] at hrefs
  exact hkept x halive hrefs

/-! ### The recursion -/

open Classical in
/-- The objects that are not destroyed. Their number is the measure of the recursion: each nested
call of `delRef` is behind one more deletion. -/
noncomputable def survivors (h : Heap) : Finset Nat :=
  (Finset.range h.objects.length).filter fun x => ¬ h.Gone x

/-- A survivor exists and is not gone. -/
theorem mem_survivors : x ∈ h.survivors ↔ x < h.objects.length ∧ ¬ h.Gone x := by
  classical
  exact Finset.mem_filter.trans (and_congr_left fun _ => Finset.mem_range)

/-- There are at most as many as there are objects, which is the fuel that `release` gives. -/
theorem card_survivors_le (h : Heap) : h.survivors.card ≤ h.objects.length :=
  (Finset.card_le_card fun _ hx => Finset.mem_range.mpr (mem_survivors.mp hx).1).trans_eq
    (Finset.card_range _)

/-- A release does not add any. -/
theorem survivors_mono (hsize : h₁.objects.length = h.objects.length)
    (hgone : ∀ y, h.Gone y → h₁.Gone y) : h₁.survivors.card ≤ h.survivors.card := by
  refine Finset.card_le_card fun y hy => ?_
  obtain ⟨hlt, hy⟩ := mem_survivors.mp hy
  exact mem_survivors.mpr ⟨hsize ▸ hlt, fun hy' => hy (hgone y hy')⟩

/-- `x` has lost its last reference. Its members are still to be destructed. -/
def lose (h : Heap) (x : Nat) (obj : IBase) : Heap :=
  (h.setObject x obj.decremented).mark x obj.decremented

/-- One more object is gone. -/
theorem lose_gone (hx : h.objects[x]? = some obj) (y : Nat) :
    (h.lose x obj).Gone y ↔ y = x ∨ h.Gone y := by
  have hx' : (h.setObject x obj.decremented).objects[x]? = some obj.decremented := by
    rw [setObject_object hx, if_pos rfl]
  exact (mark_gone hx' y).trans (or_congr_right (setObject_gone_same hx (obj.refCounter - 1) y))

/-- No object is taken out of the list. -/
theorem lose_objects_length (h : Heap) (x : Nat) (obj : IBase) :
    (h.lose x obj).objects.length = h.objects.length :=
  (List.length_set ..).trans (List.length_set ..)

/-- The measure gets smaller. -/
theorem survivors_lose (hx : h.objects[x]? = some obj) (halive : obj.destroyed = false) :
    (h.lose x obj).survivors.card < h.survivors.card := by
  have hnot : ¬ h.Gone x := fun hx' => not_alive_of_gone hx' ⟨obj, hx, halive⟩
  have hsub : (h.lose x obj).survivors ⊆ h.survivors := by
    intro y hy
    rw [mem_survivors, lose_gone hx, lose_objects_length, not_or] at hy
    exact mem_survivors.mpr ⟨hy.1, hy.2.2⟩
  refine Finset.card_lt_card ((Finset.ssubset_iff_of_subset hsub).mpr ⟨x, ?_, fun hx' => ?_⟩)
  · exact mem_survivors.mpr ⟨(List.getElem?_eq_some_iff.mp hx).1, hnot⟩
  · exact (mem_survivors.mp hx').2 ((lose_gone hx x).mpr (.inl rfl))

/-- How a part of the release of `l` ends that began in the heap `h`: with a fault at the owner of
`l`, or with a heap in the middle in which everything that was destroyed before still is. -/
def Ends (h₀ : Heap) (l : Nat) (h : Heap) (S T : List Nat) : Except RefFault Heap → Prop
  | .error f => f ≠ .fuel ∧ ∃ c, h₀.owner l = some c ∧ Falls h₀ l c
  | .ok h' => Cascade h₀ l h' S T ∧ Kept h₀ h' S ∧ ∀ y, h.Gone y → h'.Gone y

/-- What a call of `delRef` finds. The `RefPtr` `k` is `l`, or the next member to be destructed, and
then the object that `l` points to is destroyed. -/
structure Calls (h₀ : Heap) (l : Nat) (h : Heap) (S T T' : List Nat) (k : Nat) : Prop where
  cascade : Cascade h₀ l h S T'
  kept : Kept h₀ h S
  fresh : k ∉ S
  turn : k = l ∧ T' = T ∨ k ≠ l ∧ T' = k :: T
  first : k ≠ l → ∀ x, h₀.target l = some x → h.Gone x

/-- What is destroyed in a part of the release was not destroyed before. -/
theorem Ends.mono {r : Except RefFault Heap} (hends : Ends h₀ l h₁ S T r)
    (hmono : ∀ y, h.Gone y → h₁.Gone y) : Ends h₀ l h S T r := by
  cases r with
  | error f => exact hends
  | ok h' => exact ⟨hends.1, hends.2.1, fun y hy => hends.2.2 y (hmono y hy)⟩

/-- `delRef` of a destroyed object is a fault. -/
theorem delRef_of_gone {fuel : Nat} (hx : h.Gone x) (hfuel : 0 < fuel) :
    delRef fuel h x = .error (.object x) := by
  obtain ⟨obj, hobj, hd⟩ := hx
  cases fuel with
  | zero => exact absurd hfuel (Nat.lt_irrefl 0)
  | succ fuel =>
    rw [delRef, hobj]
    exact if_pos hd

/-- `delRef` of a managed object: the members are destructed if the counter comes to 0 or below. -/
theorem delRef_of_alive {fuel : Nat} (hx : h.objects[x]? = some obj)
    (halive : obj.destroyed = false) (hmanaged : obj.managed = true) :
    delRef (fuel + 1) h x =
      if obj.refCounter - 1 ≤ 0 then destructAll (delRef fuel) (h.lose x obj) (h.members x)
      else .ok (h.setObject x obj.decremented) := by
  rw [delRef, hx]
  refine (if_neg (halive ▸ Bool.false_ne_true)).trans ?_
  exact if_congr (and_iff_left hmanaged) rfl rfl

/-! ### The members of an object -/

section Members

variable {fuel : Nat} (hexact : Exact h₀)
  (ih : ∀ h T T' k x, Calls h₀ l h S T T' k → h.target k = some x → h.survivors.card < fuel →
    Ends h₀ l h (k :: S) T (delRef fuel h x))
include hexact ih

/-- The destructor of one member, if the calls of `delRef` do what they should. The member leaves
the list `T`, and if it was the last reference to an object, the objects below that one are gone as
well. -/
theorem destruct_member (hc : Cascade h₀ l h S (k :: T)) (hkept : Kept h₀ h S)
    (hfirst : ∀ x, h₀.target l = some x → h.Gone x) (hfuel : h.survivors.card < fuel) :
    Ends h₀ l h S T (destruct (delRef fuel) h k) := by
  obtain ⟨⟨c, howner, hgone⟩, hkS⟩ := hc.todo k (List.mem_cons_self ..)
  obtain ⟨p, hp, -⟩ := owner_eq_some_iff.mp ((hc.owner_eq k).trans howner)
  cases hptr : p.ptr with
  | none =>
    have hnone : h.target k = none := target_eq_none_of_null hp hptr
    have hfresh : k ∉ S := fun hk => by
      obtain ⟨⟨x, hx⟩, -⟩ := hc.pending k hk
      rw [hnone] at hx
      exact Option.some_ne_none x hx.symm
    have hS : ∀ j, j ∈ S ↔ j ≠ k ∧ j ∈ S := fun j =>
      ⟨fun hj => ⟨ne_of_mem_of_not_mem hj hfresh, hj⟩, fun hj => hj.2⟩
    simp only [destruct, hp, hptr]
    refine ⟨?_, hkept.destructed hp (.inl hnone) hS, fun y hy => hy⟩
    exact hc.destructed hp ⟨c, howner, hgone⟩ (.inl hnone) hS (List.sublist_cons_self ..)
      fun j hj hjk => (List.mem_cons.mp hj).resolve_left hjk
  | some x =>
    have hk : h.target k = some x := hc.target_of_ptr hexact hp hptr
    by_cases hkl : k = l
    · -- the destructor of `l` itself, whose object is destroyed
      subst hkl
      have hfault := delRef_of_gone (hfirst x (hc.target₀ hk)) (Nat.zero_lt_of_lt hfuel)
      simp only [destruct, hp, hptr, hfault]
      exact ⟨RefFault.noConfusion, c, howner, hc.falls_owner hexact (hc.target₀ hk) howner hgone⟩
    · have hfresh : k ∉ S := fun hkS' => hkl (hkS hkS')
      have hends := ih h T (k :: T) k x
        ⟨hc, hkept, hfresh, .inr ⟨hkl, rfl⟩, fun _ => hfirst⟩ hk hfuel
      cases hr : delRef fuel h x with
      | error f =>
        rw [hr] at hends
        simp only [destruct, hp, hptr, hr]
        exact hends
      | ok h₁ =>
        rw [hr] at hends
        obtain ⟨hc₁, hkept₁, hmono⟩ := hends
        -- `k` itself is as it was
        obtain ⟨⟨y, hy⟩, -⟩ := hc₁.pending k (List.mem_cons_self ..)
        have hp₁ : h₁.refPtrs[k]? = some p :=
          (hc₁.refPtr_eq hy).symm.trans ((hc.refPtr_eq hk).trans hp)
        have hself : h₁.target k = none ∨ k ∈ k :: S := .inr (List.mem_cons_self ..)
        have hS : ∀ j, j ∈ S ↔ j ≠ k ∧ j ∈ k :: S := by
          intro j
          rw [List.mem_cons]
          refine ⟨fun hj => ⟨ne_of_mem_of_not_mem hj hfresh, .inr hj⟩, ?_⟩
          exact fun hj => hj.2.resolve_left hj.1
        simp only [destruct, hp, hptr, hr]
        refine ⟨?_, hkept₁.destructed hp₁ hself hS, hmono⟩
        exact hc₁.destructed hp₁ ⟨c, howner, hmono c hgone⟩ hself hS (List.Sublist.refl _)
          fun _ hj _ => hj

/-- All members of an object, by induction on the list, and on the fuel through
`destruct_member`. -/
theorem destructAll_spec (hc : Cascade h₀ l h S (ks ++ T)) (hkept : Kept h₀ h S)
    (hfirst : ∀ x, h₀.target l = some x → h.Gone x) (hfuel : h.survivors.card < fuel) :
    Ends h₀ l h S T (destructAll (delRef fuel) h ks) := by
  induction ks generalizing h with
  | nil => exact ⟨hc, hkept, fun _ hy => hy⟩
  | cons k ks ihks =>
    have hends := destruct_member hexact ih hc hkept hfirst hfuel
    rw [destructAll]
    cases hr : destruct (delRef fuel) h k with
    | error f => rwa [hr] at hends
    | ok h₁ =>
      rw [hr] at hends
      obtain ⟨hc₁, hkept₁, hmono⟩ := hends
      have hless := survivors_mono (hc₁.objects.trans hc.objects.symm) hmono
      exact (ihks hc₁ hkept₁ (fun x hx => hmono x (hfirst x hx)) (hless.trans_lt hfuel)).mono hmono

end Members

/-! ### The calls -/

namespace Calls

variable {T' : List Nat}

/-- The target of the `RefPtr` that is released was not destroyed: only the ones in `S` point to a
destroyed object, and `k` is fresh. -/
theorem alive (hcalls : Calls h₀ l h S T T' k) (hexact : Exact h₀) (hk : h.target k = some x) :
    h.Alive x :=
  (hcalls.cascade.alive_or_gone (hexact.alive k x (hcalls.cascade.target₀ hk))).resolve_right
    fun hgone => hcalls.fresh (hcalls.cascade.released k x hk hgone)

/-- The counter of the target is decremented. -/
theorem decrement (hcalls : Calls h₀ l h S T T' k) (hk : h.target k = some x)
    (hx : h.objects[x]? = some obj) (halive : obj.destroyed = false) :
    Cascade h₀ l (h.setObject x obj.decremented) (k :: S) T :=
  hcalls.cascade.decrement hk hcalls.fresh hcalls.turn hx halive

/-- The counter is exact when it is decremented: it is the number of the references that are
left. -/
theorem counter (hcalls : Calls h₀ l h S T T' k) (hk : h.target k = some x)
    (hx : h.objects[x]? = some obj) (halive : obj.destroyed = false) :
    obj.refCounter - 1 = (h.refs (k :: S) x : Int) := by
  refine (hcalls.decrement hk hx halive).counter x obj.decremented ?_ halive
  rw [setObject_object hx, if_pos rfl]

/-- Other references are left, so the object stays. -/
theorem kept_of_pos (hcalls : Calls h₀ l h S T T' k) (hk : h.target k = some x)
    (hx : h.objects[x]? = some obj) (hpos : 0 < h.refs (k :: S) x) :
    Kept h₀ (h.setObject x obj.decremented) (k :: S) := by
  refine hcalls.kept.cons hk rfl fun y hy hzero => ⟨?_, ?_⟩
  · rintro rfl
    exact Nat.ne_of_gt hpos hzero
  · have hsame := setObject_gone_same hx (obj.refCounter - 1) y
    have hy' := alive_iff.mp hy
    exact alive_iff.mpr ⟨(List.length_set ..) ▸ hy'.1, fun hgone => hy'.2 (hsame.mpr hgone)⟩

section Lose

variable (hcalls : Calls h₀ l h S T T' k) (hk : h.target k = some x)
  (hx : h.objects[x]? = some obj)
include hcalls hk hx

/-- No reference is left. The object is destroyed, and its members are the next to be destructed. -/
theorem lose (hexact : Exact h₀) (halive : obj.destroyed = false)
    (hrefs : h.refs (k :: S) x = 0) :
    Cascade h₀ l (h.lose x obj) (k :: S) (h.members x ++ T) :=
  (hcalls.decrement hk hx halive).destroy hexact hk
    (by rw [setObject_object hx, if_pos rfl]) halive hrefs

/-- The destroyed object was the only one that has lost its last reference. -/
theorem lose_kept : Kept h₀ (h.lose x obj) (k :: S) := by
  refine hcalls.kept.cons hk rfl fun y hy _ => ?_
  rw [alive_iff, lose_gone hx, lose_objects_length, not_or] at hy
  exact ⟨hy.2.1, alive_iff.mpr ⟨hy.1, hy.2.2⟩⟩

/-- The object that `l` points to is the first one that is destroyed. -/
theorem lose_first (hy : h₀.target l = some y) : (h.lose x obj).Gone y := by
  rw [lose_gone hx]
  by_cases hkl : k = l
  · rw [← hkl, hcalls.cascade.target₀ hk, Option.some.injEq] at hy
    exact .inl hy.symm
  · exact .inr (hcalls.first hkl y hy)

end Lose

end Calls

/-- One call of `delRef` in the release of `l`, by induction on the fuel. The cases are a counter
that stays positive, and an object that is destroyed with all its members. -/
theorem delRef_spec (hexact : Exact h₀) (fuel : Nat) {T' : List Nat}
    (hcalls : Calls h₀ l h S T T' k) (hk : h.target k = some x)
    (hfuel : h.survivors.card < fuel) : Ends h₀ l h (k :: S) T (delRef fuel h x) := by
  induction fuel generalizing h S T T' k x with
  | zero => exact absurd hfuel (Nat.not_lt_zero _)
  | succ fuel ih =>
    obtain ⟨obj, hx, halive⟩ := hcalls.alive hexact hk
    have hcount := hcalls.counter hk hx halive
    rw [delRef_of_alive hx halive (hcalls.cascade.managed x obj hx), hcount]
    split_ifs with hzero
    · -- it was the last reference, and there is one object less
      have hless : (h.lose x obj).survivors.card < fuel :=
        (survivors_lose hx halive).trans_le (Nat.le_of_lt_succ hfuel)
      have hrefs : h.refs (k :: S) x = 0 := Nat.eq_zero_of_le_zero (Int.ofNat_le.mp hzero)
      have hends := destructAll_spec hexact (fun h T T' k x hcalls => ih hcalls)
        (hcalls.lose hk hx hexact halive hrefs) (hcalls.lose_kept hk hx)
        (fun y => hcalls.lose_first hk hx) hless
      exact hends.mono fun y hy => (lose_gone hx y).mpr (.inr hy)
    · -- others are left
      have hpos : 0 < h.refs (k :: S) x := by
        refine Nat.pos_of_ne_zero fun heq => hzero ?_
        rw [heq]
        exact Int.le_refl 0
      exact ⟨hcalls.decrement hk hx halive, hcalls.kept_of_pos hk hx hpos,
        fun y => (setObject_gone_same hx (obj.refCounter - 1) y).mpr⟩

end Heap

end OnlineJudger
