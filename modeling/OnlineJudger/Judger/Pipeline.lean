import Mathlib.Algebra.Order.Group.Multiset
import Mathlib.Tactic.Abel

/-!
# `OnlineJudger.Judger.Pipeline`: the way of a task

What the judge is for, without threads, queues and a database: a task is added, taken to be
judged, reported, fetched and written, in this order and once each. Tasks of type `τ` have a
`key` that stays the same while a judge run changes the task.

A `Pipeline` carries its own bookkeeping: nothing is lost between two places, nothing is in two
places, and both waiting lines are first in, first out. Every move is given with a proof that
the bookkeeping still holds. `count_keys` is what follows for one task.
-/

set_option autoImplicit false

namespace OnlineJudger

/-- Where the tasks are, and where they have been. A list keeps its order. The judged ones are a
multiset, since they end in any order. -/
structure Places (τ ι : Type) where
  /-- Added, and not yet taken. -/
  waiting : List τ
  /-- All that were taken. -/
  taken : List τ
  /-- The keys of those that are judged and not yet reported. -/
  judging : Multiset ι
  /-- All that were reported. -/
  reported : List τ
  /-- Reported, and not yet fetched. -/
  finished : List τ
  /-- Fetched, and not yet written. -/
  held : Option τ
  /-- All that were written. -/
  written : List τ

/-- The keys at all five places. A judge run changes a task, so the tasks at two places are compared
by their keys. -/
def Places.keys {τ ι : Type} (key : τ → ι) (p : Places τ ι) : Multiset ι :=
  (p.waiting.map key : Multiset ι) + p.judging + (p.finished.map key : Multiset ι) +
    (p.held.toList.map key : Multiset ι) + (p.written.map key : Multiset ι)

/-- The places, with the bookkeeping: no key twice, every taken task is judged or reported, and the
reported ones are split into written, held and finished, in this order. -/
structure Pipeline {τ ι : Type} (key : τ → ι) extends Places τ ι where
  nodup : ((taken ++ waiting).map key).Nodup
  taken_eq : (taken.map key : Multiset ι) = judging + (reported.map key : Multiset ι)
  reported_eq : reported = written ++ held.toList ++ finished

namespace Pipeline

variable {τ ι : Type} {key : τ → ι}

/-- All tasks, in the order in which they were added. Those that were taken are the first ones, so
the line is first in, first out. -/
def added (p : Pipeline key) : List τ := p.taken ++ p.waiting

/-- No tasks at any place. Every run begins here. -/
def empty : Pipeline key where
  waiting := []
  taken := []
  judging := 0
  reported := []
  finished := []
  held := none
  written := []
  nodup := List.nodup_nil
  taken_eq := rfl
  reported_eq := rfl

/-! ### The moves -/

variable (p : Pipeline key) (t : τ)

/-- A new task joins the line. Its key is new. -/
def add (h : key t ∉ p.added.map key) : Pipeline key where
  __ := p
  waiting := p.waiting ++ [t]
  nodup := by
    rw [← List.append_assoc, List.map_append, List.nodup_append]
    refine ⟨p.nodup, List.nodup_singleton _, ?_⟩
    rintro a ha b hb rfl
    rw [List.map_singleton, List.mem_singleton] at hb
    -- the new key would be an old one
    exact h (hb ▸ ha)

/-- The first task of the line is taken. From here on it is judged. -/
def take {waiting : List τ} (h : p.waiting = t :: waiting) : Pipeline key where
  __ := p
  waiting := waiting
  taken := p.taken ++ [t]
  judging := key t ::ₘ p.judging
  nodup := by
    have := p.nodup
    rw [h] at this
    rwa [List.append_assoc, List.singleton_append]
  taken_eq := by
    rw [List.map_append, ← Multiset.coe_add, p.taken_eq, List.map_singleton,
      Multiset.coe_singleton, ← Multiset.singleton_add]
    abel

/-- A task is reported. `t` is what has become of it, so only its key is that of a task that was
taken. -/
def report {judging : Multiset ι} (h : p.judging = key t ::ₘ judging) : Pipeline key where
  __ := p
  judging := judging
  reported := p.reported ++ [t]
  finished := p.finished ++ [t]
  taken_eq := by
    rw [p.taken_eq, h, List.map_append, ← Multiset.coe_add, List.map_singleton,
      Multiset.coe_singleton, ← Multiset.singleton_add]
    abel
  reported_eq := by
    rw [p.reported_eq, List.append_assoc]

/-- The first reported task is fetched, if nothing is held. So the tasks are fetched in the order of
their reports. -/
def fetch {finished : List τ} (hheld : p.held = none) (h : p.finished = t :: finished) :
    Pipeline key where
  __ := p
  held := some t
  finished := finished
  reported_eq := by
    rw [p.reported_eq, hheld, h]
    simp only [Option.toList_none, Option.toList_some, List.append_nil, List.append_assoc,
      List.singleton_append]

/-- The fetched task is written, and the next one can be fetched. -/
def write (h : p.held = some t) : Pipeline key where
  __ := p
  held := none
  written := p.written ++ [t]
  reported_eq := by
    rw [p.reported_eq, h]
    simp only [Option.toList_none, Option.toList_some, List.append_nil]

/-- One move. The guards are what the bookkeeping needs, and nothing about threads: who moves, and
when, is the business of the system that is shown to move like this. -/
inductive Next : Pipeline key → Pipeline key → Prop where
  | add {p : Pipeline key} {t : τ} (h : key t ∉ p.added.map key) : Next p (p.add t h)
  | take {p : Pipeline key} {t : τ} {waiting : List τ} (h : p.waiting = t :: waiting) :
      Next p (p.take t h)
  | report {p : Pipeline key} {t : τ} {judging : Multiset ι} (h : p.judging = key t ::ₘ judging) :
      Next p (p.report t h)
  | fetch {p : Pipeline key} {t : τ} {finished : List τ} (hheld : p.held = none)
      (h : p.finished = t :: finished) : Next p (p.fetch t hheld h)
  | write {p : Pipeline key} {t : τ} (h : p.held = some t) : Next p (p.write t h)

/-! ### One task -/

/-- Nothing is lost, and nothing is in two places: the keys at all places are those that were added,
each as often as it was. -/
theorem keys_eq : p.keys key = (p.added.map key : Multiset ι) := by
  have hreported : (p.reported.map key : Multiset ι) = (p.written.map key : Multiset ι) +
      (p.held.toList.map key : Multiset ι) + (p.finished.map key : Multiset ι) := by
    rw [p.reported_eq, List.map_append, List.map_append, ← Multiset.coe_add, ← Multiset.coe_add]
  rw [added, List.map_append, ← Multiset.coe_add, p.taken_eq, hreported, Places.keys]
  abel

/-- No task is reported twice. -/
theorem reported_nodup : (p.reported.map key).Nodup := by
  -- what is reported was taken, and nothing is taken twice
  have htaken : ((p.taken.map key : List ι) : Multiset ι).Nodup := by
    have := p.nodup
    rw [List.map_append] at this
    exact Multiset.coe_nodup.mpr this.of_append_left
  rw [p.taken_eq] at htaken
  exact Multiset.coe_nodup.mp (Multiset.nodup_of_le (Multiset.le_add_left _ _) htaken)

/-- No task is written twice. -/
theorem written_nodup : (p.written.map key).Nodup := by
  have := p.reported_nodup
  rw [p.reported_eq, List.append_assoc, List.map_append] at this
  exact this.of_append_left

variable [DecidableEq ι] {p t}

/-- A task that was added is in exactly one place. -/
theorem count_keys (h : t ∈ p.added) : (p.keys key).count (key t) = 1 := by
  rw [keys_eq, Multiset.coe_count]
  exact List.count_eq_one_of_mem p.nodup (List.mem_map_of_mem h)

/-- A task that was taken is being judged or has been reported, once. -/
theorem count_judging_add_reported (h : t ∈ p.taken) :
    p.judging.count (key t) + (p.reported.map key).count (key t) = 1 := by
  have hnodup : (p.taken.map key).Nodup := by
    have := p.nodup
    rw [List.map_append] at this
    exact this.of_append_left
  rw [← Multiset.coe_count, ← Multiset.count_add, ← p.taken_eq, Multiset.coe_count]
  exact List.count_eq_one_of_mem hnodup (List.mem_map_of_mem h)

end Pipeline

end OnlineJudger
