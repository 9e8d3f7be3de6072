import OnlineJudger.Judger.DBManagerCalls

/-!
# `OnlineJudger.Proofs.Judger.DBManagerCalls`: the two threads on one connection

Only the reader issues statements with a result set, and it stores each of them in its next call.
So the connection holds an unread result set exactly while the reader stands before that call
(`Inv`), and it is the result set of the reader's last SELECT. The writer looks at none of this.
`results_apart_iff` says that the results stay apart exactly in the runs in which no query of the
writer falls between the two calls of the reader.
-/

set_option autoImplicit false

namespace OnlineJudger.DBManager

open Lib

/-- Between the query of a SELECT and its `storeResult`. -/
def ReadPc.awaits : ReadPc → Bool
  | .storeProblem | .storeCode _ _ => true
  | _ => false

/-- A query of `doWrite`. -/
def Call.isWrite : Call → Bool
  | .writerQuery _ => true
  | _ => false

namespace Calls

variable {config : Config} {s s' : Calls}

/-! ### The calls -/

/-- A query on a connection without an unread result set. -/
theorem query_of_none (answer : ServerAnswer Rows) (h : s.sql.unread = none) :
    ∃ ok sql, s.query answer = (ok, { s with sql }) ∧
      match answer with
        | .rows rows => ok = true ∧ sql.unread = some ⟨s.sql.serial, rows⟩
        | .done => ok = true ∧ sql.unread = none
        | .error => ok = false ∧ sql.unread = none := by
  unfold query ZMySql.query
  rw [h]
  cases answer with
  | error => exact ⟨_, _, rfl, rfl, rfl⟩
  | done => exact ⟨_, _, rfl, rfl, rfl⟩
  | rows rows => exact ⟨_, _, rfl, rfl, rfl⟩

/-- The same for a statement without a result set. -/
theorem update_of_none (ok : Bool) (h : s.sql.unread = none) :
    ∃ sql, s.update ok = (ok, { s with sql }) ∧ sql.unread = none := by
  unfold update
  cases ok with
  | false =>
    obtain ⟨_, sql, hquery, rfl, hunread⟩ := s.query_of_none .error h
    exact ⟨sql, hquery, hunread⟩
  | true =>
    obtain ⟨_, sql, hquery, rfl, hunread⟩ := s.query_of_none .done h
    exact ⟨sql, hquery, hunread⟩

/-- The same for a SELECT, whose result set is then the last one. -/
theorem select_of_none (answer : Option Rows) (h : s.sql.unread = none) :
    ∃ sql, s.select answer =
        (answer.isSome, { s with sql, lastSelect := some s.sql.serial }) ∧
      sql.unread = answer.map (ZMySqlRes.mk s.sql.serial) := by
  unfold select
  cases answer with
  | none =>
    obtain ⟨_, sql, hquery, rfl, hunread⟩ := s.query_of_none .error h
    exact ⟨sql, by rw [Option.elim_none, hquery]; rfl, hunread⟩
  | some rows =>
    obtain ⟨_, sql, hquery, rfl, hunread⟩ := s.query_of_none (.rows rows) h
    exact ⟨sql, by rw [Option.elim_some, hquery]; rfl, hunread⟩

/-- A query in front of an unread result set. -/
theorem update_of_some (ok : Bool) {res : ZMySqlRes Rows} (h : s.sql.unread = some res) :
    ∃ sql, s.update ok = (false, { s with sql, early := s.early ++ [s.sql.serial] }) ∧
      sql.unread = some res := by
  unfold update query ZMySql.query
  rw [h]
  exact ⟨_, rfl, rfl⟩

/-! ### What a step does to the connection -/

/-- The unread result set is that of the reader's last SELECT, and the reader stores it next. When
the reader does not wait, there is none. -/
structure Inv (s : Calls) : Prop where
  unread : s.sql.unread.map ZMySqlRes.serial = if s.reader.awaits then s.lastSelect else none
  selected : s.reader.awaits = true → s.lastSelect.isSome = true
  stored : ∀ p ∈ s.stored, ∃ serial, p = (some serial, some serial)

/-- While the reader does not wait, nothing is unread. -/
theorem Inv.unread_eq_none (h : Inv s) (hreader : s.reader.awaits = false) :
    s.sql.unread = none := by
  have hunread := h.unread
  rw [hreader] at hunread
  exact Option.map_eq_none_iff.mp hunread

/-- While it waits, its own result set is. -/
theorem Inv.unread_eq_some (h : Inv s) (hreader : s.reader.awaits = true) :
    ∃ res, s.sql.unread = some res ∧ s.lastSelect = some res.serial := by
  have hunread := h.unread
  obtain ⟨serial, hserial⟩ := Option.isSome_iff_exists.mp (h.selected hreader)
  rw [if_pos hreader, hserial] at hunread
  obtain ⟨res, hres, rfl⟩ := Option.map_eq_some_iff.mp hunread
  exact ⟨res, hres, hserial⟩

/-- Nothing is unread, and the reader does not wait. -/
theorem Inv.of_unread_eq_none (hunread : s.sql.unread = none) (hreader : s.reader.awaits = false)
    (hstored : ∀ p ∈ s.stored, ∃ serial, p = (some serial, some serial)) : Inv s where
  unread := by rw [hunread, hreader]; rfl
  selected := by rw [hreader]; exact nofun
  stored := hstored

/-- The reader looks at the flag. -/
theorem Inv.readerCheck (h : Inv s) {running : Bool} (hstep : s.readerCheck running = some s') :
    Inv s' ∧ s'.early = s.early := by
  unfold Calls.readerCheck at hstep
  split at hstep
  · next hpc =>
    obtain rfl := Option.some.inj hstep
    have hunread := h.unread_eq_none (by rw [hpc]; rfl)
    refine ⟨.of_unread_eq_none hunread ?_ h.stored, rfl⟩
    cases running <;> rfl
  · simp only [reduceCtorEq] at hstep

/-- A SELECT of the reader. It waits for the result set, or the server has answered an error. -/
theorem Inv.select (h : Inv s) (answer : Option Rows) (hreader : s.reader.awaits = false)
    {waiting failed : ReadPc} (hwaiting : waiting.awaits = true) (hfailed : failed.awaits = false) :
    ∃ s₁ : Calls, s.select answer = (answer.isSome, s₁) ∧ s₁.early = s.early ∧
      Inv { s₁ with reader := if answer.isSome then waiting else failed } := by
  obtain ⟨sql, hselect, hsql⟩ := s.select_of_none answer (h.unread_eq_none hreader)
  refine ⟨_, hselect, rfl, ?_⟩
  cases answer with
  | none => exact .of_unread_eq_none hsql hfailed h.stored
  | some rows =>
    refine ⟨?_, fun _ => rfl, h.stored⟩
    simp only [hsql, Option.map_some, Option.isSome_some, if_true, hwaiting]

/-- The SELECT for the submissions. -/
theorem Inv.readerSelectProblem (h : Inv s) {answer : Option (List SelectedRow)}
    (hstep : s.readerSelectProblem answer = some s') : Inv s' ∧ s'.early = s.early := by
  unfold Calls.readerSelectProblem at hstep
  split at hstep
  · next hpc =>
    obtain ⟨s₁, hselect, hearly, hinv⟩ :=
      h.select (answer.map .problem) (by rw [hpc]; rfl)
        (show ReadPc.storeProblem.awaits = true from rfl)
        (show ReadPc.exited.awaits = false from rfl)
    simp only [hselect] at hstep
    obtain rfl := Option.some.inj hstep
    exact ⟨hinv, hearly⟩
  · simp only [reduceCtorEq] at hstep

/-- The SELECT for the code of one of them. -/
theorem Inv.readerSelectCode (h : Inv s) {answer : Option (List Text)}
    (hstep : s.readerSelectCode answer = some s') : Inv s' ∧ s'.early = s.early := by
  unfold Calls.readerSelectCode at hstep
  split at hstep
  · next row rows hpc =>
    obtain ⟨s₁, hselect, hearly, hinv⟩ :=
      h.select (answer.map .code) (by rw [hpc]; rfl)
        (show (ReadPc.storeCode row rows).awaits = true from rfl)
        (show (ReadPc.compiling row rows).awaits = false from rfl)
    simp only [hselect] at hstep
    obtain rfl := Option.some.inj hstep
    exact ⟨hinv, hearly⟩
  · simp only [reduceCtorEq] at hstep

/-- The statement that stores `JE_COMPILING`, which has no result set. -/
theorem Inv.readerUpdate (h : Inv s) {ok : Bool} (hstep : s.readerUpdate ok = some s') :
    Inv s' ∧ s'.early = s.early := by
  unfold Calls.readerUpdate at hstep
  split at hstep
  · next row rows hpc =>
    have hunread := h.unread_eq_none (by rw [hpc]; rfl)
    obtain ⟨sql, hupdate, hsql⟩ := s.update_of_none ok hunread
    simp only [hupdate] at hstep
    obtain rfl := Option.some.inj hstep
    refine ⟨.of_unread_eq_none hsql ?_ h.stored, rfl⟩
    cases ok <;> rfl
  · simp only [reduceCtorEq] at hstep

/-- The reader gets the result set of its own SELECT, and nothing is unread behind it. While the
reader waits, the unread result is its own; a query of the writer in between would have failed. -/
theorem Inv.readerStore (h : Inv s) (hstep : s.readerStore = some s') :
    Inv s' ∧ s'.early = s.early := by
  -- an open result is the reader's own, so `storeResult` hands it over
  have hstored : s.reader.awaits = true → ∃ res : ZMySqlRes Rows,
      s.storeResult = (some res.rows, { s with
        sql := { s.sql with unread := none },
        stored := s.stored ++ [(some res.serial, some res.serial)] }) := by
    intro hreader
    obtain ⟨res, hres, hselect⟩ := h.unread_eq_some hreader
    refine ⟨res, ?_⟩
    unfold storeResult ZMySql.storeResult
    rw [hres, hselect]
    rfl
  -- the pair stored now has equal numbers as well
  have hall : ∀ serial : ℕ, ∀ p ∈ s.stored ++ [(some serial, some serial)],
      ∃ serial, p = (some serial, some serial) := by
    intro serial p hp
    rcases List.mem_append.mp hp with hp | hp
    · exact h.stored p hp
    · exact ⟨serial, List.mem_singleton.mp hp⟩
  unfold Calls.readerStore at hstep
  -- the result with the problems, or one with a source code in its place
  split at hstep
  · next hpc =>
    obtain ⟨res, hres⟩ := hstored (by rw [hpc]; rfl)
    rw [hres] at hstep
    cases hrows : res.rows with
    | problem rows =>
      simp only [hrows] at hstep
      obtain rfl := Option.some.inj hstep
      exact ⟨.of_unread_eq_none rfl rfl (hall _), rfl⟩
    | code sources =>
      simp only [hrows] at hstep
      obtain rfl := Option.some.inj hstep
      exact ⟨.of_unread_eq_none rfl rfl (hall _), rfl⟩
  -- the result with the source code, whose rows play no part here
  · next row rows hpc =>
    obtain ⟨res, hres⟩ := hstored (by rw [hpc]; rfl)
    rw [hres] at hstep
    obtain rfl := Option.some.inj hstep
    exact ⟨.of_unread_eq_none rfl rfl (hall _), rfl⟩
  · simp only [reduceCtorEq] at hstep

/-- The reader is through with its rows. -/
theorem Inv.readerRowsEnd (h : Inv s) (hstep : s.readerRowsEnd = some s') :
    Inv s' ∧ s'.early = s.early := by
  unfold Calls.readerRowsEnd at hstep
  split at hstep
  · next hpc =>
    obtain rfl := Option.some.inj hstep
    have hunread := h.unread_eq_none (by rw [hpc]; rfl)
    exact ⟨.of_unread_eq_none hunread rfl h.stored, rfl⟩
  · simp only [reduceCtorEq] at hstep

/-- The writer fetches a task. It does not use the connection. -/
theorem Inv.writerGet (h : Inv s) {task : Option TaskBase}
    (hstep : s.writerGet config task = some s') : Inv s' ∧ s'.early = s.early := by
  unfold Calls.writerGet at hstep
  split at hstep
  · obtain rfl := Option.some.inj hstep
    exact ⟨⟨h.unread, h.selected, h.stored⟩, rfl⟩
  · obtain rfl := Option.some.inj hstep
    exact ⟨⟨h.unread, h.selected, h.stored⟩, rfl⟩
  · simp only [reduceCtorEq] at hstep

/-- A query of the writer is early while the reader waits. The library refuses it then, and the
unread result stays as it is. -/
theorem Inv.writerQuery (h : Inv s) {ok : Bool} (hstep : s.writerQuery ok = some s') :
    Inv s' ∧ s'.early = if s.reader.awaits then s.early ++ [s.sql.serial] else s.early := by
  unfold Calls.writerQuery at hstep
  -- the reader waits for a result or not, which decides what the query does to it
  split at hstep
  · cases hreader : s.reader.awaits with
    | false =>
      have hunread := h.unread_eq_none hreader
      obtain ⟨sql, hupdate, hsql⟩ := s.update_of_none ok hunread
      simp only [hupdate] at hstep
      obtain rfl := Option.some.inj hstep
      exact ⟨.of_unread_eq_none hsql hreader h.stored, rfl⟩
    -- the library refuses the query and leaves the open result in place
    | true =>
      obtain ⟨res, hres, hserial⟩ := h.unread_eq_some hreader
      obtain ⟨sql, hupdate, hsql⟩ := s.update_of_some ok hres
      simp only [hupdate] at hstep
      obtain rfl := Option.some.inj hstep
      refine ⟨⟨?_, h.selected, h.stored⟩, rfl⟩
      simp only [hsql, hreader, hserial, Option.map_some, if_true]
  · simp only [reduceCtorEq] at hstep

/-- The writer issues no query while the reader waits for a result set. It is a condition on the
call and on the place of the reader before it. -/
def WritesApart (s : Calls) (call : Call) : Prop :=
  call.isWrite = true → s.reader.awaits = false

/-- No call is early but a query of the writer while the reader waits. So along a run the early
calls are exactly those at which `WritesApart` fails. -/
theorem Inv.step (h : Inv s) {call : Call} (hstep : step config s call = some s') :
    Inv s' ∧ (WritesApart s call → s'.early = s.early) ∧
      (¬WritesApart s call → s'.early = s.early ++ [s.sql.serial]) := by
  -- only the writer's query can break the condition
  have hother : call.isWrite = false → Inv s' ∧ s'.early = s.early → Inv s' ∧
      (WritesApart s call → s'.early = s.early) ∧
      (¬WritesApart s call → s'.early = s.early ++ [s.sql.serial]) := by
    rintro hwrite ⟨hinv, hearly⟩
    refine ⟨hinv, fun _ => hearly, fun hnot => absurd ?_ hnot⟩
    intro hcall
    rw [hwrite] at hcall
    exact Bool.noConfusion hcall
  cases call with
  | readerCheck running => exact hother rfl (h.readerCheck hstep)
  | readerSelectProblem answer => exact hother rfl (h.readerSelectProblem hstep)
  | readerSelectCode answer => exact hother rfl (h.readerSelectCode hstep)
  | readerUpdate ok => exact hother rfl (h.readerUpdate hstep)
  | readerStore => exact hother rfl (h.readerStore hstep)
  | readerRowsEnd => exact hother rfl (h.readerRowsEnd hstep)
  | writerGet task => exact hother rfl (h.writerGet hstep)
  -- the query comes early exactly when the reader waits
  | writerQuery ok =>
    obtain ⟨hinv, hearly⟩ := h.writerQuery hstep
    refine ⟨hinv, ?_, ?_⟩
    · intro hapart
      rw [hearly, if_neg (by rw [hapart rfl]; exact Bool.false_ne_true)]
    · intro hnot
      have hreader : s.reader.awaits = true := by
        by_contra hreader
        exact hnot fun _ => Bool.eq_false_iff.mpr hreader
      rw [hearly, if_pos hreader]

/-- A new connection has no result set. -/
theorem inv_start : Inv {} := .of_unread_eq_none rfl rfl nofun

/-- An early query is never taken back. By induction on the run. -/
theorem Inv.early_prefix (h : Inv s) {calls : List Call}
    (hrun : run (Calls.step config) s calls = some s') : s.early <+: s'.early := by
  refine run_relation (R := fun s s' : Calls => s.early <+: s'.early) (fun s => List.prefix_rfl)
    (fun _ _ _ => List.IsPrefix.trans) ?_ h hrun
  intro s call s' h hstep
  obtain ⟨hinv, hapart, hnot⟩ := h.step hstep
  refine ⟨hinv, ?_⟩
  by_cases hcall : WritesApart s call
  · exact ⟨[], (List.append_nil _).trans (hapart hcall).symm⟩
  · exact ⟨_, (hnot hcall).symm⟩

/-- Every run keeps it. -/
theorem inv_of_run {calls : List Call} (hrun : run (step config) {} calls = some s) : Inv s := by
  have hstep : ∀ s call s', True → Inv s → step config s call = some s' → Inv s' :=
    fun _ _ _ _ h hstep => (h.step hstep).1
  have hinv := run_invariant hstep (fun _ _ => trivial) inv_start hrun
  exact hinv

/-- Each `storeResult` gives the rows of the reader's last SELECT and no query is early, exactly
when no query of the writer falls between a SELECT and its `storeResult`. The two threads share one
connection without a lock, and the run is any merge of their calls. -/
theorem results_apart_iff {calls : List Call} (hrun : run (step config) {} calls = some s) :
    ((∀ p ∈ s.stored, ∃ serial, p = (some serial, some serial)) ∧ s.early = []) ↔
      Along (step config) WritesApart {} calls := by
  constructor
  -- one call outside the condition is enough, since what came early stays so
  · rintro ⟨-, hearly⟩
    by_contra hnot
    obtain ⟨before, call, after, m, rfl, hbefore, hcall⟩ := exists_of_not_along hrun hnot
    rw [run_append_eq_some] at hrun
    obtain ⟨m', hm', hrun⟩ := hrun
    obtain rfl := Option.some.inj (hm'.symm.trans hbefore)
    obtain ⟨m₁, hm₁, hrun⟩ := run_cons_eq_some.mp hrun
    obtain ⟨hinv, -, hgrows⟩ := (inv_of_run hbefore).step hm₁
    have hpre := hinv.early_prefix hrun
    rw [hgrows hcall, hearly, List.prefix_nil] at hpre
    exact absurd hpre (List.append_ne_nil_of_right_ne_nil _ (List.cons_ne_nil _ _))
  -- under the condition nothing comes early, call by call
  · intro halong
    let Good : Calls → Prop := fun s => Inv s ∧ s.early = []
    have hstep : ∀ s call s', WritesApart s call → Good s → step config s call = some s' →
        Good s' := by
      rintro s call s' hcall ⟨hinv, hearly⟩ hstep
      obtain ⟨hinv', hapart, -⟩ := hinv.step hstep
      exact ⟨hinv', (hapart hcall).trans hearly⟩
    have hgood := run_invariant_along hstep halong ⟨inv_start, rfl⟩ hrun
    exact ⟨hgood.1.stored, hgood.2⟩

/-- The task of which the writer writes the results in the two runs below. -/
def writtenTask : TaskBase where
  userName := "alice".toList
  solutionID := 1000
  problemID := 1
  limitCompileTime := 10000
  limitTime := 1
  limitMemory := 64
  language := 0
  result := 4

/-- A row of `sqlSelectProblem`. -/
def rowToJudge : SelectedRow where
  solutionID := 1001
  problemID := 1
  userID := "alice".toList
  language := 0
  timeLimit := 1
  memoryLimit := 64
  result := 0

/-- The first query of the writer comes in the loop over the rows, between two calls of the
reader. -/
theorem results_apart_between :
    ∃ s, run (step {}) {} [.writerGet (some writtenTask), .readerCheck true,
        .readerSelectProblem (some [rowToJudge]), .readerStore, .writerQuery true,
        .readerSelectCode (some ["int main() {}".toList]), .readerStore, .readerUpdate true] =
        some s ∧
      (((∀ p ∈ s.stored, ∃ serial, p = (some serial, some serial)) ∧ s.early = []) ↔
        Along (step {}) WritesApart {} [.writerGet (some writtenTask), .readerCheck true,
          .readerSelectProblem (some [rowToJudge]), .readerStore, .writerQuery true,
          .readerSelectCode (some ["int main() {}".toList]), .readerStore, .readerUpdate true]) :=
  ⟨_, rfl, results_apart_iff rfl⟩

/-- The writer updates the solution while the result set of `sqlSelectProblem` is unread. The
library refuses the query, so it fails, and the verdict is lost. -/
theorem update_lost :
    ∃ s, run (step {}) {} [.writerGet (some writtenTask), .readerCheck true,
        .readerSelectProblem (some [rowToJudge]), .writerQuery true] = some s ∧
      s.sql.unread.isSome = true ∧
      ¬((∀ p ∈ s.stored, ∃ serial, p = (some serial, some serial)) ∧ s.early = []) := by
  refine ⟨_, rfl, rfl, ?_⟩
  rintro ⟨-, hearly⟩
  exact List.cons_ne_nil _ _ hearly

end Calls

end OnlineJudger.DBManager
