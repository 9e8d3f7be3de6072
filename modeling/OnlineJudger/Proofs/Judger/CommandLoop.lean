import OnlineJudger.Judger.CommandLoop
import OnlineJudger.Lib.Fuel

/-!
# `OnlineJudger.Proofs.Judger.CommandLoop`: when the judge can be stopped

* `loop_of_not_good`: once a flag of the stream is set, the loop runs on forever.
* `commandLoop_ends_iff`: the loop ends exactly if there is an `exit` line in front of which every
  line fits into the buffer. The lines in front of it have been carried out.
-/

set_option autoImplicit false

namespace OnlineJudger

open Lib

namespace CommandLoop

/-- What the lines give to `system`: of each line with a dollar sign the part behind it, if there is
one. -/
def systemCalls (lines : List Text) : List Text :=
  lines.filterMap fun line =>
    if line.head? = some '$' ∧ line.tail ≠ [] then some line.tail else none

/-- What the lines make of the debug flag. -/
def dbmsgAfter (dbmsg : Bool) (lines : List Text) : Bool :=
  lines.foldl (fun dbmsg line =>
    if line = "dbmsg on".toList then true
    else if line = "dbmsg off".toList then false else dbmsg) dbmsg

/-- The state behind lines that do not end the loop. -/
def after (s : CommandLoop) (lines : List Text) : CommandLoop :=
  { s with dbmsg := dbmsgAfter s.dbmsg lines, system := s.system ++ systemCalls lines }

variable {s s' : CommandLoop} {str line rest : Text}

/-- Without a line nothing is done. -/
theorem after_nil (s : CommandLoop) : s.after [] = s := by
  show { s with system := s.system ++ [] } = s
  rw [List.append_nil]

/-- The first line, and the others. -/
theorem systemCalls_cons (line : Text) (lines : List Text) :
    systemCalls (line :: lines) = systemCalls [line] ++ systemCalls lines :=
  List.filterMap_append (l := [line])

/-- The same for the state behind them. -/
theorem after_cons (s : CommandLoop) (line : Text) (lines : List Text) :
    s.after (line :: lines) = (s.after [line]).after lines := by
  show { s with
    dbmsg := dbmsgAfter s.dbmsg (line :: lines)
    system := s.system ++ systemCalls (line :: lines) } = _
  rw [systemCalls_cons, ← List.append_assoc]
  rfl

/-- A command goes to `system`, unless nothing stands behind the mark. -/
theorem systemCalls_dollar (cmd : Text) :
    systemCalls ['$' :: cmd] = if cmd = [] then [] else [cmd] := by
  by_cases hcmd : cmd = []
  · rw [if_pos hcmd, hcmd]
    rfl
  · rw [if_neg hcmd]
    exact List.filterMap_cons_some (if_pos ⟨rfl, hcmd⟩)

/-- Any other line does not. -/
theorem systemCalls_other (h : ∀ cmd, str ≠ '$' :: cmd) : systemCalls [str] = [] := by
  refine List.filterMap_cons_none (if_neg ?_)
  rintro ⟨hhead, -⟩
  obtain ⟨cmd, rfl⟩ := List.head?_eq_some_iff.mp hhead
  exact h cmd rfl

/-- A line that is no `exit`. The loop goes on, with what the line has done: a line behind a dollar
sign goes to `system`, and any other one is a switch for the messages, or nothing. -/
theorem execute_of_ne (h : str ≠ "exit".toList) (s : CommandLoop) :
    execute str s = (true, s.after [str]) := by
  unfold execute after
  split
  · exact congrArg (true, ·) (after_nil s).symm
  -- a line with a dollar sign goes to `system`
  · next cmd =>
    rw [systemCalls_dollar]
    by_cases hcmd : cmd = []
    · rw [if_pos hcmd, if_pos hcmd, List.append_nil]
      rfl
    · rw [if_neg hcmd, if_neg hcmd]
      rfl
  -- any other line is a switch for the messages, or nothing
  · next hdollar =>
    rw [if_neg h, systemCalls_other hdollar, List.append_nil]
    show _ = (true, { s with dbmsg := if str = "dbmsg on".toList then true
      else if str = "dbmsg off".toList then false else s.dbmsg })
    split_ifs
    · rfl
    · rfl
    · rfl

/-! ### `getline` -/

/-- Behind a flag, `getline` reads nothing and leaves an empty buffer. -/
theorem getline_of_not_good {cin : Console} (h : cin.good = false) (count : ℕ) :
    cin.getline count = ([], cin) := by
  rw [Console.getline, h]
  rfl

/-- A line ends at the first newline. -/
theorem takeWhile_line (h : '\n' ∉ line) (rest : Text) :
    (line ++ '\n' :: rest).takeWhile (· ≠ '\n') = line ∧
      (line ++ '\n' :: rest).dropWhile (· ≠ '\n') = '\n' :: rest := by
  have hall : ∀ ch ∈ line, decide (ch ≠ '\n') = true := fun ch hch =>
    decide_eq_true (ne_of_mem_of_not_mem hch h)
  rw [List.takeWhile_append_of_pos hall, List.dropWhile_append_of_pos hall]
  exact ⟨List.append_nil line, rfl⟩

/-- A line that fits. Its newline is read too, and no flag is set. -/
theorem getline_line (h : '\n' ∉ line) (hlength : line.length ≤ 255) (rest : Text) :
    ({ input := line ++ '\n' :: rest } : Console).getline 256 = (line, { input := rest }) := by
  obtain ⟨htake, hdrop⟩ := takeWhile_line h rest
  simp only [Console.getline, htake, hdrop]
  rw [if_neg (by simp), if_neg (by omega)]

/-- The last line, without a newline. It is read, and the flag for the end is set. -/
theorem getline_last (h : '\n' ∉ line) (hlength : line.length ≤ 255) :
    ({ input := line } : Console).getline 256 = (line, { input := [], good := false }) := by
  have hall : ∀ ch ∈ line, decide (ch ≠ '\n') = true := fun ch hch =>
    decide_eq_true (ne_of_mem_of_not_mem hch h)
  have htake := List.takeWhile_eq_self_iff.mpr hall
  have hdrop := List.dropWhile_eq_nil_iff.mpr hall
  simp only [Console.getline, htake, hdrop]
  rw [if_neg (by simp), if_neg (by omega)]

/-- A line that does not fit. Its front is read, and a flag is set. -/
theorem getline_long (h : '\n' ∉ line) (hlength : 255 < line.length)
    (hrest : rest = [] ∨ rest.head? = some '\n') :
    ({ input := line ++ rest } : Console).getline 256 =
      (line.take 255, { input := (line ++ rest).drop 255, good := false }) := by
  have htake : (line ++ rest).takeWhile (· ≠ '\n') = line := by
    rcases hrest with rfl | hrest
    · rw [List.append_nil]
      exact List.takeWhile_eq_self_iff.mpr fun ch hch =>
        decide_eq_true (ne_of_mem_of_not_mem hch h)
    · obtain ⟨rest, rfl⟩ := List.head?_eq_some_iff.mp hrest
      exact (takeWhile_line h rest).1
  simp only [Console.getline, htake]
  rw [if_neg (by simp), if_pos (by omega)]

/-- Every text is a line, and the end or a newline. -/
theorem exists_line (input : Text) :
    ∃ line rest, input = line ++ rest ∧ '\n' ∉ line ∧ (rest = [] ∨ rest.head? = some '\n') := by
  by_cases hmem : '\n' ∈ input
  · obtain ⟨line, rest, rfl, hline⟩ := List.eq_append_cons_of_mem hmem
    exact ⟨line, '\n' :: rest, rfl, hline, .inr rfl⟩
  · exact ⟨input, [], (List.append_nil _).symm, hmem, .inl rfl⟩

/-! ### The loop -/

/-- Once a flag of the stream is set, the loop runs on forever: each pass gets the empty line, and
clears nothing. By induction on the fuel. -/
theorem loop_of_not_good (h : s.cin.good = false) (fuel : ℕ) : loop fuel s = none := by
  induction fuel with
  | zero => rfl
  | succ fuel ih =>
    have hpass : s.pass = (true, s) := by
      rw [pass, getline_of_not_good h]
      rfl
    rw [loop, hpass]
    exact ih

/-- A pass that goes on. -/
theorem loop_succ_of_ne {fuel : ℕ} {buffer : Text} {cin : Console}
    (hline : s.cin.getline 256 = (buffer, cin)) (h : cString buffer ≠ "exit".toList) :
    loop (fuel + 1) s = loop fuel ({ s with cin }.after [cString buffer]) := by
  have hpass : s.pass = (true, { s with cin }.after [cString buffer]) := by
    rw [pass, hline]
    exact execute_of_ne h _
  rw [loop, hpass]

/-- The pass that ends the loop. -/
theorem loop_succ_exit {fuel : ℕ} {buffer : Text} {cin : Console}
    (hline : s.cin.getline 256 = (buffer, cin)) (h : cString buffer = "exit".toList) :
    loop (fuel + 1) s = some { s with cin } := by
  have hpass : s.pass = (false, { s with cin }) := by
    rw [pass, hline]
    show execute (cString buffer) _ = _
    rw [h]
    rfl
  rw [loop, hpass]

/-- The lines that are carried out before the loop ends. A longer line would set the flag of the
stream, and `exit` would end the loop. -/
def Carried (lines : List Text) : Prop :=
  ∀ line ∈ lines, '\n' ∉ line ∧ line.length ≤ 255 ∧ line ≠ "exit".toList

/-- The text of an input that ends the loop behind these lines. What stands behind the `exit` is not
looked at. -/
def exitText (lines : List Text) (rest : Text) : Text :=
  lines.flatMap (· ++ ['\n']) ++ ("exit".toList ++ rest)

/-- The console behind the `exit`. -/
def consoleAfter (rest : Text) : Console := { input := rest.tail, good := !rest.isEmpty }

/-- One more line in front. -/
theorem exitText_cons (line : Text) (lines : List Text) (rest : Text) :
    exitText (line :: lines) rest = line ++ '\n' :: exitText lines rest := by
  rw [exitText, List.flatMap_cons, List.append_assoc, List.append_assoc]
  rfl

/-- A buffer without a NUL is its own C string. -/
theorem cString_of_nul_not_mem {t u : Text} (h : '\x00' ∉ t ++ u) : cString t = t :=
  cString_eq_self fun hmem => h (List.mem_append_left _ hmem)

/-- Such an input ends the loop. By induction on the lines in front of the `exit`. -/
theorem evals_of_exitText {lines : List Text} (hlines : Carried lines)
    (hrest : rest = [] ∨ rest.head? = some '\n') (hnul : '\x00' ∉ exitText lines rest)
    (hs : s.cin = { input := exitText lines rest }) :
    Evals loop s ({ s with cin := consoleAfter rest }.after lines) := by
  induction lines generalizing s with
  | nil =>
    -- the line `exit` is the last one, with or without a line end
    have hexit : '\n' ∉ "exit".toList := by decide
    have hgetline : s.cin.getline 256 = ("exit".toList, consoleAfter rest) := by
      rw [hs]
      show ({ input := "exit".toList ++ rest } : Console).getline 256 = _
      rcases hrest with rfl | hrest
      · exact getline_last hexit (by decide)
      · obtain ⟨rest, rfl⟩ := List.head?_eq_some_iff.mp hrest
        exact getline_line hexit (by decide) rest
    refine ⟨1, (loop_succ_exit hgetline rfl).trans ?_⟩
    rw [after_nil]
  | cons line lines ih =>
    -- a line before it is executed, and the loop goes on with the rest
    obtain ⟨⟨hline, hlength, hne⟩, hlines⟩ := List.forall_mem_cons.mp hlines
    rw [exitText_cons] at hnul hs
    have hgetline : s.cin.getline 256 = (line, { input := exitText lines rest }) := by
      rw [hs]
      exact getline_line hline hlength _
    have hstr := cString_of_nul_not_mem hnul
    obtain ⟨fuel, hfuel⟩ :=
      ih (s := { s with cin := { input := exitText lines rest } }.after [line])
      hlines (fun hmem => hnul (List.mem_append_right _ (List.mem_cons_of_mem _ hmem))) rfl
    refine ⟨fuel + 1, ?_⟩
    rw [loop_succ_of_ne hgetline (by rw [hstr]; exact hne), hstr, hfuel]
    exact congrArg some (after_cons { s with cin := consoleAfter rest } line lines).symm

/-- An input that ends the loop is such an input. By induction on the fuel, with the three ways in
which `getline` can return. -/
theorem exitText_of_loop {fuel : ℕ} {input : Text} (hnul : '\x00' ∉ input)
    (hs : s.cin = { input }) (h : loop fuel s = some s') :
    ∃ lines rest, input = exitText lines rest ∧ (rest = [] ∨ rest.head? = some '\n') ∧
      Carried lines ∧ s' = { s with cin := consoleAfter rest }.after lines := by
  induction fuel generalizing s input with
  | zero => cases h
  | succ fuel ih =>
    obtain ⟨line, rest, rfl, hline, hrest⟩ := exists_line input
    have hstr := cString_of_nul_not_mem hnul
    by_cases hlength : line.length ≤ 255
    · obtain ⟨cin, hgetline, hcin⟩ : ∃ cin, s.cin.getline 256 = (line, cin) ∧
          cin = consoleAfter rest := by
        rw [hs]
        rcases hrest with rfl | hrest
        · rw [List.append_nil]
          exact ⟨_, getline_last hline hlength, rfl⟩
        · obtain ⟨rest, rfl⟩ := List.head?_eq_some_iff.mp hrest
          exact ⟨_, getline_line hline hlength rest, rfl⟩
      subst hcin
      by_cases hexit : line = "exit".toList
      · rw [loop_succ_exit hgetline (by rw [hstr]; exact hexit), Option.some.injEq] at h
        subst hexit h
        exact ⟨[], rest, rfl, hrest, List.forall_mem_nil _, (after_nil _).symm⟩
      rw [loop_succ_of_ne hgetline (by rw [hstr]; exact hexit), hstr] at h
      rcases hrest with rfl | hrest
      · -- the last line
        rw [loop_of_not_good rfl] at h
        cases h
      · obtain ⟨rest, rfl⟩ := List.head?_eq_some_iff.mp hrest
        have hnul' : '\x00' ∉ rest := fun hmem =>
          hnul (List.mem_append_right _ (List.mem_cons_of_mem _ hmem))
        obtain ⟨lines, rest', rfl, hrest', hlines, rfl⟩ := ih hnul' rfl h
        refine ⟨line :: lines, rest', (exitText_cons ..).symm, hrest',
          List.forall_mem_cons.mpr ⟨⟨hline, hlength, hexit⟩, hlines⟩, ?_⟩
        exact (after_cons { s with cin := consoleAfter rest' } line lines).symm
    · -- a line that does not fit
      have hgetline := getline_long hline (Nat.lt_of_not_le hlength) hrest
      rw [← hs] at hgetline
      have hne : cString (line.take 255) ≠ "exit".toList := by
        intro heq
        have hfull : cString (line.take 255) = line.take 255 := cString_eq_self fun hmem =>
          hnul (List.mem_append_left _ (List.mem_of_mem_take hmem))
        rw [hfull] at heq
        have hcount := congrArg List.length heq
        rw [List.length_take, Nat.min_eq_left (by omega)] at hcount
        exact absurd hcount (by decide)
      rw [loop_succ_of_ne hgetline hne, loop_of_not_good rfl] at h
      cases h

/-- The loop ends exactly if the input has an `exit` line in front of which every line fits into
the buffer. The lines in front of it have been carried out. -/
theorem commandLoop_ends_iff {input : Text} (hnul : '\x00' ∉ input) (s' : CommandLoop) :
    Evals loop { cin := { input } } s' ↔
      ∃ lines rest, input = exitText lines rest ∧ (rest = [] ∨ rest.head? = some '\n') ∧
        Carried lines ∧
        s' = ⟨consoleAfter rest, dbmsgAfter false lines, systemCalls lines⟩ := by
  constructor
  · rintro ⟨fuel, hfuel⟩
    obtain ⟨lines, rest, hinput, hrest, hlines, hs'⟩ := exitText_of_loop hnul rfl hfuel
    exact ⟨lines, rest, hinput, hrest, hlines, hs'⟩
  · rintro ⟨lines, rest, rfl, hrest, hlines, rfl⟩
    exact evals_of_exitText hlines hrest hnul rfl

/-- A command, a flag, and the end. -/
theorem commandLoop_ends_dir :
    Evals loop { cin := { input := "$dir\n\ndbmsg on\nexit\n".toList } }
      ⟨{ input := [] }, true, ["dir".toList]⟩ := by
  refine (commandLoop_ends_iff (by decide) _).mpr
    ⟨["$dir".toList, [], "dbmsg on".toList], ['\n'], by decide, .inr rfl, ?_, by decide⟩
  intro line hline
  simp only [List.mem_cons, List.not_mem_nil, or_false] at hline
  rcases hline with rfl | rfl | rfl <;> decide

end CommandLoop

end OnlineJudger
