import OnlineJudger.Judger.WorkDir
import OnlineJudger.Proofs.LZData.TypedValues
import Mathlib.Data.List.Nodup

/-!
# `OnlineJudger.Proofs.Judger.WorkDir`: tasks side by side

* `workFiles_disjoint`: tasks of different solutions have no file in common.
* `judge_within`: a task is judged within its own files.
* `exec_judge`: a task that is judged alone gets the verdict of `JudgeCore.doJudge`, and every
  answer that `doJudge` asks for comes from the task's own source, compiler and program.
* `judge_apart`: the same holds for tasks that are judged side by side, in every interleaving.
-/

set_option autoImplicit false

namespace OnlineJudger

open Lib (Prog Par)

/-! ### The names of the files -/

namespace TaskBase

/-- The files of a task. -/
def workFiles (task : TaskBase) : List Text :=
  [task.codeFile, task.compilerOutput, task.exeOutput, task.exeName]

/-- The next test has the same files. -/
@[simp] theorem setTestDataIndex_workFiles (task : TaskBase) (i : ℕ) :
    (task.setTestDataIndex i).workFiles = task.workFiles := by
  unfold setTestDataIndex
  split <;> rfl

/-- The extensions of the files of a task. -/
def workExts (config : Config) (language : Int) : List Text :=
  [getLanguageExt config language, ".txt".toList, ".out".toList, ".exe".toList]

end TaskBase

/-- A name is split at its first dot, so a number and an extension can be told from it. -/
theorem append_dot_injective {a b t u : Text} (ha : '.' ∉ a) (hb : '.' ∉ b)
    (h : a ++ '.' :: t = b ++ '.' :: u) : a = b ∧ t = u := by
  have htake : ∀ {c v : Text}, '.' ∉ c → (c ++ '.' :: v).takeWhile (· ≠ '.') = c := by
    intro c v hc
    rw [List.takeWhile_append_of_pos, List.takeWhile_cons_of_neg, List.append_nil]
    · simp
    · intro ch hch
      simpa using fun heq : ch = '.' => hc (heq ▸ hch)
  have hab : a = b := by rw [← htake (v := t) ha, h, htake hb]
  subst hab
  exact ⟨rfl, (List.cons.inj (List.append_cancel_left h)).2⟩

/-- An extension begins with a dot, and the rest of it is one of four words. -/
theorem getLanguageExt_eq (config : Config) (t : Int) :
    ∃ ext ∈ ["c".toList, "cpp".toList, "java".toList, "unknown".toList],
      getLanguageExt config t = '.' :: ext := by
  unfold getLanguageExt
  split_ifs
  · exact ⟨"c".toList, by simp, rfl⟩
  · exact ⟨"cpp".toList, by simp, rfl⟩
  · exact ⟨"java".toList, by simp, rfl⟩
  · exact ⟨"unknown".toList, by simp, rfl⟩

/-- So do all extensions of a task. -/
theorem workExts_dot {config : Config} {language : Int} {ext : Text}
    (h : ext ∈ TaskBase.workExts config language) : ∃ rest, ext = '.' :: rest := by
  simp only [TaskBase.workExts, List.mem_cons, List.not_mem_nil, or_false] at h
  rcases h with rfl | rfl | rfl | rfl
  · obtain ⟨ext, -, h⟩ := getLanguageExt_eq config language
    exact ⟨ext, h⟩
  · exact ⟨"txt".toList, rfl⟩
  · exact ⟨"out".toList, rfl⟩
  · exact ⟨"exe".toList, rfl⟩

/-- No two of them are the same. An extension of a language is none of the other three. -/
theorem workExts_nodup (config : Config) (language : Int) :
    (TaskBase.workExts config language).Nodup := by
  obtain ⟨ext, hmem, hext⟩ := getLanguageExt_eq config language
  unfold TaskBase.workExts
  rw [hext]
  simp only [List.mem_cons, List.not_mem_nil, or_false] at hmem
  rcases hmem with rfl | rfl | rfl | rfl <;> decide

/-- A task that has its own files. Their names begin with its solution, so tasks of different
solutions share none. -/
structure HasFiles (config : Config) (task : TaskBase) : Prop where
  solution : task.solutionID ≠ 0
  files : task.workFiles = (TaskBase.workExts config task.language).map fun ext =>
    WORK_DIR ++ formatInt task.solutionID ++ ext

/-- A new task has its own files, unless its solution has the number that stands for none. -/
theorem hasFiles_new (config : Config) (testData : List Text) {solutionID : Int}
    (hsolution : solutionID ≠ 0) (problemID : Int) (userName : Text)
    (language limitCompileTime limitTime limitMemory : Int) :
    HasFiles config (TaskBase.new config testData solutionID problemID userName language
      limitCompileTime limitTime limitMemory) := by
  unfold TaskBase.new TaskBase.initializeData
  rw [if_neg hsolution]
  dsimp only
  split
  · unfold TaskBase.setTestDataIndex
    split <;> exact ⟨hsolution, rfl⟩
  · exact ⟨hsolution, rfl⟩

section Names

variable {config : Config} {task task' : TaskBase} {name : Text}

/-- The four names are different, because their extensions are. -/
theorem HasFiles.nodup (h : HasFiles config task) : task.workFiles.Nodup := by
  rw [h.files]
  exact List.Nodup.map (fun _ _ heq => List.append_cancel_left heq)
    (workExts_nodup config task.language)

/-- Tasks of different solutions have no file in common: the number stands in front of the first
dot. -/
theorem workFiles_disjoint (h : HasFiles config task) (h' : HasFiles config task')
    (hname : name ∈ task.workFiles) (hname' : name ∈ task'.workFiles) :
    task.solutionID = task'.solutionID := by
  rw [h.files, List.mem_map] at hname
  rw [h'.files, List.mem_map] at hname'
  obtain ⟨ext, hext, rfl⟩ := hname
  obtain ⟨ext', hext', heq⟩ := hname'
  obtain ⟨rest, rfl⟩ := workExts_dot hext
  obtain ⟨rest', rfl⟩ := workExts_dot hext'
  have hdot : ∀ n : Int, '.' ∉ formatInt n := fun n => notMem_formatInt (by decide) (by decide)
  rw [List.append_assoc, List.append_assoc] at heq
  have hnumber := (append_dot_injective (hdot _) (hdot _) (List.append_cancel_left heq)).1
  exact (formatInt_injective hnumber).symm

end Names

/-! ### A task stays in its files

Nothing that is done to a task changes the names of its files. -/

/-- The compiler sets the result and the error text. -/
theorem CppCompiler.exc_workFiles (config : Config) (report : CompileReport) (task : TaskBase) :
    (CppCompiler.exc config report task).2.workFiles = task.workFiles := by
  unfold exc
  split_ifs <;> rfl

/-- The runner sets the result and the measurements. -/
theorem ExeDebugRunner.exc_workFiles (config : Config) (report : RunReport) (task : TaskBase) :
    (ExeDebugRunner.exc config report task).2.workFiles = task.workFiles := by
  cases report with
  | createFailed => rfl
  | watched watcher noError code =>
    unfold exc
    dsimp only
    split_ifs <;> rfl

/-- The matcher sets the result. -/
theorem Matcher.exc_workFiles (config : Config) (srcFile destFile : Option Text)
    (task : TaskBase) :
    (Matcher.exc config srcFile destFile task).2.workFiles = task.workFiles := by
  unfold exc
  dsimp only
  split_ifs <;> rfl

namespace WorkDir

section Within

variable {P : Text → Prop} {config : Config} {answers : TaskAnswers} {files : List Text}
variable {task : TaskBase}

/-- A file that is written is the one that is named. -/
theorem create_within {name : Text} (h : P name) (opened : Bool) (content : Text) :
    (create opened name content).Within P fun _ => True := by
  unfold create
  split
  · exact Prog.within_write h _
  · exact Prog.within_pure trivial

/-- Each attempt is made on the same file. By induction on the attempts that are left. -/
theorem removeLoop_within {name : Text} (h : P name) (refuse : ℕ → Bool) (attemp i : ℕ) :
    (removeLoop refuse name attemp i).Within P fun _ => True := by
  induction attemp generalizing i with
  | zero => exact Prog.within_pure trivial
  | succ attemp ih =>
    refine Prog.within_bind (Q := fun _ => True) ⟨h, fun _ => trivial⟩ fun result _ => ?_
    cases result with
    | deleted => exact Prog.within_pure trivial
    | notFound => exact Prog.within_pure trivial
    | failed => exact ih (i + 1)

/-- The ten attempts to remove a file. -/
theorem safeRemoveFile_within {name : Text} (h : P name) (refuse : ℕ → Bool) :
    (safeRemoveFile refuse name).Within P fun _ => True := removeLoop_within h refuse 10 1

/-- The four names are the files of the task. -/
theorem mem_of_workFiles (h : task.workFiles = files) :
    task.codeFile ∈ files ∧ task.compilerOutput ∈ files ∧ task.exeOutput ∈ files ∧
      task.exeName ∈ files := by
  subst h
  simp only [TaskBase.workFiles, List.mem_cons, true_or, or_true, and_self]

/-- The code goes to the code file of the task. -/
theorem tryLoadCode_within (h : task.workFiles = files) :
    (tryLoadCode answers task).Within (· ∈ files) fun _ => True := by
  unfold tryLoadCode
  split
  · exact Prog.within_pure trivial
  · exact create_within (mem_of_workFiles h).1 _ _

/-- The compiler reads the code, and writes its output and the program. -/
theorem waitCompiler_within (h : task.workFiles = files) :
    (waitCompiler config answers task).Within (· ∈ files) fun r => r.2.workFiles = files := by
  obtain ⟨hcode, houtput, -, hexe⟩ := mem_of_workFiles h
  refine Prog.within_bind (Prog.within_read hcode) fun code _ => ?_
  refine Prog.within_bind (Prog.within_read hexe) fun exe _ => ?_
  refine Prog.within_bind (Prog.within_write hexe _) fun _ _ => ?_
  refine Prog.within_bind (create_within houtput _ _) fun _ _ => ?_
  split
  · exact Prog.within_bind (Prog.within_read houtput) fun _ _ => Prog.within_pure h
  · exact Prog.within_pure h

/-- The old program is removed first, and then the compiler runs. -/
theorem compilerExc_within (h : task.workFiles = files) :
    (compilerExc config answers task).Within (· ∈ files) fun r => r.2.workFiles = files := by
  obtain ⟨hcode, houtput, -, -⟩ := mem_of_workFiles h
  refine Prog.within_bind (Prog.within_read hcode) fun code _ => ?_
  split
  · exact Prog.within_pure h
  split
  · exact Prog.within_pure h
  refine Prog.within_bind (create_within houtput _ _) fun _ _ => ?_
  split
  · exact Prog.within_pure h
  · exact waitCompiler_within h

/-- The runner reads the program and writes its output. -/
theorem runnerExc_within (h : task.workFiles = files) (i : ℕ) :
    (runnerExc config answers i task).Within (· ∈ files) fun r => r.2.workFiles = files := by
  obtain ⟨-, -, houtput, hexe⟩ := mem_of_workFiles h
  refine Prog.within_bind (create_within houtput _ _) fun _ _ => ?_
  refine Prog.within_bind (Prog.within_read hexe) fun exe _ => ?_
  refine Prog.within_bind (create_within houtput _ _) fun _ _ => ?_
  exact Prog.within_pure ((ExeDebugRunner.exc_workFiles ..).trans h)

/-- The matcher reads the output. -/
theorem matcherExc_within (h : task.workFiles = files) (i : ℕ) :
    (matcherExc config answers i task).Within (· ∈ files) fun r => r.2.workFiles = files := by
  refine Prog.within_bind (Prog.within_read (mem_of_workFiles h).2.2.1) fun output _ => ?_
  exact Prog.within_pure ((Matcher.exc_workFiles ..).trans h)

/-- A test runs the program and compares its output. -/
theorem runTest_within {st : JudgeCore.LoopState} (h : st.task.workFiles = files) (i : ℕ) :
    (runTest config answers i st).Within (· ∈ files) fun r => r.1.task.workFiles = files := by
  have hindex := (st.task.setTestDataIndex_workFiles i).trans h
  refine Prog.within_bind (runnerExc_within hindex i) fun r hr => ?_
  obtain ⟨result, task⟩ := r
  dsimp only
  split
  · exact Prog.within_bind (matcherExc_within hr i) fun r hr => Prog.within_pure hr
  · exact Prog.within_pure hr

/-- The test loop, by induction on the tests that are left. -/
theorem judgeLoop_within (remaining i : ℕ) {st : JudgeCore.LoopState}
    (h : st.task.workFiles = files) :
    (judgeLoop config answers remaining i st).Within (· ∈ files) fun r =>
      r.2.task.workFiles = files := by
  induction remaining generalizing i st with
  | zero => exact Prog.within_pure h
  | succ remaining ih =>
    refine Prog.within_bind (runTest_within h i) fun r hr => ?_
    obtain ⟨st, result⟩ := r
    refine Prog.within_bind (safeRemoveFile_within (mem_of_workFiles hr).2.2.1 _) fun _ _ => ?_
    split
    · exact Prog.within_pure hr
    split
    · exact ih (i + 1) hr
    · exact Prog.within_pure hr

/-- The code, the compiler and the tests. -/
theorem doJudge_within (h : task.workFiles = files) :
    (doJudge config answers task).Within (· ∈ files) fun r => r.2.workFiles = files := by
  refine Prog.within_bind (compilerExc_within h) fun r hr => ?_
  obtain ⟨compiled, task⟩ := r
  dsimp only
  split
  · exact Prog.within_pure hr
  split
  · exact Prog.within_pure hr
  refine Prog.within_bind (judgeLoop_within _ 0 hr) fun r hr => ?_
  obtain ⟨finished, st⟩ := r
  dsimp only
  split
  · exact Prog.within_pure hr
  · exact Prog.within_pure hr

/-- The four files are removed. -/
theorem doCleanUp_within (h : task.workFiles = files) :
    (doCleanUp answers task).Within (· ∈ files) fun _ => True := by
  obtain ⟨hcode, hcompiler, houtput, hexe⟩ := mem_of_workFiles h
  refine Prog.within_bind (safeRemoveFile_within hcode _) fun _ _ => ?_
  split
  · exact Prog.within_pure trivial
  refine Prog.within_bind (safeRemoveFile_within hcompiler _) fun _ _ => ?_
  split
  · exact Prog.within_pure trivial
  refine Prog.within_bind (safeRemoveFile_within houtput _) fun _ _ => ?_
  split
  · exact Prog.within_pure trivial
  · exact safeRemoveFile_within hexe _

/-- A task is judged within its own files. -/
theorem judge_within (h : task.workFiles = files) :
    (judge config answers task).Within (· ∈ files) fun r => r.1.workFiles = files := by
  refine Prog.within_bind (tryLoadCode_within h) fun _ _ => ?_
  refine Prog.within_bind (doJudge_within h) fun r hr => ?_
  exact Prog.within_bind (doCleanUp_within hr) fun _ _ => Prog.within_pure hr

end Within

/-! ### What a task that is judged alone is asked for -/

/-- `DeleteFile`, when some attempts are refused. -/
def removal (refuse : ℕ → Bool) (attempt : ℕ) : DeleteResult :=
  if refuse attempt then .failed else .deleted

end WorkDir

namespace TaskAnswers

/-- The code file behind `tryLoadCode`. -/
def code (answers : TaskAnswers) (files : Text → Option Text) (task : TaskBase) : Option Text :=
  match answers.source with
  | some code => if answers.codeOpened then some (textMode code) else files task.codeFile
  | none => files task.codeFile

/-- What the compiler leaves behind. -/
def outcome (answers : TaskAnswers) (files : Text → Option Text) (task : TaskBase) :
    CompileOutcome := answers.compile (answers.code files task) (files task.exeName)

/-- What `JudgeCore::judge` asks the system for, when no other task is in the directory. A file that
was not opened has what it had before, and the output of a program is removed behind each test. -/
def env (answers : TaskAnswers) (files : Text → Option Text) (task : TaskBase) : JudgeEnv where
  compile :=
    { codeFileExists := (answers.code files task).isSome
      created := answers.compilerCreated
      exitCode := (answers.outcome files task).exitCode
      output :=
        if answers.compilerOpened then some (answers.readText (answers.outcome files task).output)
        else (files task.compilerOutput).map answers.readText }
  test i :=
    let run := answers.run i (answers.outcome files task).exe
    { run := run.report
      srcFile := answers.expected i
      destFile :=
        if answers.outputOpened i then some (answers.readText run.output)
        else if i = 0 then (files task.exeOutput).map answers.readText
        else none
      removeOutput := WorkDir.removal (answers.refuseOutput i) }
  removeCode := WorkDir.removal answers.refuseCode
  removeCompilerOutput := WorkDir.removal answers.refuseCompilerOutput
  removeExeOutput := WorkDir.removal answers.refuseExeOutput
  removeExe := WorkDir.removal answers.refuseExe

end TaskAnswers

namespace WorkDir

section Alone

variable {config : Config} {answers : TaskAnswers} {files s : Text → Option Text}
variable {task : TaskBase}

/-- A file that cannot be opened stays as it was. -/
@[simp] theorem exec_create (opened : Bool) (name content : Text) :
    (create opened name content).exec s =
      ((), if opened then Function.update s name (some content) else s) := by
  unfold create
  split <;> rfl

/-- A file is removed unless all attempts are refused. By induction on the attempts that are
left. -/
theorem exec_removeLoop (refuse : ℕ → Bool) (name : Text) (attemp i : ℕ) :
    (removeLoop refuse name attemp i).exec s =
      (OnlineJudger.removeLoop (removal refuse) attemp i,
        if OnlineJudger.removeLoop (removal refuse) attemp i then Function.update s name none
        else s) := by
  induction attemp generalizing i with
  | zero => rfl
  | succ attemp ih =>
    rw [removeLoop, OnlineJudger.removeLoop, removal, Lib.Prog.exec_bind, deleteFile,
      Lib.Prog.exec_access]
    cases refuse i with
    | true =>
      simp only [Prog.exec, if_true, Function.update_eq_self]
      exact ih (i + 1)
    | false =>
      cases s name with
      | none => rfl
      | some content => rfl

/-- The same for the ten attempts of `safeRemoveFile`. -/
@[simp] theorem exec_safeRemoveFile (refuse : ℕ → Bool) (name : Text) :
    (safeRemoveFile refuse name).exec s =
      (OnlineJudger.safeRemoveFile (removal refuse),
        if OnlineJudger.safeRemoveFile (removal refuse) then Function.update s name none else s) :=
  exec_removeLoop refuse name 10 1

/-- Behind `tryLoadCode` the code file has what the compiler will find. -/
theorem exec_tryLoadCode :
    (tryLoadCode answers task).exec s =
      ((), Function.update s task.codeFile (answers.code s task)) := by
  unfold tryLoadCode TaskAnswers.code
  cases answers.source with
  | none => simp only [Prog.exec_pure, Function.update_eq_self]
  | some code =>
    rw [exec_create]
    cases answers.codeOpened with
    | true => rfl
    | false => simp only [Bool.false_eq_true, if_false, Function.update_eq_self]

/-- The four names are different. -/
theorem ne_of_nodup (h : task.workFiles.Nodup) :
    task.codeFile ≠ task.compilerOutput ∧ task.codeFile ≠ task.exeOutput ∧
      task.codeFile ≠ task.exeName ∧ task.compilerOutput ≠ task.exeOutput ∧
      task.compilerOutput ≠ task.exeName ∧ task.exeOutput ≠ task.exeName := by
  simp only [TaskBase.workFiles, List.nodup_cons, List.mem_cons, List.not_mem_nil, or_false,
    not_or] at h
  exact ⟨h.1.1, h.1.2.1, h.1.2.2, h.2.1.1, h.2.1.2, h.2.2.1⟩

/-- The compiler reads the task's own code, and leaves the task's own program. The three hypotheses
on the store say that these files are as if the task were alone; the other files of the store may be
anything. -/
theorem exec_waitCompiler (config : Config) (hnodup : task.workFiles.Nodup)
    (hcode : s task.codeFile = answers.code files task)
    (hexe : s task.exeName = files task.exeName)
    (houtput : answers.compilerOpened = false → s task.compilerOutput = files task.compilerOutput) :
    ((waitCompiler config answers task).exec s).1 =
        (if (answers.outcome files task).exitCode ≠ 0 then
          (false, (task.setResult config.JE_COMPLIE).setCompileError
            (match (answers.env files task).compile.output with
            | some content => CppCompiler.readOutput content.length content
            | none => []))
        else (true, task)) ∧
      ((waitCompiler config answers task).exec s).2 task.exeName =
        (answers.outcome files task).exe ∧
      ((waitCompiler config answers task).exec s).2 task.exeOutput = s task.exeOutput := by
  -- `t` is the store behind the compiler
  obtain ⟨-, -, -, hne₄, hne₅, hne₆⟩ := ne_of_nodup hnodup
  obtain ⟨t, ht⟩ : ∃ t, (if answers.compilerOpened = true then
      Function.update (Function.update s task.exeName (answers.outcome files task).exe)
        task.compilerOutput (some (answers.outcome files task).output)
    else Function.update s task.exeName (answers.outcome files task).exe) = t := ⟨_, rfl⟩
  -- the program is the one that it has made
  have hexe' : t task.exeName = (answers.outcome files task).exe := by
    rw [← ht]
    split
    · rw [Function.update_of_ne hne₅.symm, Function.update_self]
    · exact Function.update_self ..
  -- the output of the runs is not touched
  have hexeOutput : t task.exeOutput = s task.exeOutput := by
    rw [← ht]
    split
    · rw [Function.update_of_ne hne₄.symm, Function.update_of_ne hne₆]
    · exact Function.update_of_ne hne₆ ..
  -- the output of the compiler is what it has written, or what was there
  have houtput' : (t task.compilerOutput).map answers.readText =
      (answers.env files task).compile.output := by
    show _ = if answers.compilerOpened = true then _ else _
    rw [← ht]
    split
    · rw [Function.update_self]
      rfl
    · next hclosed =>
      rw [Function.update_of_ne hne₅, houtput (Bool.eq_false_iff.mpr hclosed)]
  unfold waitCompiler
  simp only [Prog.exec_bind, Prog.exec_read, Prog.exec_write, exec_create, hcode, hexe]
  rw [show answers.compile (answers.code files task) (files task.exeName) =
    answers.outcome files task from rfl, ht]
  -- a compiler that fails has its output read, and one that succeeds has not
  by_cases hexit : (answers.outcome files task).exitCode ≠ 0
  · rw [if_pos hexit, if_pos hexit, Prog.exec_bind, Prog.exec_read, houtput']
    exact ⟨rfl, hexe', hexeOutput⟩
  · rw [if_neg hexit, if_neg hexit]
    exact ⟨rfl, hexe', hexeOutput⟩

/-- The compiler's part of the task, from its own files. What it leaves is what the environment
says. -/
theorem exec_compilerExc (config : Config) (hnodup : task.workFiles.Nodup)
    (hcode : s task.codeFile = answers.code files task)
    (hexe : s task.exeName = files task.exeName)
    (houtput : s task.compilerOutput = files task.compilerOutput) :
    ((compilerExc config answers task).exec s).1 =
        CppCompiler.exc config (answers.env files task).compile task ∧
      (((compilerExc config answers task).exec s).1.1 = true →
        ((compilerExc config answers task).exec s).2 task.exeName =
            (answers.outcome files task).exe ∧
          ((compilerExc config answers task).exec s).2 task.exeOutput = s task.exeOutput) := by
  -- the tests of `exc` in their order, and the compiler behind the last one
  obtain ⟨hne₁, -, -, hne₄, hne₅, -⟩ := ne_of_nodup hnodup
  have hexists : (answers.env files task).compile.codeFileExists = !(s task.codeFile).isNone := by
    rw [hcode, Option.not_isNone]
    rfl
  have hcreated : (answers.env files task).compile.created = answers.compilerCreated := rfl
  unfold compilerExc CppCompiler.exc
  rw [Prog.exec_bind, Prog.exec_read, hexists, Bool.not_not, hcreated]
  -- there is no code
  by_cases hfile : (s task.codeFile).isNone = true
  · rw [if_pos hfile, if_pos hfile]
    exact ⟨rfl, fun h => by cases h⟩
  rw [if_neg hfile, if_neg hfile]
  -- no compiler for the language
  by_cases hlanguage : task.language ≠ config.CL_GCC ∧ task.language ≠ config.CL_GPLUS
  · rw [if_pos hlanguage, if_pos hlanguage]
    exact ⟨rfl, fun h => by cases h⟩
  rw [if_neg hlanguage, if_neg hlanguage, Prog.exec_bind]
  -- the compiler could not be created
  by_cases hnot : (!answers.compilerCreated) = true
  · rw [if_pos hnot, if_pos hnot]
    exact ⟨rfl, fun h => by cases h⟩
  rw [if_neg hnot, if_neg hnot]
  -- `t` is the store behind the creation of the output file
  obtain ⟨t, ht⟩ : ∃ t, ((create answers.compilerOpened task.compilerOutput []).exec s).2 = t :=
    ⟨_, rfl⟩
  rw [ht]
  rw [exec_create] at ht
  have hkeep : ∀ name, name ≠ task.compilerOutput → t name = s name := by
    intro name hname
    rw [← ht]
    split
    · exact Function.update_of_ne hname _ _
    · rfl
  have hclosed : answers.compilerOpened = false →
      t task.compilerOutput = files task.compilerOutput := by
    intro hclosed
    rw [← ht, hclosed]
    exact houtput
  obtain ⟨hret, hexe', hexeOutput⟩ := exec_waitCompiler config hnodup
    ((hkeep _ hne₁).trans hcode) ((hkeep _ hne₅.symm).trans hexe) hclosed
  exact ⟨hret, fun _ => ⟨hexe', hexeOutput.trans (hkeep _ hne₄.symm)⟩⟩

/-! The runner, the matcher and the test loop. -/

variable {cur : TaskBase} {i : ℕ}

/-- Tasks with the same files have the same names for them. -/
theorem names_of_workFiles (h : cur.workFiles = task.workFiles) :
    cur.codeFile = task.codeFile ∧ cur.compilerOutput = task.compilerOutput ∧
      cur.exeOutput = task.exeOutput ∧ cur.exeName = task.exeName := by
  simpa only [TaskBase.workFiles, List.cons.injEq, and_true] using h

/-- The runner runs the task's own program, and leaves what it has written. If the output file
cannot be opened, the old output stays, so it is a hypothesis as well. -/
theorem exec_runnerExc (config : Config) (hnodup : task.workFiles.Nodup)
    (hcur : cur.workFiles = task.workFiles)
    (hexe : s task.exeName = (answers.outcome files task).exe)
    (houtput : answers.outputOpened i = false →
      (s task.exeOutput).map answers.readText = ((answers.env files task).test i).destFile) :
    ((runnerExc config answers i cur).exec s).1 =
        ExeDebugRunner.exc config ((answers.env files task).test i).run cur ∧
      (((runnerExc config answers i cur).exec s).2 task.exeOutput).map answers.readText =
        ((answers.env files task).test i).destFile ∧
      ((runnerExc config answers i cur).exec s).2 task.exeName = s task.exeName := by
  -- the runner writes to one file, and the program is in another
  obtain ⟨-, -, -, -, -, hne₆⟩ := ne_of_nodup hnodup
  obtain ⟨-, -, houtputName, hexeName⟩ := names_of_workFiles hcur
  unfold runnerExc
  rw [houtputName, hexeName]
  simp only [Prog.exec_bind, Prog.exec_read, exec_create, Prog.exec_pure]
  -- a file that cannot be opened keeps what it had
  cases hopened : answers.outputOpened i with
  | false =>
    simp only [Bool.false_eq_true, if_false, hexe]
    exact ⟨rfl, houtput hopened, trivial⟩
  -- else the program writes there
  | true =>
    simp only [if_true, Function.update_of_ne hne₆.symm, Function.update_self, hexe]
    refine ⟨rfl, ?_, trivial⟩
    show _ = if answers.outputOpened i = true then _ else _
    rw [if_pos hopened]
    rfl

/-- One test, with what the program has written in it. The matcher reads the output that the runner
has just left, and writes no file. -/
theorem exec_runTest (config : Config) {st : JudgeCore.LoopState} (hnodup : task.workFiles.Nodup)
    (hst : st.task.workFiles = task.workFiles)
    (hexe : s task.exeName = (answers.outcome files task).exe)
    (houtput : answers.outputOpened i = false →
      (s task.exeOutput).map answers.readText = ((answers.env files task).test i).destFile) :
    ((runTest config answers i st).exec s).1 =
        JudgeCore.runTest config ((answers.env files task).test i) i st ∧
      ((runTest config answers i st).exec s).2 task.exeName = s task.exeName := by
  -- the runner, and behind it the matcher if it has succeeded
  have hindex := (st.task.setTestDataIndex_workFiles i).trans hst
  obtain ⟨hret, hdest, hexe'⟩ := exec_runnerExc config hnodup hindex hexe houtput
  have hcur := (ExeDebugRunner.exc_workFiles config ((answers.env files task).test i).run _).trans
    hindex
  unfold runTest JudgeCore.runTest
  rw [Prog.exec_bind, hret]
  rcases hr : ExeDebugRunner.exc config ((answers.env files task).test i).run
    (st.task.setTestDataIndex i) with ⟨result, cur⟩
  rw [hr] at hcur
  simp only [hr]
  -- the matcher reads what the runner has left
  cases result with
  | false => exact ⟨rfl, hexe'⟩
  | true =>
    rw [if_pos rfl, if_pos rfl, Prog.exec_bind, matcherExc, Prog.exec_bind, Prog.exec_read,
      (names_of_workFiles hcur).2.2.1, hdest]
    exact ⟨rfl, hexe'⟩

/-- The test loop is asked for what the task's own program writes in each test. By induction on the
tests that are left: the output of a test is what the next one finds if it cannot open the file. -/
theorem exec_judgeLoop (hnodup : task.workFiles.Nodup) (remaining : ℕ) {st : JudgeCore.LoopState}
    (hst : st.task.workFiles = task.workFiles)
    (hexe : s task.exeName = (answers.outcome files task).exe)
    (houtput : answers.outputOpened i = false →
      (s task.exeOutput).map answers.readText = ((answers.env files task).test i).destFile) :
    ((judgeLoop config answers remaining i st).exec s).1 =
      JudgeCore.judgeLoop config (answers.env files task) remaining i st := by
  induction remaining generalizing i st s with
  | zero => rfl
  | succ remaining ih =>
    obtain ⟨-, -, -, -, -, hne₆⟩ := ne_of_nodup hnodup
    obtain ⟨hret, hexe'⟩ := exec_runTest config hnodup hst hexe houtput
    have hwithin : ((runTest config answers i st).exec s).1.1.task.workFiles = task.workFiles :=
      (runTest_within hst i).exec
    rw [hret] at hwithin
    have hremove : ((answers.env files task).test i).removeOutput =
      removal (answers.refuseOutput i) := rfl
    rw [judgeLoop, JudgeCore.judgeLoop, Prog.exec_bind, hret, hremove]
    rcases hr : JudgeCore.runTest config ((answers.env files task).test i) i st with ⟨st', result⟩
    rw [hr] at hwithin
    simp only []
    rw [Prog.exec_bind, exec_safeRemoveFile, (names_of_workFiles hwithin).2.2.1]
    cases hremoved : OnlineJudger.safeRemoveFile (removal (answers.refuseOutput i)) with
    | false => rfl
    | true =>
      cases result with
      | false => rfl
      | true =>
        -- the output of this test is gone, so the next one finds none
        refine ih (i := i + 1) hwithin ?_ fun hclosed => ?_
        · exact (Function.update_of_ne hne₆.symm ..).trans (hexe'.trans hexe)
        · show (Function.update ((runTest config answers i st).exec s).2 task.exeOutput none
              task.exeOutput).map answers.readText =
            if answers.outputOpened (i + 1) = true then _ else _
          rw [hclosed, Function.update_self]
          rfl

/-- A task that is judged alone, up to the finish callback. It is compiler, runner and matcher one
behind the other, with the loop over the tests in between. -/
theorem exec_doJudge (config : Config) (hnodup : task.workFiles.Nodup)
    (hcode : s task.codeFile = answers.code files task)
    (hrest : ∀ name ∈ task.workFiles, name ≠ task.codeFile → s name = files name) :
    ((doJudge config answers task).exec s).1 =
      JudgeCore.doJudge config (answers.env files task) task := by
  -- the compiler finds the code in its file, and the others as they were in the beginning
  obtain ⟨hne₁, hne₂, hne₃, -⟩ := ne_of_nodup hnodup
  obtain ⟨-, hcompiler, houtput, hexe⟩ := @mem_of_workFiles task.workFiles task rfl
  obtain ⟨hret, hstore⟩ := exec_compilerExc config hnodup hcode
    (hrest _ hexe hne₃.symm) (hrest _ hcompiler hne₁.symm)
  have hcur := CppCompiler.exc_workFiles config (answers.env files task).compile task
  unfold doJudge JudgeCore.doJudge
  rw [Prog.exec_bind]
  rw [hret] at hstore ⊢
  rcases hr : CppCompiler.exc config (answers.env files task).compile task with ⟨compiled, cur⟩
  rw [hr] at hstore hcur
  simp only []
  -- it has failed
  cases compiled with
  | false => rfl
  -- or it has left a program
  | true =>
    obtain ⟨hexe', hexeOutput⟩ := hstore rfl
    rw [Bool.not_true, if_neg Bool.false_ne_true, if_neg Bool.false_ne_true]
    -- there is no test
    by_cases hcount : cur.getTestDataCount = 0
    · rw [if_pos hcount, if_pos hcount]
      rfl
    rw [if_neg hcount, if_neg hcount, Prog.exec_bind]
    -- the output of the first test is what there was, unless its file is opened
    have hdest : answers.outputOpened 0 = false →
        (((compilerExc config answers task).exec s).2 task.exeOutput).map answers.readText =
          ((answers.env files task).test 0).destFile := by
      intro hclosed
      rw [hexeOutput, hrest _ houtput hne₂.symm]
      show _ = if answers.outputOpened 0 = true then _ else _
      rw [hclosed]
      rfl
    rw [exec_judgeLoop hnodup _ hcur hexe' hdest]
    rcases JudgeCore.judgeLoop config (answers.env files task) cur.getTestDataCount 0
      { task := cur } with ⟨finished, st⟩
    cases finished <;> rfl

/-- The files are removed one behind the other, up to one that the system refuses to remove. So the
result says whether all four are gone. -/
theorem exec_doCleanUp (answers : TaskAnswers) (files : Text → Option Text)
    (hcur : cur.workFiles = task.workFiles) :
    ((doCleanUp answers cur).exec s).1 = JudgeCore.doCleanUp (answers.env files task) ∧
      (JudgeCore.doCleanUp (answers.env files task) = true →
        ∀ name ∈ task.workFiles, ((doCleanUp answers cur).exec s).2 name = none) := by
  -- one file behind the other, and a file that is not removed ends it
  obtain ⟨hcode, hcompiler, houtput, hexe⟩ := names_of_workFiles hcur
  have henv : JudgeCore.doCleanUp (answers.env files task) =
      (OnlineJudger.safeRemoveFile (removal answers.refuseCode) &&
        OnlineJudger.safeRemoveFile (removal answers.refuseCompilerOutput) &&
        OnlineJudger.safeRemoveFile (removal answers.refuseExeOutput) &&
        OnlineJudger.safeRemoveFile (removal answers.refuseExe)) := rfl
  unfold doCleanUp
  rw [henv, hcode, hcompiler, houtput, hexe, Prog.exec_bind, exec_safeRemoveFile]
  cases OnlineJudger.safeRemoveFile (removal answers.refuseCode) with
  | false => exact ⟨rfl, fun h => by cases h⟩
  | true =>
    simp only [Bool.not_true, Bool.false_eq_true, if_false, if_true, Bool.true_and]
    rw [Prog.exec_bind, exec_safeRemoveFile]
    cases OnlineJudger.safeRemoveFile (removal answers.refuseCompilerOutput) with
    | false => exact ⟨rfl, fun h => by cases h⟩
    | true =>
      simp only [Bool.not_true, Bool.false_eq_true, if_false, if_true, Bool.true_and]
      rw [Prog.exec_bind, exec_safeRemoveFile]
      cases OnlineJudger.safeRemoveFile (removal answers.refuseExeOutput) with
      | false => exact ⟨rfl, fun h => by cases h⟩
      | true =>
        simp only [Bool.not_true, Bool.false_eq_true, if_false, if_true, Bool.true_and]
        rw [exec_safeRemoveFile]
        cases OnlineJudger.safeRemoveFile (removal answers.refuseExe) with
        | false => exact ⟨rfl, fun h => by cases h⟩
        -- all are removed
        | true =>
          -- so none of the four names is there
          refine ⟨rfl, fun _ name hname => ?_⟩
          simp only [TaskBase.workFiles, List.mem_cons, List.not_mem_nil, or_false] at hname
          simp only [if_true, Function.update_apply]
          rcases hname with rfl | rfl | rfl | rfl <;> simp

/-- A task that is judged alone is reported as `JudgeCore.doJudge` says, where all answers come from
the task's own files. -/
theorem exec_judge (config : Config) (answers : TaskAnswers) (hnodup : task.workFiles.Nodup)
    (files : Text → Option Text) :
    ((judge config answers task).exec files).1 =
        ((JudgeCore.doJudge config (answers.env files task) task).2,
          JudgeCore.doCleanUp (answers.env files task)) ∧
      (JudgeCore.doCleanUp (answers.env files task) = true →
        ∀ name ∈ task.workFiles, ((judge config answers task).exec files).2 name = none) := by
  have hcode : Function.update files task.codeFile (answers.code files task) task.codeFile =
    answers.code files task := Function.update_self ..
  have hjudge := exec_doJudge config hnodup hcode fun name _ hname =>
    Function.update_of_ne hname _ _
  have hwithin : ((doJudge config answers task).exec
      (Function.update files task.codeFile (answers.code files task))).1.2.workFiles =
      task.workFiles := (doJudge_within rfl).exec
  unfold judge
  simp only [Prog.exec_bind, exec_tryLoadCode]
  rw [hjudge] at hwithin ⊢
  obtain ⟨hret, hgone⟩ := exec_doCleanUp answers files hwithin
  exact ⟨Prod.ext rfl hret, hgone⟩

end Alone

/-! ### Tasks side by side -/

/-- The tasks that are judged side by side, each with what it is answered. Their accesses come in
any order. -/
def start (config : Config) (files : Text → Option Text) (tasks : List (TaskBase × TaskAnswers)) :
    Par Text (Option Text) (TaskBase × Bool) :=
  ⟨files, tasks.map fun t => judge config t.2 t.1⟩

section Start

variable {config : Config} {files : Text → Option Text} {tasks : List (TaskBase × TaskAnswers)}

/-- The files of task `i`. -/
def filesOf (tasks : List (TaskBase × TaskAnswers)) (i : ℕ) (name : Text) : Prop :=
  ∃ t, tasks[i]? = some t ∧ name ∈ t.1.workFiles

/-- Program `i` is the judging of task `i`. -/
theorem start_progs {i : ℕ} {p : Prog Text (Option Text) (TaskBase × Bool)} :
    (start config files tasks).progs[i]? = some p ↔
      ∃ t, tasks[i]? = some t ∧ judge config t.2 t.1 = p := by
  rw [start, List.getElem?_map, Option.map_eq_some_iff]

/-- Different tasks have no file in common, as each solution is judged once. -/
theorem filesOf_disjoint (hfiles : ∀ t ∈ tasks, HasFiles config t.1)
    (hids : (tasks.map fun t => t.1.solutionID).Nodup) {i j : ℕ} {name : Text}
    (hi : filesOf tasks i name) (hj : filesOf tasks j name) : i = j := by
  obtain ⟨t, ht, hname⟩ := hi
  obtain ⟨u, hu, hname'⟩ := hj
  have hid := workFiles_disjoint (hfiles t (List.mem_of_getElem? ht))
    (hfiles u (List.mem_of_getElem? hu)) hname hname'
  obtain ⟨hlt, rfl⟩ := List.getElem?_eq_some_iff.mp ht
  obtain ⟨hlt', rfl⟩ := List.getElem?_eq_some_iff.mp hu
  rw [← List.length_map (fun t : TaskBase × TaskAnswers => t.1.solutionID)] at hlt hlt'
  have hsame : (tasks.map fun t => t.1.solutionID)[i] = (tasks.map fun t => t.1.solutionID)[j] := by
    rw [List.getElem_map, List.getElem_map]
    exact hid
  exact hids.getElem_inj_iff.mp hsame

end Start

/-- Tasks of different solutions are judged side by side, and their accesses to the files come in
any order. Then each task that is finished is reported as `JudgeCore.doJudge` says, where all
answers come from the task's own files as they were in the beginning, its own source, its own
compiler and its own program; if no removal was refused ten times, its files are gone. It is
finished exactly when it has made as many accesses as it makes alone. A file of no task is not
touched. A compiler and a program write to the files of their own task only (`TaskAnswers`). -/
theorem judge_apart (config : Config) (files : Text → Option Text)
    (tasks : List (TaskBase × TaskAnswers)) (hfiles : ∀ t ∈ tasks, HasFiles config t.1)
    (hids : (tasks.map fun t => t.1.solutionID).Nodup) (is : List ℕ)
    (s : Par Text (Option Text) (TaskBase × Bool))
    (h : Lib.run Par.step (start config files tasks) is = some s) :
    (∀ (i : ℕ) (task : TaskBase) (answers : TaskAnswers), tasks[i]? = some (task, answers) →
      (∀ reported cleaned, s.progs[i]? = some (.ret (reported, cleaned)) →
        reported = (JudgeCore.doJudge config (answers.env files task) task).2 ∧
        cleaned = JudgeCore.doCleanUp (answers.env files task) ∧
        (cleaned = true → ∀ name ∈ task.workFiles, s.store name = none)) ∧
      is.count i ≤ (judge config answers task).accesses files ∧
      (is.count i = (judge config answers task).accesses files ↔
        ∃ r, s.progs[i]? = some (.ret r))) ∧
    ∀ name, (∀ t ∈ tasks, name ∉ t.1.workFiles) → s.store name = files name := by
  -- the programs are apart, as each stays in the files of its task
  have hapart := Par.apart_of_run (P := filesOf tasks) (Q := fun _ _ => True)
    ?within ?disjoint h
  case within =>
    intro i p hp
    obtain ⟨t, ht, rfl⟩ := start_progs.mp hp
    exact (judge_within rfl).imp (fun name hname => ⟨t, ht, hname⟩) fun _ _ => trivial
  case disjoint => exact fun i j name _ _ hi hj => filesOf_disjoint hfiles hids hi hj
  -- each task does what it does alone
  refine ⟨?_, ?_⟩
  · intro i task answers htask
    have hnodup : task.workFiles.Nodup := (hfiles _ (List.mem_of_getElem? htask)).nodup
    obtain ⟨q, hq, halone⟩ := hapart.alone i (judge config answers task)
      (start_progs.mpr ⟨_, htask, rfl⟩)
    have haccesses : is.count i + q.accesses s.store = (judge config answers task).accesses files :=
      halone.accesses
    obtain ⟨hret, hgone⟩ := exec_judge config answers hnodup files
    refine ⟨?_, ?_, ?_⟩
    -- what it reports is what it returns
    · intro reported cleaned hfinished
      rw [hq, Option.some.injEq] at hfinished
      subst hfinished
      have hreported : (reported, cleaned) = _ := halone.ret.trans hret
      rw [Prod.mk.injEq] at hreported
      -- and its files are those of the run alone
      refine ⟨hreported.1, hreported.2, fun hcleaned name hname => ?_⟩
      have hstore := halone.store name ⟨_, htask, hname⟩
      rw [hreported.2] at hcleaned
      exact hstore.trans (hgone hcleaned name hname)
    · rw [← haccesses]
      exact Nat.le_add_right ..
    -- it has returned if no access is left, and only then
    · constructor
      · intro hcount
        have hdone : q.accesses s.store = 0 := by omega
        cases q with
        | ret r => exact ⟨r, hq⟩
        | access l f next => cases hdone
      · rintro ⟨r, hr⟩
        rw [hq, Option.some.injEq] at hr
        have hdone : q.accesses s.store = 0 := by rw [hr]; rfl
        omega
  -- a file of no task is in no part of the store
  · intro name hname
    refine hapart.rest name fun i _ hi => ?_
    obtain ⟨t, ht, hmem⟩ := hi
    exact hname t (List.mem_of_getElem? ht) hmem

/-- A compiler that copies the code, and a program that prints itself. -/
def copying (source : Text) : TaskAnswers where
  source := some source
  codeOpened := true
  readText := id
  compilerOpened := true
  compilerCreated := true
  compile code _ := ⟨0, [], code⟩
  outputOpened _ := true
  run _ exe := ⟨.watched { limitTime := 1, limitMemory := 1 } true 0, exe.getD []⟩
  expected _ := some "1".toList
  refuseOutput _ _ := false
  refuseCode _ := false
  refuseCompilerOutput _ := false
  refuseExeOutput _ := false
  refuseExe _ := false

/-- A right one and a wrong one. -/
def twoTasks : List (TaskBase × TaskAnswers) :=
  [(.new {} ["a.out".toList] 1 1 "u".toList 0 1 1 1, copying "1".toList),
    (.new {} ["a.out".toList] 2 1 "u".toList 0 1 1 1, copying "2".toList)]

/-- The accesses of the two take turns. -/
def turns : List ℕ := (List.replicate 16 [0, 1]).flatten

/-- The right one and the wrong one are judged side by side, and the second one has finished with
what it gets alone. -/
theorem judge_apart_two :
    ∃ s task answers, Lib.run Par.step (start {} (fun _ => none) twoTasks) turns = some s ∧
      twoTasks[1]? = some (task, answers) ∧
      ∃ cleaned, s.progs[1]? =
        some (.ret ((JudgeCore.doJudge {} (answers.env (fun _ => none) task) task).2, cleaned)) ∧
      (JudgeCore.doJudge {} (answers.env (fun _ => none) task) task).2.result =
        ({} : Config).JE_WRONG_ANWSER := by
  -- the run of the two, and what `judge_apart` says of the second one
  have hsome : (Lib.run Par.step (start {} (fun _ => none) twoTasks) turns).isSome = true := by
    decide +kernel
  obtain ⟨s, hs⟩ := Option.isSome_iff_exists.mp hsome
  have hfiles : ∀ t ∈ twoTasks, HasFiles {} t.1 := by
    intro t ht
    simp only [twoTasks, List.mem_cons, List.not_mem_nil, or_false] at ht
    rcases ht with rfl | rfl
    all_goals
      dsimp only
      refine hasFiles_new _ _ ?_ _ _ _ _ _ _
      decide
  obtain ⟨hone, -⟩ := judge_apart {} (fun _ => none) twoTasks hfiles (by decide) turns s hs
  obtain ⟨hfinished, -, hcount⟩ := hone 1 _ _ rfl
  obtain ⟨⟨reported, cleaned⟩, hret⟩ := hcount.mp (by decide +kernel)
  obtain ⟨rfl, -, -⟩ := hfinished reported cleaned hret
  exact ⟨s, _, _, hs, rfl, cleaned, hret, by decide +kernel⟩

end WorkDir

end OnlineJudger
