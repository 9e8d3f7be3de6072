import OnlineJudger.Judger.ExeRunner

/-!
# `OnlineJudger.Proofs.Judger.ExeRunner`: what the messages about a job lead to

The loop of `ZProcessJob::start` goes on until a message ends it. A message that it does not know
sets the exit code, and nothing sets it back, so a program that ends in order afterwards is taken
for a failure.

* `jobLoop_eq`: the loop as a search for the first message that ends it.
* `exc_verdict`: the verdict of `ExeRunner` for all messages. A process that cannot be put into the
  job is never started, and its run counts as a success.
-/

set_option autoImplicit false

namespace OnlineJudger

/-- The message ends the loop. -/
def JobMessage.ends : JobMessage → Bool
  | .newProcess => false
  | .activeProcessLimit => false
  | .unknown => false
  | _ => true

/-- The exit code behind a message that ends the loop. Limits and an abnormal end have codes of
their own, and an end in order keeps the code that is there. -/
def JobMessage.code (exitCode : UInt32) : JobMessage → UInt32
  | .endOfJobTime => 1
  | .endOfProcessTime => 1
  | .processMemoryLimit => 2
  | .jobMemoryLimit => 2
  | .abnormalExitProcess => 3
  | _ => exitCode

namespace ZProcessJob

/-- The messages as the loop sees them. A failing call leaves the last message in its place. -/
def seen : JobMessage → List (Option JobMessage) → List JobMessage
  | _, [] => []
  | last, message :: messages => message.getD last :: seen (message.getD last) messages

/-- The exit code in front of the first message that ends the loop. An unknown message has set it to
99. -/
def codeBefore (messages : List JobMessage) (exitCode : UInt32) : UInt32 :=
  if .unknown ∈ messages.takeWhile (fun m => !m.ends) then 99 else exitCode

/-- The first message ends the loop, and the code is what it was. -/
theorem codeBefore_cons_ends {m : JobMessage} (h : m.ends = true) (messages : List JobMessage)
    (exitCode : UInt32) : codeBefore (m :: messages) exitCode = exitCode := by
  rw [codeBefore, List.takeWhile_cons_of_neg (by simp [h]), if_neg List.not_mem_nil]

/-- The first message does not. An unknown one sets the code. -/
theorem codeBefore_cons {m : JobMessage} (h : m.ends = false) (messages : List JobMessage)
    (exitCode : UInt32) : codeBefore (m :: messages) exitCode =
      if m = .unknown then 99 else codeBefore messages exitCode := by
  rw [codeBefore, List.takeWhile_cons_of_pos (by simp [h])]
  simp only [List.mem_cons, @eq_comm _ JobMessage.unknown m]
  by_cases hm : m = .unknown
  · rw [if_pos (.inl hm), if_pos hm]
  · rw [if_neg hm, codeBefore]
    simp only [hm, false_or]

/-- An exit code of 99 stays until a message ends the loop. -/
theorem codeBefore_unknown (messages : List JobMessage) : codeBefore messages 99 = 99 := by
  rw [codeBefore, ite_self]

/-- The loop looks for the first message that ends it. By induction on the messages: a message that
is none of these leaves the loop as it was, with the last message known. -/
theorem jobLoop_eq (messages : List (Option JobMessage)) (last : JobMessage)
    (exitCode : UInt32) :
    jobLoop messages last exitCode =
      ((seen last messages).find? JobMessage.ends).map
        (JobMessage.code (codeBefore (seen last messages) exitCode)) := by
  induction messages generalizing last exitCode with
  | nil => rfl
  | cons message messages ih =>
    rw [jobLoop, seen]
    -- a missing answer leaves the message before in its place
    generalize message.getD last = m
    cases hends : m.ends with
    -- a message that ends the loop decides the exit code
    | true =>
      rw [List.find?_cons_of_pos hends, Option.map_some, codeBefore_cons_ends hends]
      cases m <;> first | rfl | exact absurd hends (by decide)
    -- of the others only the unknown one changes the code kept so far
    | false =>
      rw [List.find?_cons_of_neg (by simp [hends]), codeBefore_cons hends]
      cases m
      case newProcess => exact ih ..
      case activeProcessLimit => exact ih ..
      case unknown =>
        rw [if_pos rfl]
        show jobLoop messages .unknown 99 = _
        rw [ih, codeBefore_unknown]
      all_goals exact absurd hends (by decide)

/-- `terminate` is repeated until it succeeds. -/
theorem terminateLoop_eq_some {terminated : List Bool} :
    terminateLoop terminated = some () ↔ true ∈ terminated := by
  induction terminated with
  | nil => exact iff_of_false (fun h => by cases h) List.not_mem_nil
  | cons b terminated ih =>
    cases b with
    | true => exact iff_of_true rfl (List.mem_cons_self ..)
    | false =>
      rw [terminateLoop, ih, List.mem_cons]
      simp

/-- A job is created for a new object. -/
theorem exists_create {created : CreateReport} (hjob : created.jobCreated = true)
    (hprocess : created.processCreated = true) (inputFile outputFile : Text) :
    ∃ process, create { created with start_ := false } (.new 0 [] inputFile outputFile) =
      some (true, process) ∧ process.exitCode = 0 ∧ process.runTime = 0 ∧
      process.runMemory = 0 := by
  unfold create createJob ZProcessInOut.createRedirected ProcessObject.createAndStart
  simp only [hjob, hprocess]
  exact ⟨_, rfl, rfl, rfl, rfl⟩

end ZProcessJob

namespace ExeRunner

open ZProcessJob

/-- The exit code, the time and the memory of a run in a job. `none` is a call that does not
return. -/
def outcome (started : StartReport) : Option (UInt32 × Int × Int) :=
  if started.assigned = false then some (0, 0, 0)
  else
    match jobLoop started.messages .unknown 0, terminateLoop started.terminated with
    | some code, some () =>
      some (code, (started.totalUserTime.toUInt32 / 10000).toInt32.toInt,
        (started.peakProcessMemoryUsed / 1024).toUInt32.toInt32.toInt)
    | _, _ => none

/-- What the members of a started process hold. -/
theorem start_outcome {process : ProcessObject} (started : StartReport)
    (hcode : process.exitCode = 0) (htime : process.runTime = 0) (hmemory : process.runMemory = 0) :
    (start started process).map
        (fun result => (result.2.exitCode, result.2.runTime, result.2.runMemory)) =
      outcome started := by
  unfold start outcome
  cases started.assigned with
  | false =>
    simp only [Bool.not_false, if_true, Option.map_some, hcode, htime, hmemory]
  | true =>
    simp only [Bool.not_true, Bool.false_eq_true, if_false, Bool.true_eq_false]
    have hsame : (process.safeClose [.hInput, .hOutput, .hThread]).exitCode = 0 := hcode
    rw [hsame]
    cases jobLoop started.messages .unknown 0 with
    | none => rfl
    | some code =>
      cases terminateLoop started.terminated with
      | none => rfl
      | some done => rfl

/-- `exc` of a process that could be created. -/
theorem exc_of_created (config : Config) {created : CreateReport} (started : StartReport)
    (task : TaskBase) (hjob : created.jobCreated = true)
    (hprocess : created.processCreated = true) :
    exc config created started task = (outcome started).map fun (code, time, memory) =>
      (decide (code = 0), setVerdict config code ((task.setRunTime time).setRunMemory memory)) := by
  obtain ⟨process, hcreate, hcode, htime, hmemory⟩ :=
    exists_create hjob hprocess task.curInputTestData task.exeOutput
  rw [exc]
  simp only [hcreate, ← start_outcome started hcode htime hmemory, Option.map_map]
  cases start started process with
  | none => rfl
  | some result => rfl

/-- The messages up to the first that ends the loop, as the loop sees them. The one that ends it is
`m`. -/
def Ends (started : StartReport) (m : JobMessage) : Prop :=
  (seen .unknown started.messages).find? JobMessage.ends = some m

/-- No message in front of it is unknown. -/
def Known (started : StartReport) : Prop :=
  .unknown ∉ (seen .unknown started.messages).takeWhile (fun m => !m.ends)

/-- The exit code behind the message that ends the loop. -/
theorem jobLoop_of_ends {started : StartReport} {m : JobMessage} (h : Ends started m) :
    jobLoop started.messages .unknown 0 =
      some (m.code (codeBefore (seen .unknown started.messages) 0)) := by
  rw [jobLoop_eq, h]
  rfl

/-- The milliseconds of a time of less than seven minutes and ten seconds. -/
theorem runTime_eq_iff (time : UInt64) :
    (time.toUInt32 / 10000).toInt32.toInt = (time.toNat / 10000 : ℕ) ↔ time.toNat < 2 ^ 32 := by
  have hlow : (time.toUInt32 / 10000).toNat = time.toNat % 2 ^ 32 / 10000 := by
    rw [UInt32.toNat_div, UInt64.toNat_toUInt32]
    rfl
  have hint : (time.toUInt32 / 10000).toInt32.toInt = (time.toNat % 2 ^ 32 / 10000 : ℕ) := by
    rw [← hlow]
    refine BitVec.toInt_eq_toNat_of_lt ?_
    show 2 * (time.toUInt32 / 10000).toNat < 2 ^ 32
    rw [hlow]
    omega
  rw [hint]
  omega

/-- The verdict of a message that ends the loop. Behind an unknown message an end in order is a
runtime error. -/
def verdict (config : Config) (result : Int) (known : Prop) [Decidable known] :
    JobMessage → Int
  | .endOfJobTime => config.JE_TIME_LIMITED
  | .endOfProcessTime => config.JE_TIME_LIMITED
  | .processMemoryLimit => config.JE_MEMORY_LIMITED
  | .jobMemoryLimit => config.JE_MEMORY_LIMITED
  | .abnormalExitProcess => config.JE_RUNTIME
  | _ => if known then result else config.JE_RUNTIME

/-- The messages are a list. -/
instance (started : StartReport) : Decidable (Known started) := by
  unfold Known
  infer_instance

/-- The program ended in order. -/
def Orderly (m : JobMessage) : Prop := m = .exitProcess ∨ m = .activeProcessZero

/-- An unknown message leaves 99, and the others leave 0. -/
theorem codeBefore_seen (started : StartReport) :
    codeBefore (seen .unknown started.messages) 0 = if Known started then 0 else 99 := by
  by_cases hknown : Known started
  · rw [if_pos hknown]
    exact if_neg hknown
  · rw [if_neg hknown]
    exact if_pos (not_not.mp hknown)

/-- The exit code is 0 exactly if the program ended in order and all messages were known. -/
theorem code_eq_zero_iff {started : StartReport} {m : JobMessage} (h : m.ends = true) :
    m.code (if Known started then 0 else 99) = 0 ↔ Orderly m ∧ Known started := by
  unfold Orderly
  by_cases hknown : Known started
  · simp only [hknown, if_true, and_true]
    cases m <;> simp_all [JobMessage.code, JobMessage.ends]
  · simp only [hknown, if_false, and_false, iff_false]
    cases m <;> simp_all [JobMessage.code, JobMessage.ends]

/-- The verdict of `setVerdict` is that of the message. -/
theorem setVerdict_result (config : Config) {started : StartReport} {m : JobMessage}
    (h : m.ends = true) (task : TaskBase) :
    (setVerdict config (m.code (if Known started then 0 else 99)) task).result =
      verdict config task.result (Known started) m := by
  by_cases hknown : Known started
  · simp only [hknown, if_true]
    cases m <;> simp_all [JobMessage.code, JobMessage.ends, verdict, setVerdict]
  · simp only [hknown, if_false]
    cases m <;> simp_all [JobMessage.code, JobMessage.ends, verdict, setVerdict]

/-- The verdict does not touch the time. -/
theorem setVerdict_runTime (config : Config) (code : UInt32) (task : TaskBase) :
    (setVerdict config code task).runTime = task.runTime := by
  unfold setVerdict
  split_ifs <;> rfl

/-- The call returns if a message ends the loop, and the job can be terminated. -/
theorem outcome_of_ends {started : StartReport} {m : JobMessage}
    (hassigned : started.assigned = true) (hm : Ends started m)
    (hterminated : true ∈ started.terminated) :
    outcome started = some (m.code (if Known started then 0 else 99),
      (started.totalUserTime.toUInt32 / 10000).toInt32.toInt,
      (started.peakProcessMemoryUsed / 1024).toUInt32.toInt32.toInt) := by
  rw [outcome, if_neg (by rw [hassigned]; exact Bool.noConfusion), jobLoop_of_ends hm,
    terminateLoop_eq_some.mpr hterminated, codeBefore_seen]

/-- It returns in no other case. -/
theorem ends_of_outcome {started : StartReport} {r : UInt32 × Int × Int}
    (hassigned : started.assigned = true) (h : outcome started = some r) :
    (∃ m, Ends started m) ∧ true ∈ started.terminated := by
  rw [outcome, if_neg (by rw [hassigned]; exact Bool.noConfusion)] at h
  split at h
  · next code done hcode hdone =>
    rw [jobLoop_eq, Option.map_eq_some_iff] at hcode
    obtain ⟨m, hm, -⟩ := hcode
    exact ⟨⟨m, hm⟩, terminateLoop_eq_some.mp hdone⟩
  · cases h

/-- The runner with a job, for a process that could be created and any messages.

1. A process that cannot be put into the job counts as a success, although it is not started.
2. Otherwise the call returns exactly if a message ends the loop, and the job can be terminated.
   It succeeds exactly if the program ended in order, and no message was unknown before. The
   verdict is that of the message, and the time is right if it is below 2^32 units of 100 ns. -/
theorem exc_verdict (config : Config) (created : CreateReport) (started : StartReport)
    (task : TaskBase) (hjob : created.jobCreated = true)
    (hprocess : created.processCreated = true) :
    (started.assigned = false →
      exc config created started task = some (true, (task.setRunTime 0).setRunMemory 0)) ∧
    (started.assigned = true →
      ((∃ r, exc config created started task = some r) ↔
        (∃ m, Ends started m) ∧ true ∈ started.terminated) ∧
      ∀ m ok task', Ends started m → exc config created started task = some (ok, task') →
        (ok = true ↔ Orderly m ∧ Known started) ∧
        task'.result = verdict config task.result (Known started) m ∧
        (task'.runTime = (started.totalUserTime.toNat / 10000 : ℕ) ↔
          started.totalUserTime.toNat < 2 ^ 32)) := by
  rw [exc_of_created config started task hjob hprocess]
  refine ⟨?_, fun hassigned => ⟨?_, ?_⟩⟩
  -- not assigned to the job: no run at all
  · intro hassigned
    rw [outcome, if_pos hassigned]
    rfl
  -- the call returns when a message ends it and the job can be terminated
  · constructor
    · rintro ⟨r, hr⟩
      rw [Option.map_eq_some_iff] at hr
      obtain ⟨o, ho, -⟩ := hr
      exact ends_of_outcome hassigned ho
    · rintro ⟨⟨m, hm⟩, hterminated⟩
      rw [outcome_of_ends hassigned hm hterminated]
      exact ⟨_, rfl⟩
  -- what it returns is decided by that message
  · intro m ok task' hm hexc
    have hterminated : true ∈ started.terminated := by
      rw [Option.map_eq_some_iff] at hexc
      obtain ⟨o, ho, -⟩ := hexc
      exact (ends_of_outcome hassigned ho).2
    have hends : m.ends = true := List.find?_some hm
    rw [outcome_of_ends hassigned hm hterminated, Option.map_some, Option.some.injEq,
      Prod.mk.injEq] at hexc
    obtain ⟨rfl, rfl⟩ := hexc
    -- the result, the verdict, and the time in the low part of the counter
    refine ⟨?_, ?_, ?_⟩
    · rw [decide_eq_true_eq]
      exact code_eq_zero_iff hends
    · exact setVerdict_result config hends _
    · rw [setVerdict_runTime]
      exact runTime_eq_iff started.totalUserTime

/-- A program that ends in order behind a message that the loop does not know. It has set the exit
code to 99, which the end in order does not change, so the verdict is a runtime error. -/
theorem exc_verdict_unknown :
    let config : Config := {}
    let task : TaskBase := {
      userName := "zhoubao".toList, solutionID := 1001, problemID := 1000, language := 1
      limitCompileTime := 10000, limitTime := 1, limitMemory := 32 }
    ∃ task', exc config { start_ := false }
        { messages := [some .newProcess, some .unknown, none, some .exitProcess] } task =
      some (false, task') ∧ task'.result = config.JE_RUNTIME := by
  intro config task
  let started : StartReport :=
    { messages := [some .newProcess, some .unknown, none, some .exitProcess] }
  obtain ⟨-, hassigned⟩ :=
    exc_verdict config { start_ := false } started task (by decide) (by decide)
  obtain ⟨hreturns, hverdict⟩ := hassigned (by decide)
  have hm : Ends started .exitProcess := by
    show _ = _
    decide
  obtain ⟨⟨ok, task'⟩, hexc⟩ := hreturns.mpr ⟨⟨_, hm⟩, by decide⟩
  obtain ⟨hok, hresult, -⟩ := hverdict _ _ _ hm hexc
  -- the third entry is no message: the unknown one is seen twice
  have hunknown : ¬ Known started := by decide
  have hfails : ok = false := by
    rw [← Bool.not_eq_true, hok]
    exact fun h => hunknown h.2
  refine ⟨task', by rw [← hfails]; exact hexc, ?_⟩
  rw [hresult]
  show (if Known started then task.result else config.JE_RUNTIME) = config.JE_RUNTIME
  exact if_neg hunknown

end ExeRunner

end OnlineJudger
