import OnlineJudger.Acm.ZProcessObjects
import OnlineJudger.Lib.Run

/-!
# `OnlineJudger.Proofs.Acm.ProcessHandles`: which handles a process object leaves open

Any calls of `create` and `start` in any order, with any answers of the system, and then the
destructor.

* `lostBy`: the handles that a call loses. A second `create` writes over the handles of a first one
  that did not get to a process, and a debugger does not close the files of the libraries.
* `Owned.step`: one call loses so many handles, and keeps the members of the class in order.
* `handles_of_run`: no handle is closed twice and none of another owner, and in the end exactly the
  lost ones are left open. An object with a job loses none.
-/

set_option autoImplicit false

namespace OnlineJudger

open Lib Lib.Owner ProcessObject

/-! ### What is lost -/

/-- The number of handles in these members. -/
def handlesIn (p : ProcessObject) (members : List HandleMember) : ℕ :=
  (members.map fun m => (p.handles.var m).ids.card).sum

/-- The files of the libraries that are loaded before the process exits. -/
def libraryFiles : List DebugEvent → ℕ
  | [] => 0
  | .exitProcess _ :: _ => 0
  | .loadDll true :: events => libraryFiles events + 1
  | _ :: events => libraryFiles events

/-- What a call of `start` loses. -/
def lostByStart (cls : ProcessClass) (a : StartReport) : ℕ :=
  match cls with
  | .debug => libraryFiles a.events
  | _ => 0

/-- What a call loses. -/
def lostBy (cls : ProcessClass) (p : ProcessObject) : ProcessCall → ℕ
  | .start a => lostByStart cls a
  | .create a =>
    let started := if a.processCreated && a.start_ then lostByStart cls a.startReport else 0
    match cls with
    | .process => if a.processCreated then handlesIn p [.hProcess, .hThread] else 0
    | .job => 0
    | _ =>
      if p.handles.var .hProcess ≠ .null then 0 else handlesIn p [.hInput, .hOutput] + started

/-- What some calls lose. -/
def lostAlong (cls : ProcessClass) : ProcessObject → List ProcessCall → ℕ
  | _, [] => 0
  | p, call :: calls =>
    lostBy cls p call +
      match cls.step p call with
      | none => 0
      | some p' => lostAlong cls p' calls

/-! ### The members of a class -/

/-- What holds between the members of an object outside of its functions. -/
structure Members (cls : ProcessClass) (v : HandleMember → Handle) : Prop where
  thread : v .hProcess = .null → v .hThread = .null
  others : ∀ m, m ∉ cls.closed → v m = .null
  /-- The job is the first handle that is opened, and the last that is closed. -/
  job : cls = .job → v .job = .null → ∀ m, v m = .null

/-- The object has lost these handles, and no others. -/
structure Owned (cls : ProcessClass) (base lost : Multiset ℕ) (p : ProcessObject) : Prop where
  balanced : p.handles.Balanced base lost
  members : Members cls p.handles.var

variable {cls : ProcessClass} {base lost : Multiset ℕ} {p p' : ProcessObject}

/-- The closed members are empty, and the others stay. -/
@[simp] theorem safeClose_var (p : ProcessObject) (members : List HandleMember)
    (m : HandleMember) : (p.safeClose members).handles.var m =
      if m ∈ members then .null else p.handles.var m := by
  show (members.foldl Owner.safeClose p.handles).var m = _
  induction members generalizing p with
  | nil => rw [List.foldl_nil, if_neg List.not_mem_nil]
  | cons a members ih =>
    rw [List.foldl_cons]
    have hrest := ih { p with handles := p.handles.safeClose a }
    simp only [] at hrest
    rw [hrest, Owner.safeClose_var]
    by_cases hm : m ∈ members
    · rw [if_pos hm, if_pos (List.mem_cons_of_mem a hm)]
    · by_cases ha : m = a
      · rw [if_neg hm, if_pos ha, if_pos (by rw [ha]; exact List.mem_cons_self ..)]
      · rw [if_neg hm, if_neg ha, if_neg (List.not_mem_cons_of_ne_of_not_mem ha hm)]

/-- Closing members loses nothing. -/
theorem balanced_safeClose (h : p.handles.Balanced base lost) (members : List HandleMember) :
    (p.safeClose members).handles.Balanced base lost := by
  show (members.foldl Owner.safeClose p.handles).Balanced base lost
  induction members generalizing p with
  | nil => exact h
  | cons a members ih => exact ih (p := { p with handles := p.handles.safeClose a }) (h.safeClose a)

/-! ### Files and processes -/

/-- Only the member of the file changes. -/
theorem createFile_var (fileName : Text) (opened : Bool) (m m' : HandleMember)
    (o : Owner HandleMember) (hne : m' ≠ m) :
    (createFile fileName opened m o).var m' = o.var m' := by
  unfold createFile
  split_ifs
  · rw [assign_var, if_neg hne]
  · rw [acquireInto_var, if_neg hne]
  · rw [assign_var, if_neg hne]

/-- The file that the member named is lost. -/
theorem balanced_createFile {o : Owner HandleMember} (h : o.Balanced base lost) (fileName : Text)
    (opened : Bool) (m : HandleMember) :
    (createFile fileName opened m o).Balanced base (lost + (o.var m).ids) := by
  unfold createFile
  split_ifs
  · exact h.assign_none rfl m
  · exact h.acquireInto m
  · exact h.assign_none rfl m

/-- Only the two members of the process change. -/
theorem createProcess_var (p : ProcessObject) (m : HandleMember) :
    m ≠ .hProcess → m ≠ .hThread → p.createProcess.handles.var m = p.handles.var m := by
  intro hprocess hthread
  simp only [createProcess, acquireInto_var, if_neg hprocess, if_neg hthread]

/-- Behind it there is a process. -/
theorem createProcess_hProcess (p : ProcessObject) :
    p.createProcess.handles.var .hProcess ≠ .null := by
  simp [createProcess]

/-- The handles of an earlier process are lost. -/
theorem balanced_createProcess (h : p.handles.Balanced base lost) :
    p.createProcess.handles.Balanced base
      (lost + (p.handles.var .hProcess).ids + (p.handles.var .hThread).ids) := by
  have hboth := (h.acquireInto .hProcess).acquireInto .hThread
  rw [acquireInto_var, if_neg (by decide)] at hboth
  exact hboth

/-! ### `start` -/

/-- A `start` that loses what it may. -/
def StartLoses (cls : ProcessClass)
    (start : StartReport → ProcessObject → Option (Bool × ProcessObject)) : Prop :=
  ∀ (a : StartReport) (base lost : Multiset ℕ) (p : ProcessObject) (result : Bool × ProcessObject),
    Owned cls base lost p → start a p = some result →
      ∃ l : Multiset ℕ, l.card = lostByStart cls a ∧ Owned cls base (lost + l) result.2

/-- A `start` that does nothing loses nothing. -/
theorem startLoses_of_self (h : ∀ a, lostByStart cls a = 0) : StartLoses cls ZProcess.start := by
  intro a base lost p result hp hstart
  cases hstart
  exact ⟨0, (h a).symm, by rw [add_zero]; exact hp⟩

/-- The loop of the debugger keeps its handles in its own variables. So the members of the process
are after the loop what they were before it. -/
theorem debugLoop_var (events : List DebugEvent) (status : UInt32) (o : Owner HandleMember) :
    (ZProcessDebug.debugLoop events status o).2.2.var = o.var := by
  induction events generalizing status o with
  | nil => rfl
  | cons event events ih =>
    cases event with
    -- the loop ends with the debuggee
    | exitProcess exitCode => rfl
    | createProcess hFile =>
      cases hFile with
      | false => exact ih status o
      -- the file of the image is closed where the event is handled
      | true =>
        have hclose : (ZProcessDebug.closeEventFile true o).var = o.var := by
          rw [ZProcessDebug.closeEventFile, if_pos rfl, close_var, acquire_var]
        exact (ih ..).trans hclose
    | loadDll hFile =>
      cases hFile with
      -- of a library's file nothing is stored, so no variable changes
      | false => exact ih status o
      | true => exact ih ..
    | exception code => exact ih ..
    | other => exact ih status o

/-- The loop loses the files of the libraries, one for each event that brings one. The file of the
image is closed where its event is handled. -/
theorem balanced_debugLoop (events : List DebugEvent) (status : UInt32)
    {o : Owner HandleMember} (h : o.Balanced base lost) :
    ∃ l : Multiset ℕ, l.card = libraryFiles events ∧
      (ZProcessDebug.debugLoop events status o).2.2.Balanced base (lost + l) := by
  induction events generalizing status o lost with
  | nil => exact ⟨0, rfl, by rw [add_zero]; exact h⟩
  | cons event events ih =>
    cases event with
    | exitProcess exitCode => exact ⟨0, rfl, by rw [add_zero]; exact h⟩
    | createProcess hFile =>
      cases hFile with
      | false => exact ih status h
      -- acquired and closed in the same turn: nothing is lost
      | true => exact ih status h.acquire.close
    | loadDll hFile =>
      cases hFile with
      | false => exact ih status h
      -- nobody closes the file of a library: the handle just acquired joins the lost ones
      | true =>
        obtain ⟨l, hcard, hl⟩ := ih status h.acquire
        refine ⟨{o.next} + l, ?_, by rw [← add_assoc]; exact hl⟩
        show _ = libraryFiles events + 1
        rw [Multiset.card_add, Multiset.card_singleton, hcard, Nat.add_comm]
    | exception code => exact ih _ h
    | other => exact ih status h

/-- `ZProcessDebug::start` loses the files of the libraries. -/
theorem startLoses_debug : StartLoses .debug ZProcessDebug.start := by
  intro a base lost p result hp hstart
  cases hstart
  obtain ⟨l, hcard, hl⟩ := balanced_debugLoop a.events DBG_CONTINUE
    (balanced_safeClose hp.balanced [.hInput, .hOutput, .hThread])
  refine ⟨l, hcard, hl, ?_⟩
  show Members .debug (ZProcessDebug.debugLoop _ _ _).2.2.var
  rw [debugLoop_var]
  refine ⟨fun _ => by simp, ?_, by simp⟩
  intro m hm
  rw [safeClose_var]
  split_ifs
  · rfl
  · exact hp.members.others m hm

/-- `ZProcessJob::start` loses nothing. It has no debugger, and its `safeClose` calls cover every
member, the job and the port included. -/
theorem startLoses_job : StartLoses .job ZProcessJob.start := by
  intro a base lost p result hp hstart
  refine ⟨0, rfl, ?_⟩
  rw [add_zero]
  unfold ZProcessJob.start at hstart
  cases hassigned : a.assigned with
  -- `AssignProcessToJobObject` has failed: `start` gives up with everything in its place
  | false =>
    rw [hassigned] at hstart
    cases hstart
    exact hp
  | true =>
    rw [hassigned] at hstart
    simp only [Bool.not_true, Bool.false_eq_true, if_false] at hstart
    -- the loop over the messages and the one that ends the job may still wait
    split at hstart
    · cases hstart
    split at hstart
    · cases hstart
    cases hstart
    -- the three `safeClose` calls of a job, the port and the process in between
    refine ⟨balanced_safeClose (balanced_safeClose (p := { p.safeClose _ with
      exitCode := _, runTime := _, runMemory := _ }) (balanced_safeClose hp.balanced _) _) _, ?_⟩
    -- behind them every member is NULL, the job itself included
    have hnull : ∀ m, ((p.safeClose [.hInput, .hOutput, .hThread]).safeClose
        [.hProcess, .ioCPHandle] |>.safeClose [.job]).handles.var m = .null := by
      intro m
      cases m <;> simp
    exact ⟨fun _ => hnull _, fun m _ => hnull m, fun _ _ m => hnull m⟩

/-! ### `create` -/

/-- A member other than those that `Members` is about has changed: a file or the port, which the
class closes itself. -/
theorem Members.of_agree {v v' : HandleMember → Handle} (h : Members cls v) {m : HandleMember}
    (hm : m ∈ [.hInput, .hOutput, .ioCPHandle]) (hclosed : m ∈ cls.closed)
    (hjob : cls = .job → v .job ≠ .null) (hagree : ∀ m', m' ≠ m → v' m' = v m') :
    Members cls v' := by
  -- none of the members that the class reads is the one that changed
  have hprocess : HandleMember.hProcess ≠ m := by
    rintro rfl
    exact absurd hm (by decide)
  have hthread : HandleMember.hThread ≠ m := by
    rintro rfl
    exact absurd hm (by decide)
  have hjob' : HandleMember.job ≠ m := by
    rintro rfl
    exact absurd hm (by decide)
  refine ⟨?_, ?_, ?_⟩
  · rw [hagree _ hprocess, hagree _ hthread]
    exact h.thread
  · intro m' hm'
    rw [hagree m' fun heq => hm' (heq ▸ hclosed)]
    exact h.others m' hm'
  · intro hcls hnull
    rw [hagree _ hjob'] at hnull
    exact absurd hnull (hjob hcls)

/-- A process comes with its thread, and the job is there already. -/
theorem members_createProcess (h : Members cls p.handles.var)
    (hjob : cls = .job → p.handles.var .job ≠ .null) :
    Members cls p.createProcess.handles.var := by
  refine ⟨fun hnull => absurd hnull (createProcess_hProcess p), ?_, ?_⟩
  · intro m hm
    have hprocess : m ≠ .hProcess := by
      rintro rfl
      cases cls <;> exact absurd hm (by decide)
    have hthread : m ≠ .hThread := by
      rintro rfl
      cases cls <;> exact absurd hm (by decide)
    rw [createProcess_var p m hprocess hthread]
    exact h.others m hm
  · intro hcls hnull
    rw [createProcess_var p _ (by decide) (by decide)] at hnull
    exact absurd hnull (hjob hcls)

/-- The end of `create` loses an earlier process, and what `start` loses. The process and its thread
are written over only if `CreateProcess` succeeds, so without it nothing is lost. -/
theorem createAndStart_loses
    {start : StartReport → ProcessObject → Option (Bool × ProcessObject)}
    (hstart : StartLoses cls start) {a : CreateReport} {result : Bool × ProcessObject}
    (hp : Owned cls base lost p) (hjob : cls = .job → p.handles.var .job ≠ .null)
    (h : createAndStart start a p = some result) :
    ∃ l : Multiset ℕ, l.card =
        (if a.processCreated then handlesIn p [.hProcess, .hThread] else 0) +
          (if a.processCreated && a.start_ then lostByStart cls a.startReport else 0) ∧
      Owned cls base (lost + l) result.2 := by
  -- `CreateProcess` writes over the two members, and what they held is lost
  have hcreated : Owned cls base
      (lost + ((p.handles.var .hProcess).ids + (p.handles.var .hThread).ids)) p.createProcess := by
    refine ⟨?_, members_createProcess hp.members hjob⟩
    rw [← add_assoc]
    exact balanced_createProcess hp.balanced
  have hcard : ((p.handles.var .hProcess).ids + (p.handles.var .hThread).ids).card =
      handlesIn p [.hProcess, .hThread] := by
    rw [Multiset.card_add]
    simp [handlesIn]
  unfold createAndStart at h
  cases hprocess : a.processCreated with
  -- no process: the members are as they were
  | false =>
    rw [hprocess] at h
    cases h
    exact ⟨0, by simp, by rw [add_zero]; exact hp⟩
  | true =>
    cases hstart_ : a.start_ with
    -- a process that is not started: only the two old handles are lost
    | false =>
      rw [hprocess, hstart_] at h
      cases h
      exact ⟨_, by simpa using hcard, hcreated⟩
    -- the two losses add up
    | true =>
      rw [hprocess, hstart_] at h
      simp only [Bool.not_true, Bool.false_eq_true, if_false, if_true,
        Option.map_eq_some_iff] at h
      obtain ⟨started, hstarted, rfl⟩ := h
      obtain ⟨l, hl, howned⟩ :=
        hstart a.startReport base _ p.createProcess started hcreated hstarted
      refine ⟨_ + l, ?_, by rw [← add_assoc]; exact howned⟩
      rw [Multiset.card_add, hcard, hl]
      simp

/-- A file is opened for a member of the class. -/
theorem owned_createFile (hp : Owned cls base lost p) {m : HandleMember}
    (hm : m ∈ [.hInput, .hOutput, .ioCPHandle]) (hclosed : m ∈ cls.closed)
    (hjob : cls = .job → p.handles.var .job ≠ .null) (fileName : Text) (opened : Bool) :
    Owned cls base (lost + (p.handles.var m).ids)
      { p with handles := createFile fileName opened m p.handles } :=
  ⟨balanced_createFile hp.balanced fileName opened m,
    hp.members.of_agree hm hclosed hjob fun m' hne => createFile_var fileName opened m m' _ hne⟩

/-- `create` with redirected files, on an object without a process. It writes over the two file
members, whether or not the files could be opened, and goes on as `create` does. -/
theorem createRedirected_loses
    {start : StartReport → ProcessObject → Option (Bool × ProcessObject)}
    (hstart : StartLoses cls start) {a : CreateReport} {result : Bool × ProcessObject}
    (hp : Owned cls base lost p) (hinput : .hInput ∈ cls.closed) (houtput : .hOutput ∈ cls.closed)
    (hnull : p.handles.var .hProcess = .null)
    (hjob : cls = .job → p.handles.var .job ≠ .null)
    (h : ZProcessInOut.createRedirected start a p = some result) :
    ∃ l : Multiset ℕ, l.card = handlesIn p [.hInput, .hOutput] +
        (if a.processCreated && a.start_ then lostByStart cls a.startReport else 0) ∧
      Owned cls base (lost + l) result.2 := by
  have hthread := hp.members.thread hnull
  have hfirst := owned_createFile hp (by decide) hinput hjob p.inputFile a.inputOpened
  have hkeep : ∀ m, m ≠ .hInput →
      (p.createInputFile a.inputOpened).handles.var m = p.handles.var m :=
    fun m hne => createFile_var _ _ _ m _ hne
  have hjob' : cls = .job → (p.createInputFile a.inputOpened).handles.var .job ≠ .null := by
    rw [hkeep .job (by decide)]
    exact hjob
  have hkeep' : ∀ m, m ≠ .hInput → m ≠ .hOutput →
      ((p.createInputFile a.inputOpened).createOutputFile a.outputOpened).handles.var m =
        p.handles.var m :=
    fun m hin hout => (createFile_var _ _ _ m _ hout).trans (hkeep m hin)
  have hboth : Owned cls base
      (lost + (p.handles.var .hInput).ids + (p.handles.var .hOutput).ids)
      ((p.createInputFile a.inputOpened).createOutputFile a.outputOpened) := by
    rw [← hkeep .hOutput (by decide)]
    exact owned_createFile (p := p.createInputFile a.inputOpened) hfirst (by decide) houtput
      hjob' p.outputFile a.outputOpened
  unfold ZProcessInOut.createRedirected at h
  generalize (p.createInputFile a.inputOpened).createOutputFile a.outputOpened = q at hkeep' hboth h
  -- there is no process to lose
  have hprocesses : handlesIn q [.hProcess, .hThread] = 0 := by
    simp only [handlesIn, List.map_cons, List.map_nil, hkeep' .hProcess (by decide) (by decide),
      hkeep' .hThread (by decide) (by decide), hnull, hthread]
    rfl
  have hjob'' : cls = .job → q.handles.var .job ≠ .null := by
    rw [hkeep' .job (by decide) (by decide)]
    exact hjob
  obtain ⟨l, hl, howned⟩ := createAndStart_loses hstart hboth hjob'' h
  refine ⟨(p.handles.var .hInput).ids + (p.handles.var .hOutput).ids + l, ?_, ?_⟩
  · rw [Multiset.card_add, Multiset.card_add, hl, hprocesses, ite_self, Nat.zero_add]
    simp [handlesIn]
  · rw [← add_assoc, ← add_assoc]
    exact howned

/-- `create` of an object that looks for its process first. -/
theorem guardedCreate_loses
    {start : StartReport → ProcessObject → Option (Bool × ProcessObject)}
    (hstart : StartLoses cls start) {a : CreateReport} {result : Bool × ProcessObject}
    (hp : Owned cls base lost p) (hinput : .hInput ∈ cls.closed) (houtput : .hOutput ∈ cls.closed)
    (hcls : cls ≠ .job)
    (h : (if p.handles.var .hProcess ≠ .null then some (false, p)
      else ZProcessInOut.createRedirected start a p) = some result) :
    ∃ l : Multiset ℕ, l.card =
        (if p.handles.var .hProcess ≠ .null then 0
        else handlesIn p [.hInput, .hOutput] +
          if a.processCreated && a.start_ then lostByStart cls a.startReport else 0) ∧
      Owned cls base (lost + l) result.2 := by
  by_cases hnull : p.handles.var .hProcess = .null
  · rw [if_neg (not_not.mpr hnull)] at h ⊢
    exact createRedirected_loses hstart hp hinput houtput hnull (fun heq => absurd heq hcls) h
  · rw [if_pos hnull] at h ⊢
    cases h
    exact ⟨0, rfl, by rw [add_zero]; exact hp⟩

/-- A new job is the first handle of the object. -/
theorem owned_createJob (hp : Owned .job base lost p) (hnull : ∀ m, p.handles.var m = .null) :
    Owned .job base lost { p with handles := p.handles.acquireInto .job } := by
  refine ⟨?_, ?_, ?_, ?_⟩
  · have hacquire := hp.balanced.acquireInto .job
    rw [hnull, show Handle.null.ids = 0 from rfl, add_zero] at hacquire
    exact hacquire
  · intro _
    simp only [acquireInto_var, reduceCtorEq, if_false, hnull]
  · intro m hm
    cases m <;> exact absurd (by decide) hm
  · intro _ hjob
    simp only [acquireInto_var, if_true, reduceCtorEq] at hjob

/-- Only the member of the port changes. -/
theorem createPort_var (created : Bool) (p : ProcessObject) (m : HandleMember)
    (hne : m ≠ .ioCPHandle) :
    (ZProcessJob.createPort created p).handles.var m = p.handles.var m := by
  unfold ZProcessJob.createPort
  cases created with
  | false => exact (assign_var ..).trans (if_neg hne)
  | true => exact (acquireInto_var ..).trans (if_neg hne)

/-- A port is opened where there was none. So nothing is lost, whether the call succeeds or stores
NULL. -/
theorem owned_createPort (hp : Owned .job base lost p) (hport : p.handles.var .ioCPHandle = .null)
    (hjob : p.handles.var .job ≠ .null) (created : Bool) :
    Owned .job base lost (ZProcessJob.createPort created p) := by
  have hmembers := hp.members.of_agree (m := .ioCPHandle) (by decide) (by decide)
    (fun _ => hjob) (createPort_var created p)
  -- the port was NULL, so writing over it loses nothing
  have hzero : lost + (p.handles.var .ioCPHandle).ids = lost := by
    rw [hport]
    exact add_zero lost
  refine ⟨?_, hmembers⟩
  unfold ZProcessJob.createPort
  cases created with
  | false =>
    have hassign := hp.balanced.assign_none (v := .null) rfl .ioCPHandle
    rw [hzero] at hassign
    exact hassign
  | true =>
    have hacquire := hp.balanced.acquireInto .ioCPHandle
    rw [hzero] at hacquire
    exact hacquire

/-- A job that exists keeps a second one from being created, so `create` of this class loses
nothing: behind the check every member is NULL, and it is the only class of which that is so. -/
theorem jobCreate_loses {a : CreateReport} {result : Bool × ProcessObject}
    (hp : Owned .job base lost p) (h : ZProcessJob.create a p = some result) :
    Owned .job base lost result.2 := by
  unfold ZProcessJob.create ZProcessJob.createJob at h
  -- a process is there already: `create` is refused
  by_cases hprocess : p.handles.var .hProcess = .null
  case neg =>
    rw [if_pos hprocess] at h
    cases h
    exact hp
  rw [if_neg (not_not.mpr hprocess)] at h
  -- a job is there already: refused too
  by_cases hjob : p.handles.var .job = .null
  case neg =>
    rw [if_pos hjob] at h
    cases h
    exact hp
  rw [if_neg (not_not.mpr hjob)] at h
  have hnull := hp.members.job rfl hjob
  -- the call that makes the job fails, and its NULL is stored
  cases hcreated : a.jobCreated with
  | false =>
    rw [hcreated] at h
    cases h
    have hassign := hp.balanced.assign_none (v := .null) rfl .job
    rw [hnull, show Handle.null.ids = 0 from rfl, add_zero] at hassign
    have hall : ∀ m, (p.handles.assign .job .null).var m = .null := by
      intro m
      rw [assign_var, hnull, ite_self]
    exact ⟨hassign, fun _ => hall _, fun m _ => hall m, fun _ _ m => hall m⟩
  | true =>
    rw [hcreated] at h
    simp only [if_true] at h
    -- the job is the only member that is not NULL
    have hq := owned_createJob hp hnull
    have hqnull : ∀ m, m ≠ .job → (p.handles.acquireInto .job).var m = .null := by
      intro m hm
      rw [acquireInto_var, if_neg hm, hnull]
    have hqjob : (p.handles.acquireInto .job).var .job ≠ .null := by
      simp only [acquireInto_var, if_true, ne_eq, reduceCtorEq, not_false_eq_true]
    -- then the port, whose failure is not looked at
    have hr := owned_createPort hq (hqnull .ioCPHandle (by decide)) hqjob a.portCreated
    have hkeep := createPort_var a.portCreated { p with handles := p.handles.acquireInto .job }
    generalize ZProcessJob.createPort a.portCreated
      { p with handles := p.handles.acquireInto .job } = r at h hr hkeep
    have hrnull : ∀ m, m ≠ .job → m ≠ .ioCPHandle → r.handles.var m = .null :=
      fun m hm hm' => (hkeep m hm').trans (hqnull m hm)
    -- what is left is the redirected `create`, with empty file members
    obtain ⟨l, hl, howned⟩ := createRedirected_loses startLoses_job hr (by decide) (by decide)
      (hrnull .hProcess (by decide) (by decide))
      (fun _ => by rw [hkeep .job (by decide)]; exact hqjob) h
    -- nothing in the file members, nothing lost by them
    have hfiles : handlesIn r [.hInput, .hOutput] = 0 := by
      simp only [handlesIn, List.map_cons, List.map_nil, hrnull .hInput (by decide) (by decide),
        hrnull .hOutput (by decide) (by decide)]
      rfl
    rw [hfiles, show lostByStart .job a.startReport = 0 from rfl, ite_self, add_zero,
      Multiset.card_eq_zero] at hl
    rw [hl, add_zero] at howned
    exact howned

/-! ### Calls in a row -/

/-- One call loses so many handles as `lostBy` says, in the state before it, and the members are
again as the class leaves them. -/
theorem Owned.step (hp : Owned cls base lost p) {call : ProcessCall}
    (h : cls.step p call = some p') :
    ∃ l : Multiset ℕ, l.card = lostBy cls p call ∧ Owned cls base (lost + l) p' := by
  cases call with
  | start a =>
    rw [ProcessClass.step, Option.map_eq_some_iff] at h
    obtain ⟨result, hstarted, rfl⟩ := h
    -- the class decides how `start` ends
    cases cls with
    | process => exact startLoses_of_self (fun _ => rfl) a base lost p result hp hstarted
    | inOut => exact startLoses_of_self (fun _ => rfl) a base lost p result hp hstarted
    | debug => exact startLoses_debug a base lost p result hp hstarted
    | job => exact startLoses_job a base lost p result hp hstarted
  | create a =>
    rw [ProcessClass.step, Option.map_eq_some_iff] at h
    obtain ⟨result, hcreated, rfl⟩ := h
    cases cls with
    | process =>
      obtain ⟨l, hl, howned⟩ := createAndStart_loses (startLoses_of_self fun _ => rfl) hp
        (fun h => by cases h) hcreated
      refine ⟨l, hl.trans ?_, howned⟩
      rw [show lostByStart .process a.startReport = 0 from rfl, ite_self, Nat.add_zero]
      rfl
    | inOut =>
      exact guardedCreate_loses (startLoses_of_self fun _ => rfl) hp (by decide) (by decide)
        (by decide) hcreated
    | debug =>
      exact guardedCreate_loses startLoses_debug hp (by decide) (by decide) (by decide) hcreated
    | job => exact ⟨0, rfl, by rw [add_zero]; exact jobCreate_loses hp hcreated⟩

/-- Calls in a row. -/
theorem Owned.run {calls : List ProcessCall} (hp : Owned cls base lost p)
    (h : Lib.run cls.step p calls = some p') :
    ∃ l : Multiset ℕ, l.card = lostAlong cls p calls ∧ Owned cls base (lost + l) p' := by
  induction calls generalizing p lost with
  | nil =>
    rw [run_nil, Option.some.injEq] at h
    subst h
    exact ⟨0, rfl, by rw [add_zero]; exact hp⟩
  | cons call calls ih =>
    obtain ⟨q, hq, h⟩ := run_cons_eq_some.mp h
    obtain ⟨l, hl, howned⟩ := hp.step hq
    obtain ⟨l', hl', howned⟩ := ih howned h
    refine ⟨l + l', ?_, by rw [← add_assoc]; exact howned⟩
    rw [Multiset.card_add, hl, hl', lostAlong, hq]

/-- The destructor leaves nothing in the members. -/
theorem Owned.destroy (hp : Owned cls base lost p) :
    ((cls.destroy p).handles.live : Multiset ℕ) = base + lost := by
  have hbalanced := balanced_safeClose hp.balanced cls.closed
  have hnull : ∀ m, (p.safeClose cls.closed).handles.var m = .null := by
    intro m
    rw [safeClose_var]
    split_ifs with hm
    · rfl
    · exact hp.members.others m hm
  show ((p.safeClose cls.closed).handles.live : Multiset ℕ) = _
  rw [hbalanced.live, held_eq_zero hnull, add_zero]

/-- A job loses nothing. -/
theorem lostAlong_job (p : ProcessObject) (calls : List ProcessCall) :
    lostAlong .job p calls = 0 := by
  induction calls generalizing p with
  | nil => rfl
  | cons call calls ih =>
    have hcall : lostBy .job p call = 0 := by cases call <;> rfl
    rw [lostAlong, hcall, Nat.zero_add]
    split
    · rfl
    · exact ih _

/-- After any calls and the destructor, the handles of the others are still open, and so are exactly
as many of its own as the calls have lost, which for a job is none. Each call that closes a handle
finds it open, apart from those that close the value of a failed `CreateFile`. -/
theorem handles_of_run (cls : ProcessClass) (next : ℕ) (live : List ℕ)
    (inputFile outputFile : Text) (calls : List ProcessCall) (p : ProcessObject)
    (hnodup : live.Nodup) (hnext : ∀ id ∈ live, id < next)
    (hrun : Lib.run cls.step (.new next live inputFile outputFile) calls = some p) :
    (∃ lost : Multiset ℕ, ((cls.destroy p).handles.live : Multiset ℕ) = live + lost ∧
      (lost.card = lostAlong cls (.new next live inputFile outputFile) calls) ∧
      (cls = .job → lost = 0)) ∧
    (cls.destroy p).handles.live.Nodup ∧
    ∀ c ∈ (cls.destroy p).handles.closes, c.2 = true ∨ c.1 = .invalid := by
  have hnew : Owned cls live 0 (.new next live inputFile outputFile) :=
    ⟨Balanced.start (o := { next, live }) hnodup hnext rfl fun _ => rfl, fun _ => rfl,
      fun _ _ => rfl, fun _ _ _ => rfl⟩
  obtain ⟨l, hl, howned⟩ := hnew.run hrun
  rw [zero_add] at howned
  have hbalanced := balanced_safeClose howned.balanced cls.closed
  refine ⟨⟨l, howned.destroy, hl, ?_⟩, hbalanced.nodup, hbalanced.closes⟩
  intro hcls
  subst hcls
  rw [lostAlong_job, Multiset.card_eq_zero] at hl
  exact hl

/-- A debugger whose first `create` does not get to a process, and whose second one does. It loses
the two files of the first, and the file of a library. -/
theorem handles_of_run_retry :
    let retry : List ProcessCall := [.create { processCreated := false, start_ := false },
      .create { start_ := true, startReport :=
        { events := [.createProcess true, .loadDll true, .exitProcess 0, .loadDll true] } }]
    ∃ p, Lib.run ProcessClass.debug.step (.new 1 [0] "a.in".toList "a.out".toList) retry = some p ∧
      ∃ lost : Multiset ℕ, ((ProcessClass.debug.destroy p).handles.live : Multiset ℕ) =
        ([0] : List ℕ) + lost ∧ lost.card = 3 := by
  intro retry
  refine ⟨_, rfl, ?_⟩
  obtain ⟨⟨lost, hlive, hcard, -⟩, -⟩ := handles_of_run .debug 1 [0] "a.in".toList "a.out".toList
    retry _ (by decide) (by decide) rfl
  exact ⟨lost, hlive, hcard.trans (by decide)⟩

end OnlineJudger
