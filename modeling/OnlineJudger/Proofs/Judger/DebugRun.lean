import OnlineJudger.Acm.ZProcessObjects
import OnlineJudger.Judger.Excuter

/-!
# `OnlineJudger.Proofs.Judger.DebugRun`: a program under the debugger

`ZProcessDebug::start` handles the debug events of a program until it exits.

* `debugLoop_result`, `debugLoop_statuses`: what the loop returns, and how it lets the program go
  on behind each event.
* `debugRun_verdict`: the exceptions that a program handles itself change nothing in its verdict,
  but from the first of them on every event is answered as an exception that is not handled.
-/

set_option autoImplicit false

namespace OnlineJudger

open Lib

namespace DebugEvent

/-- The code that the process exits with. -/
def exits : DebugEvent → Option UInt32
  | .exitProcess exitCode => some exitCode
  | _ => none

/-- An exception that is no breakpoint. -/
def raises : DebugEvent → Bool
  | .exception code => code != EXCEPTION_BREAKPOINT
  | _ => false

end DebugEvent

namespace ZProcessDebug

/-- The events before the process exits. They are the ones that are answered. -/
def running (events : List DebugEvent) : List DebugEvent :=
  events.takeWhile fun event => event.exits.isNone

/-- The status behind some events. It is not set back, so one exception decides for all events
behind it. -/
def statusAfter (events : List DebugEvent) (status : UInt32) : UInt32 :=
  if events.any DebugEvent.raises then DBG_EXCEPTION_NOT_HANDLED else status

/-- One pass of the loop, for a process that runs. An event that does not end the process leaves the
rest of the loop to the events behind it, with a status that this event may have changed. -/
theorem debugLoop_cons {event : DebugEvent} (h : event.exits = none) (events : List DebugEvent)
    (status : UInt32) (o : Owner HandleMember) :
    ∃ o', debugLoop (event :: events) status o =
      ((debugLoop events (statusAfter [event] status) o').1,
        statusAfter [event] status :: (debugLoop events (statusAfter [event] status) o').2.1,
        (debugLoop events (statusAfter [event] status) o').2.2) := by
  cases event with
  | exitProcess exitCode => cases h
  | createProcess hFile => exact ⟨_, rfl⟩
  | loadDll hFile => exact ⟨_, rfl⟩
  | other => exact ⟨_, rfl⟩
  | exception code =>
    refine ⟨o, ?_⟩
    have hstatus : statusAfter [.exception code] status =
        if code = EXCEPTION_BREAKPOINT then status else DBG_EXCEPTION_NOT_HANDLED := by
      by_cases hcode : code = EXCEPTION_BREAKPOINT
      · simp [statusAfter, DebugEvent.raises, hcode]
      · simp [statusAfter, DebugEvent.raises, hcode]
    rw [hstatus]
    rfl

/-- The loop fails exactly if the process exits with another code than 0. By induction on the
events. -/
theorem debugLoop_result (events : List DebugEvent) (status : UInt32) (o : Owner HandleMember) :
    (debugLoop events status o).1 =
      decide (events.findSome? DebugEvent.exits ∈ [none, some 0]) := by
  induction events generalizing status o with
  | nil => rfl
  | cons event events ih =>
    cases hexits : event.exits with
    | none =>
      obtain ⟨o', hloop⟩ := debugLoop_cons hexits events status o
      rw [hloop, List.findSome?_cons, hexits]
      exact ih _ o'
    | some exitCode =>
      cases event with
      | exitProcess code =>
        rw [List.findSome?_cons]
        show decide (code = 0) = decide (some code ∈ [none, some 0])
        simp
      | _ => cases hexits

/-- The status behind some events and then some more. -/
theorem statusAfter_append (events events' : List DebugEvent) (status : UInt32) :
    statusAfter (events ++ events') status = statusAfter events' (statusAfter events status) := by
  unfold statusAfter
  rw [List.any_append]
  cases events.any DebugEvent.raises <;> simp

/-- Behind each event the process goes on with the status of all events so far. By induction on the
events, for every status in front of them. -/
theorem debugLoop_statuses (events : List DebugEvent) (status : UInt32)
    (o : Owner HandleMember) :
    (debugLoop events status o).2.1 =
      (List.range (running events).length).map fun i : ℕ =>
        statusAfter ((running events).take (i + 1)) status := by
  induction events generalizing status o with
  | nil => rfl
  | cons event events ih =>
    -- the loop ends with the event that carries an exit code
    cases hexits : event.exits with
    | none =>
      -- any other event is answered, with the status that it leaves
      obtain ⟨o', hloop⟩ := debugLoop_cons hexits events status o
      have hrunning : running (event :: events) = event :: running events :=
        List.takeWhile_cons_of_pos (by rw [hexits]; rfl)
      rw [hloop, hrunning, List.length_cons, List.range_succ_eq_map, List.map_cons, List.map_map]
      show _ :: (debugLoop events (statusAfter [event] status) o').2.1 = _
      rw [ih]
      -- the answers behind it start from this status
      refine congrArg₂ List.cons rfl (List.map_congr_left ?_)
      intro i _
      exact (statusAfter_append [event] _ status).symm
    | some exitCode =>
      have hrunning : running (event :: events) = [] :=
        List.takeWhile_cons_of_neg (by rw [hexits]; exact Bool.noConfusion)
      rw [hrunning]
      cases event with
      | exitProcess code => rfl
      | _ => cases hexits

/-- A program that exits with a code, under the debugger and within any limits.

1. Its run succeeds exactly if it keeps the limits and the code is 0, whatever it raises. Within the
   limits it is a runtime error otherwise.
2. Each event before the exit is answered once, and the exit is not answered. The answers turn from
   `DBG_CONTINUE` to `DBG_EXCEPTION_NOT_HANDLED` with the first exception that is no breakpoint, and
   never back. -/
theorem debugRun_verdict (config : Config) (task : TaskBase) (watcher : Watcher)
    (events : List DebugEvent) (o : Owner HandleMember) (code : UInt32)
    (hexit : events.findSome? DebugEvent.exits = some code) :
    let run := debugLoop events DBG_CONTINUE o
    let result := ExeDebugRunner.exc config (.watched watcher run.1 code) task
    ((result.1 = true ↔ watcher.isMemoryOut = false ∧ watcher.isTimeOut = false ∧ code = 0) ∧
      (watcher.isMemoryOut = false → watcher.isTimeOut = false → code ≠ 0 →
        result.2.result = config.JE_RUNTIME)) ∧
    run.2.1 = (List.range (running events).length).map fun i : ℕ =>
      if ((running events).take (i + 1)).any DebugEvent.raises then DBG_EXCEPTION_NOT_HANDLED
      else DBG_CONTINUE := by
  intro run result
  -- `start` reports success for an exit code of zero only
  have hnoError : run.1 = decide (code = 0) := by
    show (debugLoop events DBG_CONTINUE o).1 = _
    rw [debugLoop_result, hexit]
    simp
  have hresult : result = ExeDebugRunner.exc config (.watched watcher (decide (code = 0)) code)
      task := by
    rw [← hnoError]
  refine ⟨?_, ?_⟩
  -- the watchers come first, then the exit code
  · rw [hresult, ExeDebugRunner.exc]
    cases watcher.isMemoryOut with
    | true => simp
    | false =>
      cases watcher.isTimeOut with
      | true => simp
      | false =>
        by_cases hcode : code = 0
        · simp [hcode]
        · simp [hcode]
  · show (debugLoop events DBG_CONTINUE o).2.1 = _
    exact debugLoop_statuses events DBG_CONTINUE o

/-- A program that raises an exception, handles it, stops at a breakpoint and exits with 0. -/
theorem debugRun_verdict_handled :
    let config : Config := {}
    let task : TaskBase := {
      userName := "zhoubao".toList, solutionID := 1001, problemID := 1000, language := 1
      limitCompileTime := 10000, limitTime := 1, limitMemory := 32 }
    let events : List DebugEvent := [.createProcess true, .exception EXCEPTION_BREAKPOINT,
      .exception 0xE06D7363, .exception EXCEPTION_BREAKPOINT, .exitProcess 0]
    let run := debugLoop events DBG_CONTINUE {}
    (ExeDebugRunner.exc config
        (.watched { limitTime := 10000000, limitMemory := 33554432 } run.1 0) task).1 = true ∧
      run.2.1 = [DBG_CONTINUE, DBG_CONTINUE, DBG_EXCEPTION_NOT_HANDLED,
        DBG_EXCEPTION_NOT_HANDLED] := by
  intro config task events run
  obtain ⟨⟨hsucceeds, -⟩, hstatuses⟩ := debugRun_verdict config task
    { limitTime := 10000000, limitMemory := 33554432 } events {} 0 (by decide)
  exact ⟨hsucceeds.mpr (by decide), hstatuses.trans (by decide)⟩

end ZProcessDebug

end OnlineJudger
