import Libprocess.Clock.Settling
import Libprocess.Process.Manager

/-!
# Waiting until nothing is left to do

`ProcessManager::settle` reads the epoch of the run queue, `running`, the run queue, `running`
again, the clock, and the epoch again, and starts over unless everything is as it should be.
Meanwhile the threads of the manager move, and so does the event loop, whose ticks execute
timers.  The run queue is the one with a mutex.
-/

namespace Libprocess

open Concurrency
open Timers (Timer)

/-- The thread of the event loop. -/
inductive EventLoop where
  /-- Between two ticks. -/
  | polling
  /-- In the callback of a tick.  The timers are user code, in a thread of the scheduler. -/
  | calling (timers : List Timer) (thread : Nat)
  /-- Before the last block of `clock::tick`. -/
  | called
  deriving DecidableEq, Repr

/-- The manager and its threads, the clock, and the event loop. -/
structure Program where
  scheduler : Scheduler
  timers : Timers.System
  eventLoop : EventLoop

inductive ProgramMove where
  | scheduler (move : SchedulerMove)
  | clock (label : Timers.Label)
  /-- The callback of a tick returns. -/
  | returned
  deriving DecidableEq, Repr

namespace Program

def new : Program := ⟨.new, .new, .polling⟩

/-- A block of the clock. -/
def block (program : Program) (label : Timers.Label) : Option Program :=
  (program.timers.step label).map fun timers => { program with timers }

/-- A tick calls the callback with the timers that timed out. -/
def tick (program : Program) (time reading : Timers.Time) : Option Program :=
  match program.eventLoop with
  | .polling =>
      let timedout := (program.timers.clock.tick time reading).2.2.1
      let threads := program.scheduler.threads
      (program.block (.tick time reading)).map fun ticked =>
        { ticked with
          scheduler.threads := threads ++ [timedout.map fun _ => .user]
          eventLoop := .calling timedout threads.length }
  | .calling _ _ => none
  | .called => none

/-- The callback returns once it has executed its timers. -/
def callbackReturns (program : Program) : Option Program :=
  match program.eventLoop with
  | .calling _ thread =>
      if program.scheduler.threads[thread]? = some [] then
        some { program with eventLoop := .called }
      else none
  | .polling => none
  | .called => none

/-- The last block of `clock::tick`. -/
def settle (program : Program) : Option Program :=
  match program.eventLoop with
  | .called => (program.block .settle).map fun next => { next with eventLoop := .polling }
  | .polling => none
  | .calling _ _ => none

def step (program : Program) : ProgramMove → Option Program
  | .scheduler move =>
      (program.scheduler.step move).map fun scheduler => { program with scheduler }
  | .clock (.tick time reading) => program.tick time reading
  | .clock .settle => program.settle
  | .clock label => program.block label
  | .returned => program.callbackReturns

end Program

/-- Program points of `ProcessManager::settle`, named after the access that comes next.  `old` is
the epoch that it has read. -/
inductive Settler where
  | outside
  | loadEpoch
  | loadRunning (old : Nat)
  | testEmpty (old : Nat)
  | reloadRunning (old : Nat)
  | testClock (old : Nat)
  | reloadEpoch (old : Nat)
  | returned
  deriving DecidableEq, Repr

namespace Settler

def step (settler : Settler) (program : Program) : Option Settler :=
  let manager := program.scheduler.manager
  match settler with
  | .outside => some .loadEpoch
  | .loadEpoch => some (.loadRunning manager.epoch)
  | .loadRunning old => some (if 0 < manager.running then .loadEpoch else .testEmpty old)
  | .testEmpty old => some (if manager.runq = [] then .reloadRunning old else .loadEpoch)
  | .reloadRunning old => some (if 0 < manager.running then .loadEpoch else .testClock old)
  | .testClock old =>
      program.timers.clock.settled.map fun settled =>
        if settled then .reloadEpoch old else .loadEpoch
  | .reloadEpoch old => some (if old = manager.epoch then .returned else .loadEpoch)
  | .returned => none

/-- `settle` has been called and has not returned. -/
def running : Settler → Bool
  | .outside | .returned => false
  | _ => true

end Settler

/-- A call of `settle`, and the program as it was when `Clock::settled` last returned true. -/
structure Settlement where
  program : Program
  settler : Settler
  observed : Option Program

inductive SettlementMove where
  | program (move : ProgramMove)
  | settle
  deriving DecidableEq, Repr

namespace Settlement

def step (settlement : Settlement) : SettlementMove → Option Settlement
  | .program move =>
      (settlement.program.step move).map fun program => { settlement with program }
  | .settle =>
      (settlement.settler.step settlement.program).map fun settler =>
        { settlement with
          settler
          observed :=
            match settler with
            | .reloadEpoch _ => some settlement.program
            | _ => settlement.observed }

def new : Settlement := ⟨.new, .outside, none⟩

def machine : Automaton Settlement SettlementMove where
  start := (· = new)
  step := step

end Settlement

/-! ## What is promised -/

namespace ManagerFrame

/-- A thread that is counted by `running`. -/
def counted : ManagerFrame → Bool
  | .workerIdle | .workerDequeue | .waitExtract _ | .waitDone => true
  | _ => false

/-- A call of `ProcessManager::resume`, which begins when its process is taken from the run
queue. -/
def resuming : ManagerFrame → Bool
  | .resumeLoad _ | .initializing _ | .storeReady _ | .testEmpty _ | .storeBlocked _
  | .retestEmpty _ | .exchangeBack _ | .dequeue _ | .loadTermination _ _ | .purge _ _
  | .filter _ _ _ | .serve _ _ | .checkReady _ | .storeTerminating _ | .decomission _
  | .removeHelp _ | .erase _ | .exited _ => true
  | _ => false

end ManagerFrame

namespace Program

/-- No process is being run or waits to be run, no timer has expired, and no callback has timers
to execute. -/
structure Quiet (program : Program) : Prop where
  resumes : ∀ frame ∈ program.scheduler.threads.frames, frame.resuming = false
  runq : program.scheduler.manager.runq = []
  timers : ∀ timer, program.timers.Pending timer → program.timers.clock.current < timer.timeout
  callback : ∀ timers thread, program.eventLoop = .calling timers thread → timers = []

/-- A thread is inside `resume`. -/
def Resumes (program : Program) (thread : Nat) : Prop :=
  ∃ stack, program.scheduler.threads[thread]? = some stack ∧ ∃ frame ∈ stack, frame.resuming = true

/-- The thread of the event loop is inside the callback. -/
def Ticks (program : Program) (thread : Nat) : Prop :=
  ∃ timers, program.eventLoop = .calling timers thread

/-- The clock stays paused, and a process is only enqueued inside `resume` or by a tick. -/
def Confined (program : Program) : ProgramMove → Prop
  | .clock .resume => False
  | .scheduler (.advance thread _) =>
      ∀ process, program.scheduler.threads.top? thread = some (.push process) →
        program.Resumes thread ∨ program.Ticks thread
  | _ => True

/-- `settling` is raised while a callback has timers to execute.  It is not if the clock was paused
after they were taken. -/
def Marked (program : Program) : Prop :=
  ∀ timers thread, program.eventLoop = .calling timers thread → timers ≠ [] →
    program.timers.clock.settling = true

end Program

namespace Settlement

/-- `settle` is called while the clock is paused, and processes are only enqueued by the manager
and the clock until it returns. -/
def Assumed (settlement : Settlement) : SettlementMove → Prop
  | .settle => settlement.settler = .outside → settlement.program.timers.clock.paused = true
  | .program move => settlement.settler.running = true → settlement.program.Confined move

/-- When `settle` is called, `settling` is raised if a callback executes timers. -/
def Permitted (settlement : Settlement) (move : SettlementMove) : Prop :=
  settlement.Assumed move ∧
    (move = .settle → settlement.settler = .outside → settlement.program.Marked)

end Settlement

/-! ## Deciding the assumptions -/

/-- The process that a thread is about to push into the run queue. -/
def ManagerFrame.pushed : ManagerFrame → Option ProcessId
  | .push process => some process
  | _ => none

/-- The timers that a callback executes, and the thread in which it does. -/
def EventLoop.callback : EventLoop → Option (List Timer × Nat)
  | .calling timers thread => some (timers, thread)
  | .polling | .called => none

theorem ManagerFrame.pushed_eq_some_iff {frame : ManagerFrame} {process : ProcessId} :
    frame.pushed = some process ↔ frame = .push process := by
  cases frame <;> simp [pushed]

theorem EventLoop.callback_eq_some_iff {eventLoop : EventLoop} {timers : List Timer}
    {thread : Nat} :
    eventLoop.callback = some (timers, thread) ↔ eventLoop = .calling timers thread := by
  cases eventLoop <;> simp [callback]

namespace Program

instance resumes_decidable (program : Program) (thread : Nat) :
    Decidable (program.Resumes thread) :=
  decidable_of_iff (∃ stack ∈ program.scheduler.threads[thread]?, ∃ frame ∈ stack,
    frame.resuming = true) Iff.rfl

instance ticks_decidable (program : Program) (thread : Nat) : Decidable (program.Ticks thread) :=
  decidable_of_iff (∃ called ∈ program.eventLoop.callback, called.2 = thread) (by
    simp [Ticks, EventLoop.callback_eq_some_iff])

instance marked_decidable (program : Program) : Decidable program.Marked :=
  decidable_of_iff (∀ called ∈ program.eventLoop.callback, called.1 ≠ [] →
    program.timers.clock.settling = true) (by
    simp only [Marked, Option.mem_def, Prod.forall, EventLoop.callback_eq_some_iff])

instance confined_decidable (program : Program) (move : ProgramMove) :
    Decidable (program.Confined move) := by
  unfold Confined
  split
  · infer_instance
  · rename_i thread choice
    refine decidable_of_iff (∀ process ∈ (program.scheduler.threads.top? thread).bind
      ManagerFrame.pushed, program.Resumes thread ∨ program.Ticks thread) ?_
    simp only [Option.mem_def, Option.bind_eq_some_iff, ManagerFrame.pushed_eq_some_iff,
      exists_eq_right]
  · infer_instance

end Program

namespace Settlement

instance assumed_decidable (settlement : Settlement) (move : SettlementMove) :
    Decidable (settlement.Assumed move) := by
  unfold Assumed
  split <;> infer_instance

instance permitted_decidable (settlement : Settlement) (move : SettlementMove) :
    Decidable (settlement.Permitted move) :=
  inferInstanceAs (Decidable (_ ∧ _))

end Settlement

end Libprocess
