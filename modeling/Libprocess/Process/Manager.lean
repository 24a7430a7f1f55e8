import Libprocess.Concurrency.Automaton
import Libprocess.Concurrency.Threads
import Libprocess.Process.EventQueue

/-!
# Scheduling processes

The threads of `ProcessManager`: worker threads that resume processes from the
run queue, threads that enqueue events, spawn processes or wait for them, and
user code running inside a process, which may do the same.  Each atomic access,
each queue operation and each `synchronized` block is one step.

A `CHECK` that fails aborts the program, so the step has no successor.  The
manager is not finalizing and its worker threads are not being joined.  Memory
reclamation is not part of the model: a process object stays readable, and
`cleanup` does not wait for process references.
-/

namespace Libprocess

open Concurrency

abbrev ProcessId := Nat

/-- `ProcessBase::State`. -/
inductive ProcessState where
  | bottom
  | ready
  | blocked
  | terminating
  deriving DecidableEq, Repr

/-- The fields of `ProcessBase` that the scheduler reads. -/
structure ProcessBase where
  state : ProcessState
  events : EventQueue Event
  termination : Bool
  deriving DecidableEq, Repr

/-- `ProcessBase::ProcessBase`. -/
def ProcessBase.new : ProcessBase := ⟨.bottom, .new, false⟩

/-- The functions that user code calls. -/
inductive Request where
  | spawn (process : ProcessId)
  | enqueue (process : ProcessId) (event : Event)
  | wait (process : ProcessId)
  deriving DecidableEq, Repr

/-- Program points, named after the access that comes next. -/
inductive ManagerFrame where
  /-- Code outside the manager, on a thread of its own. -/
  | user
  /-- The loop of a worker thread in `ProcessManager::init_threads`. -/
  | workerStart
  | workerIdle
  | workerWait
  | workerWoken
  | workerDequeue
  /-- `ProcessManager::spawn`. -/
  | spawnLoad (process : ProcessId)
  | spawnInsert (process : ProcessId)
  /-- `RunQueue::enqueue`. -/
  | push (process : ProcessId)
  | epoch
  /-- `ProcessBase::enqueue`. -/
  | enqueueLoad (process : ProcessId) (event : Event)
  | enqueueEvent (process : ProcessId) (event : Event)
  | enqueueTermination (process : ProcessId)
  | enqueueReload (process : ProcessId)
  | enqueueExchange (process : ProcessId)
  /-- `ProcessManager::wait`. -/
  | waitUse (process : ProcessId)
  | waitLoad (process : ProcessId)
  | waitRunning (process : ProcessId)
  | waitExtract (process : ProcessId)
  | waitDone
  /-- `ProcessManager::resume`. -/
  | resumeLoad (process : ProcessId)
  | initializing (process : ProcessId)
  | storeReady (process : ProcessId)
  | testEmpty (process : ProcessId)
  | storeBlocked (process : ProcessId)
  | retestEmpty (process : ProcessId)
  | exchangeBack (process : ProcessId)
  | dequeue (process : ProcessId)
  | loadTermination (process : ProcessId) (event : Event)
  | purge (process : ProcessId) (event : Event)
  | filter (process : ProcessId) (event : Event) (terminate : Bool)
  | serve (process : ProcessId) (event : Event)
  /-- `ProcessManager::cleanup`.  `removeHelp` and `exited` enqueue events of
  other processes. -/
  | checkReady (process : ProcessId)
  | storeTerminating (process : ProcessId)
  | decomission (process : ProcessId)
  | removeHelp (process : ProcessId)
  | erase (process : ProcessId)
  | exited (process : ProcessId)
  deriving DecidableEq, Repr

/-- Where a called function begins. -/
def Request.entry : Request → ManagerFrame
  | .spawn process => .spawnLoad process
  | .enqueue process event => .enqueueLoad process event
  | .wait process => .waitUse process

/-- The memory of the process manager.  `spawned` and `spawning` record which
processes have been inserted into the table and for which `spawn` was called. -/
structure Manager where
  process : ProcessId → ProcessBase
  processes : List ProcessId
  runq : List ProcessId
  running : Int
  epoch : Nat
  spawning : ProcessId → Bool
  spawned : ProcessId → Bool

/-- What the environment decides: whether code calls into the manager or goes
on, and whether the filter drops an event. -/
inductive ManagerChoice where
  | proceed
  | call (request : Request)
  | filtered
  deriving DecidableEq, Repr

namespace Manager

/-- Replace the fields of one process. -/
def store (manager : Manager) (process : ProcessId) (fields : ProcessBase) : Manager :=
  { manager with process := Function.update manager.process process fields }

/-- `process->state.store(state)`. -/
def storeState (manager : Manager) (process : ProcessId) (state : ProcessState) : Manager :=
  manager.store process { manager.process process with state := state }

/-- Replace the event queue of one process. -/
def storeEvents (manager : Manager) (process : ProcessId) (events : EventQueue Event) :
    Manager :=
  manager.store process { manager.process process with events := events }

/-- `termination.store(true)`. -/
def storeTermination (manager : Manager) (process : ProcessId) : Manager :=
  manager.store process { manager.process process with termination := true }

/-- The effect on the memory of entering a function that user code calls: a
process is spawned once. -/
def call (manager : Manager) (request : Request) : Option Manager :=
  match request with
  | .spawn process =>
      if manager.spawning process then none
      else some { manager with spawning := Function.update manager.spawning process true }
  | .enqueue _ _ => some manager
  | .wait _ => some manager

/-- Code outside the manager: `here` calls into the manager, or continues with
`next`. -/
def code (manager : Manager) (choice : ManagerChoice) (here : ManagerFrame)
    (next : List ManagerFrame) : Option (Manager × List ManagerFrame) :=
  match choice with
  | .call request => (manager.call request).map fun entered => (entered, [request.entry, here])
  | .proceed => some (manager, next)
  | .filtered => none

/-- `compare_exchange_strong` from `BLOCKED` to `READY`. -/
def exchange (manager : Manager) (process : ProcessId) (won lost : List ManagerFrame) :
    Manager × List ManagerFrame :=
  if (manager.process process).state = .blocked then
    (manager.storeState process .ready, won)
  else
    (manager, lost)

/-- One step of a thread at a program point. -/
def step (manager : Manager) (frame : ManagerFrame) (choice : ManagerChoice) :
    Option (Manager × List ManagerFrame) :=
  match frame with
  | .user => manager.code choice .user []
  | .workerStart =>
      some ({ manager with running := manager.running + 1 }, [.workerIdle])
  | .workerIdle =>
      some ({ manager with running := manager.running - 1 }, [.workerWait])
  | .workerWait => some (manager, [.workerWoken])
  | .workerWoken =>
      some ({ manager with running := manager.running + 1 }, [.workerDequeue])
  | .workerDequeue =>
      match manager.runq with
      | [] => some (manager, [.workerIdle])
      | process :: rest =>
          some ({ manager with runq := rest }, [.resumeLoad process, .workerIdle])
  | .spawnLoad process =>
      if (manager.process process).state = .bottom then
        some (manager, [.spawnInsert process])
      else
        some (manager, [])
  | .spawnInsert process =>
      if process ∈ manager.processes then
        some (manager, [])
      else
        some
          ({ manager with
              processes := process :: manager.processes
              spawned := Function.update manager.spawned process true },
            [.push process])
  | .push process => some ({ manager with runq := manager.runq ++ [process] }, [.epoch])
  | .epoch => some ({ manager with epoch := manager.epoch + 1 }, [])
  | .enqueueLoad process event =>
      if (manager.process process).state = .terminating then
        some (manager, [])
      else
        some (manager, [.enqueueEvent process event])
  | .enqueueEvent process event =>
      let block := (manager.process process).events.enqueue event
      if block.2 then
        some (manager.storeEvents process block.1,
          if event.injects then [.enqueueTermination process] else [.enqueueReload process])
      else
        some (manager, [])
  | .enqueueTermination process =>
      some (manager.storeTermination process, [.enqueueReload process])
  | .enqueueReload process =>
      if (manager.process process).state = .blocked then
        some (manager, [.enqueueExchange process])
      else
        some (manager, [])
  | .enqueueExchange process => some (manager.exchange process [.push process] [])
  | .waitUse process =>
      some (manager, if process ∈ manager.processes then [.waitLoad process] else [])
  | .waitLoad process =>
      match (manager.process process).state with
      | .bottom => some (manager, [.waitRunning process])
      | .ready => some (manager, [.waitRunning process])
      | .blocked => some (manager, [])
      | .terminating => some (manager, [])
  | .waitRunning process =>
      some ({ manager with running := manager.running + 1 }, [.waitExtract process])
  | .waitExtract process =>
      if process ∈ manager.runq then
        some ({ manager with runq := manager.runq.erase process },
          [.resumeLoad process, .waitDone])
      else
        some (manager, [.waitDone])
  | .waitDone => some ({ manager with running := manager.running - 1 }, [])
  | .resumeLoad process =>
      match (manager.process process).state with
      | .bottom => some (manager, [.initializing process])
      | .ready => some (manager, [.testEmpty process])
      | .blocked => none
      | .terminating => none
  | .initializing process =>
      manager.code choice (.initializing process) [.storeReady process]
  | .storeReady process =>
      some (manager.storeState process .ready, [.testEmpty process])
  | .testEmpty process =>
      if (manager.process process).events.empty then
        some (manager, [.storeBlocked process])
      else
        some (manager, [.dequeue process])
  | .storeBlocked process =>
      some (manager.storeState process .blocked, [.retestEmpty process])
  | .retestEmpty process =>
      if (manager.process process).events.empty then
        some (manager, [])
      else
        some (manager, [.exchangeBack process])
  | .exchangeBack process => some (manager.exchange process [.testEmpty process] [])
  | .dequeue process =>
      (manager.process process).events.dequeue.map fun (events, event) =>
        (manager.storeEvents process events, [.loadTermination process event])
  | .loadTermination process event =>
      if (manager.process process).termination then
        some (manager, [.purge process event])
      else
        some (manager, [.filter process event false])
  | .purge process event =>
      if event.isTerminate then
        some (manager, [.filter process event true])
      else
        (manager.process process).events.dequeue.map fun (events, next) =>
          (manager.storeEvents process events, [.purge process next])
  | .filter process event terminate =>
      match choice with
      | .filtered =>
          some (manager, if terminate then [.checkReady process] else [.testEmpty process])
      | .proceed => some (manager, [.serve process event])
      | .call _ => none
  | .serve process event =>
      manager.code choice (.serve process event)
        (if event.isTerminate then [.checkReady process] else [.testEmpty process])
  | .checkReady process =>
      if (manager.process process).state = .ready then
        some (manager, [.storeTerminating process])
      else
        none
  | .storeTerminating process =>
      some (manager.storeState process .terminating, [.decomission process])
  | .decomission process =>
      some (manager.storeEvents process (manager.process process).events.decomission.1,
        [.removeHelp process])
  | .removeHelp process => manager.code choice (.removeHelp process) [.erase process]
  | .erase process =>
      some ({ manager with processes := manager.processes.erase process },
        [.exited process])
  | .exited process => manager.code choice (.exited process) []

/-- Nothing has been spawned; processes have been constructed. -/
def new : Manager where
  process _ := .new
  processes := []
  runq := []
  running := 0
  epoch := 0
  spawning _ := false
  spawned _ := false

end Manager

/-- The manager and the threads over it. -/
structure Scheduler where
  manager : Manager
  threads : Threads ManagerFrame

/-- Start a thread of user code or a worker thread, or let a thread move. -/
inductive SchedulerMove where
  | user
  | worker
  | advance (thread : Nat) (choice : ManagerChoice)
  deriving DecidableEq, Repr

namespace Scheduler

def step (scheduler : Scheduler) : SchedulerMove → Option Scheduler
  | .user => some { scheduler with threads := scheduler.threads.spawn .user }
  | .worker => some { scheduler with threads := scheduler.threads.spawn .workerStart }
  | .advance thread choice => do
      let frame ← scheduler.threads.top? thread
      let (manager, next) ← scheduler.manager.step frame choice
      return ⟨manager, scheduler.threads.resume thread next⟩

def new : Scheduler := ⟨.new, []⟩

end Scheduler

/-- All interleavings of the threads of a process manager. -/
def scheduling : Automaton Scheduler SchedulerMove where
  start scheduler := scheduler = .new
  step := Scheduler.step

end Libprocess
