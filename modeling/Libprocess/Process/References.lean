import Libprocess.Process.Scheduling

/-!
# References to processes

A thread uses a process through a `ProcessReference`, unless it holds the token of the process or is
about to spawn it.  `ProcessManager::cleanup` resets the reference that the process gives out, waits
for all others to go, erases the process and opens its gate.  From then on the process may be
deleted: by `ProcessManager::resume` if it is managed, else by code that has waited for it.

References from `ProcessManager::use` are counted, and it is not recorded who has them: code around
may keep one for as long as it likes.  `SocketManager::exited`, which runs under `processes_mutex`,
cleans up no other process.
-/

namespace Libprocess

open Concurrency

namespace ManagerFrame

variable (process : ProcessId)

/-- The frame needs the reference that `deliver` or `wait` has got from `use`. -/
def borrows : ManagerFrame → Bool
  | .enqueueLoad other _ | .enqueueEvent other _ | .enqueueTermination other
  | .enqueueReload other | .enqueueExchange other | .waitLoad other | .waitRunning other
  | .waitExtract other => other = process
  | _ => false

/-- The frame has the reference of `resume`. -/
def refers : ManagerFrame → Bool
  | .testEmpty other | .storeBlocked other | .retestEmpty other | .exchangeBack other
  | .dequeue other | .loadTermination other _ | .purge other _ | .filter other _ _
  | .serve other _ => other = process
  | _ => false

/-- The next access is one of the process object. -/
def accesses : ManagerFrame → Bool
  | .user | .workerStart | .workerIdle | .workerWait | .workerWoken | .workerDequeue | .epoch
  | .waitDone | .waitUse _ | .push _ => false
  | .spawnLoad other | .spawnInsert other | .enqueueLoad other _ | .enqueueEvent other _
  | .enqueueTermination other | .enqueueReload other | .enqueueExchange other | .waitLoad other
  | .waitRunning other | .waitExtract other | .resumeLoad other | .initializing other
  | .storeReady other | .testEmpty other | .storeBlocked other | .retestEmpty other
  | .exchangeBack other | .dequeue other | .loadTermination other _ | .purge other _
  | .filter other _ _ | .serve other _ | .checkReady other | .storeTerminating other
  | .decomission other | .removeHelp other | .erase other | .exited other => other = process

end ManagerFrame

/-- The scheduler, and who refers to the process objects. -/
structure Reclaimer where
  scheduler : Scheduler
  /-- The references that `use` has returned and that are not destroyed. -/
  users : ProcessId → Nat
  /-- `process->reference.reset()` was called. -/
  reset : ProcessId → Bool
  /-- The thread that holds `processes_mutex` in `cleanup`. -/
  cleaner : Option Nat
  /-- The gate of the process is open. -/
  opened : ProcessId → Bool
  deleted : ProcessId → Bool

inductive ReclaimerMove where
  | scheduler (move : SchedulerMove)
  /-- Code in the thread gets a reference from `use`. -/
  | use (thread : Nat) (process : ProcessId)
  /-- A reference from `use` is destroyed. -/
  | release (process : ProcessId)
  /-- `cleanup` locks `processes_mutex` and resets the reference of the process. -/
  | reset (thread : Nat)
  | delete (process : ProcessId)
  deriving DecidableEq, Repr

namespace Reclaimer

variable (state : Reclaimer)

def frames : List ManagerFrame := state.scheduler.threads.frames

/-- The count of `process->reference`. -/
def strong (process : ProcessId) : Nat :=
  state.users process + state.frames.countP (·.refers process) +
    if state.reset process then 0 else 1

/-- `processes_mutex` does not block the thread.  It is recursive. -/
def unlocked (thread : Nat) : Bool := state.cleaner = none ∨ state.cleaner = some thread

/-- `ProcessManager::use` returns a reference: the weak one of the `UPID`, which a process has from
`spawn` on, can be locked, or the process is found in the table. -/
def usable (thread : Nat) (process : ProcessId) : Bool :=
  state.scheduler.manager.spawned process = true ∧ 0 < state.strong process ∨
    state.unlocked thread = true ∧ process ∈ state.scheduler.manager.processes

/-- Not every reference from `use` is needed by a frame. -/
def spare (process : ProcessId) : Bool :=
  state.frames.countP (·.borrows process) < state.users process

/-- The thread can make its next step: `use` and `synchronized (processes_mutex)` do not block,
`cleanup` has waited for the references, and `deliver` has one. -/
def permits (thread : Nat) : ManagerFrame → ManagerChoice → Bool
  | .spawnInsert _, _ => state.unlocked thread
  | .waitUse process, _ => state.usable thread process || state.unlocked thread
  | .erase process, _ => state.cleaner = some thread ∧ state.strong process = 0
  | _, .call (.enqueue process _) => state.spare process
  | _, _ => true

/-- `wait` takes a reference, and the gate is opened. -/
def account : ManagerFrame → ManagerChoice → Reclaimer
  | .waitUse process, _ =>
      if process ∈ state.scheduler.manager.processes then
        { state with users := Function.update state.users process (state.users process + 1) }
      else state
  | .exited process, .proceed =>
      { state with opened := Function.update state.opened process true, cleaner := none }
  | _, _ => state

def advance (thread : Nat) (choice : ManagerChoice) : Option Reclaimer := do
  let frame ← state.scheduler.threads.top? thread
  if state.permits thread frame choice then
    let scheduler ← state.scheduler.step (.advance thread choice)
    return { state.account frame choice with scheduler }
  else none

def step : ReclaimerMove → Option Reclaimer
  | .scheduler (.advance thread choice) => state.advance thread choice
  | .scheduler move =>
      (state.scheduler.step move).map fun scheduler => { state with scheduler }
  | .use thread process =>
      if (state.scheduler.threads.top? thread).any ManagerFrame.runsCode ∧
          state.usable thread process then
        some { state with users := Function.update state.users process (state.users process + 1) }
      else none
  | .release process =>
      if state.spare process then
        some { state with users := Function.update state.users process (state.users process - 1) }
      else none
  | .reset thread =>
      match state.scheduler.threads.top? thread with
      | some (.erase process) =>
          if state.cleaner = none then
            some { state with
              reset := Function.update state.reset process true
              cleaner := some thread }
          else none
      | _ => none
  | .delete process =>
      if state.opened process ∧ !state.deleted process then
        some { state with deleted := Function.update state.deleted process true }
      else none

def new : Reclaimer where
  scheduler := .new
  users _ := 0
  reset _ := false
  cleaner := none
  opened _ := false
  deleted _ := false

end Reclaimer

/-- Nothing refers to the process any more, or can. -/
structure Reclaimer.Unused (state : Reclaimer) (process : ProcessId) : Prop where
  accesses : ∀ frame ∈ state.frames, frame.accesses process = false
  queued : process ∉ state.scheduler.manager.runq
  references : state.strong process = 0
  unusable : ∀ thread, state.usable thread process = false
  /-- The `CHECK` of `ProcessBase::~ProcessBase`. -/
  terminating : (state.scheduler.manager.process process).state = .terminating

end Libprocess
