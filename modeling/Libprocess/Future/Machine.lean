import Libprocess.Concurrency.Automaton
import Libprocess.Concurrency.Threads
import Libprocess.Future.Data

/-!
# Interleaved execution of futures

Threads share a memory of futures.  A call on a future first executes its
`synchronized` block, which is one step, and then runs callbacks outside the
lock, one step each.  A running callback is code that may call into any future
again before it returns, so the frames of one thread nest.

The code outside `Future` is a parameter.  `Code` says what its callbacks and
activation frames are and what one step of a frame does; the results about
futures hold for all code.
-/

namespace Libprocess

open Concurrency

abbrev FutureId := Nat

/-- The functions of `Future` and `Promise` that begin with a `synchronized`
block. -/
inductive Op (α Callback : Type) where
  /-- `Future::_set` -/
  | set (value : α)
  /-- `Future::fail` -/
  | fail (message : String)
  /-- `Promise::discard(Future)` -/
  | discarded
  /-- `Future::discard` -/
  | discard
  /-- `Future::abandon` -/
  | abandon (propagating : Bool)
  /-- `Future::onReady`, `Future::onAny`, ... -/
  | on (kind : CallbackKind) (callback : Callback)
  deriving DecidableEq, Repr

/-- What a callback is invoked with. -/
inductive Argument (α : Type) where
  | value (value : α)
  | message (message : String)
  | future (future : FutureId)
  | nothing
  /-- `Result::get` or `Result::error` on a result that holds neither. -/
  | undefined
  deriving DecidableEq, Repr

/-- The argument of a callback: `data->result.get()`, `data->result.error()`,
`*this` or none, read when the callback is invoked. -/
def argument {α : Type} (future : FutureId) (kind : CallbackKind) (result : Result α) :
    Argument α :=
  match kind, result with
  | .onReady, .some value => .value value
  | .onFailed, .error message => .message message
  | .onReady, _ => .undefined
  | .onFailed, _ => .undefined
  | .onAny, _ => .future future
  | .onAbandoned, _ => .nothing
  | .onDiscard, _ => .nothing
  | .onDiscarded, _ => .nothing

/-- What code outside `Future` does next: call a function of a future, or
continue with frames of its own. -/
inductive Activation (α Callback Body : Type) where
  | call (future : FutureId) (op : Op α Callback)
  | body (frame : Body)

/-- One step of code outside `Future`. -/
structure Effect (α Callback Body Env : Type) where
  flags : FutureId → Flags
  env : Env
  next : List (Activation α Callback Body)

/-- The code outside `Future`: its callbacks, the frames of its functions, its
own shared memory and its steps.  A `Choice` resolves what the code leaves open. -/
structure Code (α : Type) where
  Callback : Type
  Body : Type
  Env : Type
  Choice : Type
  initial : Env
  main : Body
  invoke : FutureId → Argument α → Callback → Body
  step : (FutureId → Status α) → Env → Body → Choice →
    Option (Effect α Callback Body Env)

/-- The code leaves the `discard` flag of a future alone. -/
def Code.Disciplined {α : Type} (code : Code α) (future : FutureId) : Prop :=
  ∀ status env frame choice effect, code.step status env frame choice = some effect →
    (effect.flags future).discard = (status future).discard

/-- An activation frame. -/
inductive Frame (α Callback Body : Type) where
  /-- A call that has not executed its `synchronized` block. -/
  | enter (future : FutureId) (op : Op α Callback)
  /-- The completing call in `internal::run`, at one index of a vector that
  stays inside the shared data. -/
  | running (future : FutureId) (kind : CallbackKind) (index : Nat)
  /-- The completing call before `clearAllCallbacks`. -/
  | clearing (future : FutureId)
  /-- `Future::discard` or `Future::abandon` in `internal::run` on the vector
  they swapped out. -/
  | swapped (future : FutureId) (kind : CallbackKind)
      (callbacks : List (Registration Callback))
  /-- A registration that found its event past and invokes its callback. -/
  | invoking (future : FutureId) (kind : CallbackKind)
      (registration : Registration Callback)
  | body (frame : Body)

/-- The frame that an activation pushes. -/
def Activation.frame {α Callback Body : Type} :
    Activation α Callback Body → Frame α Callback Body
  | .call future op => .enter future op
  | .body frame => .body frame

/-- One invocation of a callback. -/
structure Invocation (α Callback : Type) where
  future : FutureId
  kind : CallbackKind
  registration : Registration Callback
  argument : Argument α

/-- The memory shared by all threads, with the history of registrations, of
invocations and of the results returned by completing calls, latest first. -/
structure Memory {α : Type} (code : Code α) where
  data : FutureId → Data α code.Callback
  env : code.Env
  tickets : Nat
  registered : List (FutureId × CallbackKind × Registration code.Callback)
  log : List (Invocation α code.Callback)
  returned : List (FutureId × Bool)

variable {α : Type}

abbrev Code.Frame (code : Code α) := Libprocess.Frame α code.Callback code.Body

namespace Memory

variable {code : Code α}

/-- Replace the data of one future. -/
def store (memory : Memory code) (future : FutureId) (data : Data α code.Callback) :
    Memory code :=
  { memory with data := Function.update memory.data future data }

/-- Record the result of a completing call. -/
def returns (memory : Memory code) (future : FutureId) (result : Bool) : Memory code :=
  { memory with returned := (future, result) :: memory.returned }

/-- Record the invocation of a callback. -/
def record (memory : Memory code) (future : FutureId) (kind : CallbackKind)
    (registration : Registration code.Callback) : Memory code :=
  { memory with
    log := ⟨future, kind, registration,
      argument future kind (memory.data future).result⟩ :: memory.log }

/-- The frame that executes an invoked callback. -/
def callback (memory : Memory code) (future : FutureId) (kind : CallbackKind)
    (registration : Registration code.Callback) : code.Frame :=
  .body (code.invoke future (argument future kind (memory.data future).result)
    registration.callback)

/-- The block of a completing call and what follows it. -/
def completed (memory : Memory code) (future : FutureId) (own : CallbackKind)
    (block : Data α code.Callback × Bool) : Memory code × List code.Frame :=
  if block.2 then
    (memory.store future block.1, [.running future own 0])
  else
    (memory.returns future false, [])

/-- The block of `Future::discard` or `Future::abandon` and what follows it. -/
def swappedOut (memory : Memory code) (future : FutureId) (kind : CallbackKind)
    (block : Option (Data α code.Callback × List (Registration code.Callback))) :
    Memory code × List code.Frame :=
  match block with
  | some (data, callbacks) =>
      (memory.store future data, [.swapped future kind callbacks])
  | none => (memory, [])

/-- The block of a registration function and what follows it. -/
def register (memory : Memory code) (future : FutureId) (kind : CallbackKind)
    (callback : code.Callback) : Memory code × List code.Frame :=
  let registration : Registration code.Callback := ⟨memory.tickets, callback⟩
  let block := (memory.data future).register kind registration
  ({ memory.store future block.1 with
      tickets := memory.tickets + 1
      registered := (future, kind, registration) :: memory.registered },
    if block.2 then [.invoking future kind registration] else [])

/-- Execute the `synchronized` block of a call. -/
def enter (memory : Memory code) (future : FutureId) :
    Op α code.Callback → Memory code × List code.Frame
  | .set value => memory.completed future .onReady ((memory.data future).set value)
  | .fail message => memory.completed future .onFailed ((memory.data future).fail message)
  | .discarded => memory.completed future .onDiscarded (memory.data future).discarded
  | .discard => memory.swappedOut future .onDiscard (memory.data future).requestDiscard
  | .abandon propagating =>
      memory.swappedOut future .onAbandoned ((memory.data future).abandon propagating)
  | .on kind callback => memory.register future kind callback

/-- One iteration of `internal::run` in a completing call. -/
def iterate (memory : Memory code) (future : FutureId) (kind : CallbackKind)
    (index : Nat) : Memory code × List code.Frame :=
  match ((memory.data future).callbacks kind)[index]? with
  | some registration =>
      (memory.record future kind registration,
        [memory.callback future kind registration, .running future kind (index + 1)])
  | none =>
      (memory, if kind = .onAny then [.clearing future] else [.running future .onAny 0])

/-- One step of code outside `Future`. -/
def execute (memory : Memory code) (frame : code.Body) (choice : code.Choice) :
    Option (Memory code × List code.Frame) :=
  (code.step (fun future => (memory.data future).toStatus) memory.env frame choice).map fun effect =>
    ({ memory with
        data := fun future => { memory.data future with toFlags := effect.flags future }
        env := effect.env },
      effect.next.map Activation.frame)

/-- One step of a frame: the new memory and the frames it turns into. -/
def step (memory : Memory code) (frame : code.Frame) (choice : code.Choice) :
    Option (Memory code × List code.Frame) :=
  match frame with
  | .enter future op => some (memory.enter future op)
  | .running future kind index => some (memory.iterate future kind index)
  | .clearing future =>
      some ((memory.store future (memory.data future).clearAllCallbacks).returns
        future true, [])
  | .swapped future kind (registration :: rest) =>
      some (memory.record future kind registration,
        [memory.callback future kind registration, .swapped future kind rest])
  | .swapped _ _ [] => some (memory, [])
  | .invoking future kind registration =>
      some (memory.record future kind registration,
        [memory.callback future kind registration])
  | .body body => memory.execute body choice

end Memory

/-- The futures machine: the shared memory and the threads over it. -/
structure Machine (code : Code α) where
  memory : Memory code
  threads : Threads code.Frame

/-- Start a thread, or let one thread execute one step. -/
inductive Move (code : Code α) where
  | spawn
  | advance (thread : Nat) (choice : code.Choice)

namespace Machine

variable {code : Code α}

def step (machine : Machine code) : Move code → Option (Machine code)
  | .spawn => some { machine with threads := machine.threads.spawn (.body code.main) }
  | .advance thread choice => do
      let frame ← machine.threads.top? thread
      let (memory, next) ← machine.memory.step frame choice
      return ⟨memory, machine.threads.resume thread next⟩

/-- Nothing has been called yet; each future was made by a constructor that
stored its `abandoned` flag. -/
def Initial (machine : Machine code) : Prop :=
  (∀ future, ∃ abandoned, machine.memory.data future = .fresh abandoned) ∧
    machine.memory.env = code.initial ∧ machine.memory.registered = [] ∧
    machine.memory.log = [] ∧ machine.memory.returned = [] ∧ machine.threads = []

/-- The machine before the first call, with the `abandoned` flag of each future. -/
def new (code : Code α) (abandoned : FutureId → Bool) : Machine code where
  memory :=
    { data := fun future => .fresh (abandoned future)
      env := code.initial
      tickets := 0
      registered := []
      log := []
      returned := [] }
  threads := []

theorem new_initial (code : Code α) (abandoned : FutureId → Bool) :
    (new code abandoned).Initial :=
  ⟨fun future => ⟨abandoned future, rfl⟩, rfl, rfl, rfl, rfl, rfl⟩

end Machine

/-- All interleavings of a piece of code over futures. -/
def futures (code : Code α) : Automaton (Machine code) (Move code) where
  start := Machine.Initial
  step := Machine.step

end Libprocess
