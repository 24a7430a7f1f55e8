import Libprocess.Future.Combinators
import Libprocess.Future.Returned

/-!
# `collect` and `await`

`collect` and `await` spawn a process that registers callbacks on a vector of futures.  Each of
these callbacks dispatches an event to the process, which handles its events one at a time and
completes the promise that it owns.  The variadic `collect` gives its futures to `then`, collects
the futures it gets from there, and gives the result to `then` again.

The code around makes promises, completes and abandons them, collects any futures it has, discards
and registers callbacks on what it is given, terminates processes, and resumes them.  A process is
named after the future of its promise.  A `CHECK` that fails is recorded.
-/

namespace Libprocess

/-- The values of futures: of the code around, `Nothing`, vectors and tuples of values, and vectors
of futures. -/
inductive Value (T : Type) where
  | value (value : T)
  | nothing
  | values (values : List (Value T))
  | futures (futures : List FutureId)

/-- `CollectProcess` or `AwaitProcess`. -/
inductive Gathering where
  | collect
  | await
  deriving DecidableEq, Repr

/-- The dispatches to a process, and the event that terminates it. -/
inductive GatherEvent where
  | waited (future : FutureId)
  | abandoned
  | discarded
  | terminate
  deriving DecidableEq, Repr

/-- A process before `spawn`, before `initialize`, with nothing to do, while it is resumed, and
after it was deleted. -/
inductive GatherStage where
  | constructed
  | bottom
  | blocked
  | running
  | deleted
  deriving DecidableEq, Repr

/-- `CollectProcess` and `AwaitProcess`, their event queue, and their history. -/
structure GatherProcess (T : Type) where
  gathering : Gathering
  futures : List FutureId
  ready : Nat
  stage : GatherStage
  events : List GatherEvent
  /-- `ProcessBase::termination` -/
  termination : Bool
  /-- The vector that the process was constructed with. -/
  inputs : List FutureId
  /-- The futures that `waited` has counted. -/
  heard : List FutureId
  /-- The futures whose `discard` has returned. -/
  asked : List FutureId
  /-- The calls that complete the promise. -/
  completions : List (Completion (Value T))
  /-- Code around has terminated the process. -/
  terminated : Bool

/-- What `then` is given by the variadic `collect`: a lambda that returns `Nothing`, or the tuple of
some futures' values. -/
inductive Continuation where
  | nothing
  | tuple (futures : List FutureId)
  deriving DecidableEq, Repr

/-- Who has the promise of a future: nobody yet, the code around, or a process or a callback that
has returned the future or keeps it to itself. -/
inductive Role where
  | unmade
  | promised
  | returned
  | hidden
  deriving DecidableEq, Repr

/-- One call of the variadic `collect`. -/
structure Variadic where
  futures : List FutureId
  wrappers : List FutureId
  gathered : FutureId
  result : FutureId
  deriving DecidableEq, Repr

structure GatherEnv (T : Type) where
  role : FutureId → Role
  process : FutureId → Option (GatherProcess T)
  /-- What a future was derived from by `then`. -/
  derived : FutureId → Option (FutureId × Continuation)
  variadics : List Variadic
  /-- A `CHECK` has failed. -/
  aborted : Bool

def GatherEnv.new {T : Type} : GatherEnv T where
  role _ := .unmade
  process _ := none
  derived _ := none
  variadics := []
  aborted := false

inductive GatherCallback where
  | user
  /-- `defer(this, &CollectProcess::waited, lambda::_1)` -/
  | waited (process : FutureId)
  /-- `defer(this, &CollectProcess::abandoned)` -/
  | abandoned (process : FutureId)
  /-- `defer(this, &CollectProcess::discarded)` -/
  | discarded (process : FutureId)
  /-- `internal::then` with the promise of the derived future. -/
  | run (derived : FutureId)
  /-- The lambda of `then` that abandons the derived future. -/
  | abandon (derived : FutureId)
  /-- `lambda::bind(&internal::discard<T>, WeakFuture<T>(future))` -/
  | discard (future : FutureId)
  deriving DecidableEq, Repr

inductive GatherBody (T : Type) where
  | user
  | spawn (process : FutureId)
  /-- `dispatch`, called by a deferred callback. -/
  | dispatch (process : FutureId) (event : GatherEvent)
  /-- `ProcessManager::resume` before the next event. -/
  | serve (process : FutureId)
  /-- The loop of `discarded`. -/
  | discarding (process : FutureId) (rest : List FutureId)
  /-- The same loop after `discard` has returned. -/
  | asked (process future : FutureId) (rest : List FutureId)
  /-- `terminate(this)`, after the promise was completed, if the handler did that. -/
  | terminate (process : FutureId) (completion : Option (Completion (Value T)))
  | run (derived : FutureId)
  /-- The callback of `then` destroys the promise. -/
  | release (derived : FutureId) (completion : Completion (Value T))
  | abandon (derived : FutureId)
  | discard (future : FutureId)

/-- What the code around does next. -/
inductive GatherChoice (T : Type) where
  /-- Construct a promise. -/
  | promise (future : FutureId)
  | call (future : FutureId) (op : Op (Value T) Unit)
  /-- `collect` or `await` of a vector; the future is the one it will return. -/
  | gather (gathering : Gathering) (futures : List FutureId) (result : FutureId)
  | variadic (variadic : Variadic)
  /-- A worker takes the process from the run queue. -/
  | resume (process : FutureId)
  | terminate (process : FutureId) (inject : Bool)
  | finish

variable {T : Type}

namespace Gather

abbrev Outcome (T : Type) :=
  Effect (Value T) GatherCallback (GatherBody T) (GatherEnv T)

abbrev Activations (T : Type) := List (Activation (Value T) GatherCallback (GatherBody T))

abbrev Statuses (T : Type) := FutureId → Status (Value T)

def outcome (status : Statuses T) (env : GatherEnv T) (next : Activations T) : Outcome T :=
  ⟨fun future => (status future).toFlags, env, next⟩

/-- `Future::get`; `none` when its `CHECK` fails. -/
def get (status : Status (Value T)) : Option (Value T) :=
  match status.state, status.result with
  | .ready, .some value => some value
  | _, _ => none

/-- The values of some futures, in order. -/
def gets (status : Statuses T) (futures : List FutureId) : Option (List (Value T)) :=
  futures.mapM fun future => get (status future)

def store (env : GatherEnv T) (name : FutureId) (process : GatherProcess T) : GatherEnv T :=
  { env with process := Function.update env.process name (some process) }

/-- The constructor of `CollectProcess` and `AwaitProcess`. -/
def construct (gathering : Gathering) (futures : List FutureId) : GatherProcess T where
  gathering := gathering
  futures := futures
  ready := 0
  stage := .constructed
  events := []
  termination := false
  inputs := futures
  heard := []
  asked := []
  completions := []
  terminated := false

/-- The empty vector that `collect` and `await` return at once. -/
def empty : Gathering → Value T
  | .collect => .values []
  | .await => .futures []

/-- `collect` and `await` of a vector, up to `spawn`. -/
def gather (env : GatherEnv T) (gathering : Gathering) (futures : List FutureId)
    (result : FutureId) : GatherEnv T × Activations T :=
  if futures = [] then (env, [.call result (.set (empty gathering))])
  else (store env result (construct gathering futures), [.body (.spawn result)])

/-- `Future::then` -/
def derive (parent derived : FutureId) : Activations T :=
  [.call parent (.on .onAny (.run derived)),
    .call parent (.on .onAbandoned (.abandon derived)),
    .call derived (.on .onDiscard (.discard parent))]

/-- The futures that a call of the variadic `collect` makes. -/
def Variadic.made (variadic : Variadic) : List FutureId :=
  variadic.wrappers ++ [variadic.gathered, variadic.result]

/-- The variadic `collect` of `variadic.futures` makes its promises. -/
def prepare (env : GatherEnv T) (variadic : Variadic) : GatherEnv T :=
  { env with
    role := fun future =>
      if future = variadic.result then .returned
      else if future ∈ Variadic.made variadic then .hidden else env.role future
    derived := fun future =>
      if future = variadic.result then some (variadic.gathered, .tuple variadic.futures)
      else match (variadic.wrappers.zip variadic.futures).lookup future with
        | some parent => some (parent, .nothing)
        | none => env.derived future
    variadics := variadic :: env.variadics }

/-- The variadic `collect`. -/
def variadic (env : GatherEnv T) (variadic : Variadic) : GatherEnv T × Activations T :=
  let gathers := gather (prepare env variadic) .collect variadic.wrappers variadic.gathered
  (gathers.1,
    (variadic.wrappers.zip variadic.futures).flatMap (fun pair => derive pair.2 pair.1) ++
      gathers.2 ++ derive variadic.gathered variadic.result)

/-- The code around has been given the future. -/
def visible (env : GatherEnv T) (future : FutureId) : Bool :=
  env.role future = .promised ∨ env.role future = .returned

/-- Nothing refers to the future. -/
def unmade (status : Statuses T) (env : GatherEnv T) (future : FutureId) : Bool :=
  env.role future = .unmade ∧ !(status future).abandoned

def assign (env : GatherEnv T) (future : FutureId) (role : Role) : GatherEnv T :=
  { env with role := Function.update env.role future role }

/-- `initialize` -/
def initializing (name : FutureId) (process : GatherProcess T) : Activations T :=
  .call name (.on .onDiscard (.discarded name)) ::
    process.futures.flatMap fun future =>
      [.call future (.on .onAny (.waited name)), .call future (.on .onAbandoned (.abandoned name))]

/-- `ProcessManager::resume` up to the first event. -/
def resume (env : GatherEnv T) (name : FutureId) : Option (GatherEnv T × Activations T) :=
  match env.process name with
  | none => none
  | some process =>
      match process.stage with
      | .bottom =>
          some (store env name { process with stage := .running },
            initializing name process ++ [.body (.serve name)])
      | .blocked =>
          if process.events = [] then none
          else some (store env name { process with stage := .running }, [.body (.serve name)])
      | .constructed | .running | .deleted => none

/-- `ProcessBase::enqueue`; an event for a process that was deleted is dropped. -/
def enqueue (env : GatherEnv T) (name : FutureId) (event : GatherEvent) (inject : Bool) :
    GatherEnv T :=
  match env.process name with
  | none => env
  | some process =>
      if process.stage = .deleted then env
      else store env name
        { process with
          events := process.events ++ [event]
          termination := process.termination || inject }

/-- Code around terminates a process. -/
def terminate (env : GatherEnv T) (name : FutureId) (inject : Bool) : Option (GatherEnv T) :=
  match env.process name with
  | none => none
  | some process =>
      if process.stage = .deleted then none
      else some (enqueue (store env name { process with terminated := true }) name .terminate inject)

/-- The code around, in a thread of its own or in a callback. -/
def user (status : Statuses T) (env : GatherEnv T) :
    GatherChoice T → Option (GatherEnv T × Activations T)
  | .promise future =>
      if unmade status env future then some (assign env future .promised, [.body .user]) else none
  | .call future op =>
      if env.role future = .promised ∨ env.role future = .returned ∧ op.shared then
        some (env, [.call future (op.foreign .user), .body .user])
      else none
  | .gather gathering futures result =>
      if unmade status env result ∧ ∀ future ∈ futures, visible env future then
        let gathers := gather (assign env result .returned) gathering futures result
        some (gathers.1, gathers.2 ++ [.body .user])
      else none
  | .variadic call =>
      if (∀ future ∈ call.futures, visible env future) ∧ (Variadic.made call).Nodup ∧
          (∀ future ∈ Variadic.made call, unmade status env future) ∧
          call.wrappers.length = call.futures.length then
        some ((variadic env call).1, (variadic env call).2 ++ [.body .user])
      else none
  | .resume name => (resume env name).map fun (env, next) => (env, next ++ [.body .user])
  | .terminate name inject =>
      (terminate env name inject).map fun env => (env, [.body .user])
  | .finish => some (env, [])

/-- The event that `ProcessManager::resume` serves next, and those that are left: once
`termination` is set, it purges all events up to the one that terminates. -/
def dequeue (process : GatherProcess T) : Option (GatherEvent × List GatherEvent) :=
  match (if process.termination then process.events.dropWhile (· ≠ .terminate)
    else process.events) with
  | [] => none
  | event :: rest => some (event, rest)

/-- A handler completes the promise and terminates the process. -/
def complete (env : GatherEnv T) (name : FutureId) (process : GatherProcess T)
    (completion : Completion (Value T)) : GatherEnv T × Activations T :=
  (store env name { process with completions := process.completions ++ [completion] },
    [.call name completion.op, .body (.terminate name (some completion))])

def abort (env : GatherEnv T) : GatherEnv T × Activations T :=
  ({ env with aborted := true }, [])

/-- `ready += 1` -/
def counted (process : GatherProcess T) (future : FutureId) : GatherProcess T :=
  { process with ready := process.ready + 1, heard := process.heard ++ [future] }

/-- The last future was counted. -/
def filled (status : Statuses T) (env : GatherEnv T) (name : FutureId)
    (process : GatherProcess T) : GatherEnv T × Activations T :=
  match process.gathering with
  | .collect =>
      match gets status process.futures with
      | some values => complete env name process (.set (.values values))
      | none => abort env
  | .await => complete env name { process with futures := [] } (.set (.futures process.futures))

/-- `waited` counts a future. -/
def count (status : Statuses T) (env : GatherEnv T) (name : FutureId) (process : GatherProcess T)
    (future : FutureId) : GatherEnv T × Activations T :=
  if (counted process future).ready = process.futures.length then
    filled status env name (counted process future)
  else (store env name (counted process future), [.body (.serve name)])

/-- `CollectProcess::waited` -/
def collected (status : Statuses T) (env : GatherEnv T) (name : FutureId)
    (process : GatherProcess T) (future : FutureId) : GatherEnv T × Activations T :=
  match (status future).state, (status future).result with
  | .failed, .error message =>
      complete env name process (.fail ("Collect failed: " ++ message))
  | .failed, _ => abort env
  | .discarded, _ => complete env name process (.fail "Collect failed: future discarded")
  | .pending, _ => abort env
  | .ready, _ => count status env name process future

/-- `AwaitProcess::waited` -/
def awaited (status : Statuses T) (env : GatherEnv T) (name : FutureId)
    (process : GatherProcess T) (future : FutureId) : GatherEnv T × Activations T :=
  if (status future).state = .pending then abort env
  else count status env name process future

/-- `CollectProcess::waited` or `AwaitProcess::waited`. -/
def waited (status : Statuses T) (env : GatherEnv T) (name : FutureId)
    (process : GatherProcess T) (future : FutureId) : GatherEnv T × Activations T :=
  match process.gathering with
  | .collect => collected status env name process future
  | .await => awaited status env name process future

/-- Handle an event. -/
def handle (status : Statuses T) (env : GatherEnv T) (name : FutureId)
    (process : GatherProcess T) : GatherEvent → GatherEnv T × Activations T
  | .waited future => waited status env name process future
  | .abandoned => (store env name process, [.body (.terminate name none)])
  | .discarded => (store env name process, [.body (.discarding name process.futures)])
  | .terminate =>
      (store env name { process with stage := .deleted, events := [] },
        [.call name (.abandon false)])

/-- The loop of `ProcessManager::resume`. -/
def serve (status : Statuses T) (env : GatherEnv T) (name : FutureId) :
    Option (GatherEnv T × Activations T) :=
  match env.process name with
  | none => none
  | some process =>
      match dequeue process with
      | none => some (store env name { process with stage := .blocked }, [])
      | some (event, rest) => some (handle status env name { process with events := rest } event)

/-- `discarded`, after it was entered. -/
def discarding (env : GatherEnv T) (name : FutureId) :
    List FutureId → Option (GatherEnv T × Activations T)
  | [] => (env.process name).map fun process => complete env name process .discard
  | future :: rest => some (env, [.call future .discard, .body (.asked name future rest)])

/-- `internal::then` with the parent of the derived future. -/
def run (status : Statuses T) (env : GatherEnv T) (derived : FutureId) :
    Option (GatherEnv T × Activations T) :=
  let settle (completion : Completion (Value T)) :=
    (env, [.call derived completion.op, .body (.release derived completion)])
  match env.derived derived with
  | none => none
  | some (parent, continuation) =>
      match (status parent).state, (status parent).result with
      | .ready, _ =>
          if (status parent).discard then some (settle .discard)
          else
            match continuation with
            | .nothing => some (settle (.set .nothing))
            | .tuple futures =>
                match gets status futures with
                | some values => some (settle (.set (.values values)))
                | none => some (abort env)
      | .failed, .error message => some (settle (.fail message))
      | .failed, _ => some (abort env)
      | .discarded, _ => some (settle .discard)
      | .pending, _ => some (env, [.call derived (.abandon false)])

def execute (status : Statuses T) (env : GatherEnv T) (choice : GatherChoice T) :
    GatherBody T → Option (GatherEnv T × Activations T)
  | .user => user status env choice
  | .spawn name =>
      (env.process name).map fun process => (store env name { process with stage := .bottom }, [])
  | .dispatch name event => some (enqueue env name event false, [])
  | .serve name => serve status env name
  | .discarding name rest => discarding env name rest
  | .asked name future rest =>
      (env.process name).map fun process =>
        (store env name { process with asked := process.asked ++ [future] },
          [.body (.discarding name rest)])
  | .terminate name _ => some (enqueue env name .terminate true, [.body (.serve name)])
  | .run derived => run status env derived
  | .release derived _ => some (env, [.call derived (.abandon false)])
  | .abandon derived => some (env, [.call derived (.abandon false)])
  | .discard future => some (env, [.call future .discard])

def step (status : Statuses T) (env : GatherEnv T) (frame : GatherBody T)
    (choice : GatherChoice T) : Option (Outcome T) :=
  (execute status env choice frame).map fun (env, next) => outcome status env next

def invoke (future : FutureId) (_ : Argument (Value T)) : GatherCallback → GatherBody T
  | .user => .user
  | .waited process => .dispatch process (.waited future)
  | .abandoned process => .dispatch process .abandoned
  | .discarded process => .dispatch process .discarded
  | .run derived => .run derived
  | .abandon derived => .abandon derived
  | .discard future => .discard future

end Gather

/-- Processes that collect or await futures, and the code around them. -/
abbrev gathering (T : Type) : Code (Value T) where
  Callback := GatherCallback
  Body := GatherBody T
  Env := GatherEnv T
  Choice := GatherChoice T
  initial := .new
  main := .user
  invoke := Gather.invoke
  step := Gather.step

end Libprocess
