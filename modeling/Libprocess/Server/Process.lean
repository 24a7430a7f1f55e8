import Libprocess.Sequence.Process

/-!
# The server process

`ServerProcess` runs an accept loop and serves every client that it accepts.  `stop` discards
the loop, waits for the clients, discards them after a grace period, and then waits for the
loop.

Whatever is deferred to the process is an event of its queue.  A client has a number.  It
holds its socket, so no two clients share a descriptor, and the table of clients may be keyed
by number.
-/

namespace Libprocess.Server

open Concurrency
open Sequence (Outcome)

/-- `AwaitProcess`.  `waiting` are the futures whose call of `waited` is to come. -/
structure AwaitProcess (Key : Type) where
  futures : List Key
  waiting : List Key
  ready : Nat
  deriving DecidableEq, Repr

namespace AwaitProcess

variable {Key : Type} [DecidableEq Key]

def create (futures : List Key) : AwaitProcess Key := ⟨futures, futures, 0⟩

def waited (await : AwaitProcess Key) (future : Key) : AwaitProcess Key :=
  { await with
    waiting := await.waiting.erase future
    ready := await.ready + 1 }

/-- The promise is set. -/
def isSet (await : AwaitProcess Key) : Bool := await.ready = await.futures.length

end AwaitProcess

/-- `StateMachine`, with the futures that wait for a state. -/
structure StateMachine (State Waiter : Type) where
  state : State
  promises : State → List Waiter

namespace StateMachine

variable {State Waiter : Type} [DecidableEq State]

/-- `transition`, with the futures that are notified. -/
def transition (machine : StateMachine State Waiter) (source target : State) :
    Option (StateMachine State Waiter × List Waiter) :=
  if machine.state = source then
    some (⟨target, Function.update machine.promises target []⟩, machine.promises target)
  else none

def await (machine : StateMachine State Waiter) (state : State) (waiter : Waiter) :
    StateMachine State Waiter :=
  { machine with
    promises := Function.update machine.promises state (machine.promises state ++ [waiter]) }

end StateMachine

inductive State where
  | initialized
  | running
  | stopping
  | stopped
  deriving DecidableEq, Repr

/-- The accept loop: what it waits for, and what its future becomes. -/
inductive Accepting where
  | unstarted
  | starting
  | accept
  | dispatched (outcome : Outcome)
  | abandoned
  | completed (outcome : Outcome)
  deriving DecidableEq, Repr

/-- The accept loop has completed. -/
def Accepting.isCompleted : Accepting → Bool
  | .completed _ => true
  | _ => false

/-- The call of `run` recovers from the accept loop. -/
def Accepting.isOver (accepting : Accepting) : Bool :=
  accepting.isCompleted || accepting = .abandoned

inductive Event where
  | run (call : Nat)
  | stop (call : Nat)
  | start
  /-- The loop goes on with the outcome of `accept`. -/
  | accepted (outcome : Outcome)
  | erase (client : Nat)
  /-- The grace period has expired. -/
  | expired
  /-- The clients are not served any more. -/
  | clear
  /-- The accept loop has completed. -/
  | finish
  /-- The call of `run` continues after the accept loop is ready. -/
  | stopped
  | recover
  deriving DecidableEq, Repr

/-- What `stop` waits for. -/
inductive Stopping where
  | idle
  | clients (await : AwaitProcess Nat)
  | expired
  | discarded (await : AwaitProcess Nat)
  | clear
  | accepting (await : AwaitProcess Unit)
  | finish
  | finished
  deriving DecidableEq, Repr

/-- Who has called `stop`. -/
inductive Stopper where
  | call (call : Nat)
  | recover
  deriving DecidableEq, Repr

/-- `accepted` is the number of clients so far.  The calls of `run` and `stop` are numbered;
`runner` is the call that runs the server, `discarded` are the calls whose futures their
callers have discarded, and `results` is what became of the futures.  `runDiscard` says that
the future of `runner` was discarded while it recovered. -/
structure ServerProcess where
  state : StateMachine State Nat
  accepting : Accepting
  acceptingDiscard : Bool
  clients : List Nat
  accepted : Nat
  serving : Nat → Option Outcome
  servingDiscard : Nat → Bool
  stopping : Stopping
  stopper : Option Stopper
  runner : Option Nat
  calls : Nat
  discarded : List Nat
  runDiscard : Bool
  results : Nat → Option Outcome
  events : List Event

inductive Label where
  | run
  | stop
  /-- A caller discards the future of a call. -/
  | discard (call : Nat)
  /-- The future of `accept` is completed. -/
  | accept (outcome : Outcome)
  | abandon
  /-- The future of a client is completed. -/
  | serve (client : Nat) (outcome : Outcome)
  /-- The process that waits for the clients hears of one. -/
  | waited (client : Nat)
  /-- The grace period expires. -/
  | expire
  /-- The process that waits for the accept loop hears of it. -/
  | awaited
  /-- The next event is consumed.  If that is one of the accept loop, `sockets` more calls of
  `accept` are ready at once. -/
  | consume (sockets : Nat)
  deriving DecidableEq, Repr

namespace ServerProcess

def init : ServerProcess :=
  ⟨⟨.initialized, fun _ => []⟩, .unstarted, false, [], 0, fun _ => none, fun _ => false, .idle,
    none, none, 0, [], false, fun _ => none, []⟩

def dispatch (server : ServerProcess) (event : Event) : ServerProcess :=
  { server with events := server.events ++ [event] }

def complete (server : ServerProcess) (call : Nat) (outcome : Outcome) : ServerProcess :=
  { server with results := Function.update server.results call (some outcome) }

/-- The futures that waited for a state are ready. -/
def notify (server : ServerProcess) (calls : List Nat) : ServerProcess :=
  { server with
    results := fun call => if call ∈ calls then some .ready else server.results call }

/-- The future of the accept loop is completed. -/
def completeAccepting (server : ServerProcess) (outcome : Outcome) : ServerProcess :=
  { server with accepting := .completed outcome }.dispatch
    (if outcome = Outcome.ready ∧ server.acceptingDiscard = false then .stopped else .recover)

/-- The body of the accept loop, for the sockets that are ready, and the next `accept`. -/
def loop (server : ServerProcess) (sockets : Nat) : ServerProcess :=
  if sockets = 0 then { server with accepting := .accept }
  else if server.state.state = .stopping then server.completeAccepting .ready
  else { server with
    accepting := .accept
    clients := server.clients ++ List.range' server.accepted sockets
    accepted := server.accepted + sockets }

/-- Wait for the clients, then go on with `clear`. -/
def awaitClients (server : ServerProcess) (waiting : AwaitProcess Nat → Stopping) :
    ServerProcess :=
  if server.clients = [] then { server with stopping := .clear }.dispatch .clear
  else { server with stopping := waiting (.create server.clients) }

def stop (server : ServerProcess) (stopper : Stopper) : Option ServerProcess :=
  (server.state.transition .running .stopping).map fun (state, waiters) =>
    ({ server with
      state
      stopper := some stopper
      acceptingDiscard := true }.notify waiters).awaitClients .clients

/-- The future of `stop` is completed, and with it the one of `run` if that has called
`stop`. -/
def completeStop (server : ServerProcess) (outcome : Outcome) : ServerProcess :=
  match server.stopper, server.runner with
  | some (.call call), _ => server.complete call outcome
  | some .recover, some call =>
      server.complete call (if server.runDiscard then .discarded else .failed)
  | _, _ => server

/-- `when<State::STOPPED>` -/
def whenStopped (server : ServerProcess) : ServerProcess :=
  match server.runner with
  | none => server
  | some call =>
      if server.state.state = .stopped then server.complete call .ready
      else { server with state := server.state.await .stopped call }

def consume (server : ServerProcess) (sockets : Nat) : Event → ServerProcess
  | .run call =>
      match server.state.transition .initialized .running with
      | none => server.complete call .failed
      | some (state, waiters) =>
          ({ server with
            state
            runner := some call
            accepting := .starting
            acceptingDiscard := server.discarded.contains call }.notify waiters).dispatch .start
  | .stop call => (server.stop (.call call)).getD (server.complete call .failed)
  | .start => server.loop sockets
  | .accepted .ready => server.loop (sockets + 1)
  | .accepted outcome => server.completeAccepting outcome
  | .erase client => { server with clients := server.clients.erase client }
  | .expired =>
      { server with
        servingDiscard := fun client =>
          server.servingDiscard client || server.clients.contains client }.awaitClients .discarded
  | .clear =>
      { server with
        clients := []
        stopping := .accepting (.create [()]) }
  | .finish =>
      match server.state.transition .stopping .stopped with
      | none => server.completeStop .failed
      | some (state, waiters) =>
          ({ server with
            state
            stopping := .finished }.notify waiters).completeStop .ready
  | .stopped => server.whenStopped
  | .recover =>
      if server.state.state = .running then (server.stop .recover).getD server
      else server.whenStopped

/-- The process that waits for the clients hears of one. -/
def waited (server : ServerProcess) (client : Nat) (await : AwaitProcess Nat)
    (waiting : AwaitProcess Nat → Stopping) : Option ServerProcess :=
  if client ∈ await.waiting ∧ server.serving client ≠ none then
    if (await.waited client).isSet then some ({ server with stopping := .clear }.dispatch .clear)
    else some { server with stopping := waiting (await.waited client) }
  else none

def step (server : ServerProcess) : Label → Option ServerProcess
  | .run => some ({ server with calls := server.calls + 1 }.dispatch (.run server.calls))
  | .stop => some ({ server with calls := server.calls + 1 }.dispatch (.stop server.calls))
  | .discard call =>
      if call < server.calls then
        some { server with
          discarded := call :: server.discarded
          -- The future of `stop` is undiscardable.
          acceptingDiscard := server.acceptingDiscard || server.runner = some call
          -- `recover` has reset the discard, but a future is discarded once only.
          runDiscard := server.runDiscard || server.runner = some call &&
            server.accepting.isOver && !server.discarded.contains call }
      else none
  | .accept outcome =>
      if server.accepting = .accept ∧ (outcome = .discarded → server.acceptingDiscard = true) then
        some ({ server with accepting := .dispatched outcome }.dispatch (.accepted outcome))
      else none
  | .abandon =>
      if server.accepting = .accept then
        some ({ server with accepting := .abandoned }.dispatch .recover)
      else none
  | .serve client outcome =>
      if client < server.accepted ∧ server.serving client = none then
        some ({ server with
          serving := Function.update server.serving client (some outcome) }.dispatch
            (.erase client))
      else none
  | .waited client =>
      match server.stopping with
      | .clients await => server.waited client await .clients
      | .discarded await => server.waited client await .discarded
      | _ => none
  | .expire =>
      match server.stopping with
      | .clients _ => some ({ server with stopping := .expired }.dispatch .expired)
      | _ => none
  | .awaited =>
      match server.stopping with
      | .accepting await =>
          if () ∈ await.waiting ∧ server.accepting.isCompleted then
            if (await.waited ()).isSet then
              some ({ server with stopping := .finish }.dispatch .finish)
            else some { server with stopping := .accepting (await.waited ()) }
          else none
      | _ => none
  | .consume sockets =>
      match server.events with
      | [] => none
      | event :: events => some ({ server with events }.consume sockets event)

def machine : Automaton ServerProcess Label where
  start := (· = init)
  step := step

end ServerProcess

end Libprocess.Server
