import Libprocess.Sequence.Serialization
import Mathlib.Data.List.Infix

/-!
# Requests for the endpoints of a process

A process consumes its events one after the other.  An `HttpEvent` is matched with an
endpoint.  If the endpoint does not stream requests, the body is read first, and the rest is
deferred to the end of the event queue; the bodies are received completely here, so the read
is immediate.  Then the request is authenticated and authorized, and each of the two futures
is added to the sequence of the process.  A future of the sequence that becomes ready
dispatches what is to be done next to the process.  The callback that does so is registered
with `onReady`, so it is called before the next callback of the sequence is notified.

All authentications and authorizations succeed.
-/

namespace Libprocess.Endpoints

open Concurrency Sequence

/-- An endpoint.  `realm` says whether it has one. -/
structure HttpEndpoint where
  requestStreaming : Bool
  realm : Bool
  deriving DecidableEq, Repr

/-- Look for the full path, then for its parent, and so on. -/
def find (handlers : List String → Option HttpEndpoint) (name : List String) :
    Option HttpEndpoint :=
  match name with
  | [] => handlers []
  | _ => name.inits.tail.reverse.findSome? handlers

/-- What a deferred call does: go on with a request whose body is read, authorize a request
that is authenticated, or invoke the handler. -/
inductive Stage where
  | consume
  | authorize
  | handle
  deriving DecidableEq, Repr

structure Deferred where
  stage : Stage
  request : Nat
  endpoint : HttpEndpoint
  deriving DecidableEq, Repr

inductive Event where
  | http (request : Nat) (name : List String)
  | dispatch (deferred : Deferred)
  deriving DecidableEq, Repr

/-- `additions` are the callbacks that are dispatched to the sequence, and `callbacks` the
ones that wait for a future of the sequence, both given by what follows them.  `requests` are
the paths of the requests that were delivered. -/
structure ProcessBase where
  requests : List (List String)
  events : List Event
  additions : List Deferred
  callbacks : List (Nat × Deferred)
  sequence : SequenceProcess
  handled : List Nat

inductive Label where
  | deliver (name : List String)
  | consume
  | add
  /-- A thread of the sequence makes a call. -/
  | run (thread : Nat) (returned : Option Outcome)
  /-- An authentication or an authorization that the sequence waits for succeeds. -/
  | complete (thread number : Nat)
  deriving DecidableEq, Repr

/-- Whether a callback may return a future that is pending.  Without a realm there is no
authentication. -/
def Deferred.permits (deferred : Deferred) (returned : Option Outcome) : Bool :=
  returned = some .ready ||
    returned = none && (deferred.stage = .handle || deferred.endpoint.realm)

namespace ProcessBase

def init : ProcessBase := ⟨[], [], [], [], .init, []⟩

def dispatch (process : ProcessBase) (deferred : Deferred) : ProcessBase :=
  { process with events := process.events ++ [.dispatch deferred] }

/-- `httpSequence->add` -/
def addSequence (process : ProcessBase) (deferred : Deferred) : ProcessBase :=
  { process with additions := process.additions ++ [deferred] }

/-- `_consume` -/
def _consume (process : ProcessBase) (request : Nat) (endpoint : HttpEndpoint) : ProcessBase :=
  process.addSequence ⟨.authorize, request, endpoint⟩

variable (handlers : List String → Option HttpEndpoint)

/-- `consume` -/
def consume (process : ProcessBase) : Event → ProcessBase
  | .http request name =>
      match find handlers name with
      | none => process
      | some endpoint =>
          if endpoint.requestStreaming then process._consume request endpoint
          else process.dispatch ⟨.consume, request, endpoint⟩
  | .dispatch ⟨.consume, request, endpoint⟩ => process._consume request endpoint
  | .dispatch ⟨.authorize, request, endpoint⟩ =>
      process.addSequence ⟨.handle, request, endpoint⟩
  | .dispatch ⟨.handle, request, _⟩ =>
      { process with handled := process.handled ++ [request] }

/-- The sequence moves on.  If the future `number` becomes ready, what waits for it is
dispatched. -/
def advance (process : ProcessBase) (number : Nat) (next : SequenceProcess) : ProcessBase :=
  if (process.sequence.entry number).result = none ∧
      (next.entry number).result = some .ready then
    { process with
      sequence := next
      events := process.events ++ (process.callbacks.filter (·.1 = number)).map (.dispatch ·.2)
      callbacks := process.callbacks.filter (·.1 ≠ number) }
  else { process with sequence := next }

def step (process : ProcessBase) : Label → Option ProcessBase
  | .deliver name =>
      some { process with
        requests := process.requests ++ [name]
        events := process.events ++ [.http process.requests.length name] }
  | .consume =>
      match process.events with
      | [] => none
      | event :: events => some ({ process with events }.consume handlers event)
  | .add =>
      match process.additions with
      | [] => none
      | deferred :: additions =>
          (process.sequence.step .add).map fun next =>
            { process with
              additions
              callbacks := process.callbacks ++ [(process.sequence.count, deferred)]
              sequence := next }
  | .run thread returned =>
      match process.sequence.hooks thread with
      | [] => none
      | hook :: _ =>
          if ∀ callback ∈ process.callbacks, hook = .associate callback.1 →
              callback.2.permits returned then
            (process.sequence.step (.run thread returned)).map (process.advance hook.number)
          else none
  | .complete thread number =>
      (process.sequence.step (.complete thread number .ready)).map (process.advance number)

def machine : Automaton ProcessBase Label where
  start := (· = init)
  step := step handlers

end ProcessBase

end Libprocess.Endpoints
