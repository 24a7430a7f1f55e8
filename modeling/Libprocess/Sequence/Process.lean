import Libprocess.Concurrency.Automaton
import Mathlib.Logic.Function.Basic

/-!
# The sequence process

`SequenceProcess` runs the callbacks that are added one after the other.  A callback has a
future `F`, which is returned to the user, and a notifier `N`, which tells the next callback
that `F` is not pending any more.

Callbacks of futures run on the thread that completes the future or requests the discard.
`hooks` are the calls that a thread has still to make, the next one first; thread zero runs
the process.  A user may discard a future and complete the future of a callback in any call,
so a thread may do so at any time.  Nothing is locked in the turn of a callback: the test whether
its future has a discard request, the call, and the association with the future that it returns
are steps of their own.
-/

namespace Libprocess.Sequence

open Concurrency

/-- What a future becomes. -/
inductive Outcome where
  | ready
  | failed
  | discarded
  deriving DecidableEq, Repr

inductive Hook where
  | discardFuture (number : Nat)
  /-- Discard the future that a callback has returned. -/
  | discardInner (number : Nat)
  | discardNotifier (number : Nat)
  | completed (number : Nat)
  | notified (number : Nat)
  /-- `callback()` in `notified` -/
  | invoke (number : Nat)
  /-- `promise->associate` in `notified` -/
  | associate (number : Nat)
  deriving DecidableEq, Repr

/-- A callback.  `discard` and `result` belong to the future `F`, `notifierDiscard` and
`notifierSet` to the notifier, `innerDiscard` and `inner` to the future that the callback has
returned, once `F` is associated with it. -/
structure Entry where
  discard : Bool
  result : Option Outcome
  notifierDiscard : Bool
  notifierSet : Bool
  invoked : Bool
  associated : Bool
  innerDiscard : Bool
  inner : Option Outcome
  deriving DecidableEq, Repr

def Entry.init : Entry := ⟨false, none, false, false, false, false, false, none⟩

/-- `invocations` are the callbacks that were invoked, and `requested` the futures that users
have discarded. -/
structure SequenceProcess where
  count : Nat
  entry : Nat → Entry
  hooks : Nat → List Hook
  finalized : Bool
  invocations : List Nat
  requested : List Nat

inductive SequenceEvent where
  | add
  | finalize
  /-- A user discards the future of a callback. -/
  | discard (thread number : Nat)
  /-- The future that a callback has returned is completed. -/
  | complete (thread number : Nat) (outcome : Outcome)
  /-- A thread makes its next call.  If that is `associate`, the future that the callback has
  returned is pending or has an outcome. -/
  | run (thread : Nat) (returned : Option Outcome)
  deriving DecidableEq, Repr

namespace SequenceProcess

def init : SequenceProcess := ⟨0, fun _ => .init, fun _ => [], false, [], []⟩

def setEntry (sequence : SequenceProcess) (number : Nat) (entry : Entry) : SequenceProcess :=
  { sequence with entry := Function.update sequence.entry number entry }

def setHooks (sequence : SequenceProcess) (thread : Nat) (hooks : List Hook) : SequenceProcess :=
  { sequence with hooks := Function.update sequence.hooks thread hooks }

/-- `last`, the notifier of the callback that was added last, is set. -/
def lastSet (sequence : SequenceProcess) : Bool :=
  match sequence.count with
  | 0 => true
  | number + 1 => (sequence.entry number).notifierSet

def add (sequence : SequenceProcess) : SequenceProcess :=
  { sequence.setEntry sequence.count .init with count := sequence.count + 1 }.setHooks 0
    (if sequence.lastSet then [.notified sequence.count] else [])

/-- `last.discard()` -/
def finalize (sequence : SequenceProcess) : SequenceProcess :=
  { sequence with finalized := true }.setHooks 0
    (match sequence.count with
    | 0 => []
    | number + 1 => [.discardNotifier number])

/-- `notified`, up to the call of the callback -/
def notified (sequence : SequenceProcess) (number : Nat) : SequenceProcess × List Hook :=
  if (sequence.entry number).discard then
    (sequence.setEntry number { sequence.entry number with result := some .discarded },
      [.completed number])
  else (sequence, [.invoke number])

def invoke (sequence : SequenceProcess) (number : Nat) : SequenceProcess × List Hook :=
  ({ sequence.setEntry number { sequence.entry number with invoked := true } with
    invocations := sequence.invocations ++ [number] }, [.associate number])

/-- `Promise::associate`.  A discard request that there is already is passed on. -/
def associate (sequence : SequenceProcess) (number : Nat) (returned : Option Outcome) :
    SequenceProcess × List Hook :=
  (sequence.setEntry number { sequence.entry number with
      associated := true
      inner := returned
      result := returned },
    (if (sequence.entry number).discard then [.discardInner number] else []) ++
      if returned.isSome then [.completed number] else [])

/-- A call, with the calls that it makes in turn. -/
def call (sequence : SequenceProcess) (returned : Option Outcome) :
    Hook → SequenceProcess × List Hook
  | .discardFuture number =>
      let entry := sequence.entry number
      if entry.result = none ∧ entry.discard = false then
        (sequence.setEntry number { entry with discard := true },
          if entry.associated then [.discardInner number] else [])
      else (sequence, [])
  | .discardInner number =>
      let entry := sequence.entry number
      if entry.inner = none then
        (sequence.setEntry number { entry with innerDiscard := true }, [])
      else (sequence, [])
  | .discardNotifier number =>
      let entry := sequence.entry number
      if entry.notifierSet = false ∧ entry.notifierDiscard = false then
        (sequence.setEntry number { entry with notifierDiscard := true },
          .discardFuture number :: match number with
            | 0 => []
            | previous + 1 => [.discardNotifier previous])
      else (sequence, [])
  | .completed number =>
      (sequence.setEntry number { sequence.entry number with notifierSet := true },
        if number + 1 < sequence.count then [.notified (number + 1)] else [])
  | .notified number => sequence.notified number
  | .invoke number => sequence.invoke number
  | .associate number => sequence.associate number returned

def step (sequence : SequenceProcess) : SequenceEvent → Option SequenceProcess
  | .add =>
      if sequence.finalized = false ∧ sequence.hooks 0 = [] then some sequence.add else none
  | .finalize =>
      if sequence.finalized = false ∧ sequence.hooks 0 = [] then some sequence.finalize else none
  | .discard thread number =>
      if number < sequence.count then
        some ({ sequence with requested := number :: sequence.requested }.setHooks thread
          (.discardFuture number :: sequence.hooks thread))
      else none
  | .complete thread number outcome =>
      let entry := sequence.entry number
      if number < sequence.count ∧ entry.associated = true ∧ entry.inner = none then
        some ((sequence.setEntry number { entry with
          inner := some outcome
          result := some outcome }).setHooks thread (.completed number :: sequence.hooks thread))
      else none
  | .run thread returned =>
      match sequence.hooks thread with
      | [] => none
      | hook :: hooks =>
          let (next, calls) := sequence.call returned hook
          some (next.setHooks thread (calls ++ hooks))

def machine : Automaton SequenceProcess SequenceEvent where
  start := (· = init)
  step := step

/-- What a step does, and when. -/
inductive Steps (sequence : SequenceProcess) : SequenceEvent → SequenceProcess → Prop
  | add : sequence.finalized = false → sequence.hooks 0 = [] → Steps sequence .add sequence.add
  | finalize : sequence.finalized = false → sequence.hooks 0 = [] →
      Steps sequence .finalize sequence.finalize
  | discard (thread number : Nat) : number < sequence.count →
      Steps sequence (.discard thread number)
        ({ sequence with requested := number :: sequence.requested }.setHooks thread
          (.discardFuture number :: sequence.hooks thread))
  | complete (thread number : Nat) (outcome : Outcome) : number < sequence.count →
      (sequence.entry number).associated = true → (sequence.entry number).inner = none →
      Steps sequence (.complete thread number outcome)
        ((sequence.setEntry number { sequence.entry number with
          inner := some outcome
          result := some outcome }).setHooks thread (.completed number :: sequence.hooks thread))
  | run (thread : Nat) (hook : Hook) (hooks : List Hook) (returned : Option Outcome) :
      sequence.hooks thread = hook :: hooks →
      Steps sequence (.run thread returned)
        ((sequence.call returned hook).1.setHooks thread
          ((sequence.call returned hook).2 ++ hooks))

theorem step_cases {sequence next : SequenceProcess} {event : SequenceEvent}
    (stepped : sequence.step event = some next) : sequence.Steps event next := by
  cases event with
  | add | finalize =>
      simp only [step] at stepped
      split at stepped <;> cases stepped
      constructor <;> simp_all
  | discard | complete =>
      simp only [step] at stepped
      split at stepped <;> cases stepped
      constructor <;> simp_all
  | run thread returned =>
      simp only [step] at stepped
      split at stepped <;> cases stepped
      exact .run thread _ _ returned ‹_›

end SequenceProcess

end Libprocess.Sequence
