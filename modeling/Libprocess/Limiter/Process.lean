import Mathlib.Algebra.Order.Field.Rat
import Mathlib.Data.List.Pairwise
import Mathlib.Logic.Function.Basic
import Mathlib.Tactic.Linarith

/-!
# The rate limiter

A permit is granted at once, if the last one was granted long enough ago.  Other acquisitions wait
in a queue, for which a delayed `_acquire` is outstanding.  An acquisition that is discarded stays
in the queue until its turn.

Times are exact numbers of seconds, and the clock stands still while a handler runs.
-/

namespace Libprocess.Limiter

inductive FutureState where
  | pending
  | ready
  | discarded
  deriving DecidableEq, Repr

/-- `RateLimiterProcess`; a promise is the number of its acquisition.  The constructors check that
the rate, which may be given as a number of permits for a duration, is positive. -/
structure RateLimiterProcess where
  permitsPerSecond : { rate : ℚ // 0 < rate }
  timeout : ℚ
  promises : List Nat

/-- `Seconds(1) / permitsPerSecond` -/
def RateLimiterProcess.interval (process : RateLimiterProcess) : ℚ :=
  1 / process.permitsPerSecond.val

/-- `timeout.remaining()` -/
def RateLimiterProcess.remaining (process : RateLimiterProcess) (now : ℚ) : ℚ :=
  if 0 < process.timeout - now then process.timeout - now else 0

structure Grant where
  id : Nat
  time : ℚ
  deriving DecidableEq, Repr

/-- The process with its futures, its messages and its delays. -/
structure System where
  process : RateLimiterProcess
  clock : ℚ
  futures : Nat → FutureState
  /-- The futures of which a discard was requested. -/
  requested : Nat → Bool
  /-- How many times `acquire` was called, and how many of the calls the process has handled. -/
  calls : Nat
  handled : Nat
  /-- The futures that `discard` was dispatched with. -/
  discards : List Nat
  /-- When the outstanding delays of `_acquire` are over. -/
  delays : List ℚ
  /-- The permits, the last one at the end. -/
  grants : List Grant
  /-- A `CHECK` failed. -/
  aborted : Bool

/-- What happens: a client calls `acquire` or discards a future, the process handles a message, and
the clock advances. -/
inductive Action where
  | call
  | request (id : Nat)
  | acquire
  | discard (place : Nat)
  | fire (place : Nat)
  | advance (time : ℚ)

namespace System

/-- The process is spawned at a time. -/
def init (permitsPerSecond : { rate : ℚ // 0 < rate }) (start : ℚ) : System where
  process := ⟨permitsPerSecond, start, []⟩
  clock := start
  futures _ := .pending
  requested _ := false
  calls := 0
  handled := 0
  discards := []
  delays := []
  grants := []
  aborted := false

/-- `promise->set(Nothing())` and `timeout = Seconds(1) / permitsPerSecond` -/
def grant (system : System) (id : Nat) : System :=
  { system with
    futures := Function.update system.futures id .ready
    grants := system.grants ++ [⟨id, system.clock⟩]
    process := { system.process with timeout := system.clock + system.process.interval } }

/-- `promises.push_back(promise)`, with `onDiscard`, which dispatches at once if the discard was
requested before. -/
def push (system : System) (id : Nat) : System :=
  { system with
    process := { system.process with promises := system.process.promises ++ [id] }
    discards := if system.requested id then system.discards ++ [id] else system.discards }

/-- `delay(timeout.remaining(), self(), &Self::_acquire)` -/
def delay (system : System) : System :=
  { system with
    delays := system.delays ++ [system.clock + system.process.remaining system.clock] }

/-- `acquire`, of the first call that is not handled. -/
def acquire (system : System) : System :=
  let id := system.handled
  let system := { system with handled := id + 1 }
  if system.process.promises ≠ [] then system.push id
  else if 0 < system.process.remaining system.clock then (system.push id).delay
  else system.grant id

/-- The loop of `_acquire`: the first promise that is not discarded, and the promises behind it. -/
def next (futures : Nat → FutureState) : List Nat → Option Nat × List Nat
  | [] => (none, [])
  | promise :: rest =>
      if futures promise ≠ .discarded then (some promise, rest) else next futures rest

def _acquire (system : System) : System :=
  if system.process.promises = [] then { system with aborted := true }
  else
    let found := next system.futures system.process.promises
    let system := { system with process := { system.process with promises := found.2 } }
    let system : System :=
      match found.1 with
      | some id => system.grant id
      | none => system
    if system.process.promises ≠ [] then system.delay else system

/-- `discard` -/
def discard (system : System) (id : Nat) : System :=
  if id ∈ system.process.promises ∧ system.futures id = .pending then
    { system with futures := Function.update system.futures id .discarded }
  else system

/-- A client discards a future: the first time `discard` is dispatched, unless the promise is still
to be made. -/
def request (system : System) (id : Nat) : System :=
  if id < system.calls ∧ system.futures id = .pending ∧ system.requested id = false then
    { system with
      requested := Function.update system.requested id true
      discards := if id < system.handled then system.discards ++ [id] else system.discards }
  else system

def step (system : System) (action : Action) : System :=
  if system.aborted then system
  else
    match action with
    | .call => { system with calls := system.calls + 1 }
    | .request id => system.request id
    | .acquire => if system.handled < system.calls then system.acquire else system
    | .discard place =>
        match system.discards[place]? with
        | some id => { system with discards := system.discards.eraseIdx place }.discard id
        | none => system
    | .fire place =>
        match system.delays[place]? with
        | some due =>
            -- A delay never fires early.
            if due ≤ system.clock then
              { system with delays := system.delays.eraseIdx place }._acquire
            else system
        | none => system
    | .advance time => { system with clock := max system.clock time }

def run (system : System) (actions : List Action) : System := actions.foldl step system

end System

end Libprocess.Limiter
