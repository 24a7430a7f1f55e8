import Libprocess.Future.Client

/-!
# process::loop

`Loop::run` calls `iterate` and `body` in turn while the futures they return are
ready.  When one is not, it registers a continuation with it, publishes the future in
`discard`, from where a discard of the loop's own future reaches it, and returns; the
continuation re-enters `run`.  With an executor, `start` and the continuations are
dispatched to it instead of being called.

`iterate`, `body` and all other code are arbitrary: they may call any function of any
future and write the flags of every future but the loop's own, whose promise is private
to the loop.
-/

namespace Libprocess

/-- `ControlFlow<R>`. -/
inductive ControlFlow (R : Type) where
  | Continue
  | Break (value : R)
  deriving DecidableEq, Repr

/-- The values of the futures around a loop: `T` of those that `iterate` returns,
`ControlFlow<R>` of those that `body` returns and `R` of the loop's own. -/
inductive LoopValue (T R : Type) where
  | next (value : T)
  | flow (flow : ControlFlow R)
  | result (value : R)
  deriving DecidableEq, Repr

/-- The two variables of `Loop::run` that hold a future: `next` is returned by
`iterate` and `flow` by `body`. -/
inductive Stage where
  | next
  | flow
  deriving DecidableEq, Repr

/-- A call of one of the two functions of the loop. -/
inductive LoopCall (T : Type) where
  | iterate
  | body (value : T)
  deriving DecidableEq, Repr

/-- The callbacks that the loop registers, and all others. -/
inductive LoopCallback where
  | other
  /-- The lambda that `Loop::start` registers. -/
  | onDiscard
  /-- One of the two lambdas `continuation`, deferred if there is an executor. -/
  | continuation (stage : Stage)
  deriving DecidableEq, Repr

/-- What is dispatched to the executor. -/
inductive LoopJob where
  | start
  | continuation (stage : Stage) (future : FutureId)
  deriving DecidableEq, Repr

/-- The activation frames of the loop and of other code. -/
inductive LoopBody where
  | other
  /-- `Loop::start` after the registration. -/
  | start
  /-- Before `run(iterate())`. -/
  | begin
  /-- `iterate` is running, called from the `while` of `run` or from outside it. -/
  | iterate (inPlace : Bool)
  /-- `run` before the block that resets `discard`. -/
  | run (future : FutureId)
  /-- The condition of the `while`. -/
  | check (future : FutureId)
  /-- `body` is running. -/
  | body
  /-- `run` with the future that `body` returned. -/
  | inspect (future : FutureId)
  /-- Before `onAny`. -/
  | register (stage : Stage) (future : FutureId)
  /-- Before `!promise.future().hasDiscard()`. -/
  | test (future : FutureId)
  /-- Before the block that assigns `discard`. -/
  | publish (future : FutureId)
  /-- Before the second `promise.future().hasDiscard()`. -/
  | recheck (future : FutureId)
  /-- A lambda `continuation` runs. -/
  | continuation (stage : Stage) (future : FutureId)
  /-- A deferred lambda `continuation` before it is dispatched. -/
  | deferred (stage : Stage) (future : FutureId)
  /-- The lambda of `start` before the block that copies `discard`. -/
  | onDiscard
  /-- The lambda of `start` before it calls its copy of `discard`. -/
  | discard (function : Option FutureId)
  deriving DecidableEq, Repr

/-- The memory of a loop, the queue of its executor and the history of its calls. -/
structure LoopEnv (T : Type) where
  /-- `start` has been called. -/
  started : Bool
  /-- The function `discard`: it discards this future or does nothing. -/
  discard : Option FutureId
  /-- The jobs dispatched to the executor. -/
  mailbox : List LoopJob
  /-- The calls of `iterate` and `body`, in order. -/
  calls : List (LoopCall T)
  /-- The futures they returned, in order. -/
  returned : List FutureId
  /-- The futures whose `discard` the loop has called, latest first. -/
  discards : List FutureId
  deriving DecidableEq, Repr

/-- What other code does next. -/
inductive LoopChoice (T R : Type) where
  | call (future : FutureId) (op : Op (LoopValue T R) Unit)
  | flags (future : FutureId) (flags : Flags)
  | start
  /-- Execute a dispatched job. -/
  | execute (index : Nat)
  | finish
  | yield (future : FutureId)

namespace Loop

variable {T R : Type} (promise : FutureId) (pid : Bool)

abbrev Outcome (T R : Type) := Effect (LoopValue T R) LoopCallback LoopBody (LoopEnv T)

section Steps

variable (status : FutureId → Status (LoopValue T R)) (env : LoopEnv T)

/-- The loop continues with frames and calls and writes no flag. -/
def continues (env : LoopEnv T)
    (next : List (Activation (LoopValue T R) LoopCallback LoopBody)) : Outcome T R :=
  { flags := fun future => (status future).toFlags, env := env, next := next }

/-- `iterate`, `body` or other code calls a function of a future or writes flags. -/
def foreign (frame : LoopBody) : LoopChoice T R → Option (Outcome T R)
  | .call future op =>
      if future = promise ∧ op.open = false then none
      else some (continues status env [.call future (op.foreign .other), .body frame])
  | .flags future flags =>
      if future = promise then none
      else some
        { flags := Function.update (fun future => (status future).toFlags) future flags
          env := env
          next := [.body frame] }
  | _ => none

/-- The frame of a dispatched job. -/
def job : LoopJob → LoopBody
  | .start => .begin
  | .continuation stage future => .continuation stage future

/-- `Promise::set`, `Promise::fail` and `Promise::discard` on the loop's promise. -/
def complete (op : Op (LoopValue T R) LoopCallback) : Outcome T R :=
  continues status env (if (status promise).associated then [] else [.call promise op])

/-- The call of `iterate`. -/
def enter (inPlace : Bool) : Outcome T R :=
  continues status { env with calls := env.calls ++ [.iterate] } [.body (.iterate inPlace)]

/-- The condition of the `while` and the call of `body`. -/
def check (future : FutureId) : Option (Outcome T R) :=
  match (status future).state, (status future).result with
  | .ready, .some (.next value) =>
      some (continues status { env with calls := env.calls ++ [.body value] } [.body .body])
  | .ready, _ => none
  | _, _ => some (continues status env [.body (.register .next future)])

/-- The switch of `run` on the future that `body` returned. -/
def inspect (future : FutureId) : Option (Outcome T R) :=
  match (status future).state, (status future).result with
  | .ready, .some (.flow .Continue) => some (enter status env true)
  | .ready, .some (.flow (.Break value)) =>
      some (complete promise status env (.set (.result value)))
  | .ready, _ => none
  | _, _ => some (continues status env [.body (.register .flow future)])

/-- The lambdas `continuation`. -/
def continuation (stage : Stage) (future : FutureId) : Option (Outcome T R) :=
  match (status future).state, stage, (status future).result with
  | .ready, .next, _ => some (continues status env [.body (.run future)])
  | .ready, .flow, .some (.flow .Continue) => some (continues status env [.body .begin])
  | .ready, .flow, .some (.flow (.Break value)) =>
      some (complete promise status env (.set (.result value)))
  | .ready, .flow, _ => none
  | .failed, _, .error message => some (complete promise status env (.fail message))
  | .failed, _, _ => none
  | .discarded, _, _ => some (complete promise status env .discarded)
  | .pending, _, _ => some (continues status env [])

/-- The call of `discard` on the future that the loop is blocked on. -/
def discards (future : FutureId) : Outcome T R :=
  continues status { env with discards := future :: env.discards } [.call future .discard]

/-- `Loop::start`. -/
def start : Option (Outcome T R) :=
  if env.started then none
  else some (continues status { env with started := true }
    [.call promise (.on .onDiscard .onDiscard), .body .start, .body .other])

def step (frame : LoopBody) (choice : LoopChoice T R) : Option (Outcome T R) :=
  match frame, choice with
  | .other, .start => start promise status env
  | .other, .execute index =>
      (env.mailbox[index]?).map fun dispatched =>
        continues status { env with mailbox := env.mailbox.eraseIdx index }
          [.body (job dispatched), .body .other]
  | .other, .finish => some (continues status env [])
  | .other, choice => foreign promise status env .other choice
  | .start, _ =>
      if pid then
        some (continues status { env with mailbox := env.mailbox ++ [.start] } [])
      else
        some (continues status env [.body .begin])
  | .begin, _ => some (enter status env false)
  | .iterate inPlace, .yield future =>
      some (continues status { env with returned := env.returned ++ [future] }
        [.body (if inPlace then .check future else .run future)])
  | .iterate inPlace, choice => foreign promise status env (.iterate inPlace) choice
  | .run future, _ => some (continues status { env with discard := none } [.body (.check future)])
  | .check future, _ => check status env future
  | .body, .yield future =>
      some (continues status { env with returned := env.returned ++ [future] }
        [.body (.inspect future)])
  | .body, choice => foreign promise status env .body choice
  | .inspect future, _ => inspect promise status env future
  | .register stage future, _ =>
      some (continues status env
        [.call future (.on .onAny (.continuation stage)), .body (.test future)])
  | .test future, _ =>
      some (continues status env
        [.body (if (status promise).discard then .recheck future else .publish future)])
  | .publish future, _ =>
      some (continues status { env with discard := some future } [.body (.recheck future)])
  | .recheck future, _ =>
      if (status promise).discard then some (discards status env future)
      else some (continues status env [])
  | .continuation stage future, _ => continuation promise status env stage future
  | .deferred stage future, _ =>
      some (continues status
        { env with mailbox := env.mailbox ++ [.continuation stage future] } [])
  | .onDiscard, _ => some (continues status env [.body (.discard env.discard)])
  | .discard function, _ =>
      match function with
      | some future => some (discards status env future)
      | none => some (continues status env [])

end Steps

/-- The frame that executes an invoked callback. -/
def invoke (future : FutureId) (_ : Argument (LoopValue T R)) : LoopCallback → LoopBody
  | .other => .other
  | .onDiscard => .onDiscard
  | .continuation stage => if pid then .deferred stage future else .continuation stage future

end Loop

/-- A loop whose promise is behind `promise`, with or without an executor. -/
abbrev looping (T R : Type) (promise : FutureId) (pid : Bool) : Code (LoopValue T R) where
  Callback := LoopCallback
  Body := LoopBody
  Env := LoopEnv T
  Choice := LoopChoice T R
  initial := ⟨false, none, [], [], [], []⟩
  main := .other
  invoke := Loop.invoke pid
  step := Loop.step promise pid

end Libprocess
