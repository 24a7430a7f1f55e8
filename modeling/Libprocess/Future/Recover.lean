import Libprocess.Future.Client

/-!
# Future::recover

`Future::recover` registers one callable twice on its source: in an `onAny`
callback, for a source that fails or is discarded, and in an `onAbandoned`
callback.  Both end in `Promise::set` of the promise behind the recovered future,
which stores a value or associates the promise with a future.

The code around it is arbitrary: it may call any function of any future, complete
and abandon the source, register callbacks of its own and write the flags of every
future but the recovered one, whose promise is private to `recover`.
-/

namespace Libprocess

variable {α : Type}

/-- What the callable returns: its type `R` is `T` or `Future<T>`. -/
inductive Recovery (α : Type) where
  | value (value : α)
  | future (future : FutureId)
  deriving DecidableEq, Repr

/-- The callbacks that `recover` and `associate` register, and all others. -/
inductive RecoverCallback where
  | other
  /-- The two lambdas of `Future::recover`. -/
  | onAny
  | onAbandoned
  /-- `lambda::bind(&internal::discard<T>, WeakFuture<T>(future))` -/
  | discard (future : FutureId)
  /-- `Future::set`, `Future::fail`, `internal::discarded` and `Future::abandon`
  bound to the recovered future by `Promise::associate`. -/
  | set
  | fail
  | discarded
  | abandon
  deriving DecidableEq, Repr

/-- The activation frames of `recover`, of `Promise::set`, and of other code. -/
inductive RecoverBody (α : Type) where
  | other
  /-- The `onAny` lambda before it looks at its future. -/
  | onAny
  /-- Before the block that resets `discard`. -/
  | reset
  /-- Before the callable is invoked. -/
  | call
  /-- The callable is running. -/
  | callable
  /-- `Promise::set` of a value. -/
  | set (value : α)
  /-- `Promise::associate`. -/
  | associate (future : FutureId)
  /-- A bound function with its argument. -/
  | bound (callback : RecoverCallback) (argument : Argument α)
  deriving DecidableEq, Repr

/-- The history of a `recover` and what its promise is associated with. -/
structure RecoverEnv (α : Type) where
  /-- `recover` has been called. -/
  called : Bool
  /-- How often the callable has been invoked. -/
  calls : Nat
  /-- What its invocations returned, latest first. -/
  returned : List (Recovery α)
  target : Option FutureId

/-- What other code does next. -/
inductive RecoverChoice (α : Type) where
  | call (future : FutureId) (op : Op α Unit)
  | flags (future : FutureId) (flags : Flags)
  | recover
  | finish
  | yield (recovery : Recovery α)

namespace Recover

variable (source recovered : FutureId)

abbrev Outcome (α : Type) := Effect α RecoverCallback (RecoverBody α) (RecoverEnv α)

/-- The callable or other code calls a function of a future or writes flags. -/
def foreign (status : FutureId → Status α) (env : RecoverEnv α) (frame : RecoverBody α) :
    RecoverChoice α → Option (Outcome α)
  | .call future op =>
      if future = recovered ∧ op.open = false then none
      else some
        { flags := fun future => (status future).toFlags
          env := env
          next := [.call future (op.foreign .other), .body frame] }
  | .flags future flags =>
      if future = recovered then none
      else some
        { flags := Function.update (fun future => (status future).toFlags) future flags
          env := env
          next := [.body frame] }
  | _ => none

/-- `Future::recover`. -/
def recover (status : FutureId → Status α) (env : RecoverEnv α) : Option (Outcome α) :=
  if env.called then none
  else some
    { flags := fun future => (status future).toFlags
      env := { env with called := true }
      next :=
        [.call source (.on .onAny .onAny),
          .call source (.on .onAbandoned .onAbandoned),
          .call recovered (.on .onDiscard (.discard source)),
          .body .other] }

/-- `Promise::associate` on the promise of `recover`. -/
def associate (status : FutureId → Status α) (env : RecoverEnv α) (future : FutureId) :
    Outcome α :=
  if (status recovered).state = .pending ∧ !(status recovered).associated then
    { flags := Function.update (fun future => (status future).toFlags) recovered
        { (status recovered).toFlags with associated := true }
      env := { env with target := some future }
      next :=
        [.call recovered (.on .onDiscard (.discard future)),
          .call future (.on .onReady .set),
          .call future (.on .onFailed .fail),
          .call future (.on .onDiscarded .discarded),
          .call future (.on .onAbandoned .abandon)] }
  else
    { flags := fun future => (status future).toFlags
      env := env
      next := [] }

/-- The call a bound function makes. -/
def bound : RecoverCallback → Argument α → Option (FutureId × Op α RecoverCallback)
  | .set, .value value => some (recovered, .set value)
  | .fail, .message message => some (recovered, .fail message)
  | .discarded, .nothing => some (recovered, .discarded)
  | .abandon, .nothing => some (recovered, .abandon true)
  | .discard future, .nothing => some (future, .discard)
  | _, _ => none

/-- A bound function runs.  `internal::discard` does nothing if the future behind its
weak reference is gone. -/
def forward (status : FutureId → Status α) (env : RecoverEnv α) (callback : RecoverCallback)
    (argument : Argument α) (choice : RecoverChoice α) : Option (Outcome α) :=
  match callback, choice with
  | .discard _, .finish => some ⟨fun future => (status future).toFlags, env, []⟩
  | callback, _ =>
      (bound recovered callback argument).map fun (future, op) =>
        ⟨fun future => (status future).toFlags, env, [.call future op]⟩

/-- `Promise::set` with what the callable returned. -/
def resolve : Recovery α → RecoverBody α
  | .value value => .set value
  | .future future => .associate future

def step (status : FutureId → Status α) (env : RecoverEnv α) (frame : RecoverBody α)
    (choice : RecoverChoice α) : Option (Outcome α) :=
  let flags : FutureId → Flags := fun future => (status future).toFlags
  match frame, choice with
  | .other, .recover => recover source recovered status env
  | .other, .finish => some ⟨flags, env, []⟩
  | .other, choice => foreign recovered status env .other choice
  | .onAny, _ =>
      if (status source).state = .discarded ∨ (status source).state = .failed then
        some ⟨flags, env, [.body .reset]⟩
      else
        some ⟨flags, env, [.body (.associate source)]⟩
  | .reset, _ =>
      some
        { flags := Function.update flags recovered { flags recovered with discard := false }
          env := env
          next := [.body .call] }
  | .call, _ => some ⟨flags, { env with calls := env.calls + 1 }, [.body .callable]⟩
  | .callable, .yield recovery =>
      some ⟨flags, { env with returned := recovery :: env.returned }, [.body (resolve recovery)]⟩
  | .callable, choice => foreign recovered status env .callable choice
  | .set value, _ =>
      some ⟨flags, env,
        if (status recovered).associated then [] else [.call recovered (.set value)]⟩
  | .associate future, _ => some (associate recovered status env future)
  | .bound callback argument, choice => forward recovered status env callback argument choice

/-- The frame that executes an invoked callback. -/
def invoke (_ : FutureId) (argument : Argument α) : RecoverCallback → RecoverBody α
  | .other => .other
  | .onAny => .onAny
  | .onAbandoned => .reset
  | callback => .bound callback argument

end Recover

/-- `Future::recover` on `source`, whose promise is behind `recovered`. -/
abbrev recovery (α : Type) (source recovered : FutureId) : Code α where
  Callback := RecoverCallback
  Body := RecoverBody α
  Env := RecoverEnv α
  Choice := RecoverChoice α
  initial := ⟨false, 0, [], none⟩
  main := .other
  invoke := Recover.invoke
  step := Recover.step source recovered

end Libprocess
