import Libprocess.Future.Recover

/-!
# Deriving and associating futures

Promises, the functions `then`, `repair` and `after`, which derive a future from another one, and
`Promise::associate`, which copies one future to another.  The code around them is arbitrary: it
owns promises and completes, associates or destroys them, discards futures, registers callbacks,
derives futures, and lets timers expire.

A promise is owned by the code around or, for a derived future, by the callback that was
registered on the parent.  Accessing a promise that was destroyed has no successor.  The shared
state of a future is freed once nothing refers to it: weak references to it are then empty, and
the promises inside the callbacks that it still holds are destroyed.
-/

namespace Libprocess

variable {α : Type}

/-- The functions of `Promise` that complete its future. -/
inductive Completion (α : Type) where
  | set (value : α)
  | fail (message : String)
  | discard
  deriving DecidableEq, Repr

/-- The function of the future that is called. -/
def Completion.op {Callback : Type} : Completion α → Op α Callback
  | .set value => .set value
  | .fail message => .fail message
  | .discard => .discarded

/-- The functions that derive a future.  `thenValue` is `then` with a callable that returns a
value, `thenf` with one that returns a future. -/
inductive Combinator where
  | thenValue
  | thenf
  | repair
  | after
  deriving DecidableEq, Repr

/-- The callbacks that deriving and associating register, and all others. -/
inductive GraphCallback where
  | other
  /-- `internal::then`, `thenf`, `repair` or `after` with the promise of the derived future. -/
  | run (derived : FutureId)
  /-- The lambda that abandons the derived future. -/
  | abandoned (derived : FutureId)
  /-- `lambda::bind(&internal::discard<T>, WeakFuture<T>(future))` -/
  | discard (future : FutureId)
  /-- `Future::set`, `Future::fail`, `internal::discarded` and `Future::abandon` bound to a future
  by `Promise::associate`. -/
  | set (future : FutureId)
  | fail (future : FutureId)
  | discarded (future : FutureId)
  | abandon (future : FutureId)
  deriving DecidableEq, Repr

/-- The activation frames of promises and combinators, and of other code. -/
inductive GraphBody (α : Type) where
  | other
  /-- The `onAny` callback of a derived future before it looks at the parent. -/
  | run (derived : FutureId)
  /-- `internal::expired` -/
  | expired (derived : FutureId)
  /-- The callable given to a combinator is running. -/
  | callable (derived : FutureId)
  /-- `Promise::set`, `Promise::fail` or `Promise::discard` before it reads `associated`. -/
  | settle (future : FutureId) (completion : Completion α)
  /-- The same function while it waits for the future. -/
  | promised (future : FutureId) (completion : Completion α)
  /-- `Promise::associate`. -/
  | associate (future target : FutureId)
  /-- A bound function with its argument. -/
  | bound (callback : GraphCallback) (argument : Argument α)
  /-- A bound function while it waits for the future. -/
  | forwarded (future : FutureId) (completion : Completion α)
  deriving DecidableEq, Repr

/-- The promises, what the futures were made from, and the references to them. -/
structure GraphEnv where
  /-- A promise has been constructed for the future. -/
  made : FutureId → Bool
  /-- The code that owned the promise has destroyed it. -/
  destroyed : FutureId → Bool
  parent : FutureId → Option (Combinator × FutureId)
  /-- What the promise is associated with. -/
  target : FutureId → Option FutureId
  /-- The callable has been invoked. -/
  called : FutureId → Bool
  /-- The latch of `after` has been triggered. -/
  latch : FutureId → Bool
  /-- The timer of `after` can still expire. -/
  timer : FutureId → Bool
  /-- The shared state has been freed. -/
  gone : FutureId → Bool

namespace GraphEnv

def new : GraphEnv where
  made _ := false
  destroyed _ := false
  parent _ := none
  target _ := none
  called _ := false
  latch _ := false
  timer _ := false
  gone _ := false

/-- The code around the combinators has the promise. -/
def owns (env : GraphEnv) (future : FutureId) : Bool :=
  env.made future ∧ env.parent future = none ∧ !env.destroyed future

/-- Nothing that could still complete the future refers to it. -/
def unowned (env : GraphEnv) (future : FutureId) : Bool :=
  match env.target future, env.parent future with
  | some target, _ => env.gone target
  | none, some (_, parent) => env.gone parent ∧ !env.timer future
  | none, none => env.destroyed future ∨ !env.made future

end GraphEnv

/-- The calls that need only a reference to the future. -/
def Op.shared {Callback : Type} : Op α Callback → Bool
  | .discard | .on _ _ => true
  | .set _ | .fail _ | .discarded | .abandon _ => false

/-- What other code does next. -/
inductive GraphChoice (α : Type) where
  | call (future : FutureId) (op : Op α Unit)
  /-- Construct a promise. -/
  | promise (future : FutureId)
  | settle (future : FutureId) (completion : Completion α)
  | associate (future target : FutureId)
  /-- `Promise::~Promise` -/
  | destroy (future : FutureId)
  | derive (combinator : Combinator) (parent derived : FutureId)
  /-- The timer of `after` expires. -/
  | expire (derived : FutureId)
  /-- The shared state is freed. -/
  | free (future : FutureId)
  /-- A callback that was freed with its future destroys the promise it has. -/
  | orphan (derived : FutureId)
  | finish
  | yield (recovery : Recovery α)

namespace Graph

abbrev Outcome (α : Type) := Effect α GraphCallback (GraphBody α) GraphEnv

/-- A step that writes no flags. -/
def outcome (status : FutureId → Status α) (env : GraphEnv)
    (next : List (Activation α GraphCallback (GraphBody α))) : Outcome α :=
  ⟨fun future => (status future).toFlags, env, next⟩

/-- `Promise::~Promise` of a promise that a callback owns, when the callback returns. -/
def release (env : GraphEnv) (future : FutureId) : List (Activation α GraphCallback (GraphBody α)) :=
  if (env.parent future).isSome then [.call future (.abandon false)] else []

/-- `Future::then`, `Future::repair` and `Future::after`. -/
def derive (status : FutureId → Status α) (env : GraphEnv) (frame : GraphBody α)
    (combinator : Combinator) (parent derived : FutureId) : Option (Outcome α) :=
  if env.made derived ∨ env.gone derived ∨ (status derived).abandoned ∨ env.gone parent ∨
      derived = parent then none
  else some <| outcome status
    { env with
      made := Function.update env.made derived true
      parent := Function.update env.parent derived (some (combinator, parent))
      timer := Function.update env.timer derived (combinator = .after) }
    [.call parent (.on .onAny (.run derived)),
      .call parent (.on .onAbandoned (.abandoned derived)),
      .call derived (.on .onDiscard (.discard parent)),
      .body frame]

/-- The shared state may be freed: the future is completed, or it is abandoned and nothing could
complete it. -/
def freeable (status : FutureId → Status α) (env : GraphEnv) (future : FutureId) : Bool :=
  (status future).state ≠ .pending ∨ (status future).abandoned ∧ env.unowned future

/-- Other code, or a callable that runs. -/
def foreign (status : FutureId → Status α) (env : GraphEnv) (frame : GraphBody α) :
    GraphChoice α → Option (Outcome α)
  | .call future op =>
      if op.shared ∧ !env.gone future then
        some (outcome status env [.call future (op.foreign .other), .body frame])
      else none
  | .promise future =>
      if env.made future ∨ env.gone future ∨ (status future).abandoned then none
      else some (outcome status { env with made := Function.update env.made future true }
        [.body frame])
  | .settle future completion =>
      if env.owns future then
        some (outcome status env [.body (.settle future completion), .body frame])
      else none
  | .associate future target =>
      if env.owns future ∧ !env.gone target then
        some (outcome status env [.body (.associate future target), .body frame])
      else none
  | .destroy future =>
      if env.owns future then
        some (outcome status { env with destroyed := Function.update env.destroyed future true }
          [.call future (.abandon false), .body frame])
      else none
  | .derive combinator parent derived => derive status env frame combinator parent derived
  | .expire derived =>
      if env.timer derived then
        some (outcome status { env with timer := Function.update env.timer derived false }
          [.body (.expired derived), .body frame])
      else none
  | .free future =>
      if freeable status env future then
        some (outcome status { env with gone := Function.update env.gone future true }
          [.body frame])
      else none
  | .orphan derived =>
      match env.parent derived with
      | some (combinator, parent) =>
          if combinator ≠ .after ∧ env.gone parent ∧ (status parent).state = .pending then
            some (outcome status env [.call derived (.abandon false), .body frame])
          else none
      | none => none
  | .finish | .yield _ => none

/-- Invoke the callable. -/
def invokeCallable (status : FutureId → Status α) (env : GraphEnv) (derived : FutureId) : Outcome α :=
  outcome status { env with called := Function.update env.called derived true }
    [.body (.callable derived)]

/-- `internal::then`, `thenf`, `repair` and `after`.  A `CHECK` that fails has no successor. -/
def run (status : FutureId → Status α) (env : GraphEnv) (derived : FutureId) :
    Option (Outcome α) :=
  match env.parent derived with
  | none => none
  | some (.thenValue, parent) | some (.thenf, parent) =>
      match (status parent).state, (status parent).result with
      | .ready, _ =>
          if (status parent).discard then
            some (outcome status env [.body (.settle derived .discard)])
          else
            some (invokeCallable status env derived)
      | .failed, .error message =>
          some (outcome status env [.body (.settle derived (.fail message))])
      | .failed, _ => none
      | .discarded, _ => some (outcome status env [.body (.settle derived .discard)])
      | .pending, _ => some (outcome status env (release env derived))
  | some (.repair, parent) =>
      match (status parent).state with
      | .pending => none
      | .failed => some (invokeCallable status env derived)
      | .ready => some (outcome status env [.body (.associate derived parent)])
      | .discarded => some (outcome status env [.body (.associate derived parent)])
  | some (.after, parent) =>
      if (status parent).state = .pending then none
      else if env.latch derived then some (outcome status env [])
      else some <| outcome status
        { env with
          latch := Function.update env.latch derived true
          timer := Function.update env.timer derived false }
        [.body (.associate derived parent)]

/-- `internal::expired` -/
def expired (status : FutureId → Status α) (env : GraphEnv) (derived : FutureId) : Outcome α :=
  if env.latch derived then outcome status env []
  else invokeCallable status { env with latch := Function.update env.latch derived true } derived

/-- The callable returns. -/
def yield (status : FutureId → Status α) (env : GraphEnv) (derived : FutureId) :
    Recovery α → Option (Outcome α)
  | .value value =>
      match env.parent derived with
      | some (.thenValue, _) =>
          some (outcome status env [.body (.settle derived (.set value))])
      | _ => none
  | .future future =>
      match env.parent derived with
      | some (.thenf, _) | some (.repair, _) | some (.after, _) =>
          if env.gone future then none
          else some (outcome status env [.body (.associate derived future)])
      | _ => none

/-- `Promise::set`, `Promise::fail` and `Promise::discard` read `associated`. -/
def settle (status : FutureId → Status α) (env : GraphEnv) (future : FutureId)
    (completion : Completion α) : Option (Outcome α) :=
  if env.destroyed future then none
  else if (status future).associated then some (outcome status env (release env future))
  else some (outcome status env [.call future completion.op, .body (.promised future completion)])

/-- `Promise::associate` -/
def associate (status : FutureId → Status α) (env : GraphEnv) (future target : FutureId) :
    Option (Outcome α) :=
  if env.destroyed future then none
  else if (status future).state = .pending ∧ !(status future).associated then
    some
      { flags := Function.update (fun future => (status future).toFlags) future
          { (status future).toFlags with associated := true }
        env := { env with target := Function.update env.target future (some target) }
        next :=
          [.call future (.on .onDiscard (.discard target)),
            .call target (.on .onReady (.set future)),
            .call target (.on .onFailed (.fail future)),
            .call target (.on .onDiscarded (.discarded future)),
            .call target (.on .onAbandoned (.abandon future))] ++ release env future }
  else some (outcome status env (release env future))

/-- What a bound function does.  `internal::discard` does nothing if its weak reference is
empty. -/
def bound (env : GraphEnv) :
    GraphCallback → Argument α → Option (List (Activation α GraphCallback (GraphBody α)))
  | .set future, .value value =>
      some [.call future (.set value), .body (.forwarded future (.set value))]
  | .fail future, .message message =>
      some [.call future (.fail message), .body (.forwarded future (.fail message))]
  | .discarded future, .nothing =>
      some [.call future .discarded, .body (.forwarded future .discard)]
  | .abandon future, .nothing => some [.call future (.abandon true)]
  | .abandoned derived, .nothing => some [.call derived (.abandon false)]
  | .discard future, .nothing => some (if env.gone future then [] else [.call future .discard])
  | _, _ => none

def step (status : FutureId → Status α) (env : GraphEnv) (frame : GraphBody α)
    (choice : GraphChoice α) : Option (Outcome α) :=
  match frame, choice with
  | .other, .finish => some (outcome status env [])
  | .other, choice => foreign status env .other choice
  | .run derived, _ => run status env derived
  | .expired derived, _ => some (expired status env derived)
  | .callable derived, .yield recovery => yield status env derived recovery
  | .callable derived, choice => foreign status env (.callable derived) choice
  | .settle future completion, _ => settle status env future completion
  | .promised future _, _ => some (outcome status env (release env future))
  | .associate future target, _ => associate status env future target
  | .bound callback argument, _ => (bound env callback argument).map (outcome status env)
  | .forwarded _ _, _ => some (outcome status env [])

/-- The frame that executes an invoked callback. -/
def invoke (_ : FutureId) (argument : Argument α) : GraphCallback → GraphBody α
  | .other => .other
  | .run derived => .run derived
  | callback => .bound callback argument

end Graph

/-- Promises and the futures that are derived from them. -/
abbrev graph (α : Type) : Code α where
  Callback := GraphCallback
  Body := GraphBody α
  Env := GraphEnv
  Choice := GraphChoice α
  initial := .new
  main := .other
  invoke := Graph.invoke
  step := Graph.step

end Libprocess
