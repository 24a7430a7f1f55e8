import Libprocess.Future.Client

/-!
# `Queue`

A queue of elements that are put and of promises that wait for elements, behind a spin lock.  The
code around it puts elements, gets futures, discards these futures and registers callbacks on them,
and the callbacks do the same.  A `synchronized` block without calls is one step.  The handler that
`get` registers calls `Promise::discard` inside its block, so there the lock is taken in one step
and given back in a later one.
-/

namespace Libprocess

variable {α : Type}

/-- The callbacks on the futures of a queue. -/
inductive QueueCallback where
  | user
  /-- The handler that `get` registers for a discard. -/
  | withdraw (future : FutureId)
  deriving DecidableEq, Repr

/-- The activation frames of the queue's functions, and of the code around. -/
inductive QueueBody (α : Type) where
  | user
  | put (value : α)
  /-- `put` or the handler destroys a promise. -/
  | release (future : FutureId)
  /-- `get`; the future is the one it will return. -/
  | get (future : FutureId)
  | size
  /-- The handler before it takes the lock. -/
  | withdraw (future : FutureId)
  /-- The handler, inside its block, after `Promise::discard` has returned. -/
  | erase (future : FutureId)
  /-- The handler at the end of its block. -/
  | unlock
  deriving DecidableEq, Repr

/-- `Queue::Data`, and the history of the queue. -/
structure QueueEnv (α : Type) where
  lock : Bool
  promises : List FutureId
  elements : List α
  /-- The elements that were put, in the order of the blocks of `put`. -/
  puts : List α
  /-- The futures that were handed out, in the order of the blocks of `get`. -/
  gets : List FutureId
  /-- The futures whose promise was erased by their handler. -/
  withdrawn : List FutureId
  /-- Which future got which element. -/
  handed : List (FutureId × α)

def QueueEnv.new : QueueEnv α := ⟨false, [], [], [], [], [], []⟩

/-- What the code around does next. -/
inductive QueueChoice (α : Type) where
  | put (value : α)
  | get (future : FutureId)
  | size
  /-- `Future::discard`. -/
  | discard (future : FutureId)
  /-- Register a callback. -/
  | on (future : FutureId) (kind : CallbackKind)
  | finish

namespace Queue

abbrev Outcome (α : Type) := Effect α QueueCallback (QueueBody α) (QueueEnv α)

def outcome (status : FutureId → Status α) (env : QueueEnv α)
    (next : List (Activation α QueueCallback (QueueBody α))) : Outcome α :=
  ⟨fun future => (status future).toFlags, env, next⟩

/-- `Queue::put` -/
def put (env : QueueEnv α) (value : α) :
    QueueEnv α × List (Activation α QueueCallback (QueueBody α)) :=
  match env.promises with
  | [] => ({ env with elements := env.elements ++ [value], puts := env.puts ++ [value] }, [])
  | promise :: rest =>
      ({ env with
          promises := rest
          puts := env.puts ++ [value]
          handed := env.handed ++ [(promise, value)] },
        [.call promise (.set value), .body (.release promise)])

/-- `Queue::get` -/
def get (env : QueueEnv α) (future : FutureId) :
    QueueEnv α × List (Activation α QueueCallback (QueueBody α)) :=
  match env.elements with
  | [] =>
      ({ env with promises := env.promises ++ [future], gets := env.gets ++ [future] },
        [.call future (.on .onDiscard (.withdraw future))])
  | value :: rest =>
      ({ env with
          elements := rest
          gets := env.gets ++ [future]
          handed := env.handed ++ [(future, value)] },
        [.call future (.set value)])

/-- The handler looks for the promise of its future. -/
def withdraw (env : QueueEnv α) (future : FutureId) :
    QueueEnv α × List (Activation α QueueCallback (QueueBody α)) :=
  if future ∈ env.promises then
    ({ env with lock := true }, [.call future .discarded, .body (.erase future)])
  else (env, [])

/-- The handler erases the promise it found. -/
def erase (env : QueueEnv α) (future : FutureId) : QueueEnv α :=
  { env with
    promises := env.promises.erase future
    withdrawn := env.withdrawn ++ [future] }

/-- The code around, in a thread of its own or in a callback. -/
def user (env : QueueEnv α) :
    QueueChoice α → Option (List (Activation α QueueCallback (QueueBody α)))
  | .put value => some [.body (.put value), .body .user]
  | .get future => some [.body (.get future), .body .user]
  | .size => some [.body .size, .body .user]
  | .discard future =>
      if future ∈ env.gets then some [.call future .discard, .body .user] else none
  | .on future kind =>
      if future ∈ env.gets then some [.call future (.on kind .user), .body .user] else none
  | .finish => some []

/-- A frame that needs the lock has no step while it is taken. -/
def step (status : FutureId → Status α) (env : QueueEnv α) (frame : QueueBody α)
    (choice : QueueChoice α) : Option (Outcome α) :=
  match frame with
  | .user => (user env choice).map (outcome status env)
  | .put value =>
      if env.lock then none
      else some (outcome status (put env value).1 (put env value).2)
  | .release future => some (outcome status env [.call future (.abandon false)])
  | .get future =>
      if env.lock ∨ future ∈ env.gets then none
      else some (outcome status (get env future).1 (get env future).2)
  | .size => if env.lock then none else some (outcome status env [])
  | .withdraw future =>
      if env.lock then none
      else some (outcome status (withdraw env future).1 (withdraw env future).2)
  | .erase future =>
      some (outcome status (erase env future) [.body (.release future), .body .unlock])
  | .unlock => some (outcome status { env with lock := false } [])

def invoke (_ : FutureId) (_ : Argument α) : QueueCallback → QueueBody α
  | .user => .user
  | .withdraw future => .withdraw future

end Queue

/-- The functions of a queue and the code that uses it. -/
abbrev queue (α : Type) : Code α where
  Callback := QueueCallback
  Body := QueueBody α
  Env := QueueEnv α
  Choice := QueueChoice α
  initial := .new
  main := .user
  invoke := Queue.invoke
  step := Queue.step

namespace Queue

/-- What a step of one frame does: the new environment, and the calls and frames it turns
into. -/
inductive Moves (env : QueueEnv α) : QueueBody α → QueueEnv α →
    List (FutureId × Op α QueueCallback) → List (QueueBody α) → Prop where
  /-- Code around the queue starts a function of the queue or returns. -/
  | enter {entered : List (QueueBody α)} :
      entered = [] ∨ (∃ value, entered = [.put value, .user]) ∨
        (∃ future, entered = [.get future, .user]) ∨ entered = [.size, .user] →
      Moves env .user env [] entered
  /-- It calls a function of a future. -/
  | call {future : FutureId} {op : Op α QueueCallback} : future ∈ env.gets →
      op = .discard ∨ (∃ kind, op = .on kind .user) → Moves env .user env [(future, op)] [.user]
  | store {value : α} : env.lock = false → env.promises = [] →
      Moves env (.put value)
        { env with elements := env.elements ++ [value], puts := env.puts ++ [value] } [] []
  | hand {value : α} {promise : FutureId} {rest : List FutureId} : env.lock = false →
      env.promises = promise :: rest →
      Moves env (.put value)
        { env with
          promises := rest
          puts := env.puts ++ [value]
          handed := env.handed ++ [(promise, value)] }
        [(promise, .set value)] [.release promise]
  | release {future : FutureId} : Moves env (.release future) env [(future, .abandon false)] []
  | wait {future : FutureId} : env.lock = false → future ∉ env.gets → env.elements = [] →
      Moves env (.get future)
        { env with promises := env.promises ++ [future], gets := env.gets ++ [future] }
        [(future, .on .onDiscard (.withdraw future))] []
  | take {future : FutureId} {value : α} {rest : List α} : env.lock = false →
      future ∉ env.gets → env.elements = value :: rest →
      Moves env (.get future)
        { env with
          elements := rest
          gets := env.gets ++ [future]
          handed := env.handed ++ [(future, value)] }
        [(future, .set value)] []
  | size : env.lock = false → Moves env .size env [] []
  | find {future : FutureId} : env.lock = false → future ∈ env.promises →
      Moves env (.withdraw future) { env with lock := true } [(future, .discarded)] [.erase future]
  | miss {future : FutureId} : env.lock = false → future ∉ env.promises →
      Moves env (.withdraw future) env [] []
  | erase {future : FutureId} :
      Moves env (.erase future) (Queue.erase env future) [] [.release future, .unlock]
  | unlock : Moves env .unlock { env with lock := false } [] []

section Inversion

variable {status : FutureId → Status α} {env : QueueEnv α} {frame : QueueBody α}
  {choice : QueueChoice α} {effect : Outcome α}

/-- Every step is one of the moves, and no step writes a flag. -/
theorem step_does (stepped : step status env frame choice = some effect) :
    Moves env frame effect.env (effect.next.filterMap Activation.call?)
        (effect.next.filterMap Activation.body?) ∧
      ∀ future, effect.flags future = (status future).toFlags := by
  cases frame with
  | user =>
      obtain ⟨activations, found, rfl⟩ := Option.map_eq_some_iff.mp stepped
      refine ⟨?_, fun _ => rfl⟩
      cases choice with
      | put value =>
          cases found
          exact .enter (.inr (.inl ⟨value, rfl⟩))
      | get future =>
          cases found
          exact .enter (.inr (.inr (.inl ⟨future, rfl⟩)))
      | size =>
          cases found
          exact .enter (.inr (.inr (.inr rfl)))
      | discard future =>
          simp only [user] at found
          split at found
          · rename_i known
            cases found
            exact .call known (.inl rfl)
          · cases found
      | on future kind =>
          simp only [user] at found
          split at found
          · rename_i known
            cases found
            exact .call known (.inr ⟨kind, rfl⟩)
          · cases found
      | finish =>
          cases found
          exact .enter (.inl rfl)
  | put value =>
      simp only [step] at stepped
      split at stepped
      · cases stepped
      · rename_i free
        cases stepped
        refine ⟨?_, fun _ => rfl⟩
        simp only [outcome, put]
        split
        · rename_i waiting
          exact .store (by simpa using free) waiting
        · rename_i waiting
          exact .hand (by simpa using free) waiting
  | release future =>
      cases stepped
      exact ⟨.release, fun _ => rfl⟩
  | get future =>
      simp only [step] at stepped
      split at stepped
      · cases stepped
      · rename_i free
        cases stepped
        simp only [not_or, Bool.not_eq_true] at free
        refine ⟨?_, fun _ => rfl⟩
        simp only [outcome, get]
        split
        · rename_i stored
          exact .wait free.1 free.2 stored
        · rename_i stored
          exact .take free.1 free.2 stored
  | size =>
      simp only [step] at stepped
      split at stepped
      · cases stepped
      · rename_i free
        cases stepped
        exact ⟨.size (by simpa using free), fun _ => rfl⟩
  | withdraw future =>
      simp only [step] at stepped
      split at stepped
      · cases stepped
      · rename_i free
        cases stepped
        refine ⟨?_, fun _ => rfl⟩
        by_cases waits : future ∈ env.promises
        · simp only [outcome, withdraw, if_pos waits]
          exact .find (by simpa using free) waits
        · simp only [outcome, withdraw, if_neg waits]
          exact .miss (by simpa using free) waits
  | erase future =>
      cases stepped
      exact ⟨.erase, fun _ => rfl⟩
  | unlock =>
      cases stepped
      exact ⟨.unlock, fun _ => rfl⟩

end Inversion

end Queue

end Libprocess
