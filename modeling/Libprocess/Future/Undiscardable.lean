import Libprocess.Future.Combinators
import Libprocess.Future.Subscriptions

/-!
# `undiscardable`

`undiscardable` returns a future that it associates with its source once the source is completed,
from a callback that owns the promise.  The code around makes promises, completes and abandons
them, calls `undiscardable`, discards any future it has, and chains futures: a discard of a chained
future is passed on to what it was chained from, as `then` and `associate` do.
-/

namespace Libprocess

variable {α : Type}

/-- The promises and what their futures were made from. -/
structure ShieldEnv where
  /-- A promise has been constructed for the future. -/
  made : FutureId → Bool
  /-- What `undiscardable` was called with when it returned the future. -/
  source : FutureId → Option FutureId
  /-- The futures that pass a discard on, and those they pass it on to. -/
  chains : List (FutureId × FutureId)
  /-- The code around has called `discard` on the future. -/
  requested : FutureId → Bool

inductive ShieldCallback where
  | user
  /-- The lambda of `undiscardable` with the promise of the future it has returned. -/
  | associate (result : FutureId)
  /-- `lambda::bind(&internal::discard<T>, WeakFuture<T>(future))` -/
  | discard (future : FutureId)
  /-- `Future::set`, `Future::fail`, `internal::discarded` and `Future::abandon` bound to a future
  by `Promise::associate`. -/
  | set (future : FutureId)
  | fail (future : FutureId)
  | discarded (future : FutureId)
  | abandon (future : FutureId)
  deriving DecidableEq, Repr

inductive ShieldBody (α : Type) where
  | user
  | associate (result : FutureId)
  /-- A bound function with its argument. -/
  | bound (callback : ShieldCallback) (argument : Argument α)
  deriving DecidableEq, Repr

/-- What the code around does next. -/
inductive ShieldChoice (α : Type) where
  /-- Construct a promise. -/
  | promise (future : FutureId)
  | call (future : FutureId) (op : Op α Unit)
  | undiscardable (source result : FutureId)
  | chain (parent derived : FutureId)
  | finish

namespace ShieldEnv

def new : ShieldEnv where
  made _ := false
  source _ := none
  chains := []
  requested _ := false

def make (env : ShieldEnv) (future : FutureId) : ShieldEnv :=
  { env with made := Function.update env.made future true }

/-- The code around calls a function of the future. -/
def record (env : ShieldEnv) (future : FutureId) : Op α Unit → ShieldEnv
  | .discard => { env with requested := Function.update env.requested future true }
  | .set _ | .fail _ | .discarded | .abandon _ | .on _ _ => env

def shield (env : ShieldEnv) (source result : FutureId) : ShieldEnv :=
  { env.make result with source := Function.update env.source result (some source) }

def chain (env : ShieldEnv) (parent derived : FutureId) : ShieldEnv :=
  { env with chains := (derived, parent) :: env.chains }

end ShieldEnv

namespace Shield

abbrev Outcome (α : Type) := Effect α ShieldCallback (ShieldBody α) ShieldEnv

abbrev Calls (α : Type) := List (FutureId × Op α ShieldCallback)

/-- A step that writes no flags. -/
def outcome (status : FutureId → Status α) (env : ShieldEnv)
    (next : List (Activation α ShieldCallback (ShieldBody α))) : Outcome α :=
  ⟨fun future => (status future).toFlags, env, next⟩

/-- Nothing refers to the future. -/
def fresh (status : FutureId → Status α) (env : ShieldEnv) (future : FutureId) : Bool :=
  !env.made future ∧ !(status future).abandoned

/-- The code around, in a thread of its own or in a callback.  It has every future, and the
promises that it has constructed. -/
def user (status : FutureId → Status α) (env : ShieldEnv) : ShieldChoice α → Option (Outcome α)
  | .promise future =>
      if fresh status env future then some (outcome status (env.make future) [.body .user]) else none
  | .call future op =>
      if env.made future ∧ (op.shared ∨ env.source future = none) then
        some (outcome status (env.record future op)
          [.call future (op.foreign .user), .body .user])
      else none
  | .undiscardable source result =>
      if env.made source ∧ fresh status env result then
        some (outcome status (env.shield source result)
          [.call source (.on .onAny (.associate result)), .body .user])
      else none
  | .chain parent derived =>
      if env.made parent ∧ env.made derived then
        some (outcome status (env.chain parent derived)
          [.call derived (.on .onDiscard (.discard parent)), .body .user])
      else none
  | .finish => some (outcome status env [])

/-- The registrations of `Promise::associate`. -/
def associations (result source : FutureId) : Calls α :=
  [(result, .on .onDiscard (.discard source)), (source, .on .onReady (.set result)),
    (source, .on .onFailed (.fail result)), (source, .on .onDiscarded (.discarded result)),
    (source, .on .onAbandoned (.abandon result))]

/-- `promise->associate(future)`, after which the promise is destroyed. -/
def associate (status : FutureId → Status α) (env : ShieldEnv) (result : FutureId) :
    Option (Outcome α) :=
  (env.source result).map fun source =>
    if (status result).state = .pending ∧ !(status result).associated then
      { flags := Function.update (fun future => (status future).toFlags) result
          { (status result).toFlags with associated := true }
        env := env
        next := (associations result source).map (fun call => .call call.1 call.2) ++
          [.call result (.abandon false)] }
    else outcome status env [.call result (.abandon false)]

/-- What a bound function calls. -/
def bound : ShieldCallback → Argument α → Option (FutureId × Op α ShieldCallback)
  | .set future, .value value => some (future, .set value)
  | .fail future, .message message => some (future, .fail message)
  | .discarded future, .nothing => some (future, .discarded)
  | .abandon future, .nothing => some (future, .abandon true)
  | .discard future, .nothing => some (future, .discard)
  | _, _ => none

def step (status : FutureId → Status α) (env : ShieldEnv) (frame : ShieldBody α)
    (choice : ShieldChoice α) : Option (Outcome α) :=
  match frame with
  | .user => user status env choice
  | .associate result => associate status env result
  | .bound callback argument =>
      (bound callback argument).map fun call => outcome status env [.call call.1 call.2]

/-- The frame that executes an invoked callback. -/
def invoke (_ : FutureId) (argument : Argument α) : ShieldCallback → ShieldBody α
  | .user => .user
  | .associate result => .associate result
  | callback => .bound callback argument

end Shield

/-- Futures behind `undiscardable`, and the code around them. -/
abbrev shields (α : Type) : Code α where
  Callback := ShieldCallback
  Body := ShieldBody α
  Env := ShieldEnv
  Choice := ShieldChoice α
  initial := .new
  main := .user
  invoke := Shield.invoke
  step := Shield.step

abbrev ShieldSnapshot (α : Type) := Snapshot (shields α)

namespace Shield

open Snapshot (Entered Ran)

/-- The futures after one of them has been associated. -/
def mark (status : FutureId → Status α) : Option FutureId → FutureId → Status α
  | none => status
  | some result =>
      Function.update status result { status result with associated := true }

/-- What a step of the code does: the environment, the future it associates, its calls, and the
frames it enters. -/
inductive Moves (status : FutureId → Status α) (env : ShieldEnv) :
    ShieldBody α → ShieldEnv → Option FutureId → Calls α → List (ShieldBody α) → Prop
  | promise {future : FutureId} : fresh status env future = true →
      Moves status env .user (env.make future) none [] [.user]
  | call {future : FutureId} {op : Op α Unit} : env.made future = true →
      op.shared = true ∨ env.source future = none →
      Moves status env .user (env.record future op) none [(future, op.foreign .user)] [.user]
  | undiscardable {source result : FutureId} : env.made source = true →
      fresh status env result = true →
      Moves status env .user (env.shield source result) none
        [(source, .on .onAny (.associate result))] [.user]
  | chain {parent derived : FutureId} : env.made parent = true → env.made derived = true →
      Moves status env .user (env.chain parent derived) none
        [(derived, .on .onDiscard (.discard parent))] [.user]
  | finish : Moves status env .user env none [] []
  | associate {result source : FutureId} : env.source result = some source →
      (status result).state = .pending → (status result).associated = false →
      Moves status env (.associate result) env (some result)
        (associations result source ++ [(result, .abandon false)]) []
  | refuse {result source : FutureId} : env.source result = some source →
      (status result).state ≠ .pending ∨ (status result).associated = true →
      Moves status env (.associate result) env none [(result, .abandon false)] []
  | bound {callback : ShieldCallback} {argument : Argument α}
      {call : FutureId × Op α ShieldCallback} : bound callback argument = some call →
      Moves status env (.bound callback argument) env none [call] []

/-- A snapshot before and after a step of the code. -/
structure Executed (before after : ShieldSnapshot α) (body : ShieldBody α)
    (rest : Multiset (ShieldBody α)) (marked : Option FutureId) (made : Calls α)
    (entered : List (ShieldBody α)) : Prop where
  moves : Moves before.status before.env body after.env marked made entered
  running : before.bodies = body ::ₘ rest
  bodies : after.bodies = ↑entered + rest
  calls : after.calls = ↑made + before.calls
  registered : after.registered = before.registered
  log : after.log = before.log
  status : after.status = mark before.status marked

section Step

variable {before after : ShieldSnapshot α} {rest : Multiset (ShieldBody α)} {body : ShieldBody α}
  {choice : ShieldChoice α} {effect : Outcome α}

theorem executed_of_user (running : before.bodies = .user ::ₘ rest)
    (stepped : user before.status before.env choice = some effect) :
    ∃ made entered, Executed before (before.execute rest effect) .user rest none made entered := by
  cases choice with
  | promise future =>
      simp only [user, Option.ite_none_right_eq_some, Option.some.injEq] at stepped
      obtain ⟨unmade, rfl⟩ := stepped
      exact ⟨[], [.user], .promise unmade, running, rfl, rfl, rfl, rfl, rfl⟩
  | call future op =>
      simp only [user, Option.ite_none_right_eq_some, Option.some.injEq] at stepped
      obtain ⟨⟨made, allowed⟩, rfl⟩ := stepped
      exact ⟨_, [.user], .call made allowed, running, rfl, rfl, rfl, rfl, rfl⟩
  | undiscardable source result =>
      simp only [user, Option.ite_none_right_eq_some, Option.some.injEq] at stepped
      obtain ⟨⟨made, unmade⟩, rfl⟩ := stepped
      exact ⟨_, [.user], .undiscardable made unmade, running, rfl, rfl, rfl, rfl, rfl⟩
  | chain parent derived =>
      simp only [user, Option.ite_none_right_eq_some, Option.some.injEq] at stepped
      obtain ⟨⟨made, madeDerived⟩, rfl⟩ := stepped
      exact ⟨_, [.user], .chain made madeDerived, running, rfl, rfl, rfl, rfl, rfl⟩
  | finish =>
      cases stepped
      exact ⟨[], [], .finish, running, rfl, rfl, rfl, rfl, rfl⟩

theorem executed_of_step (running : before.bodies = body ::ₘ rest)
    (stepped : step before.status before.env body choice = some effect) :
    ∃ marked made entered,
      Executed before (before.execute rest effect) body rest marked made entered := by
  cases body with
  | user => exact ⟨none, executed_of_user running stepped⟩
  | associate result =>
      obtain ⟨source, found, rfl⟩ := Option.map_eq_some_iff.mp stepped
      by_cases takes : (before.status result).state = .pending ∧
          !(before.status result).associated
      · rw [if_pos takes]
        refine ⟨some result, _, [],
          .associate found takes.1 (by simpa using takes.2), running, rfl, rfl, rfl, rfl, ?_⟩
        funext future
        by_cases same : future = result
        · subst same
          simp [Snapshot.execute, mark]
        · simp [Snapshot.execute, mark, same]
      · rw [if_neg takes]
        refine ⟨none, _, [], .refuse found ?_, running, rfl, rfl, rfl, rfl, rfl⟩
        by_cases pending : (before.status result).state = .pending
        · exact .inr (by simpa [pending] using takes)
        · exact .inl pending
  | bound callback argument =>
      obtain ⟨call, called, rfl⟩ := Option.map_eq_some_iff.mp stepped
      exact ⟨none, [call], [], .bound called, running, rfl, rfl, rfl, rfl, rfl⟩

theorem step_cases {frame : (shields α).Frame} (step : before.Step frame after) :
    after = before ∨ (∃ future op, Entered before after future op) ∨
      (∃ future kind registration, Ran before after future kind registration) ∨
      ∃ body rest marked made entered, Executed before after body rest marked made entered := by
  obtain same | ⟨future, op, -, entered⟩ | ran |
    ⟨body, rest, choice, effect, -, running, moved, rfl⟩ := Snapshot.Step.cases step
  · exact .inl same
  · exact .inr (.inl ⟨future, op, entered⟩)
  · exact .inr (.inr (.inl ran))
  · exact .inr (.inr (.inr ⟨body, rest, executed_of_step running moved⟩))

/-- No step writes a `discard` flag. -/
theorem disciplined (future : FutureId) : (shields α).Disciplined future := by
  intro status env body choice effect stepped
  cases body with
  | user =>
      cases choice with
      | finish =>
          cases stepped
          rfl
      | promise | call | undiscardable | chain =>
          simp only [step, user, Option.ite_none_right_eq_some, Option.some.injEq] at stepped
          obtain ⟨-, rfl⟩ := stepped
          rfl
  | associate result =>
      obtain ⟨source, -, rfl⟩ := Option.map_eq_some_iff.mp stepped
      split
      · by_cases same : future = result
        · subst same
          simp
        · simp [same]
      · rfl
  | bound callback argument =>
      obtain ⟨call, -, rfl⟩ := Option.map_eq_some_iff.mp stepped
      rfl

end Step

end Shield

end Libprocess
