import Libprocess.Collect.Process

/-!
# The steps of `collect` and `await`

A step of the code is a step of one process, or it concerns none.  What a step of a process can do
is said once, with the calls it makes and the frames it enters.
-/

namespace Libprocess

variable {T : Type}

namespace Gather

abbrev Calls (T : Type) := List (FutureId × Op (Value T) GatherCallback)

/-- `waited` completes the promise: what becomes of the members, and with what. -/
inductive Decides (status : Statuses T) (process : GatherProcess T) (future : FutureId) :
    GatherProcess T → Completion (Value T) → Prop
  | failed {message : String} : process.gathering = .collect →
      (status future).state = .failed → (status future).result = .error message →
      Decides status process future process (.fail ("Collect failed: " ++ message))
  | discarded : process.gathering = .collect → (status future).state = .discarded →
      Decides status process future process (.fail "Collect failed: future discarded")
  | collected {values : List (Value T)} : process.gathering = .collect →
      (status future).state = .ready → process.ready + 1 = process.futures.length →
      gets status process.futures = some values →
      Decides status process future (counted process future) (.set (.values values))
  | awaited : process.gathering = .await → (status future).state ≠ .pending →
      process.ready + 1 = process.futures.length →
      Decides status process future { counted process future with futures := [] }
        (.set (.futures process.futures))

/-- `waited` counts a future that is not the last one. -/
structure Counts (status : Statuses T) (process : GatherProcess T) (future : FutureId) :
    Prop where
  completed : (status future).state ≠ .pending
  ready : process.gathering = .collect → (status future).state = .ready
  more : process.ready + 1 ≠ process.futures.length

/-- A `CHECK` of `waited` fails. -/
inductive Fails (status : Statuses T) (process : GatherProcess T) (future : FutureId) : Prop
  | pending : (status future).state = .pending → Fails status process future
  | message : (status future).state = .failed →
      (∀ message, (status future).result ≠ .error message) → Fails status process future
  | value : (status future).state = .ready → process.gathering = .collect →
      process.ready + 1 = process.futures.length →
      gets status process.futures = none → Fails status process future

/-- The registrations of `initialize`. -/
def registrations (name : FutureId) (futures : List FutureId) : Calls T :=
  (name, .on .onDiscard (.discarded name)) ::
    futures.flatMap fun future =>
      [(future, .on .onAny (.waited name)), (future, .on .onAbandoned (.abandoned name))]

/-- The steps of the process `name`, of the frames that run it and of the dispatches to it. -/
inductive Acts (status : Statuses T) (name : FutureId) : GatherBody T → GatherProcess T →
    GatherProcess T → Calls T → List (GatherBody T) → Prop
  | spawn {process} : Acts status name (.spawn name) process { process with stage := .bottom } [] []
  | dispatch {process} {event} : process.stage ≠ .deleted →
      Acts status name (.dispatch name event) process
        { process with events := process.events ++ [event] } [] []
  | drop {process} {event} : process.stage = .deleted →
      Acts status name (.dispatch name event) process process [] []
  | start {process} : process.stage = .bottom →
      Acts status name .user process { process with stage := .running }
        (registrations name process.futures) [.serve name, .user]
  | wake {process} : process.stage = .blocked →
      Acts status name .user process { process with stage := .running } [] [.serve name, .user]
  | terminated {process} {inject} : process.stage ≠ .deleted →
      Acts status name .user process
        { process with
          terminated := true
          events := process.events ++ [.terminate]
          termination := process.termination || inject } [] [.user]
  | block {process} : dequeue process = none →
      Acts status name (.serve name) process { process with stage := .blocked } [] []
  | decide {process served} {future} {rest} {completion} :
      dequeue process = some (.waited future, rest) →
      Decides status { process with events := rest } future served completion →
      Acts status name (.serve name) process
        { served with completions := served.completions ++ [completion] }
        [(name, completion.op)] [.terminate name (some completion)]
  | count {process} {future} {rest} : dequeue process = some (.waited future, rest) →
      Counts status process future →
      Acts status name (.serve name) process (counted { process with events := rest } future) []
        [.serve name]
  | lose {process} {rest} : dequeue process = some (.abandoned, rest) →
      Acts status name (.serve name) process { process with events := rest } []
        [.terminate name none]
  | ask {process} {rest} : dequeue process = some (.discarded, rest) →
      Acts status name (.serve name) process { process with events := rest } []
        [.discarding name process.futures]
  | delete {process} {rest} : dequeue process = some (.terminate, rest) →
      Acts status name (.serve name) process { process with stage := .deleted, events := [] }
        [(name, .abandon false)] []
  | discard {process} : Acts status name (.discarding name []) process
      { process with completions := process.completions ++ [.discard] } [(name, .discarded)]
      [.terminate name (some .discard)]
  | request {process} {future} {rest} : Acts status name (.discarding name (future :: rest)) process
      process [(future, .discard)] [.asked name future rest]
  | asked {process} {future} {rest} : Acts status name (.asked name future rest) process
      { process with asked := process.asked ++ [future] } [] [.discarding name rest]
  | terminate {process} {completion} : process.stage ≠ .deleted →
      Acts status name (.terminate name completion) process
        { process with events := process.events ++ [.terminate], termination := true } []
        [.serve name]
  | stray {process} {completion} : process.stage = .deleted →
      Acts status name (.terminate name completion) process process [] [.serve name]

/-- What `internal::then` completes its promise with. -/
inductive Follows (status : Statuses T) (parent : FutureId) :
    Continuation → Completion (Value T) → Prop
  | nothing : (status parent).state = .ready → (status parent).discard = false →
      Follows status parent .nothing (.set .nothing)
  | tuple {futures : List FutureId} {values : List (Value T)} : (status parent).state = .ready →
      (status parent).discard = false → gets status futures = some values →
      Follows status parent (.tuple futures) (.set (.values values))
  | requested {continuation : Continuation} : (status parent).state = .ready →
      (status parent).discard = true → Follows status parent continuation .discard
  | failed {continuation : Continuation} {message : String} : (status parent).state = .failed →
      (status parent).result = .error message →
      Follows status parent continuation (.fail message)
  | discarded {continuation : Continuation} : (status parent).state = .discarded →
      Follows status parent continuation .discard

/-- A `CHECK` fails. -/
inductive Aborts (status : Statuses T) (env : GatherEnv T) : GatherBody T → Prop
  | waited {name : FutureId} {process : GatherProcess T} {future : FutureId}
      {rest : List GatherEvent} : env.process name = some process →
      dequeue process = some (.waited future, rest) → Fails status process future →
      Aborts status env (.serve name)
  | message {derived parent : FutureId} {continuation : Continuation} :
      env.derived derived = some (parent, continuation) → (status parent).state = .failed →
      (∀ message, (status parent).result ≠ .error message) → Aborts status env (.run derived)
  | value {derived parent : FutureId} {futures : List FutureId} :
      env.derived derived = some (parent, .tuple futures) → (status parent).state = .ready →
      (status parent).discard = false → gets status futures = none →
      Aborts status env (.run derived)

/-- The registrations of `then`. -/
def derivation (parent derived : FutureId) : Calls T :=
  [(parent, .on .onAny (.run derived)), (parent, .on .onAbandoned (.abandon derived)),
    (derived, .on .onDiscard (.discard parent))]

/-- A call of the variadic `collect` has its futures and makes new ones. -/
structure Fits (status : Statuses T) (env : GatherEnv T) (call : Variadic) : Prop where
  visible : ∀ future ∈ call.futures, visible env future = true
  nodup : (Variadic.made call).Nodup
  unmade : ∀ future ∈ Variadic.made call, unmade status env future = true
  length : call.wrappers.length = call.futures.length

/-- The calls of the variadic `collect`. -/
def derivations (call : Variadic) : Calls T :=
  (call.wrappers.zip call.futures).flatMap (fun pair => derivation pair.2 pair.1) ++
    derivation call.gathered call.result

/-- The steps of the code. -/
inductive Moves (status : Statuses T) (env : GatherEnv T) : GatherBody T → GatherEnv T →
    Calls T → List (GatherBody T) → Prop
  | acts {name : FutureId} {body : GatherBody T} {process next : GatherProcess T}
      {made : Calls T} {entered : List (GatherBody T)} : env.process name = some process →
      Acts status name body process next made entered →
      Moves status env body (store env name next) made entered
  | stray {name : FutureId} {event : GatherEvent} : env.process name = none →
      Moves status env (.dispatch name event) env [] []
  | resumed {name : FutureId} {completion : Option (Completion (Value T))} :
      env.process name = none →
      Moves status env (.terminate name completion) env [] [.serve name]
  | request {name future : FutureId} {rest : List FutureId} : env.process name = none →
      Moves status env (.discarding name (future :: rest)) env [(future, .discard)]
        [.asked name future rest]
  | abort {body : GatherBody T} : Aborts status env body →
      Moves status env body { env with aborted := true } [] []
  | promise {future : FutureId} : unmade status env future = true →
      Moves status env .user (assign env future .promised) [] [.user]
  | call {future : FutureId} {op : Op (Value T) Unit} :
      env.role future = .promised ∨ env.role future = .returned ∧ op.shared = true →
      Moves status env .user env [(future, op.foreign .user)] [.user]
  | empty {gathering : Gathering} {result : FutureId} : unmade status env result = true →
      Moves status env .user (assign env result .returned) [(result, .set (empty gathering))]
        [.user]
  | gather {gathering : Gathering} {futures : List FutureId} {result : FutureId} :
      unmade status env result = true → (∀ future ∈ futures, visible env future = true) →
      futures ≠ [] →
      Moves status env .user
        (store (assign env result .returned) result (construct gathering futures)) []
        [.spawn result, .user]
  | none {call : Variadic} : Fits status env call → call.wrappers = [] →
      Moves status env .user (prepare env call)
        ((call.gathered, .set (.values [])) :: derivation call.gathered call.result) [.user]
  | variadic {call : Variadic} : Fits status env call → call.wrappers ≠ [] →
      Moves status env .user
        (store (prepare env call) call.gathered (construct .collect call.wrappers))
        (derivations call) [.spawn call.gathered, .user]
  | finish : Moves status env .user env [] []
  | settle {derived parent : FutureId} {continuation : Continuation}
      {completion : Completion (Value T)} : env.derived derived = some (parent, continuation) →
      Follows status parent continuation completion →
      Moves status env (.run derived) env [(derived, completion.op)] [.release derived completion]
  | early {derived parent : FutureId} {continuation : Continuation} :
      env.derived derived = some (parent, continuation) → (status parent).state = .pending →
      Moves status env (.run derived) env [(derived, .abandon false)] []
  | release {derived : FutureId} {completion : Completion (Value T)} :
      Moves status env (.release derived completion) env [(derived, .abandon false)] []
  | abandon {derived : FutureId} :
      Moves status env (.abandon derived) env [(derived, .abandon false)] []
  | discard {future : FutureId} : Moves status env (.discard future) env [(future, .discard)] []

/-- The calls among the activations. -/
abbrev called (next : Activations T) : Calls T := next.filterMap Activation.call?

/-- The frames among the activations. -/
abbrev framed (next : Activations T) : List (GatherBody T) := next.filterMap Activation.body?

section Inversion

variable {status : Statuses T} {env : GatherEnv T} {name future : FutureId}
  {process : GatherProcess T}

theorem called_initializing (name : FutureId) (process : GatherProcess T) :
    called (initializing name process) = registrations name process.futures ∧
      framed (initializing name process) = [] := by
  simp only [called, framed, initializing, registrations, List.filterMap_cons, Activation.call?,
    Activation.body?, List.cons.injEq, true_and]
  induction process.futures with
  | nil => exact ⟨rfl, rfl⟩
  | cons future rest ih =>
      obtain ⟨calls, frames⟩ := ih
      constructor
      · simpa [Activation.call?] using calls
      · simpa [Activation.body?] using frames

theorem called_derivations (pairs : List (FutureId × FutureId)) :
    called (T := T) (pairs.flatMap fun pair => derive pair.2 pair.1) =
        pairs.flatMap (fun pair => derivation pair.2 pair.1) ∧
      framed (T := T) (pairs.flatMap fun pair => derive pair.2 pair.1) = [] := by
  induction pairs with
  | nil => exact ⟨rfl, rfl⟩
  | cons pair rest ih =>
      obtain ⟨calls, frames⟩ := ih
      constructor
      · simpa [called, derive, derivation, Activation.call?] using calls
      · simpa [framed, derive, Activation.body?] using frames

/-- What one function of the code does, as a step. -/
def Does (status : Statuses T) (env : GatherEnv T) (body : GatherBody T)
    (result : GatherEnv T × Activations T) : Prop :=
  Moves status env body result.1 (called result.2) (framed result.2)

theorem Does.of {body : GatherBody T} {after : GatherEnv T} {next : Activations T} {made : Calls T}
    {entered : List (GatherBody T)} (moves : Moves status env body after made entered)
    (calls : called next = made) (frames : framed next = entered) :
    Does status env body (after, next) := by
  subst calls frames
  exact moves

theorem store_self (known : env.process name = some process) : store env name process = env := by
  unfold store
  rw [← known, Function.update_eq_self]

theorem enqueue_store {event : GatherEvent} {inject : Bool} (alive : process.stage ≠ .deleted) :
    enqueue (store env name process) name event inject =
      store env name
        { process with
          events := process.events ++ [event]
          termination := process.termination || inject } := by
  simp [enqueue, store, alive]

theorem count_does {rest : List GatherEvent} (known : env.process name = some process)
    (next : dequeue process = some (.waited future, rest))
    (completed : (status future).state ≠ .pending)
    (ready : process.gathering = .collect → (status future).state = .ready) :
    Does status env (.serve name) (count status env name { process with events := rest } future) := by
  unfold count
  split
  · rename_i last
    unfold filled
    split
    · rename_i collects
      split
      · rename_i values found
        exact .acts known (.decide next (.collected collects (ready collects) last found))
      · rename_i found
        exact .abort (.waited known next (.value (ready collects) collects last found))
    · rename_i awaits
      exact .acts known (.decide next (.awaited awaits completed last))
  · rename_i last
    exact .acts known (.count next ⟨completed, ready, last⟩)

theorem waited_does {rest : List GatherEvent} (known : env.process name = some process)
    (next : dequeue process = some (.waited future, rest)) :
    Does status env (.serve name) (waited status env name { process with events := rest } future) := by
  unfold waited
  split
  · rename_i collects
    unfold collected
    split
    · rename_i failed error
      exact .acts known (.decide next (.failed collects failed error))
    · rename_i failed none
      exact .abort (.waited known next (.message failed none))
    · rename_i discarded
      exact .acts known (.decide next (.discarded collects discarded))
    · rename_i pending
      exact .abort (.waited known next (.pending pending))
    · rename_i ready
      exact count_does known next (by simp [ready]) fun _ => ready
  · rename_i awaits
    unfold awaited
    split
    · rename_i pending
      exact .abort (.waited known next (.pending pending))
    · rename_i completed
      apply count_does known next completed
      intro collects
      rw [awaits] at collects
      cases collects

theorem serve_does {result : GatherEnv T × Activations T}
    (served : serve status env name = some result) : Does status env (.serve name) result := by
  unfold serve at served
  split at served
  · cases served
  · rename_i process known
    split at served
    · rename_i nothing
      cases served
      exact .acts known (.block nothing)
    · rename_i event rest next
      cases served
      cases event with
      | waited future => exact waited_does known next
      | abandoned => exact .acts known (.lose next)
      | discarded => exact .acts known (.ask next)
      | terminate => exact .acts known (.delete next)

theorem run_does {result : GatherEnv T × Activations T}
    (ran : run status env future = some result) : Does status env (.run future) result := by
  unfold run at ran
  split at ran
  · cases ran
  · rename_i parent continuation derived
    split at ran
    · rename_i ready
      split at ran
      · rename_i requested
        cases ran
        exact .settle derived (.requested ready requested)
      · rename_i unasked
        have unasked : (status parent).discard = false := by simpa using unasked
        split at ran
        · cases ran
          exact .settle derived (.nothing ready unasked)
        · split at ran
          · rename_i values found
            cases ran
            exact .settle derived (.tuple ready unasked found)
          · rename_i found
            cases ran
            exact .abort (.value derived ready unasked found)
    · rename_i failed error
      cases ran
      exact .settle derived (.failed failed error)
    · rename_i failed none
      cases ran
      exact .abort (.message derived failed none)
    · rename_i discarded
      cases ran
      exact .settle derived (.discarded discarded)
    · rename_i pending
      cases ran
      exact .early derived pending

theorem resume_does {result : GatherEnv T × Activations T} (resumed : resume env name = some result) :
    Does status env .user (result.1, result.2 ++ [.body .user]) := by
  unfold resume at resumed
  split at resumed
  · cases resumed
  · rename_i process known
    split at resumed
    · rename_i bottom
      cases resumed
      obtain ⟨calls, frames⟩ := called_initializing name process
      refine .of (.acts known (.start bottom)) ?_ ?_
      · simp only [called, List.filterMap_append] at calls ⊢
        rw [calls]
        exact List.append_assoc _ _ _ |>.trans (List.append_nil _)
      · simp only [framed, List.filterMap_append] at frames ⊢
        rw [frames]
        rfl
    · rename_i blocked
      split at resumed
      · cases resumed
      · cases resumed
        exact .acts known (.wake blocked)
    · cases resumed
    · cases resumed
    · cases resumed

theorem user_does {choice : GatherChoice T} {result : GatherEnv T × Activations T}
    (chosen : user status env choice = some result) : Does status env .user result := by
  cases choice with
  | promise future =>
      simp only [user, Option.ite_none_right_eq_some, Option.some.injEq] at chosen
      obtain ⟨fresh, rfl⟩ := chosen
      exact .promise fresh
  | call future op =>
      simp only [user, Option.ite_none_right_eq_some, Option.some.injEq] at chosen
      obtain ⟨allowed, rfl⟩ := chosen
      exact .call allowed
  | gather gathering futures result =>
      simp only [user, Option.ite_none_right_eq_some, Option.some.injEq] at chosen
      obtain ⟨⟨fresh, known⟩, rfl⟩ := chosen
      unfold gather
      split
      · exact .empty fresh
      · rename_i some
        exact .gather fresh known some
  | variadic call =>
      simp only [user, Option.ite_none_right_eq_some, Option.some.injEq] at chosen
      obtain ⟨⟨known, nodup, fresh, length⟩, rfl⟩ := chosen
      have fits : Fits status env call := ⟨known, nodup, fresh, length⟩
      obtain ⟨calls, frames⟩ := called_derivations (T := T) (call.wrappers.zip call.futures)
      unfold variadic gather
      split
      · rename_i nothing
        rw [nothing]
        exact .none fits nothing
      · rename_i some
        refine .of (.variadic fits some) ?_ ?_
        · simp only [called, List.filterMap_append] at calls ⊢
          rw [calls, List.append_assoc]
          simp only [derivations, List.append_assoc]
          rfl
        · simp only [framed, List.filterMap_append] at frames ⊢
          rw [frames]
          rfl
  | resume name =>
      simp only [user, Option.map_eq_some_iff] at chosen
      obtain ⟨resumed, found, rfl⟩ := chosen
      exact resume_does found
  | terminate name inject =>
      simp only [user, Option.map_eq_some_iff] at chosen
      obtain ⟨next, ended, rfl⟩ := chosen
      unfold terminate at ended
      split at ended
      · cases ended
      · rename_i process known
        split at ended
        · cases ended
        · rename_i alive
          cases ended
          have enqueued := @enqueue_store T env name { process with terminated := true }
            .terminate inject alive
          rw [enqueued]
          exact .acts known (.terminated alive)
  | finish =>
      cases chosen
      exact .finish

theorem execute_does {choice : GatherChoice T} {body : GatherBody T}
    {result : GatherEnv T × Activations T} (executed : execute status env choice body = some result) :
    Does status env body result := by
  cases body with
  | user => exact user_does executed
  | spawn name =>
      simp only [execute, Option.map_eq_some_iff] at executed
      obtain ⟨process, known, rfl⟩ := executed
      exact .acts known .spawn
  | dispatch name event =>
      cases executed
      unfold enqueue
      split
      · rename_i unknown
        exact .stray unknown
      · rename_i process known
        split
        · rename_i deleted
          have moves := Moves.acts known (@Acts.drop _ status name process event deleted)
          rw [store_self known] at moves
          exact moves
        · rename_i alive
          rw [Bool.or_false]
          exact .acts known (.dispatch alive)
  | serve name => exact serve_does executed
  | discarding name rest =>
      cases rest with
      | nil =>
          simp only [execute, discarding, Option.map_eq_some_iff] at executed
          obtain ⟨process, known, rfl⟩ := executed
          exact .acts known .discard
      | cons future rest =>
          cases executed
          cases known : env.process name with
          | none => exact .request known
          | some process =>
              have moves := Moves.acts known (@Acts.request _ status name process future rest)
              rw [store_self known] at moves
              exact moves
  | asked name future rest =>
      simp only [execute, Option.map_eq_some_iff] at executed
      obtain ⟨process, known, rfl⟩ := executed
      exact .acts known .asked
  | terminate name completion =>
      cases executed
      unfold enqueue
      split
      · rename_i unknown
        exact .resumed unknown
      · rename_i process known
        split
        · rename_i deleted
          have moves := Moves.acts known (@Acts.stray _ status name process completion deleted)
          rw [store_self known] at moves
          exact moves
        · rename_i alive
          rw [Bool.or_true]
          exact .acts known (.terminate alive)
  | run derived => exact run_does executed
  | release derived completion =>
      cases executed
      exact .release
  | abandon derived =>
      cases executed
      exact .abandon
  | discard future =>
      cases executed
      exact .discard

end Inversion

end Gather

end Libprocess
