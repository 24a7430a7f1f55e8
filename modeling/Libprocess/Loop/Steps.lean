import Libprocess.Loop.Run

/-!
# The steps of a loop

One relation lists everything a step of the loop and of the code around it can do.  At
any time the control of a started loop is in one place: a frame, a call that has not
executed, a job of the executor, a registered continuation, or the completed promise.
`Control` names what is left to do at such a place, and a step either passes the control
on as it is or advances it.
-/

namespace Libprocess

variable {T R : Type}

namespace Loop

/-- How a loop ends. -/
inductive Ending (R : Type) where
  | ready (value : R)
  | failed (message : String)
  | discarded
  deriving DecidableEq, Repr

/-- What is left to do where the control of the loop is. -/
inductive Control (R : Type) where
  /-- `iterate` is called next. -/
  | entering
  /-- `iterate` or `body` is running. -/
  | calling (stage : Stage)
  /-- A returned future is inspected. -/
  | awaiting (stage : Stage) (future : FutureId)
  /-- The promise is completed. -/
  | ended (ending : Ending R)
  deriving DecidableEq, Repr

end Loop

open Loop

/-- The future is ready with this value. -/
def Status.Holds {α : Type} (status : Status α) (value : α) : Prop :=
  status.state = .ready ∧ status.result = .some value

/-- How a loop ends at a returned future. -/
def Status.ending? (status : Status (LoopValue T R)) (stage : Stage) : Option (Ending R) :=
  match status.state, stage, status.result with
  | .ready, .flow, .some (.flow (.Break value)) => some (.ready value)
  | .failed, _, .error message => some (.failed message)
  | .discarded, _, _ => some .discarded
  | _, _, _ => none

/-- How the loop's own future ended. -/
def Status.outcome? (status : Status (LoopValue T R)) : Option (Ending R) :=
  match status.state, status.result with
  | .ready, .some (.result value) => some (.ready value)
  | .failed, .error message => some (.failed message)
  | .discarded, _ => some .discarded
  | _, _ => none

namespace Loop

/-- The call that completes the promise. -/
def Ending.op : Ending R → Op (LoopValue T R) LoopCallback
  | .ready value => .set (.result value)
  | .failed message => .fail message
  | .discarded => .discarded

/-- The ending that a call on the promise brings. -/
def ending? : Op (LoopValue T R) LoopCallback → Option (Ending R)
  | .set (.result value) => some (.ready value)
  | .fail message => some (.failed message)
  | .discarded => some .discarded
  | .set _ | .discard | .abandon _ | .on _ _ => none

end Loop

namespace LoopBody

/-- The frames in which code runs that is not the loop's. -/
def client : LoopBody → Bool
  | .other | .iterate _ | .body => true
  | _ => false

/-- The control of the loop in a frame. -/
def control? : LoopBody → Option (Control R)
  | .start | .begin => some .entering
  | .iterate _ => some (.calling .next)
  | .body => some (.calling .flow)
  | .run future | .check future => some (.awaiting .next future)
  | .inspect future => some (.awaiting .flow future)
  | .register stage future | .continuation stage future | .deferred stage future =>
      some (.awaiting stage future)
  | .other | .test _ | .publish _ | .recheck _ | .onDiscard | .discard _ => none

end LoopBody

namespace Loop

/-- The control of the loop in a dispatched job. -/
def jobControl : LoopJob → Control R
  | .start => .entering
  | .continuation stage future => .awaiting stage future

/-- The control of the loop in a call that has not executed. -/
def callControl? (promise : FutureId) :
    FutureId × Op (LoopValue T R) LoopCallback → Option (Control R)
  | (future, .on .onAny (.continuation stage)) => some (.awaiting stage future)
  | (future, op) => if future = promise then (ending? op).map .ended else none

/-- The control of the loop in calls, frames and jobs. -/
def held (promise : FutureId) (calls : List (FutureId × Op (LoopValue T R) LoopCallback))
    (bodies : List LoopBody) (mailbox : List LoopJob) : List (Control R) :=
  calls.filterMap (callControl? promise) ++ bodies.filterMap LoopBody.control? ++
    mailbox.map jobControl

variable {promise : FutureId} {pid : Bool}

section Relations

variable (promise pid) (status : FutureId → Status (LoopValue T R))

/-- What a step of one frame does: the new environment, and the calls and frames it
turns into. -/
inductive Moves (env : LoopEnv T) : LoopBody → LoopEnv T →
    List (FutureId × Op (LoopValue T R) LoopCallback) → List LoopBody → Prop where
  | call {frame : LoopBody} {future : FutureId} {op : Op (LoopValue T R) Unit} :
      frame.client = true → (future = promise → op.open = true) →
      Moves env frame env [(future, op.foreign .other)] [frame]
  | idle {frame : LoopBody} : frame.client = true → Moves env frame env [] [frame]
  | finish : Moves env .other env [] []
  | start : env.started = false →
      Moves env .other { env with started := true }
        [(promise, .on .onDiscard .onDiscard)] [.start, .other]
  | execute {index : Nat} {dispatched : LoopJob} : env.mailbox[index]? = some dispatched →
      Moves env .other { env with mailbox := env.mailbox.eraseIdx index } []
        [job dispatched, .other]
  | dispatch : pid = true →
      Moves env .start { env with mailbox := env.mailbox ++ [.start] } [] []
  | «begin» : pid = false → Moves env .start env [] [.begin]
  | enter : Moves env .begin { env with calls := env.calls ++ [.iterate] } [] [.iterate false]
  | iterate {inPlace : Bool} {future : FutureId} :
      Moves env (.iterate inPlace) { env with returned := env.returned ++ [future] } []
        [if inPlace then .check future else .run future]
  | reset {future : FutureId} :
      Moves env (.run future) { env with discard := none } [] [.check future]
  | body {future : FutureId} {value : T} : (status future).Holds (.next value) →
      Moves env (.check future) { env with calls := env.calls ++ [.body value] } [] [.body]
  | blockNext {future : FutureId} : (status future).state ≠ .ready →
      Moves env (.check future) env [] [.register .next future]
  | flow {future : FutureId} :
      Moves env .body { env with returned := env.returned ++ [future] } [] [.inspect future]
  | again {future : FutureId} : (status future).Holds (.flow .Continue) →
      Moves env (.inspect future) { env with calls := env.calls ++ [.iterate] } []
        [.iterate true]
  | blockFlow {future : FutureId} : (status future).state ≠ .ready →
      Moves env (.inspect future) env [] [.register .flow future]
  | ends {frame : LoopBody} {stage : Stage} {future : FutureId} {ending : Ending R} :
      frame = .continuation stage future ∨ frame = .inspect future ∧ stage = .flow →
      (status future).ending? stage = some ending →
      Moves env frame env
        (if (status promise).associated then [] else [(promise, ending.op)]) []
  | register {stage : Stage} {future : FutureId} :
      Moves env (.register stage future) env [(future, .on .onAny (.continuation stage))]
        [.test future]
  | test {future : FutureId} :
      Moves env (.test future) env []
        [if (status promise).discard then .recheck future else .publish future]
  | publish {future : FutureId} :
      Moves env (.publish future) { env with discard := some future } [] [.recheck future]
  | discards {frame : LoopBody} {future : FutureId} :
      frame = .recheck future ∧ (status promise).discard = true ∨
        frame = .discard (some future) →
      Moves env frame { env with discards := future :: env.discards } [(future, .discard)] []
  | unset {future : FutureId} : (status promise).discard = false →
      Moves env (.recheck future) env [] []
  | nothing : Moves env (.discard none) env [] []
  | resume {future : FutureId} : (status future).state = .ready →
      Moves env (.continuation .next future) env [] [.run future]
  | «continue» {future : FutureId} : (status future).Holds (.flow .Continue) →
      Moves env (.continuation .flow future) env [] [.begin]
  | pending {stage : Stage} {future : FutureId} : (status future).state = .pending →
      Moves env (.continuation stage future) env [] []
  | defer {stage : Stage} {future : FutureId} :
      Moves env (.deferred stage future)
        { env with mailbox := env.mailbox ++ [.continuation stage future] } [] []
  | onDiscard : Moves env .onDiscard env [] [.discard env.discard]

/-- The control of the loop advances, with the history of its calls. -/
inductive Advance (calls : List (LoopCall T)) (returned : List FutureId) :
    Control R → Control R → List (LoopCall T) → List FutureId → Prop where
  | iterate : Advance calls returned .entering (.calling .next) (calls ++ [.iterate]) returned
  | yield {stage : Stage} (future : FutureId) :
      Advance calls returned (.calling stage) (.awaiting stage future) calls
        (returned ++ [future])
  | body {future : FutureId} {value : T} : (status future).Holds (.next value) →
      Advance calls returned (.awaiting .next future) (.calling .flow)
        (calls ++ [.body value]) returned
  | again {future : FutureId} : (status future).Holds (.flow .Continue) →
      Advance calls returned (.awaiting .flow future) (.calling .next)
        (calls ++ [.iterate]) returned
  | «continue» {future : FutureId} : (status future).Holds (.flow .Continue) →
      Advance calls returned (.awaiting .flow future) .entering calls returned
  | ends {stage : Stage} {future : FutureId} {ending : Ending R} :
      (status future).ending? stage = some ending →
      Advance calls returned (.awaiting stage future) (.ended ending) calls returned

end Relations

section Inversion

variable {status : FutureId → Status (LoopValue T R)} {env : LoopEnv T} {frame : LoopBody}
  {choice : LoopChoice T R} {effect : Outcome T R}

theorem foreign_moves (client : frame.client = true)
    (stepped : foreign promise status env frame choice = some effect) :
    Moves promise pid status env frame effect.env (effect.next.filterMap Activation.call?)
        (effect.next.filterMap Activation.body?) ∧
      effect.flags promise = (status promise).toFlags := by
  cases choice with
  | call future op =>
      simp only [foreign, Option.ite_none_left_eq_some, Option.some.injEq] at stepped
      obtain ⟨permitted, rfl⟩ := stepped
      exact ⟨.call client (by simpa using permitted), rfl⟩
  | flags future flags =>
      simp only [foreign, Option.ite_none_left_eq_some, Option.some.injEq] at stepped
      obtain ⟨other, rfl⟩ := stepped
      exact ⟨.idle client, by simp [Function.update_of_ne (Ne.symm other)]⟩
  | start | execute | finish | yield => simp [foreign] at stepped

/-- Completing the promise is skipped only if it is associated. -/
theorem complete_moves {stage : Stage} {future : FutureId} (ending : Ending R)
    (runs : frame = .continuation stage future ∨ frame = .inspect future ∧ stage = .flow)
    (ends : (status future).ending? stage = some ending) :
    Moves promise pid status env frame (complete promise status env ending.op).env
        ((complete promise status env ending.op).next.filterMap Activation.call?)
        ((complete promise status env ending.op).next.filterMap Activation.body?) ∧
      (complete promise status env ending.op).flags promise = (status promise).toFlags := by
  refine ⟨?_, rfl⟩
  have moves : Moves promise pid status env frame env
      (if (status promise).associated then [] else [(promise, ending.op)]) [] := .ends runs ends
  cases associated : (status promise).associated <;>
    simp only [associated, complete, continues, Bool.false_eq_true, if_true, if_false] at moves ⊢ <;>
    exact moves

theorem check_moves {future : FutureId} (stepped : check status env future = some effect) :
    Moves promise pid status env (.check future) effect.env
        (effect.next.filterMap Activation.call?) (effect.next.filterMap Activation.body?) ∧
      effect.flags promise = (status promise).toFlags := by
  simp only [check] at stepped
  split at stepped <;> simp only [reduceCtorEq, Option.some.injEq] at stepped <;>
    subst stepped
  next value ready result => exact ⟨.body ⟨ready, result⟩, rfl⟩
  next notReady _ => exact ⟨.blockNext notReady, rfl⟩

theorem inspect_moves {future : FutureId}
    (stepped : inspect promise status env future = some effect) :
    Moves promise pid status env (.inspect future) effect.env
        (effect.next.filterMap Activation.call?) (effect.next.filterMap Activation.body?) ∧
      effect.flags promise = (status promise).toFlags := by
  simp only [inspect] at stepped
  split at stepped <;> simp only [reduceCtorEq, Option.some.injEq] at stepped <;>
    subst stepped
  next ready result => exact ⟨.again ⟨ready, result⟩, rfl⟩
  next value ready result =>
      exact complete_moves (.ready value) (.inr ⟨rfl, rfl⟩)
        (by simp [Status.ending?, ready, result])
  next notReady _ _ => exact ⟨.blockFlow notReady, rfl⟩

theorem continuation_moves {stage : Stage} {future : FutureId}
    (stepped : continuation promise status env stage future = some effect) :
    Moves promise pid status env (.continuation stage future) effect.env
        (effect.next.filterMap Activation.call?) (effect.next.filterMap Activation.body?) ∧
      effect.flags promise = (status promise).toFlags := by
  simp only [continuation] at stepped
  split at stepped <;> simp only [reduceCtorEq, Option.some.injEq] at stepped <;>
    subst stepped
  next ready => exact ⟨.resume ready, rfl⟩
  next ready result => exact ⟨.continue ⟨ready, result⟩, rfl⟩
  next value ready result =>
      exact complete_moves (.ready value) (.inl rfl) (by simp [Status.ending?, ready, result])
  next message failed result =>
      exact complete_moves (.failed message) (.inl rfl)
        (by simp [Status.ending?, failed, result])
  next discarded =>
      exact complete_moves .discarded (.inl rfl) (by simp [Status.ending?, discarded])
  next pending => exact ⟨.pending pending, rfl⟩

/-- Every step of the code is in the relation and leaves the flags of the loop's own
future alone. -/
theorem step_moves (stepped : step promise pid status env frame choice = some effect) :
    Moves promise pid status env frame effect.env (effect.next.filterMap Activation.call?)
        (effect.next.filterMap Activation.body?) ∧
      effect.flags promise = (status promise).toFlags := by
  cases frame with
  | other =>
      cases choice with
      | start =>
          simp only [step, start, Option.ite_none_left_eq_some, Option.some.injEq] at stepped
          obtain ⟨fresh, rfl⟩ := stepped
          exact ⟨.start (by simpa using fresh), rfl⟩
      | execute index =>
          simp only [step, Option.map_eq_some_iff] at stepped
          obtain ⟨dispatched, found, rfl⟩ := stepped
          exact ⟨.execute found, rfl⟩
      | finish =>
          cases stepped
          exact ⟨.finish, rfl⟩
      | call | flags | yield =>
          simp only [step] at stepped
          exact foreign_moves rfl stepped
  | start =>
      simp only [step] at stepped
      split at stepped <;> cases stepped
      next executor => exact ⟨.dispatch executor, rfl⟩
      next none => exact ⟨.begin (by simpa using none), rfl⟩
  | iterate inPlace =>
      cases choice with
      | «yield» future =>
          cases stepped
          exact ⟨.iterate, rfl⟩
      | call | flags | start | execute | finish =>
          simp only [step] at stepped
          exact foreign_moves rfl stepped
  | body =>
      cases choice with
      | «yield» future =>
          cases stepped
          exact ⟨.flow, rfl⟩
      | call | flags | start | execute | finish =>
          simp only [step] at stepped
          exact foreign_moves rfl stepped
  | check future => exact check_moves stepped
  | inspect future => exact inspect_moves stepped
  | continuation stage future => exact continuation_moves stepped
  | recheck future =>
      simp only [step] at stepped
      split at stepped <;> cases stepped
      next set => exact ⟨.discards (.inl ⟨rfl, set⟩), rfl⟩
      next unset => exact ⟨.unset (by simpa using unset), rfl⟩
  | discard function =>
      cases function <;> simp only [step, Option.some.injEq] at stepped <;> subst stepped
      · exact ⟨.nothing, rfl⟩
      · exact ⟨.discards (.inr rfl), rfl⟩
  | «begin» | run | register | test | publish | deferred | onDiscard =>
      cases stepped
      exact ⟨by constructor, rfl⟩

end Inversion

/-! ## What a step does to the control -/

@[simp] theorem ending?_op (ending : Ending R) :
    ending? (T := T) ending.op = some ending := by
  cases ending <;> rfl

theorem ending?_of_not_completes {op : Op (LoopValue T R) LoopCallback}
    (keeps : op.completes = false) : ending? op = none := by
  cases op <;> simp_all [Op.completes, ending?]

theorem callControl?_op (ending : Ending R) :
    callControl? (T := T) promise (promise, ending.op) = some (.ended ending) := by
  cases ending <;> simp [callControl?, Ending.op, ending?]

/-- A call with the control is on the promise or registers a continuation. -/
theorem callControl?_eq_some {future : FutureId} {op : Op (LoopValue T R) LoopCallback}
    {found : Control R} (holds : callControl? promise (future, op) = some found) :
    future = promise ∨ ∃ stage, found = .awaiting stage future := by
  simp only [callControl?] at holds
  split at holds
  · simp only [Option.some.injEq] at holds
    rename_i stage same
    simp only [Prod.mk.injEq] at same
    exact .inr ⟨stage, by rw [← holds, same.1]⟩
  · split at holds
    · exact .inl (by simp_all)
    · simp at holds

theorem callControl?_foreign {future : FutureId} {op : Op (LoopValue T R) Unit}
    (permitted : future = promise → op.open = true) :
    callControl? promise (future, op.foreign .other) = none := by
  cases op <;> simp_all [Op.foreign, callControl?, ending?, Op.open]

/-- Executing a job takes it from the queue. -/
theorem perm_eraseIdx {mailbox : List LoopJob} {index : Nat} {dispatched : LoopJob}
    (found : mailbox[index]? = some dispatched) :
    (dispatched :: mailbox.eraseIdx index).Perm mailbox := by
  obtain ⟨bound, rfl⟩ := List.getElem?_eq_some_iff.mp found
  exact List.getElem_cons_eraseIdx_perm bound

section Control

variable {status : FutureId → Status (LoopValue T R)} {env next : LoopEnv T}
  {frame : LoopBody} {made : List (FutureId × Op (LoopValue T R) LoopCallback)}
  {entered : List LoopBody}

/-- A step passes the control on or has none, advances it, or starts the loop. -/
theorem Moves.control (moves : Moves promise pid status env frame next made entered)
    (unassociated : (status promise).associated = false)
    (completed : ∀ stage future, frame = .continuation stage future →
      (status future).state ≠ .pending) :
    ((held promise made entered next.mailbox).Perm
        (frame.control?.toList ++ env.mailbox.map jobControl) ∧
      next.started = env.started ∧ next.calls = env.calls ∧ next.returned = env.returned) ∨
    (∃ control target, frame.control? = some control ∧
      (held promise made entered next.mailbox).Perm (target :: env.mailbox.map jobControl) ∧
      next.started = env.started ∧
      Advance status env.calls env.returned control target next.calls next.returned) ∨
    (frame.control? = none (α := Control R) ∧
      (held promise made entered next.mailbox).Perm (.entering :: env.mailbox.map jobControl) ∧
      env.started = false ∧ next.started = true ∧ next.calls = env.calls ∧
      next.returned = env.returned) := by
  cases moves with
  | call client permitted =>
      refine .inl ⟨?_, rfl, rfl, rfl⟩
      cases control : frame.control? (R := R) <;>
        simp [held, callControl?_foreign permitted, control]
  | idle client =>
      refine .inl ⟨?_, rfl, rfl, rfl⟩
      cases control : frame.control? (R := R) <;> simp [held, control]
  | start fresh =>
      refine .inr (.inr ⟨rfl, ?_, fresh, rfl, rfl, rfl⟩)
      simp [held, callControl?, ending?, LoopBody.control?, List.filterMap_cons]
  | @execute index dispatched found =>
      refine .inl ⟨?_, rfl, rfl, rfl⟩
      have entered : [job dispatched, .other].filterMap (LoopBody.control? (R := R)) =
          [jobControl dispatched] := by
        cases dispatched <;> rfl
      simpa [held, entered, LoopBody.control?] using (perm_eraseIdx found).map jobControl
  | dispatch | defer =>
      refine .inl ⟨?_, rfl, rfl, rfl⟩
      simp [held, LoopBody.control?, jobControl]
  | enter => exact .inr (.inl ⟨_, _, rfl, by simp [held, LoopBody.control?], rfl, .iterate⟩)
  | @iterate inPlace future =>
      refine .inr (.inl ⟨_, .awaiting .next future, rfl, ?_, rfl, .yield future⟩)
      cases inPlace <;> simp [held, LoopBody.control?]
  | body holds =>
      exact .inr (.inl ⟨_, _, rfl, by simp [held, LoopBody.control?], rfl, .body holds⟩)
  | @flow future =>
      exact .inr (.inl ⟨_, _, rfl, by simp [held, LoopBody.control?], rfl, .yield future⟩)
  | again holds =>
      exact .inr (.inl ⟨_, _, rfl, by simp [held, LoopBody.control?], rfl, .again holds⟩)
  | «continue» holds =>
      exact .inr (.inl ⟨_, _, rfl, by simp [held, LoopBody.control?], rfl, .continue holds⟩)
  | @ends frame stage future ending runs ends =>
      refine .inr (.inl ⟨.awaiting stage future, .ended ending, ?_, ?_, rfl, .ends ends⟩)
      · rcases runs with rfl | ⟨rfl, rfl⟩ <;> rfl
      · simp [held, unassociated, callControl?_op]
  | pending pending => exact absurd pending (completed _ _ rfl)
  | @test future =>
      refine .inl ⟨?_, rfl, rfl, rfl⟩
      split <;> simp [held, LoopBody.control?, List.filterMap_cons]
  | discards runs =>
      refine .inl ⟨?_, rfl, rfl, rfl⟩
      rcases runs with ⟨rfl, -⟩ | rfl <;> simp [held, LoopBody.control?, callControl?, ending?]
  | finish | «begin» | reset | blockNext | blockFlow | register | publish | unset
  | nothing | resume | onDiscard =>
      refine .inl ⟨?_, rfl, rfl, rfl⟩
      simp [held, LoopBody.control?, callControl?, ending?, List.filterMap_cons]

end Control

/-! ## Where calls, frames and jobs come from -/

/-- Where each callback may be registered. -/
def Place (promise future : FutureId) (kind : CallbackKind) : LoopCallback → Prop
  | .other => True
  | .onDiscard => future = promise ∧ kind = .onDiscard
  | .continuation _ => kind = .onAny

section Origins

variable {status : FutureId → Status (LoopValue T R)} {env next : LoopEnv T}
  {frame : LoopBody} {made : List (FutureId × Op (LoopValue T R) LoopCallback)}
  {entered : List LoopBody}

section

variable (moves : Moves promise pid status env frame next made entered)

include moves

theorem Moves.place {future : FutureId} {kind : CallbackKind} {callback : LoopCallback}
    (member : (future, .on kind callback) ∈ made) : Place promise future kind callback := by
  cases moves with
  | @call _ _ op _ _ =>
      simp only [List.mem_singleton, Prod.mk.injEq] at member
      cases op <;> simp_all [Op.foreign, Place]
  | @ends _ _ _ ending _ _ =>
      split at member
      · simp at member
      · cases ending <;> simp [Ending.op] at member
  | start | register | discards => simp_all [Place]
  | _ => simp at member

/-- The loop completes its promise with an ending. -/
theorem Moves.completing {op : Op (LoopValue T R) LoopCallback} (member : (promise, op) ∈ made)
    (completes : op.completes = true) : (ending? op).isSome := by
  cases moves with
  | call _ permitted =>
      simp only [List.mem_singleton] at member
      cases member
      simp [Op.completes_foreign (permitted rfl)] at completes
  | ends =>
      split at member <;> simp at member
      simp [member]
  | start | register | discards => simp_all [Op.completes]
  | _ => simp at member

/-- A continuation runs or is dispatched for a future it was invoked with. -/
theorem Moves.continuation {stage : Stage} {future : FutureId}
    (present : .continuation stage future ∈ entered ∨ .deferred stage future ∈ entered ∨
      .continuation stage future ∈ next.mailbox) :
    frame = .deferred stage future ∨ .continuation stage future ∈ env.mailbox := by
  cases moves with
  | call client | idle client =>
      rcases present with member | member | queued
      · simp only [List.mem_singleton] at member
        simp [← member, LoopBody.client] at client
      · simp only [List.mem_singleton] at member
        simp [← member, LoopBody.client] at client
      · exact .inr queued
  | @execute index dispatched found =>
      rcases present with member | member | queued
      · cases dispatched <;> simp [job] at member
        obtain ⟨rfl, rfl⟩ := member
        exact .inr (List.mem_of_getElem? found)
      · cases dispatched <;> simp [job] at member
      · exact .inr (List.mem_of_mem_eraseIdx queued)
  | @iterate inPlace => cases inPlace <;> simp_all
  | test => split at present <;> simp_all
  | defer =>
      simp only [List.not_mem_nil, List.mem_append, List.mem_singleton,
        LoopJob.continuation.injEq, false_or] at present
      rcases present with queued | ⟨rfl, rfl⟩
      · exact .inr queued
      · exact .inl rfl
  | _ => simp_all

end

end Origins

end Loop

end Libprocess
