import Libprocess.Endpoints.Process

/-!
# The order of the handlers

A request passes through a line of queues: the events of the process, the events of the
sequence and the callbacks of the sequence, first for the authentication and then for the
authorization.  Every step takes the first request of one queue to the end of the next one,
except for the request for an endpoint that streams: it passes by the requests whose bodies
were read and which are deferred.
-/

namespace Libprocess.Endpoints

open Concurrency Sequence

variable {handlers : List String → Option HttpEndpoint}

def Event.deferred : Event → Option Deferred
  | .http _ _ => none
  | .dispatch deferred => some deferred

/-- The requests that are at a stage. -/
def requestsAt (stage : Stage) (calls : List Deferred) : List Nat :=
  (calls.filter (·.stage = stage)).map (·.request)

@[simp] theorem requestsAt_nil (stage : Stage) : requestsAt stage [] = [] := rfl

@[simp] theorem requestsAt_append (stage : Stage) (left right : List Deferred) :
    requestsAt stage (left ++ right) = requestsAt stage left ++ requestsAt stage right := by
  simp [requestsAt]

@[simp] theorem requestsAt_cons (stage : Stage) (call : Deferred) (calls : List Deferred) :
    requestsAt stage (call :: calls) =
      (if call.stage = stage then [call.request] else []) ++ requestsAt stage calls := by
  by_cases same : call.stage = stage <;> simp [requestsAt, same]

/-- The request of an event, if there is an endpoint for it. -/
def Event.arrival (handlers : List String → Option HttpEndpoint) : Event → Option Nat
  | .http request name => (find handlers name).map fun _ => request
  | .dispatch _ => none

/-- The requests for which there is an endpoint, in the order in which they were delivered. -/
def routed (handlers : List String → Option HttpEndpoint) (requests : List (List String)) :
    List Nat :=
  (List.range requests.length).filter fun request =>
    (find handlers (requests.getD request [])).isSome

theorem routed_append (requests : List (List String)) (name : List String) :
    routed handlers (requests ++ [name]) = routed handlers requests ++
      if (find handlers name).isSome then [requests.length] else [] := by
  have same : (List.range requests.length).filter (fun request =>
        (find handlers ((requests ++ [name]).getD request [])).isSome) =
      routed handlers requests := by
    refine List.filter_congr fun request member => ?_
    rw [List.getD_eq_getElem?_getD, List.getElem?_append_left (List.mem_range.mp member),
      ← List.getD_eq_getElem?_getD]
  simp only [routed, List.length_append, List.length_singleton, List.range_succ,
    List.filter_append] at same ⊢
  rw [same]
  simp [List.filter_cons]

namespace SequenceProcess

variable {sequence next : SequenceProcess}

/-- The callbacks whose futures are pending. -/
def pending (sequence : SequenceProcess) : List Nat :=
  (List.range sequence.count).filter fun number => (sequence.entry number).result = none

theorem pending_congr (count : next.count = sequence.count)
    (results : ∀ number, (next.entry number).result = none ↔
      (sequence.entry number).result = none) : pending next = pending sequence := by
  simp only [pending, count, results]

/-- The first future that is pending is completed. -/
theorem pending_cons {number : Nat} (count : next.count = sequence.count)
    (others : ∀ other ≠ number, next.entry other = sequence.entry other)
    (added : number < sequence.count) (before : (sequence.entry number).result = none)
    (after : (next.entry number).result ≠ none)
    (previous : ∀ previous < number, (next.entry previous).result ≠ none) :
    pending sequence = number :: pending next := by
  have split : List.range sequence.count = List.range number ++
      number :: List.range' (number + 1) (sequence.count - (number + 1)) := by
    have whole : sequence.count = number + (sequence.count - (number + 1) + 1) := by omega
    conv_lhs => rw [whole]
    rw [List.range_eq_range', List.range_eq_range', ← List.range'_succ, ← List.range'_append_1,
      Nat.zero_add]
  have empty (state : SequenceProcess)
      (done : ∀ previous < number, (state.entry previous).result ≠ none) :
      (List.range number).filter (fun number => (state.entry number).result = none) = [] := by
    simpa using done
  have same : (List.range' (number + 1) (sequence.count - (number + 1))).filter
        (fun number => (next.entry number).result = none) =
      (List.range' (number + 1) (sequence.count - (number + 1))).filter
        (fun number => (sequence.entry number).result = none) := by
    refine List.filter_congr fun other member => ?_
    have := List.mem_range'_1.mp member
    rw [others other (by omega)]
  simp only [pending, count, split, List.filter_append, empty next previous,
    empty sequence fun other less => others other (Nat.ne_of_lt less) ▸ previous other less]
  simp [before, after, same]

theorem pending_add (sequence : SequenceProcess) :
    pending sequence.add = pending sequence ++ [sequence.count] := by
  have fresh : sequence.add.entry sequence.count = Entry.init := by
    simp [SequenceProcess.add, SequenceProcess.setHooks]
  have same : (List.range sequence.count).filter
      (fun number => (sequence.add.entry number).result = none) = pending sequence := by
    refine List.filter_congr fun number member => ?_
    have less := List.mem_range.mp member
    rw [show sequence.add.entry number = sequence.entry number from
      Function.update_of_ne (Nat.ne_of_lt less) _ _]
  rw [pending, show sequence.add.count = sequence.count + 1 from rfl, List.range_succ,
    List.filter_append, same]
  simp [fresh, Entry.init]

theorem run_frame {thread : Nat} {returned : Option Outcome}
    (stepped : sequence.step (.run thread returned) = some next) :
    next.count = sequence.count ∧ next.requested = sequence.requested ∧
      next.finalized = sequence.finalized := by
  cases SequenceProcess.step_cases stepped with
  | run _ hook =>
      obtain ⟨requested, finalized, -⟩ := SequenceProcess.call_requests sequence returned hook
      exact ⟨SequenceProcess.call_count sequence returned hook, requested, finalized⟩

/-- The result of a callback changes when its future is associated. -/
theorem result_run {thread : Nat} {hook : Hook} {hooks : List Hook} {returned : Option Outcome}
    (top : sequence.hooks thread = hook :: hooks)
    (stepped : sequence.step (.run thread returned) = some next)
    (undiscarded : (sequence.entry hook.number).discard = false) :
    (next.entry hook.number).result =
      if hook = .associate hook.number then returned
      else (sequence.entry hook.number).result := by
  simp only [SequenceProcess.step, top] at stepped
  cases stepped
  cases hook with
  | discardFuture | discardInner | discardNotifier =>
      rw [if_neg (by simp)]
      exact ((SequenceProcess.call_of_stays sequence returned rfl).2.2.2.2 _).result
  | completed number =>
      rw [if_neg (by simp)]
      simp [SequenceProcess.call, SequenceProcess.setHooks, Hook.number]
  | notified number =>
      rw [if_neg (by simp)]
      simp only [Hook.number] at undiscarded
      simp [SequenceProcess.call, SequenceProcess.notified, SequenceProcess.setHooks, undiscarded]
  | invoke number =>
      rw [if_neg (by simp)]
      simp [SequenceProcess.call, SequenceProcess.invoke, SequenceProcess.setHooks, Hook.number]
  | associate number =>
      simp [SequenceProcess.call, SequenceProcess.associate, SequenceProcess.setHooks, Hook.number]

end SequenceProcess

namespace ProcessBase

variable {process next : ProcessBase}

/-- The requests at a stage: in the event queue, then in the sequence, then on the way to
the sequence. -/
def queued (process : ProcessBase) (stage : Stage) : List Nat :=
  requestsAt stage (process.events.filterMap Event.deferred) ++
    requestsAt stage (process.callbacks.map (·.2)) ++ requestsAt stage process.additions

/-- All requests, the one that is furthest first. -/
def line (handlers : List String → Option HttpEndpoint) (process : ProcessBase) : List Nat :=
  process.handled ++ process.queued .handle ++ process.queued .authorize ++
    requestsAt .consume (process.events.filterMap Event.deferred) ++
      process.events.filterMap (Event.arrival handlers)

/-- The next event is not a request for an endpoint that streams, while another request whose
body was read is deferred. -/
def inTurn (handlers : List String → Option HttpEndpoint) (process : ProcessBase) :
    Label → Bool
  | .consume =>
      match process.events with
      | .http _ name :: events =>
          match find handlers name with
          | some endpoint => !endpoint.requestStreaming ||
              (events.filterMap Event.deferred).all (·.stage ≠ .consume)
          | none => true
      | _ => true
  | _ => true

theorem line_consume {event : Event} {events : List Event} (top : process.events = event :: events)
    (inTurn : process.inTurn handlers .consume = true) :
    ({ process with events }.consume handlers event).line handlers = process.line handlers := by
  cases event with
  | http request name =>
      simp only [ProcessBase.inTurn, top] at inTurn
      cases found : find handlers name with
      | none =>
          simp [line, queued, top, consume, found, Event.deferred, Event.arrival, List.filterMap_cons]
      | some endpoint =>
          rw [found] at inTurn
          cases streaming : endpoint.requestStreaming with
          | false =>
              simp [line, queued, top, consume, found, streaming, dispatch, Event.deferred,
                Event.arrival, List.filterMap_cons]
          | true =>
              have none : requestsAt .consume (events.filterMap Event.deferred) = [] := by
                simp only [streaming, Bool.not_true, Bool.false_or, List.all_eq_true,
                  decide_eq_true_eq] at inTurn
                simpa [requestsAt] using inTurn
              simp [line, queued, top, consume, found, streaming, _consume, addSequence, none,
                Event.deferred, Event.arrival, List.filterMap_cons]
  | dispatch deferred =>
      obtain ⟨stage, request, endpoint⟩ := deferred
      cases stage with
      | consume | authorize | handle =>
          simp [line, queued, top, consume, _consume, addSequence, Event.deferred, Event.arrival,
            List.filterMap_cons]

/-- To consume an event changes the queues only. -/
theorem consume_frame (handlers : List String → Option HttpEndpoint) (process : ProcessBase)
    (event : Event) :
    (process.consume handlers event).requests = process.requests ∧
      (process.consume handlers event).callbacks = process.callbacks ∧
      (process.consume handlers event).sequence = process.sequence ∧
      ∀ deferred ∈ (process.consume handlers event).additions,
        deferred ∈ process.additions ∨ deferred.stage ≠ .consume := by
  have added (call : Deferred) (later : call.stage ≠ .consume) :
      ∀ deferred ∈ (process.addSequence call).additions,
        deferred ∈ process.additions ∨ deferred.stage ≠ .consume := by
    intro deferred member
    refine (List.mem_append.mp member).imp id fun new => ?_
    rwa [List.mem_singleton.mp new]
  cases event with
  | http request name =>
      simp only [consume]
      split
      · exact ⟨rfl, rfl, rfl, fun _ => .inl⟩
      · split
        · exact ⟨rfl, rfl, rfl, added _ nofun⟩
        · exact ⟨rfl, rfl, rfl, fun _ => .inl⟩
  | dispatch deferred =>
      obtain ⟨stage, request, endpoint⟩ := deferred
      cases stage with
      | consume | authorize => exact ⟨rfl, rfl, rfl, added _ nofun⟩
      | handle => exact ⟨rfl, rfl, rfl, fun _ => .inl⟩

/-- A callback is added to the sequence. -/
theorem line_add {deferred : Deferred} {additions : List Deferred} (number : Nat)
    (sequence : SequenceProcess) (top : process.additions = deferred :: additions) :
    ({ process with
        additions
        callbacks := process.callbacks ++ [(number, deferred)]
        sequence } : ProcessBase).line handlers = process.line handlers := by
  simp [line, queued, top]

/-- The future of the first callback becomes ready. -/
theorem line_ready {number : Nat} {deferred : Deferred} {callbacks : List (Nat × Deferred)}
    (sequence : SequenceProcess) (top : process.callbacks = (number, deferred) :: callbacks)
    (later : deferred.stage ≠ .consume) :
    ({ process with
        sequence
        events := process.events ++ [.dispatch deferred]
        callbacks } : ProcessBase).line handlers = process.line handlers := by
  obtain ⟨stage, request, endpoint⟩ := deferred
  cases stage with
  | consume => exact absurd rfl later
  | authorize | handle =>
      simp [line, queued, top, Event.deferred, Event.arrival, List.filterMap_cons]

/-- The requests are in line, and the callbacks wait for the futures that are pending. -/
structure InLine (handlers : List String → Option HttpEndpoint) (process : ProcessBase) :
    Prop where
  reached : SequenceProcess.machine.Reachable process.sequence
  undisturbed : process.sequence.requested = [] ∧ process.sequence.finalized = false
  callbacks : process.callbacks.map (·.1) = SequenceProcess.pending process.sequence
  stages : ∀ deferred, deferred ∈ process.additions ∨ deferred ∈ process.callbacks.map (·.2) →
    deferred.stage ≠ .consume
  line : process.line handlers = routed handlers process.requests

theorem InLine.init : InLine handlers init :=
  ⟨.start rfl, ⟨rfl, rfl⟩, rfl, nofun, rfl⟩

/-- The sequence moves on. -/
theorem InLine.advance {number : Nat} {event : SequenceEvent} {sequence : SequenceProcess}
    (inLine : process.InLine handlers) (stepped : process.sequence.step event = some sequence)
    (undisturbed : sequence.requested = [] ∧ sequence.finalized = false)
    (count : sequence.count = process.sequence.count)
    (others : ∀ other ≠ number, sequence.entry other = process.sequence.entry other)
    (result : (sequence.entry number).result = (process.sequence.entry number).result ∨
      number < process.sequence.count ∧ (process.sequence.entry number).result = none ∧
        (sequence.entry number).result = some .ready) :
    (process.advance number sequence).InLine handlers := by
  have reached := inLine.reached.step True.intro stepped
  unfold ProcessBase.advance
  rcases result with same | ⟨added, pending, ready⟩
  · rw [if_neg fun both => by simp [same, both.1] at both]
    refine ⟨reached, undisturbed, ?_, inLine.stages, inLine.line⟩
    refine inLine.callbacks.trans (SequenceProcess.pending_congr count fun other => ?_).symm
    by_cases own : other = number
    · rw [own, same]
    · rw [others other own]
  · rw [if_pos ⟨pending, ready⟩]
    -- The futures are completed in order, so the first callback is the one that waited.
    obtain ⟨⟨turn, holder, isTurn⟩, recorded, -⟩ :=
      SequenceProcess.consistent_of_reachable reached
    have callbacks := inLine.callbacks.trans (SequenceProcess.pending_cons count others added
      pending (by simp [ready]) fun previous before =>
        isTurn.previous_done recorded (.inr (by simp [ready])) before)
    obtain ⟨⟨owner, deferred⟩, rest, top, same, remaining⟩ := List.map_eq_cons_iff.mp callbacks
    change owner = number at same
    subst same
    have different (callback : Nat × Deferred) (member : callback ∈ rest) :
        callback.1 ≠ owner := by
      have mem : callback.1 ∈ SequenceProcess.pending sequence :=
        remaining ▸ List.mem_map_of_mem member
      intro same
      rw [same] at mem
      simp [SequenceProcess.pending, ready] at mem
    have own : process.callbacks.filter (·.1 = owner) = [(owner, deferred)] := by
      rw [top, List.filter_cons_of_pos (by simp), List.filter_eq_nil_iff.mpr]
      simpa using fun number call member => different (number, call) member
    have left : process.callbacks.filter (·.1 ≠ owner) = rest := by
      rw [top, List.filter_cons_of_neg (by simp), List.filter_eq_self]
      simpa using fun number call member => different (number, call) member
    rw [own, left]
    have later : deferred.stage ≠ .consume := inLine.stages deferred (.inr (by simp [top]))
    refine ⟨reached, undisturbed, remaining, fun other member => ?_,
      (line_ready sequence top later).trans inLine.line⟩
    refine inLine.stages other (member.imp id fun known => ?_)
    rw [top]
    exact List.mem_cons_of_mem _ known

theorem InLine.run {thread : Nat} {returned : Option Outcome} (inLine : process.InLine handlers)
    (stepped : process.step handlers (.run thread returned) = some next) :
    next.InLine handlers := by
  simp only [ProcessBase.step] at stepped
  split at stepped
  · cases stepped
  rename_i hook hooks top
  split at stepped
  · rename_i permitted
    obtain ⟨sequence, moved, rfl⟩ := Option.map_eq_some_iff.mp stepped
    have ⟨⟨turn, holder, isTurn⟩, _, requests, _, _⟩ :=
      SequenceProcess.consistent_of_reachable inLine.reached
    have undiscarded : (process.sequence.entry hook.number).discard = false := by
      refine Bool.eq_false_iff.mpr fun discard => ?_
      have known := requests.discarded hook.number discard
      simp [inLine.undisturbed] at known
    have result := SequenceProcess.result_run top moved undiscarded
    have others := (SequenceProcess.invocations_run top moved).1
    obtain ⟨count, requested, finalized⟩ := SequenceProcess.run_frame moved
    refine inLine.advance moved ⟨requested.trans inLine.undisturbed.1,
      finalized.trans inLine.undisturbed.2⟩ count others ?_
    by_cases associate : hook = .associate hook.number
    · rw [if_pos associate] at result
      obtain ⟨number, rfl⟩ : ∃ number, hook = .associate number := ⟨_, associate⟩
      obtain ⟨-, -, added, rfl, waits⟩ := isTurn.top top rfl
      have member : number ∈ process.callbacks.map (·.1) := by
        rw [inLine.callbacks]
        simpa [SequenceProcess.pending, waits.result] using added
      obtain ⟨callback, among, rfl⟩ := List.mem_map.mp member
      have permits := permitted callback among rfl
      rcases returned with - | outcome
      · exact .inl (result.trans waits.result.symm)
      · obtain rfl : outcome = .ready := by simpa [Deferred.permits] using permits
        exact .inr ⟨added, waits.result, result⟩
    · rw [if_neg associate] at result
      exact .inl result
  · cases stepped

theorem InLine.complete {thread number : Nat} (inLine : process.InLine handlers)
    (stepped : process.step handlers (.complete thread number) = some next) :
    next.InLine handlers := by
  simp only [ProcessBase.step] at stepped
  obtain ⟨sequence, moved, rfl⟩ := Option.map_eq_some_iff.mp stepped
  have recorded := (SequenceProcess.consistent_of_reachable inLine.reached).recorded.entries number
  cases SequenceProcess.step_cases moved with
  | complete _ _ _ added associated pending =>
      refine inLine.advance moved inLine.undisturbed rfl (fun other different => ?_)
        (.inr ⟨added, (recorded.invoked (recorded.associated associated)).trans pending, ?_⟩)
      · exact Function.update_of_ne different _ _
      · simp [SequenceProcess.setHooks]

theorem InLine.add (inLine : process.InLine handlers)
    (stepped : process.step handlers .add = some next) : next.InLine handlers := by
  simp only [ProcessBase.step] at stepped
  split at stepped
  · cases stepped
  rename_i deferred additions top
  obtain ⟨sequence, moved, rfl⟩ := Option.map_eq_some_iff.mp stepped
  have reached : SequenceProcess.machine.Reachable sequence :=
    inLine.reached.step True.intro (show SequenceProcess.machine.step _ .add = _ from moved)
  simp only [SequenceProcess.step] at moved
  split at moved <;> cases moved
  refine ⟨reached, inLine.undisturbed, ?_, fun other member => ?_,
    (line_add _ _ top).trans inLine.line⟩
  · rw [List.map_append, inLine.callbacks, SequenceProcess.pending_add]
    rfl
  · refine inLine.stages other ?_
    rw [top]
    simp only [List.map_append, List.mem_append, List.map_cons, List.map_nil,
      List.mem_singleton] at member
    rcases member with later | before | rfl
    · exact .inl (List.mem_cons_of_mem _ later)
    · exact .inr before
    · exact .inl List.mem_cons_self

theorem InLine.deliver (inLine : process.InLine handlers) (name : List String) :
    ({ process with
        requests := process.requests ++ [name]
        events := process.events ++ [.http process.requests.length name] } : ProcessBase).InLine
      handlers := by
  refine ⟨inLine.reached, inLine.undisturbed, inLine.callbacks, inLine.stages, ?_⟩
  rw [routed_append, ← inLine.line]
  cases found : find handlers name <;>
    simp [ProcessBase.line, queued, Event.deferred, Event.arrival, List.filterMap_cons, found]

theorem InLine.consume (inLine : process.InLine handlers)
    (inTurn : process.inTurn handlers .consume = true)
    (stepped : process.step handlers .consume = some next) : next.InLine handlers := by
  simp only [ProcessBase.step] at stepped
  split at stepped <;> cases stepped
  rename_i event events top
  obtain ⟨requests, callbacks, sequence, additions⟩ := consume_frame handlers
    { process with events } event
  refine ⟨?_, ?_, ?_, fun deferred member => ?_, ?_⟩
  · rw [sequence]
    exact inLine.reached
  · rw [sequence]
    exact inLine.undisturbed
  · rw [callbacks, sequence]
    exact inLine.callbacks
  · rw [callbacks] at member
    rcases member with added | waiting
    · exact (additions deferred added).elim (fun before => inLine.stages deferred (.inl before)) id
    · exact inLine.stages deferred (.inr waiting)
  · rw [line_consume top inTurn, requests]
    exact inLine.line

theorem InLine.step {label : Label} (inLine : process.InLine handlers)
    (inTurn : process.inTurn handlers label = true)
    (stepped : process.step handlers label = some next) : next.InLine handlers := by
  cases label with
  | deliver name =>
      cases stepped
      exact inLine.deliver name
  | consume => exact inLine.consume inTurn stepped
  | add => exact inLine.add stepped
  | run thread returned => exact inLine.run stepped
  | complete thread number => exact inLine.complete stepped

/-- If no request for an endpoint that streams is consumed while a request whose body was
read is deferred, the handlers are invoked in the order in which the requests were delivered.
When nothing is left to do, all of them were invoked. -/
theorem handlers_inOrder (handlers : List String → Option HttpEndpoint)
    (reached : (machine handlers).Reaches
      (fun process label => process.inTurn handlers label = true) process) :
    process.handled <+: routed handlers process.requests ∧
      (process.events = [] → process.additions = [] → process.callbacks = [] →
        process.handled = routed handlers process.requests) := by
  have inLine : process.InLine handlers := by
    refine reached.invariant (InLine handlers) ?_ ?_
    · rintro state rfl
      exact .init
    · intro state label next inLine inTurn stepped
      exact inLine.step inTurn stepped
  rw [← inLine.line]
  refine ⟨?_, fun events additions callbacks => ?_⟩
  · simp only [ProcessBase.line, List.append_assoc]
    exact List.prefix_append _ _
  · simp [ProcessBase.line, queued, events, additions, callbacks]

/-- An endpoint that streams requests, and one that does not. -/
def mixedHandlers : List String → Option HttpEndpoint
  | ["plain"] => some ⟨false, false⟩
  | ["stream"] => some ⟨true, true⟩
  | _ => none

/-- The sequence adds a callback and calls it, and its future is ready. -/
def addReady : List Label :=
  [.add, .run 0 none, .run 0 none, .run 0 (some .ready), .run 0 none]

def separateSchedule : List Label :=
  List.flatten [[.deliver ["plain", "a"], .consume, .deliver ["stream"], .consume, .consume],
    addReady, addReady, [.consume, .consume], addReady, addReady, [.consume, .consume]]

theorem handlers_inOrder_separate : ∃ process : ProcessBase, process.handled = [0, 1] ∧
    process.handled <+: routed mixedHandlers process.requests := by
  obtain ⟨process, ran, shape⟩ : ∃ process ∈ (machine mixedHandlers).run .init separateSchedule,
      process.handled = [0, 1] := by
    decide +kernel
  have permitted : (machine mixedHandlers).Along
      (fun process label => process.inTurn mixedHandlers label = true) .init separateSchedule := by
    decide +kernel
  exact ⟨process, shape, (handlers_inOrder mixedHandlers (.of_along (.start rfl) permitted ran)).1⟩

/-- A request for the endpoint that does not stream, and a request for the one that does,
are both delivered before the first is consumed. -/
def overtakingSchedule : List Label :=
  List.flatten [[.deliver ["plain"], .deliver ["stream"], .consume, .consume, .consume], addReady,
    addReady, [.consume, .consume], addReady, addReady, [.consume, .consume]]

theorem handlers_overtaken : ∃ process, (machine mixedHandlers).Reachable process ∧
    process.handled = [1, 0] ∧ routed mixedHandlers process.requests = [0, 1] ∧
    ¬ process.handled <+: routed mixedHandlers process.requests := by
  obtain ⟨process, ran, shape⟩ : ∃ process ∈ (machine mixedHandlers).run .init overtakingSchedule,
      process.handled = [1, 0] ∧ routed mixedHandlers process.requests = [0, 1] := by
    decide +kernel
  refine ⟨process, .of_run rfl ran, shape.1, shape.2, ?_⟩
  rw [shape.1, shape.2]
  decide

end ProcessBase

end Libprocess.Endpoints
