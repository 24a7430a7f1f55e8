import Libprocess.Concurrency.Automaton
import Libprocess.Process.MpscLinkedQueue

/-!
# The lock-free event queue

`EventQueue` as it is compiled with `LOCK_FREE_EVENT_QUEUE`, with any number of
producers and one consumer.  The history records what was pushed, what each call
of `enqueue` returned, and what became of the events.
-/

namespace Libprocess

open Concurrency

variable {α : Type}

/-- Program points of `EventQueue::enqueue`.  `late` marks a call that started
after `decomission` had returned. -/
inductive ProducerFrame (α : Type) where
  | load (event : α) (late : Bool)
  | push (frame : EnqueueFrame α) (late : Bool)
  deriving DecidableEq, Repr

/-- Who calls an operation of the linked queue: the consumer itself, or the loop
of `decomission`. -/
inductive Caller where
  | consumer
  | decomission
  deriving DecidableEq, Repr

/-- Program points of the consumer. -/
inductive ConsumerFrame where
  | idle
  | within (caller : Caller) (frame : ConsumeFrame)
  | decomission
  | returned
  deriving DecidableEq, Repr

/-- The lock-free `EventQueue`, its threads and its history. -/
structure LockFreeEventQueue (α : Type) where
  queue : MpscLinkedQueue α
  comissioned : Bool
  consumer : ConsumerFrame
  producers : Threads (ProducerFrame α)
  pushed : List α
  accepted : List (α × Bool)
  rejected : List (α × Bool)
  dequeued : List α
  deleted : List α

/-- Calls of the queue, and steps of the calls that are running. -/
inductive EventQueueMove (α : Type) where
  | enqueue (event : α)
  | producer (thread : Nat)
  | empty
  | dequeue
  | decomission
  | consumer
  deriving DecidableEq, Repr

namespace LockFreeEventQueue

/-- The history of a call of `enqueue` after one step of its push. -/
def record (state : LockFreeEventQueue α) (late : Bool) :
    EnqueueFrame α → LockFreeEventQueue α
  | .exchange event => { state with pushed := state.pushed ++ [event] }
  | .link _ _ event => { state with accepted := state.accepted ++ [(event, late)] }

/-- One step of a producer. -/
def produce (state : LockFreeEventQueue α) :
    ProducerFrame α → LockFreeEventQueue α × List (ProducerFrame α)
  | .load event late =>
      if state.comissioned then
        (state, [.push (.exchange event) late])
      else
        ({ state with rejected := state.rejected ++ [(event, late)] }, [])
  | .push frame late =>
      let block := state.queue.produce frame
      ({ state.record late frame with queue := block.1 },
        block.2.map fun frame => .push frame late)

/-- An operation of the linked queue goes on or returns to its caller. -/
def answer (state : LockFreeEventQueue α) (caller : Caller) :
    Consumed α → LockFreeEventQueue α
  | .running frame => { state with consumer := .within caller frame }
  | .empty result =>
      match caller with
      | .consumer => { state with consumer := .idle }
      | .decomission =>
          { state with
            consumer := if result then .returned else .within .decomission .dequeueNext }
  | .dequeued element =>
      match caller with
      | .consumer =>
          { state with consumer := .idle, dequeued := state.dequeued ++ element.toList }
      | .decomission =>
          { state with
            consumer := .within .decomission .emptyNext
            deleted := state.deleted ++ element.toList }

/-- One step of the consumer.  `decomission` stores `true`. -/
def consume (state : LockFreeEventQueue α) : Option (LockFreeEventQueue α) :=
  match state.consumer with
  | .idle => none
  | .returned => none
  | .decomission =>
      some { state with comissioned := true, consumer := .within .decomission .emptyNext }
  | .within caller frame =>
      let block := state.queue.consume frame
      some ({ state with queue := block.1 }.answer caller block.2)

/-- The consumer calls an operation. -/
def call (state : LockFreeEventQueue α) (frame : ConsumerFrame) :
    Option (LockFreeEventQueue α) :=
  if state.consumer = .idle then some { state with consumer := frame } else none

def step (state : LockFreeEventQueue α) : EventQueueMove α → Option (LockFreeEventQueue α)
  | .enqueue event =>
      some { state with
        producers := state.producers.spawn (.load event (state.consumer = .returned)) }
  | .producer thread => do
      let frame ← state.producers.top? thread
      let block := state.produce frame
      return { block.1 with producers := state.producers.resume thread block.2 }
  | .empty => state.call (.within .consumer .emptyNext)
  | .dequeue => state.call (.within .consumer .dequeueNext)
  | .decomission => state.call .decomission
  | .consumer => state.consume

def new : LockFreeEventQueue α where
  queue := .new
  comissioned := true
  consumer := .idle
  producers := []
  pushed := []
  accepted := []
  rejected := []
  dequeued := []
  deleted := []

end LockFreeEventQueue

/-- All interleavings of producers with one consumer. -/
def lockFreeEventQueue (α : Type) :
    Automaton (LockFreeEventQueue α) (EventQueueMove α) where
  start state := state = .new
  step := LockFreeEventQueue.step

/-- The running push of a producer. -/
def ProducerFrame.push? : ProducerFrame α → Option (EnqueueFrame α)
  | .load _ _ => none
  | .push frame _ => some frame

/-- The event of a call that has exchanged `head` and not yet returned. -/
def ProducerFrame.pending : ProducerFrame α → Option α
  | .push (.link _ _ event) _ => some event
  | _ => none

def ProducerFrame.late : ProducerFrame α → Bool
  | .load _ late => late
  | .push _ late => late

/-- The running operation of the linked queue. -/
def ConsumerFrame.operation : ConsumerFrame → Option ConsumeFrame
  | .within _ frame => some frame
  | _ => none

/-- `decomission` has been called. -/
def ConsumerFrame.closing : ConsumerFrame → Bool
  | .idle => false
  | .within .consumer _ => false
  | _ => true

namespace LockFreeEventQueue

/-- The history agrees with the linked queue. -/
structure Consistent (state : LockFreeEventQueue α) : Prop where
  linked : Linked state.queue (state.producers.frames.filterMap ProducerFrame.push?)
    state.consumer.operation state.pushed
  taken : state.dequeued ++ state.deleted = state.pushed.take state.queue.tail
  returned : (state.accepted.map Prod.fst ++
    state.producers.frames.filterMap ProducerFrame.pending).Perm state.pushed
  undeleted : state.consumer.closing = false → state.deleted = []

variable {state next : LockFreeEventQueue α}

theorem new_consistent : (new : LockFreeEventQueue α).Consistent where
  linked := .new
  taken := rfl
  returned := .refl _
  undeleted _ := rfl

section

variable (consistent : state.Consistent)

include consistent

/-- A step of a producer keeps the history. -/
theorem Consistent.produce {thread : Nat}
    {frame : ProducerFrame α} (running : state.producers.top? thread = some frame)
    {follow : List (ProducerFrame α)} (stepped : state.produce frame = (next, follow)) :
    { next with producers := state.producers.resume thread follow }.Consistent := by
  have exchange := Threads.exchange running follow
  have length := consistent.linked.length
  have order := consistent.linked.order
  cases frame with
  | load event late =>
      have pushes := exchange.filterMap_of_none ProducerFrame.push? rfl
      have pendings := exchange.filterMap_of_none ProducerFrame.pending rfl
      simp only [LockFreeEventQueue.produce] at stepped
      split at stepped
      next =>
        obtain ⟨rfl, rfl⟩ := Prod.mk.inj stepped
        refine ⟨consistent.linked.reframe ?_ ?_, consistent.taken, ?_, consistent.undeleted⟩
        · intro node
          rw [pushes.countP_eq]
          simp [ProducerFrame.push?]
        · intro old new element member
          simpa [ProducerFrame.push?] using pushes.mem_iff.mp member
        · exact (pendings.append_left _).trans consistent.returned
      next =>
        obtain ⟨rfl, rfl⟩ := Prod.mk.inj stepped
        refine ⟨consistent.linked.reframe ?_ ?_, consistent.taken, ?_, consistent.undeleted⟩
        · intro node
          rw [pushes.countP_eq]
          rfl
        · intro old new element member
          exact pushes.mem_iff.mp member
        · exact (pendings.append_left _).trans consistent.returned
  | push frame late =>
      have pushes := exchange.filterMap ProducerFrame.push? rfl
      cases frame with
      | exchange event =>
          obtain ⟨rfl, rfl⟩ := Prod.mk.inj stepped
          have pendings := exchange.filterMap_of_none ProducerFrame.pending rfl
          refine ⟨consistent.linked.exchange pushes, ?_, ?_, consistent.undeleted⟩
          · change _ = (state.pushed ++ [event]).take state.queue.tail
            rw [List.take_append_of_le_length (by omega)]
            exact consistent.taken
          · have appended := consistent.returned.append_right [event]
            rw [List.append_assoc] at appended
            exact ((pendings.trans List.perm_append_comm).append_left _).trans appended
      | link old new event =>
          obtain ⟨rfl, rfl⟩ := Prod.mk.inj stepped
          have pendings := exchange.filterMap ProducerFrame.pending rfl
          refine ⟨consistent.linked.link pushes, consistent.taken, ?_, consistent.undeleted⟩
          simp only [record, List.map_append, List.map_cons, List.map_nil, List.append_assoc,
            List.cons_append, List.nil_append]
          exact (pendings.perm.append_left _).trans consistent.returned

/-- The operation that the consumer is in keeps the history. -/
theorem Consistent.answer {caller : Caller}
    {frame : ConsumeFrame} (within : state.consumer = .within caller frame)
    {queue : MpscLinkedQueue α} {outcome : Consumed α}
    (stepped : state.queue.consume frame = (queue, outcome)) :
    ({ state with queue := queue }.answer caller outcome).Consistent := by
  have linked := consistent.linked
  rw [within] at linked
  obtain ⟨kept, accounts⟩ := linked.consume stepped
  have taken := consistent.taken
  cases outcome with
  | running following =>
      refine ⟨kept, ?_, consistent.returned, ?_⟩
      · change _ = state.pushed.take queue.tail
        rw [accounts]
        exact taken
      · intro opened
        refine consistent.undeleted ?_
        rw [within]
        cases caller
        · rfl
        · cases opened
  | empty result =>
      have same : state.dequeued ++ state.deleted = state.pushed.take queue.tail := by
        rw [accounts.1]
        exact taken
      cases caller with
      | consumer =>
          refine ⟨kept, same, consistent.returned, fun _ => consistent.undeleted ?_⟩
          rw [within]
          rfl
      | decomission =>
          refine ⟨?_, same, consistent.returned, ?_⟩
          · cases result with
            | true => exact kept
            | false => exact kept.look rfl rfl (by rintro frame ⟨⟩ next ⟨⟩)
          · cases result <;> intro opened <;> cases opened
  | dequeued element =>
      have longer : state.dequeued ++ state.deleted ++ element.toList =
          state.pushed.take queue.tail := by
        cases element with
        | none =>
            rw [accounts.1, taken]
            simp
        | some event =>
            rw [accounts.1, taken, List.take_add_one, accounts.2]
      cases caller with
      | consumer =>
          have undeleted : state.deleted = [] := consistent.undeleted (by rw [within]; rfl)
          refine ⟨kept, ?_, consistent.returned, fun _ => undeleted⟩
          change (state.dequeued ++ element.toList) ++ state.deleted = _
          rw [undeleted, List.append_nil] at longer ⊢
          exact longer
      | decomission =>
          refine ⟨kept.look rfl rfl (by rintro frame ⟨⟩ next ⟨⟩), ?_, consistent.returned, ?_⟩
          · change state.dequeued ++ (state.deleted ++ element.toList) = _
            rw [← List.append_assoc]
            exact longer
          · intro opened
            cases opened

theorem Consistent.consume (stepped : state.consume = some next) : next.Consistent := by
  unfold LockFreeEventQueue.consume at stepped
  split at stepped
  next => cases stepped
  next => cases stepped
  next calling =>
    cases stepped
    refine ⟨?_, consistent.taken, consistent.returned, fun opened => by cases opened⟩
    exact consistent.linked.look (by rw [calling]; rfl) rfl (by rintro frame ⟨⟩ next ⟨⟩)
  next caller frame within =>
    cases stepped
    exact consistent.answer within rfl

theorem Consistent.call {frame : ConsumerFrame}
    (connected : frame.operation.any (·.disconnected) = false)
    (unloaded : ∀ operation, frame.operation = some operation → operation.loaded = none)
    (stepped : state.call frame = some next) : next.Consistent := by
  unfold LockFreeEventQueue.call at stepped
  split at stepped
  next idle =>
    cases stepped
    refine ⟨?_, consistent.taken, consistent.returned, fun _ => consistent.undeleted ?_⟩
    · refine consistent.linked.look (by rw [idle]; rfl) connected ?_
      intro operation calling next loaded
      rw [unloaded operation calling] at loaded
      cases loaded
    · rw [idle]
      rfl
  next => cases stepped

/-- Every step keeps the history. -/
theorem Consistent.step {move : EventQueueMove α}
    (stepped : state.step move = some next) : next.Consistent := by
  cases move with
  | enqueue event =>
      simp only [LockFreeEventQueue.step] at stepped
      cases stepped
      refine ⟨?_, consistent.taken, ?_, consistent.undeleted⟩
      · simpa [List.filterMap_cons, ProducerFrame.push?] using consistent.linked
      · simpa [List.filterMap_cons, ProducerFrame.pending] using consistent.returned
  | producer thread =>
      simp only [LockFreeEventQueue.step, Option.bind_eq_bind, Option.bind_eq_some_iff,
        Option.pure_def, Option.some.injEq] at stepped
      obtain ⟨frame, running, rfl⟩ := stepped
      exact consistent.produce running rfl
  | empty | dequeue => exact consistent.call rfl (by rintro operation ⟨⟩; rfl) stepped
  | decomission => exact consistent.call rfl (by rintro operation ⟨⟩) stepped
  | consumer => exact consistent.consume stepped

end

/-- What the two implementations of `EventQueue` share about `decomission`. -/
structure Decomissions (state : LockFreeEventQueue α) : Prop where
  /-- No call that started after `decomission` had returned yields `true`. -/
  late : ∀ entry ∈ state.accepted, entry.2 = false
  /-- Events are handled in the order of the pushes, and none twice. -/
  order : state.dequeued ++ state.deleted <+: state.pushed
  /-- When all calls have returned, the events whose `enqueue` yielded `true` are
  those that were dequeued and those that were deleted. -/
  complete : state.consumer = .returned → state.producers.frames = [] →
    (state.accepted.map Prod.fst).Perm (state.dequeued ++ state.deleted)

/-- No producer exchanges `head` after `decomission` has returned. -/
def pushedBefore (state : LockFreeEventQueue α) : EventQueueMove α → Bool
  | .producer thread =>
      match state.producers.top? thread with
      | some (.push (.exchange _) _) => state.consumer ≠ .returned
      | _ => true
  | _ => true

/-- What holds while no event is pushed after `decomission`. -/
structure Drained (state : LockFreeEventQueue α) : Prop where
  drained : state.consumer = .returned → state.queue.tail = state.queue.head
  started : ∀ frame ∈ state.producers.frames, frame.late = true → state.consumer = .returned
  linking : ∀ frame ∈ state.producers.frames, frame.pending.isSome = true → frame.late = false
  accepted : ∀ entry ∈ state.accepted, entry.2 = false

theorem new_drained : (new : LockFreeEventQueue α).Drained := by
  constructor <;> simp [new]

theorem Drained.produce (drained : state.Drained) {thread : Nat}
    {frame : ProducerFrame α} (running : state.producers.top? thread = some frame)
    (permitted : state.pushedBefore (.producer thread) = true)
    {follow : List (ProducerFrame α)} (stepped : state.produce frame = (next, follow)) :
    { next with producers := state.producers.resume thread follow }.Drained := by
  have exchange := Threads.exchange running follow
  have lateness := drained.started frame exchange.member
  have linkings := drained.linking frame exchange.member
  cases frame with
  | load event late =>
      simp only [LockFreeEventQueue.produce] at stepped
      split at stepped
      next =>
        obtain ⟨rfl, rfl⟩ := Prod.mk.inj stepped
        refine ⟨drained.drained, ?_, ?_, drained.accepted⟩
        · intro other member
          rcases exchange.source member with entered | old
          · rw [List.mem_singleton.mp entered]
            exact lateness
          · exact drained.started other old
        · intro other member
          rcases exchange.source member with entered | old
          · rw [List.mem_singleton.mp entered]
            intro pending
            cases pending
          · exact drained.linking other old
      next =>
        obtain ⟨rfl, rfl⟩ := Prod.mk.inj stepped
        refine ⟨drained.drained, ?_, ?_, drained.accepted⟩
        · intro other member
          exact drained.started other ((exchange.source member).resolve_left List.not_mem_nil)
        · intro other member
          exact drained.linking other ((exchange.source member).resolve_left List.not_mem_nil)
  | push frame late =>
      cases frame with
      | exchange event =>
          obtain ⟨rfl, rfl⟩ := Prod.mk.inj stepped
          have active : state.consumer ≠ .returned := by
            simpa [pushedBefore, running] using permitted
          have early : late = false := by
            cases late with
            | false => rfl
            | true => exact absurd (lateness rfl) active
          refine ⟨fun returned => absurd returned active, ?_, ?_, drained.accepted⟩
          · intro other member
            rcases exchange.source member with entered | old
            · rw [List.mem_singleton.mp entered]
              exact lateness
            · exact drained.started other old
          · intro other member
            rcases exchange.source member with entered | old
            · rw [List.mem_singleton.mp entered]
              exact fun _ => early
            · exact drained.linking other old
      | link old new event =>
          obtain ⟨rfl, rfl⟩ := Prod.mk.inj stepped
          refine ⟨drained.drained, ?_, ?_, ?_⟩
          · intro other member
            exact drained.started other ((exchange.source member).resolve_left List.not_mem_nil)
          · intro other member
            exact drained.linking other ((exchange.source member).resolve_left List.not_mem_nil)
          · intro entry member
            rcases List.mem_append.mp member with earlier | now
            · exact drained.accepted entry earlier
            · rw [List.mem_singleton.mp now]
              exact linkings rfl

/-- An operation returns to its caller without touching the producers, and the
caller returns only after the last `empty`. -/
theorem answer_spec (state : LockFreeEventQueue α) (caller : Caller) (outcome : Consumed α) :
    (state.answer caller outcome).queue = state.queue ∧
      (state.answer caller outcome).producers = state.producers ∧
      (state.answer caller outcome).accepted = state.accepted ∧
      (state.answer caller outcome).pushed = state.pushed ∧
      ((state.answer caller outcome).consumer = .returned → outcome = .empty true) := by
  cases outcome with
  | running frame => exact ⟨rfl, rfl, rfl, rfl, nofun⟩
  | dequeued element => cases caller <;> exact ⟨rfl, rfl, rfl, rfl, nofun⟩
  | empty result =>
      cases caller with
      | consumer => exact ⟨rfl, rfl, rfl, rfl, nofun⟩
      | decomission =>
          refine ⟨rfl, rfl, rfl, rfl, ?_⟩
          cases result with
          | true => exact fun _ => rfl
          | false => exact nofun

/-- While no event is pushed after `decomission`, the consumer leaves nothing
behind. -/
theorem Drained.consume (drained : state.Drained) (consistent : state.Consistent)
    (stepped : state.consume = some next) : next.Drained := by
  have early : ∀ consumer, state.consumer = consumer → consumer ≠ .returned →
      ∀ frame ∈ state.producers.frames, frame.late = false := by
    intro consumer now active frame member
    cases late : frame.late with
    | false => rfl
    | true => exact absurd (now ▸ drained.started frame member late) active
  unfold LockFreeEventQueue.consume at stepped
  split at stepped
  next => cases stepped
  next => cases stepped
  next calling =>
    cases stepped
    refine ⟨(fun returned => by cases returned), ?_, drained.linking, drained.accepted⟩
    intro frame member late
    rw [early _ calling (by simp) frame member] at late
    cases late
  next caller frame within =>
    have linked := consistent.linked
    rw [within] at linked
    have block : state.queue.consume frame =
        ((state.queue.consume frame).1, (state.queue.consume frame).2) := rfl
    obtain ⟨kept, accounts⟩ := linked.consume block
    cases stepped
    obtain ⟨queue, producers, accepted, -, last⟩ :=
      answer_spec { state with queue := (state.queue.consume frame).1 } caller
        (state.queue.consume frame).2
    refine ⟨?_, ?_, ?_, ?_⟩
    · intro returned
      rw [last returned] at accounts
      rw [queue, accounts.1, accounts.2 rfl, kept.length]
    · intro other member late
      rw [producers] at member
      rw [early _ within (by simp) other member] at late
      cases late
    · rw [producers]
      exact drained.linking
    · rw [accepted]
      exact drained.accepted

theorem Drained.call (drained : state.Drained) {frame : ConsumerFrame}
    (entered : frame ≠ .returned) (stepped : state.call frame = some next) :
    next.Drained := by
  unfold LockFreeEventQueue.call at stepped
  split at stepped
  next idle =>
    cases stepped
    refine ⟨fun returned => absurd returned entered, ?_, drained.linking, drained.accepted⟩
    intro other member late
    have returned := drained.started other member late
    rw [idle] at returned
    cases returned
  next => cases stepped

theorem Drained.step (drained : state.Drained) (consistent : state.Consistent)
    {move : EventQueueMove α} (permitted : state.pushedBefore move = true)
    (stepped : state.step move = some next) : next.Drained := by
  cases move with
  | enqueue event =>
      simp only [LockFreeEventQueue.step] at stepped
      cases stepped
      refine ⟨drained.drained, ?_, ?_, drained.accepted⟩
      · intro frame member late
        rw [Threads.frames_spawn, List.mem_append, List.mem_singleton] at member
        rcases member with old | rfl
        · exact drained.started frame old late
        · exact of_decide_eq_true late
      · intro frame member pending
        rw [Threads.frames_spawn, List.mem_append, List.mem_singleton] at member
        rcases member with old | rfl
        · exact drained.linking frame old pending
        · cases pending
  | producer thread =>
      simp only [LockFreeEventQueue.step, Option.bind_eq_bind, Option.bind_eq_some_iff,
        Option.pure_def, Option.some.injEq] at stepped
      obtain ⟨frame, running, rfl⟩ := stepped
      exact drained.produce running permitted rfl
  | empty | dequeue | decomission => exact drained.call (by simp) stepped
  | consumer => exact drained.consume consistent stepped

/-- Under the condition nothing is accepted late and nothing is left. -/
theorem Drained.decomissions (drained : state.Drained) (consistent : state.Consistent) :
    state.Decomissions where
  late := drained.accepted
  order := by
    rw [consistent.taken]
    exact List.take_prefix _ _
  complete := by
    intro returned finished
    have perm := consistent.returned
    rw [finished, List.filterMap_nil, List.append_nil] at perm
    rw [consistent.taken, drained.drained returned, ← consistent.linked.length,
      List.take_length]
    exact perm

/-- An event was pushed that nobody is going to take out. -/
def Leaks (state : LockFreeEventQueue α) : Prop :=
  state.consumer = .returned ∧ state.queue.tail < state.queue.head

theorem not_leaks_of_decomissions (consistent : state.Consistent)
    (decomissions : state.Decomissions) (finished : state.producers.frames = []) :
    ¬ state.Leaks := by
  rintro ⟨returned, left⟩
  have perm := consistent.returned
  rw [finished, List.filterMap_nil, List.append_nil] at perm
  have accepted := (decomissions.complete returned finished).length_eq
  have pushed := perm.length_eq
  have taken := congrArg List.length consistent.taken
  rw [List.length_take] at taken
  have length := consistent.linked.length
  omega

theorem returned_of_refused {move : EventQueueMove α}
    (refused : ¬ state.pushedBefore move = true) : state.consumer = .returned := by
  unfold pushedBefore at refused
  split at refused
  next =>
    split at refused
    next => simpa using refused
    next => simp at refused
  next => simp at refused

/-- The head never goes back, and a consumer that has returned stays. -/
theorem step_of_returned (consistent : state.Consistent) (returned : state.consumer = .returned)
    {move : EventQueueMove α} (stepped : state.step move = some next) :
    next.consumer = .returned ∧ next.queue.tail = state.queue.tail ∧
      state.queue.head + (if state.pushedBefore move then 0 else 1) ≤ next.queue.head := by
  have allocated := consistent.linked.allocated
  cases move with
  | enqueue event =>
      simp only [LockFreeEventQueue.step] at stepped
      cases stepped
      exact ⟨returned, rfl, Nat.le_refl _⟩
  | producer thread =>
      simp only [LockFreeEventQueue.step, Option.bind_eq_bind, Option.bind_eq_some_iff,
        Option.pure_def, Option.some.injEq] at stepped
      obtain ⟨frame, running, rfl⟩ := stepped
      cases frame with
      | load event late =>
          by_cases comissioned : state.comissioned <;>
            simp [LockFreeEventQueue.produce, comissioned, returned, pushedBefore, running]
      | push frame late =>
          cases frame with
          | exchange event =>
              refine ⟨returned, rfl, ?_⟩
              simp [pushedBefore, running, returned, LockFreeEventQueue.produce,
                MpscLinkedQueue.produce, MpscLinkedQueue.exchangeHead, allocated]
          | link old new event =>
              refine ⟨returned, rfl, ?_⟩
              simp [pushedBefore, running, LockFreeEventQueue.produce,
                MpscLinkedQueue.produce, MpscLinkedQueue.storeNext]
  | empty | dequeue | decomission =>
      simp [LockFreeEventQueue.step, LockFreeEventQueue.call, returned] at stepped
  | consumer =>
      simp [LockFreeEventQueue.step, LockFreeEventQueue.consume, returned] at stepped

end LockFreeEventQueue

/-- In a run in which no producer exchanges `head` after `decomission` has
returned, the lock-free queue keeps the promises of the other one; and once all
calls have returned, it keeps them in no other run. -/
theorem lockFree_decomissions_iff {schedule : List (EventQueueMove α)}
    {final : LockFreeEventQueue α}
    (executed : (lockFreeEventQueue α).run .new schedule = some final) :
    ((lockFreeEventQueue α).Along (fun state move => state.pushedBefore move = true) .new
        schedule → final.Decomissions) ∧
      (final.consumer = .returned → final.producers.frames = [] → final.Decomissions →
        (lockFreeEventQueue α).Along (fun state move => state.pushedBefore move = true) .new
          schedule) := by
  constructor
  · intro permitted
    have reached := Automaton.Reaches.of_along (.start rfl) permitted executed
    have both := reached.invariant (fun state => state.Consistent ∧ state.Drained)
      (by
        rintro state rfl
        exact ⟨LockFreeEventQueue.new_consistent, LockFreeEventQueue.new_drained⟩)
      (by
        rintro state move next ⟨consistent, drained⟩ permitted stepped
        exact ⟨consistent.step stepped, drained.step consistent permitted stepped⟩)
    exact both.2.decomissions both.1
  · intro _ finished decomissions
    have consistent := Automaton.run_preserves LockFreeEventQueue.Consistent
      LockFreeEventQueue.new_consistent
      (fun _ _ _ consistent stepped => LockFreeEventQueue.Consistent.step consistent stepped)
      executed
    refine Automaton.along_of_unbroken LockFreeEventQueue.Consistent LockFreeEventQueue.Leaks
      LockFreeEventQueue.new_consistent
      (fun _ _ _ consistent stepped => LockFreeEventQueue.Consistent.step consistent stepped)
      ?_ ?_ executed
      (LockFreeEventQueue.not_leaks_of_decomissions consistent decomissions finished)
    · intro state move next consistent refused stepped
      have order := consistent.linked.order
      obtain ⟨stays, tail, head⟩ := LockFreeEventQueue.step_of_returned consistent
        (LockFreeEventQueue.returned_of_refused refused) stepped
      rw [if_neg refused] at head
      exact ⟨stays, by omega⟩
    · rintro state move next consistent ⟨returned, left⟩ stepped
      obtain ⟨stays, tail, head⟩ :=
        LockFreeEventQueue.step_of_returned consistent returned stepped
      exact ⟨stays, by omega⟩

/-- An event is dequeued, and a second one is deleted by `decomission`. -/
def drainingSchedule : List (EventQueueMove Nat) :=
  [.enqueue 1, .enqueue 2, .producer 0, .producer 0, .producer 1, .producer 0, .producer 1,
    .producer 1, .dequeue, .consumer, .consumer, .consumer, .decomission] ++
    List.replicate 7 .consumer

theorem lockFree_decomissions_draining : ∃ final,
    (lockFreeEventQueue Nat).run .new drainingSchedule = some final ∧ final.Decomissions ∧
      final.consumer = .returned ∧ final.dequeued = [1] ∧ final.deleted = [2] := by
  obtain ⟨final, executed, observed⟩ : ∃ final ∈ (lockFreeEventQueue Nat).run .new drainingSchedule,
      final.consumer = .returned ∧ final.dequeued = [1] ∧ final.deleted = [2] := by
    decide
  have permitted : (lockFreeEventQueue Nat).Along
      (fun state move => state.pushedBefore move = true) .new drainingSchedule := by decide
  exact ⟨final, executed, (lockFree_decomissions_iff executed).1 permitted, observed⟩

/-- A call that starts after `decomission` has returned yields `true`, and its
event is lost.  The same happens to a call that loaded `comissioned` before. -/
theorem lockFree_not_decomissions :
    (∃ final, (lockFreeEventQueue Nat).Reachable final ∧ ¬ final.Decomissions ∧
      final.consumer = .returned ∧ final.producers.frames = [] ∧
      final.accepted = [(1, true)] ∧ final.dequeued ++ final.deleted = []) ∧
    ∃ final, (lockFreeEventQueue Nat).Reachable final ∧ ¬ final.Decomissions ∧
      final.consumer = .returned ∧ final.producers.frames = [] ∧
      final.accepted = [(1, false)] ∧ final.dequeued ++ final.deleted = [] := by
  have lost : ∀ {state : LockFreeEventQueue Nat} {late : Bool},
      state.consumer = .returned ∧ state.producers.frames = [] ∧
        state.accepted = [(1, late)] ∧ state.dequeued ++ state.deleted = [] →
      ¬ state.Decomissions := by
    rintro state late ⟨returned, finished, accepted, left⟩ decomissions
    have perm := decomissions.complete returned finished
    rw [accepted, left] at perm
    exact absurd perm.length_eq (by simp)
  constructor
  · obtain ⟨final, executed, observed⟩ : ∃ final ∈ (lockFreeEventQueue Nat).run .new
        [.decomission, .consumer, .consumer, .consumer, .enqueue 1, .producer 0, .producer 0,
          .producer 0],
        final.consumer = .returned ∧ final.producers.frames = [] ∧ final.accepted = [(1, true)] ∧
        final.dequeued ++ final.deleted = [] := by
      decide
    exact ⟨final, .of_run rfl executed, lost observed, observed⟩
  · obtain ⟨final, executed, observed⟩ : ∃ final ∈ (lockFreeEventQueue Nat).run .new
        [.enqueue 1, .producer 0, .decomission, .consumer, .consumer, .consumer, .producer 0,
          .producer 0],
        final.consumer = .returned ∧ final.producers.frames = [] ∧ final.accepted = [(1, false)] ∧
        final.dequeued ++ final.deleted = [] := by
      decide
    exact ⟨final, .of_run rfl executed, lost observed, observed⟩

end Libprocess
