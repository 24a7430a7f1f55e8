import Libprocess.Concurrency.Automaton
import Libprocess.Process.MpscLinkedQueue

/-!
# The linked queue is first in, first out

Any number of producers that call `MpscLinkedQueue::enqueue`, one call after the other, and one
consumer that calls `dequeue` and `empty`.  An element is labelled with its producer.  The history
records the calls of `enqueue`, the exchanges of `head`, which fix the order of the elements, and
what `dequeue` has returned.
-/

namespace Libprocess

open Concurrency

variable {α : Type}

/-- The queue, its threads and its history. -/
structure LinkedFifo (α : Type) where
  queue : MpscLinkedQueue (Nat × α)
  producers : Threads (EnqueueFrame (Nat × α))
  consumer : Option ConsumeFrame
  called : List (Nat × α)
  pushed : List (Nat × α)
  dequeued : List (Nat × α)

/-- Calls of the queue, and steps of the calls that are running. -/
inductive FifoMove (α : Type) where
  | enqueue (producer : Nat) (element : α)
  | producer (thread : Nat)
  | dequeue
  | empty
  | consumer
  deriving DecidableEq, Repr

namespace EnqueueFrame

/-- The element of a call. -/
def element : EnqueueFrame α → α
  | .exchange element => element
  | .link _ _ element => element

/-- The element of a call that has not exchanged `head`. -/
def unpushed : EnqueueFrame α → Option α
  | .exchange element => some element
  | .link _ _ _ => none

/-- The nodes that the next step of a producer accesses.  The node of its own is not visible to
others before the exchange. -/
def accesses : EnqueueFrame α → List Nat
  | .exchange _ => []
  | .link old _ _ => [old]

/-- The call is one of a producer. -/
def calledBy (producer : Nat) (frame : EnqueueFrame (Nat × α)) : Bool :=
  frame.element.1 = producer

@[simp] theorem calledBy_exchange (producer : Nat) (element : Nat × α) :
    (exchange element).calledBy producer = decide (element.1 = producer) := rfl

@[simp] theorem calledBy_link (producer old new : Nat) (element : Nat × α) :
    (link old new element).calledBy producer = decide (element.1 = producer) := rfl

end EnqueueFrame

/-- The nodes that the next step of the consumer accesses. -/
def ConsumeFrame.accesses (queue : MpscLinkedQueue α) : ConsumeFrame → List Nat
  | .dequeueNext | .dequeueSpin | .unlink _ | .emptyNext => [queue.tail]
  | .take next => [next, queue.tail]
  | .dequeueHead | .emptyHead => []

/-- What `dequeue` has returned, if the operation has ended with an element. -/
def Consumed.element : Consumed α → Option α
  | .dequeued element => element
  | _ => none

/-- The operation has reported that the queue is empty. -/
def Consumed.reportsEmpty : Consumed α → Bool
  | .dequeued element => element.isNone
  | .empty answer => answer
  | .running _ => false

namespace LinkedFifo

/-- The history after a step of a producer. -/
def record (state : LinkedFifo α) : EnqueueFrame (Nat × α) → LinkedFifo α
  | .exchange element => { state with pushed := state.pushed ++ [element] }
  | .link _ _ _ => state

def step (state : LinkedFifo α) : FifoMove α → Option (LinkedFifo α)
  | .enqueue producer element =>
      -- A thread runs one call at a time.
      if state.producers.frames.any (·.calledBy producer) then none
      else some { state with
        producers := state.producers.spawn (.exchange (producer, element))
        called := state.called ++ [(producer, element)] }
  | .producer thread =>
      (state.producers.top? thread).map fun frame =>
        { state.record frame with
          queue := (state.queue.produce frame).1
          producers := state.producers.resume thread (state.queue.produce frame).2 }
  | .dequeue =>
      if state.consumer = none then some { state with consumer := some .dequeueNext } else none
  | .empty =>
      if state.consumer = none then some { state with consumer := some .emptyNext } else none
  | .consumer =>
      state.consumer.map fun frame =>
        { state with
          queue := (state.queue.consume frame).1
          consumer := (state.queue.consume frame).2.frame
          dequeued := state.dequeued ++ (state.queue.consume frame).2.element.toList }

def new : LinkedFifo α := ⟨.new, [], none, [], [], []⟩

end LinkedFifo

/-- All interleavings of producers with one consumer. -/
def linkedFifo (α : Type) : Automaton (LinkedFifo α) (FifoMove α) where
  start state := state = .new
  step := LinkedFifo.step

/-- The elements of one producer. -/
def ofProducer (producer : Nat) (elements : List (Nat × α)) : List (Nat × α) :=
  elements.filter (·.1 = producer)

section OfProducer

variable (producer : Nat)

@[simp] theorem ofProducer_nil : ofProducer producer ([] : List (Nat × α)) = [] := rfl

@[simp] theorem ofProducer_append (left right : List (Nat × α)) :
    ofProducer producer (left ++ right) =
      ofProducer producer left ++ ofProducer producer right :=
  List.filter_append ..

theorem ofProducer_cons_self (element : Nat × α) (rest : List (Nat × α)) :
    ofProducer element.1 (element :: rest) = element :: ofProducer element.1 rest :=
  List.filter_cons_of_pos (by simp)

theorem ofProducer_cons_ne {producer : Nat} {element : Nat × α} (other : element.1 ≠ producer)
    (rest : List (Nat × α)) :
    ofProducer producer (element :: rest) = ofProducer producer rest :=
  List.filter_cons_of_neg (by simpa using other)

end OfProducer

namespace LinkedFifo

variable {state next : LinkedFifo α}

/-- The history agrees with the queue, and the exchanges of a producer are made in the order of
its calls. -/
structure Ordered (state : LinkedFifo α) : Prop where
  linked : Linked state.queue state.producers.frames state.consumer state.pushed
  taken : state.dequeued = state.pushed.take state.queue.tail
  sequential : ∀ producer, state.producers.frames.countP (·.calledBy producer) ≤ 1
  calls : ∀ producer, ∃ rest, ofProducer producer state.called =
      ofProducer producer state.pushed ++ rest ∧
    rest.Perm (ofProducer producer (state.producers.frames.filterMap EnqueueFrame.unpushed))

theorem new_ordered : (new : LinkedFifo α).Ordered where
  linked := .new
  taken := rfl
  sequential _ := Nat.zero_le _
  calls _ := ⟨[], rfl, .refl _⟩

/-- The elements that a producer has still to push belong to its running calls. -/
theorem length_unpushed_le (frames : List (EnqueueFrame (Nat × α))) (producer : Nat) :
    (ofProducer producer (frames.filterMap EnqueueFrame.unpushed)).length ≤
      frames.countP (·.calledBy producer) := by
  rw [ofProducer, ← List.countP_eq_length_filter, List.countP_filterMap]
  apply List.countP_mono_left
  intro frame _ shown
  cases frame with
  | exchange element => simpa [EnqueueFrame.unpushed] using shown
  | link old new element => simp [EnqueueFrame.unpushed] at shown

section

variable (ordered : state.Ordered)

include ordered

theorem Ordered.enqueue {producer : Nat} {element : α}
    (idle : state.producers.frames.any (·.calledBy producer) = false) :
    { state with
      producers := state.producers.spawn (.exchange (producer, element))
      called := state.called ++ [(producer, element)] }.Ordered := by
  have none : state.producers.frames.countP (·.calledBy producer) = 0 := by
    apply List.countP_eq_zero.mpr
    intro frame member
    exact List.any_eq_false.mp idle frame member
  constructor
  · simpa only [Threads.frames_spawn] using ordered.linked.reframe (by simp) (by simp)
  · exact ordered.taken
  · intro other
    have bound := ordered.sequential other
    rw [Threads.frames_spawn, List.countP_append, List.countP_singleton,
      EnqueueFrame.calledBy_exchange]
    by_cases same : producer = other
    · subst same
      rw [none]
      split <;> omega
    · simpa [same] using bound
  · intro other
    obtain ⟨rest, calls, perm⟩ := ordered.calls other
    refine ⟨rest ++ ofProducer other [(producer, element)], ?_, ?_⟩
    · rw [ofProducer_append, calls, List.append_assoc]
    · rw [Threads.frames_spawn, List.filterMap_append, ofProducer_append]
      exact perm.append_right _

theorem Ordered.exchange {thread : Nat} {element : Nat × α}
    (running : state.producers.top? thread = some (.exchange element)) :
    { state with
      pushed := state.pushed ++ [element]
      queue := state.queue.exchangeHead element
      producers := state.producers.resume thread
        [.link state.queue.head state.queue.allocated element] }.Ordered := by
  have exchange := Threads.exchange running [.link state.queue.head state.queue.allocated element]
  constructor
  · exact ordered.linked.exchange exchange
  · change state.dequeued = (state.pushed ++ [element]).take state.queue.tail
    rw [List.take_append_of_le_length (by
      rw [ordered.linked.length]
      exact ordered.linked.order)]
    exact ordered.taken
  · intro producer
    have counts := exchange.countP (·.calledBy producer)
    have bound := ordered.sequential producer
    rw [List.countP_singleton, EnqueueFrame.calledBy_exchange,
      EnqueueFrame.calledBy_link] at counts
    change (state.producers.resume thread _).frames.countP _ ≤ 1
    omega
  · intro producer
    obtain ⟨rest, calls, perm⟩ := ordered.calls producer
    have moved : (ofProducer producer (element :: (state.producers.resume thread
          [.link state.queue.head state.queue.allocated element]).frames.filterMap
            EnqueueFrame.unpushed)).Perm
        (ofProducer producer (state.producers.frames.filterMap EnqueueFrame.unpushed)) :=
      (exchange.filterMap EnqueueFrame.unpushed rfl).perm.filter _
    rw [ofProducer_append]
    by_cases own : element.1 = producer
    · subst own
      rw [ofProducer_cons_self] at moved ⊢
      -- The call of the producer that pushes now is its only one.
      have few := length_unpushed_le state.producers.frames element.1
      have bound := ordered.sequential element.1
      have length := moved.length_eq
      rw [List.length_cons] at length
      have nothing := List.eq_nil_of_length_eq_zero (by omega :
        (ofProducer element.1 ((state.producers.resume thread
          [.link state.queue.head state.queue.allocated element]).frames.filterMap
            EnqueueFrame.unpushed)).length = 0)
      rw [nothing] at moved
      refine ⟨[], ?_, ?_⟩
      · rw [calls, List.perm_singleton.mp (perm.trans moved.symm), ofProducer_nil,
          List.append_nil]
      · rw [nothing]
    · rw [ofProducer_cons_ne own] at moved ⊢
      refine ⟨rest, ?_, perm.trans moved.symm⟩
      rw [calls, ofProducer_nil, List.append_nil]

theorem Ordered.link {thread old new : Nat} {element : Nat × α}
    (running : state.producers.top? thread = some (.link old new element)) :
    { state with
      queue := state.queue.storeNext old (some new)
      producers := state.producers.resume thread [] }.Ordered := by
  have exchange := Threads.exchange running []
  constructor
  · exact ordered.linked.link exchange
  · exact ordered.taken
  · intro producer
    have counts := exchange.countP (·.calledBy producer)
    have bound := ordered.sequential producer
    rw [List.countP_nil] at counts
    change (state.producers.resume thread _).frames.countP _ ≤ 1
    omega
  · intro producer
    obtain ⟨rest, calls, perm⟩ := ordered.calls producer
    have moved := exchange.filterMap_of_none EnqueueFrame.unpushed rfl
    exact ⟨rest, calls, perm.trans (moved.filter _).symm⟩

/-- The consumer takes an element, or none. -/
theorem Ordered.consume {frame : ConsumeFrame}
    {queue : MpscLinkedQueue (Nat × α)} {outcome : Consumed (Nat × α)}
    (consuming : state.consumer = some frame)
    (stepped : state.queue.consume frame = (queue, outcome)) :
    { state with
      queue
      consumer := outcome.frame
      dequeued := state.dequeued ++ outcome.element.toList }.Ordered ∧
    (outcome.reportsEmpty = true → state.dequeued = state.pushed) := by
  have linked := ordered.linked
  rw [consuming] at linked
  obtain ⟨kept, accounts⟩ := linked.consume stepped
  have taken := ordered.taken
  constructor
  · refine ⟨kept, ?_, ordered.sequential, ordered.calls⟩
    change state.dequeued ++ outcome.element.toList = state.pushed.take queue.tail
    cases outcome with
    | running frame =>
        rw [show queue.tail = state.queue.tail from accounts]
        simpa [Consumed.element] using taken
    | empty answer =>
        rw [accounts.1]
        simpa [Consumed.element] using taken
    | dequeued element =>
        cases element with
        | none =>
            rw [accounts.1]
            simpa [Consumed.element] using taken
        | some element =>
            rw [accounts.1, List.take_add_one, accounts.2, ← taken]
            rfl
  · intro reports
    have all : state.queue.tail = state.pushed.length := by
      cases outcome with
      | running frame => cases reports
      | empty answer => exact accounts.2 reports
      | dequeued element =>
          cases element with
          | none => exact accounts.2
          | some element => cases reports
    rw [taken, all, List.take_length]

theorem Ordered.step {move : FifoMove α}
    (stepped : state.step move = some next) : next.Ordered := by
  cases move with
  | enqueue producer element =>
      simp only [LinkedFifo.step] at stepped
      split at stepped
      · cases stepped
      · rename_i idle
        cases stepped
        exact ordered.enqueue (Bool.eq_false_iff.mpr idle)
  | producer thread =>
      obtain ⟨frame, running, rfl⟩ := Option.map_eq_some_iff.mp stepped
      cases frame with
      | exchange element => exact ordered.exchange running
      | link old new element => exact ordered.link running
  | dequeue | empty =>
      simp only [LinkedFifo.step] at stepped
      split at stepped
      · rename_i idle
        cases stepped
        refine ⟨?_, ordered.taken, ordered.sequential, ordered.calls⟩
        have linked := ordered.linked
        rw [idle] at linked
        apply linked.look rfl rfl
        rintro frame ⟨⟩ next ⟨⟩
      · cases stepped
  | consumer =>
      obtain ⟨frame, consuming, rfl⟩ := Option.map_eq_some_iff.mp stepped
      exact (ordered.consume consuming rfl).1

end

theorem ordered_of_reachable (reached : (linkedFifo α).Reachable state) : state.Ordered := by
  apply reached.invariant Ordered
  · rintro start rfl
    exact new_ordered
  · intro before move after ordered _ stepped
    exact ordered.step stepped

/-- A producer writes to a node that has not been left behind. -/
theorem Ordered.produces (ordered : state.Ordered) {frame : EnqueueFrame (Nat × α)}
    (member : frame ∈ state.producers.frames) {node : Nat} (accessed : node ∈ frame.accesses) :
    state.queue.deleted node = false := by
  cases frame with
  | exchange element => cases accessed
  | link old new element =>
      have same : node = old := List.mem_singleton.mp accessed
      subst same
      have positive : 0 < state.producers.frames.countP (·.links node) :=
        List.countP_pos_iff.mpr ⟨_, member, by simp⟩
      have gap := ordered.linked.linked node
      apply Bool.eq_false_iff.mpr
      intro deleted
      have left := ordered.linked.deleted node deleted
      rw [if_neg (by omega : ¬ (state.queue.tail ≤ node ∧ node < state.queue.head))] at gap
      omega

/-- The consumer accesses the stub and the node after it. -/
theorem Ordered.consumes (ordered : state.Ordered) {frame : ConsumeFrame}
    (consuming : state.consumer = some frame) {node : Nat}
    (accessed : node ∈ frame.accesses state.queue) : state.queue.deleted node = false := by
  have ahead : state.queue.tail ≤ node := by
    have loaded := ordered.linked.loaded frame consuming
    cases frame with
    | dequeueNext | dequeueSpin | unlink | emptyNext =>
        exact Nat.le_of_eq (List.mem_singleton.mp accessed).symm
    | dequeueHead | emptyHead => cases accessed
    | take next =>
        have successor := (loaded next rfl).1
        simp only [ConsumeFrame.accesses, List.mem_cons, List.not_mem_nil, or_false] at accessed
        omega
  apply Bool.eq_false_iff.mpr
  intro deleted
  have left := ordered.linked.deleted node deleted
  omega

/-- `dequeue` returns the elements in the order of the exchanges, and the exchanges of a producer
are in the order of its calls.  The queue is reported to be empty only when everything that was
pushed has been dequeued, and no node is accessed after it was deleted.  When no call of `enqueue`
is running, all elements have been pushed, and as long as one is left it can be reached. -/
theorem linkedQueue_fifo (reached : (linkedFifo α).Reachable state) :
    state.dequeued <+: state.pushed ∧
    (∀ producer, ofProducer producer state.pushed <+: ofProducer producer state.called) ∧
    (∀ frame queue outcome, state.consumer = some frame →
      state.queue.consume frame = (queue, outcome) →
      (outcome.reportsEmpty = true → state.dequeued = state.pushed) ∧
      ∀ node ∈ frame.accesses state.queue, state.queue.deleted node = false) ∧
    (∀ thread frame, state.producers.top? thread = some frame →
      ∀ node ∈ frame.accesses, state.queue.deleted node = false) ∧
    (state.producers.frames = [] →
      (∀ producer, ofProducer producer state.pushed = ofProducer producer state.called) ∧
      (state.consumer = none → state.dequeued ≠ state.pushed →
        (state.queue.nodes state.queue.tail).next.isSome = true)) := by
  have ordered := ordered_of_reachable reached
  refine ⟨?_, fun producer => ?_, fun frame queue outcome consuming stepped => ⟨?_, ?_⟩,
    fun thread frame running node accessed => ?_, fun idle => ⟨fun producer => ?_, ?_⟩⟩
  · rw [ordered.taken]
    exact List.take_prefix _ _
  · obtain ⟨rest, calls, -⟩ := ordered.calls producer
    rw [calls]
    exact List.prefix_append _ _
  · exact (ordered.consume consuming stepped).2
  · exact fun node => ordered.consumes consuming
  · exact ordered.produces (Threads.top?_mem_frames running) accessed
  · obtain ⟨rest, calls, perm⟩ := ordered.calls producer
    rw [idle] at perm
    rw [calls, perm.eq_nil, List.append_nil]
  · intro resting left
    have gap := ordered.linked.linked state.queue.tail
    rw [idle, resting] at gap
    have more : state.queue.tail < state.queue.head := by
      apply Nat.lt_of_le_of_ne ordered.linked.order
      intro same
      apply left
      rw [ordered.taken, same, ← ordered.linked.length, List.take_length]
    cases stored : (state.queue.nodes state.queue.tail).next.isSome with
    | true => rfl
    | false =>
        simp only [stored, List.countP_nil, Option.any_none, Bool.toNat_false, ite_self,
          Nat.le_refl, true_and, if_pos more] at gap
        cases gap

/-- Two producers exchange `head`, and the second links its node first. -/
def disconnectedSchedule : List (FifoMove Nat) :=
  [.enqueue 0 10, .enqueue 1 20, .producer 0, .producer 1, .producer 1, .dequeue, .consumer,
    .consumer, .consumer, .producer 0, .consumer, .consumer, .consumer]

theorem linkedQueue_fifo_disconnected : ∃ state, (linkedFifo Nat).Reachable state ∧
    state.dequeued = [(0, 10)] ∧ state.dequeued <+: state.pushed := by
  obtain ⟨state, ran, dequeued⟩ : ∃ state ∈ (linkedFifo Nat).run .new disconnectedSchedule,
      state.dequeued = [(0, 10)] := by
    decide +kernel
  have reached : (linkedFifo Nat).Reachable state := .of_run rfl ran
  exact ⟨state, reached, dequeued, (linkedQueue_fifo reached).1⟩

end LinkedFifo

end Libprocess
