import Libprocess.Concurrency.Threads
import Mathlib.Tactic.SplitIfs

/-!
# The linked queue of the lock-free event queue

`MpscLinkedQueue` with its nodes: producers exchange `head` and afterwards store
the link from the old head to their node, so the chain from `tail` to `head` can
have gaps.  Each atomic access is one step.

A node is allocated together with the exchange that publishes it, since no other
thread can see it before, and addresses are not reused.  Nodes are then numbered
in the order of the exchanges, and the successor of a node is the next number.
-/

namespace Libprocess

open Concurrency

variable {α : Type}

/-- `MpscLinkedQueue::Node`; `none` is `nullptr`. -/
structure Node (α : Type) where
  element : Option α
  next : Option Nat
  deriving DecidableEq, Repr

/-- The fields of `MpscLinkedQueue` and the heap of its nodes. -/
structure MpscLinkedQueue (α : Type) where
  nodes : Nat → Node α
  allocated : Nat
  deleted : Nat → Bool
  head : Nat
  tail : Nat

/-- Program points of `MpscLinkedQueue::enqueue`.  The element in `link` is the
argument of the call, which is only read to record what was enqueued. -/
inductive EnqueueFrame (α : Type) where
  | exchange (element : α)
  | link (old new : Nat) (element : α)
  deriving DecidableEq, Repr

/-- Program points of `MpscLinkedQueue::dequeue` and `MpscLinkedQueue::empty`. -/
inductive ConsumeFrame where
  | dequeueNext
  | dequeueHead
  | dequeueSpin
  | unlink (next : Nat)
  | take (next : Nat)
  | emptyNext
  | emptyHead
  deriving DecidableEq, Repr

/-- A consumer operation goes on, or returns. -/
inductive Consumed (α : Type) where
  | running (frame : ConsumeFrame)
  | dequeued (element : Option α)
  | empty (answer : Bool)
  deriving DecidableEq, Repr

namespace MpscLinkedQueue

/-- `MpscLinkedQueue()`: the only node is a stub. -/
def new : MpscLinkedQueue α where
  nodes _ := ⟨none, none⟩
  allocated := 1
  deleted _ := false
  head := 0
  tail := 0

/-- `node->next.store(next)`. -/
def storeNext (queue : MpscLinkedQueue α) (node : Nat) (next : Option Nat) :
    MpscLinkedQueue α :=
  { queue with
    nodes := Function.update queue.nodes node { queue.nodes node with next := next } }

/-- `new Node<T>(element)` and `head.exchange`. -/
def exchangeHead (queue : MpscLinkedQueue α) (element : α) : MpscLinkedQueue α :=
  { queue with
    nodes := Function.update queue.nodes queue.allocated ⟨some element, none⟩
    allocated := queue.allocated + 1
    head := queue.allocated }

/-- The last part of `dequeue`: take the element out of `next`, which becomes the
stub, and delete the old one. -/
def advanceTail (queue : MpscLinkedQueue α) (next : Nat) : MpscLinkedQueue α :=
  { queue with
    nodes := Function.update queue.nodes next { queue.nodes next with element := none }
    deleted := Function.update queue.deleted queue.tail true
    tail := next }

/-- One step of a producer in `enqueue`. -/
def produce (queue : MpscLinkedQueue α) :
    EnqueueFrame α → MpscLinkedQueue α × List (EnqueueFrame α)
  | .exchange element =>
      (queue.exchangeHead element, [.link queue.head queue.allocated element])
  | .link old new _ => (queue.storeNext old (some new), [])

/-- One step of the consumer in `dequeue` or `empty`. -/
def consume (queue : MpscLinkedQueue α) : ConsumeFrame → MpscLinkedQueue α × Consumed α
  | .dequeueNext =>
      match (queue.nodes queue.tail).next with
      | none => (queue, .running .dequeueHead)
      | some next => (queue, .running (.unlink next))
  | .dequeueHead =>
      if queue.head = queue.tail then (queue, .dequeued none)
      else (queue, .running .dequeueSpin)
  | .dequeueSpin =>
      match (queue.nodes queue.tail).next with
      | none => (queue, .running .dequeueSpin)
      | some next => (queue, .running (.unlink next))
  | .unlink next => (queue.storeNext queue.tail none, .running (.take next))
  | .take next => (queue.advanceTail next, .dequeued (queue.nodes next).element)
  | .emptyNext =>
      match (queue.nodes queue.tail).next with
      | none => (queue, .running .emptyHead)
      | some _ => (queue, .empty false)
  | .emptyHead => (queue, .empty (queue.head = queue.tail))

end MpscLinkedQueue

/-- A producer that is going to store the link out of a node. -/
def EnqueueFrame.links (node : Nat) : EnqueueFrame α → Bool
  | .exchange _ => false
  | .link old _ _ => old = node

@[simp] theorem EnqueueFrame.links_exchange (node : Nat) (element : α) :
    (EnqueueFrame.exchange element).links node = false := rfl

@[simp] theorem EnqueueFrame.links_link (node old new : Nat) (element : α) :
    (EnqueueFrame.link old new element).links node = decide (old = node) := rfl

/-- The consumer has disconnected the stub and not yet moved `tail`. -/
def ConsumeFrame.disconnected : ConsumeFrame → Bool
  | .take _ => true
  | _ => false

/-- The node the consumer has loaded from the stub. -/
def ConsumeFrame.loaded : ConsumeFrame → Option Nat
  | .unlink next => some next
  | .take next => some next
  | _ => none

/-- The invariant of the queue.  `pushed` lists all elements in the order of the
exchanges; those up to `tail` have been taken out again.  Out of every node
between `tail` and `head` leads exactly one of: its `next` field, a producer that
is about to store it, and the consumer that has cleared it. -/
structure Linked (queue : MpscLinkedQueue α) (frames : List (EnqueueFrame α))
    (consumer : Option ConsumeFrame) (pushed : List α) : Prop where
  allocated : queue.allocated = queue.head + 1
  order : queue.tail ≤ queue.head
  length : pushed.length = queue.head
  elements : ∀ node, queue.tail ≤ node → node < queue.head →
    (queue.nodes (node + 1)).element = pushed[node]?
  successor : ∀ node next, (queue.nodes node).next = some next → next = node + 1
  links : ∀ old new element, .link old new element ∈ frames → new = old + 1
  linked : ∀ node, frames.countP (·.links node) + (queue.nodes node).next.isSome.toNat +
      (if node = queue.tail then (consumer.any (·.disconnected)).toNat else 0) =
    if queue.tail ≤ node ∧ node < queue.head then 1 else 0
  loaded : ∀ frame, consumer = some frame → ∀ next, frame.loaded = some next →
    next = queue.tail + 1 ∧ ((queue.nodes queue.tail).next.isSome = true ∨
      frame.disconnected = true)
  deleted : ∀ node, queue.deleted node = true → node < queue.tail

/-- Where the consumer is after a step. -/
def Consumed.frame : Consumed α → Option ConsumeFrame
  | .running frame => some frame
  | _ => none

namespace Linked

variable {queue next : MpscLinkedQueue α} {before after : List (EnqueueFrame α)}
  {consumer : Option ConsumeFrame} {pushed : List α}

theorem new : Linked (.new : MpscLinkedQueue α) [] none [] := by
  constructor <;> simp [MpscLinkedQueue.new]
  exact fun _ => ite_self 0

section

variable (linked : Linked queue before consumer pushed)

include linked

/-- The step of a producer that exchanges `head`. -/
theorem exchange {element : α}
    (exchange : Exchange (.exchange element) [.link queue.head queue.allocated element]
      before after) :
    Linked (queue.exchangeHead element) after consumer (pushed ++ [element]) := by
  have allocated := linked.allocated
  have order := linked.order
  have length := linked.length
  have old : ∀ node, node ≠ queue.head + 1 →
      (queue.exchangeHead element).nodes node = queue.nodes node := by
    intro node different
    simp [MpscLinkedQueue.exchangeHead, allocated, different]
  have fresh : (queue.exchangeHead element).nodes (queue.head + 1) = ⟨some element, none⟩ := by
    simp [MpscLinkedQueue.exchangeHead, allocated]
  have head : (queue.exchangeHead element).head = queue.head + 1 := allocated
  have tail : (queue.exchangeHead element).tail = queue.tail := rfl
  refine ⟨?_, ?_, ?_, ?_, ?_, ?_, ?_, ?_, linked.deleted⟩
  · rfl
  · rw [head, tail]
    omega
  · simp [head, length]
  · rw [head, tail]
    intro node low high
    by_cases last : node = queue.head
    · subst last
      rw [fresh, ← length]
      simp
    · rw [old (node + 1) (by omega), linked.elements node low (by omega),
        List.getElem?_append_left (by omega)]
  · intro node successor stored
    by_cases last : node = queue.head + 1
    · subst last
      simp [fresh] at stored
    · rw [old node last] at stored
      exact linked.successor node successor stored
  · intro first second value member
    rcases exchange.source member with entered | present
    · simp only [List.mem_cons, List.not_mem_nil, or_false, EnqueueFrame.link.injEq] at entered
      obtain ⟨rfl, rfl, -⟩ := entered
      exact allocated
    · exact linked.links first second value present
  · intro node
    have count := exchange.countP (·.links node)
    have earlier := linked.linked node
    simp only [EnqueueFrame.links_exchange, EnqueueFrame.links_link, List.countP_cons,
      List.countP_nil, Bool.false_eq_true, if_false, decide_eq_true_eq, Nat.add_zero,
      Nat.zero_add] at count
    change _ + _ + (if node = queue.tail then _ else _) =
      if queue.tail ≤ node ∧ node < queue.allocated then 1 else 0
    by_cases last : node = queue.head + 1
    · subst last
      rw [fresh]
      simp only [Option.isSome_none, Bool.toNat_false]
      split_ifs at count earlier ⊢ <;> omega
    · rw [old node last]
      split_ifs at count earlier ⊢ <;> omega
  · rw [tail, old queue.tail (by omega)]
    exact linked.loaded

/-- The step of a producer that stores the link to its node. -/
theorem link {first second : Nat} {element : α}
    (exchange : Exchange (.link first second element) [] before after) :
    Linked (queue.storeNext first (some second)) after consumer pushed := by
  have successor := linked.links first second element exchange.member
  have positive : 0 < before.countP (·.links first) :=
    List.countP_pos_iff.mpr ⟨_, exchange.member, by simp [EnqueueFrame.links]⟩
  -- A second link out of the node would make the sum at least two.
  have gap := linked.linked first
  have unlinked : (queue.nodes first).next.isSome = false := by
    cases stored : (queue.nodes first).next.isSome with
    | false => rfl
    | true =>
        rw [stored, Bool.toNat_true] at gap
        split_ifs at gap <;> omega
  have elsewhere : ∀ node, node ≠ first →
      (queue.storeNext first (some second)).nodes node = queue.nodes node := by
    intro node different
    simp [MpscLinkedQueue.storeNext, different]
  have here : (queue.storeNext first (some second)).nodes first =
      { queue.nodes first with next := some second } := by
    simp [MpscLinkedQueue.storeNext]
  have element : ∀ node, ((queue.storeNext first (some second)).nodes node).element =
      (queue.nodes node).element := by
    intro node
    by_cases same : node = first
    · rw [same, here]
    · rw [elsewhere node same]
  refine ⟨linked.allocated, linked.order, linked.length, ?_, ?_, ?_, ?_, ?_, linked.deleted⟩
  · intro node low high
    rw [element]
    exact linked.elements node low high
  · intro node next stored
    by_cases same : node = first
    · subst same
      rw [here, Option.some.injEq] at stored
      rw [← stored, successor]
    · rw [elsewhere node same] at stored
      exact linked.successor node next stored
  · intro old new value member
    rcases exchange.source member with entered | present
    · simp at entered
    · exact linked.links old new value present
  · intro node
    have count := exchange.countP (·.links node)
    have earlier := linked.linked node
    simp only [EnqueueFrame.links_link, List.countP_nil, decide_eq_true_eq, Nat.zero_add] at count
    change _ + _ + (if node = queue.tail then _ else _) =
      if queue.tail ≤ node ∧ node < queue.head then 1 else 0
    by_cases same : node = first
    · subst same
      rw [here]
      simp only [unlinked, Option.isSome_some, Bool.toNat_true, Bool.toNat_false] at earlier ⊢
      rw [if_pos rfl] at count
      omega
    · rw [elsewhere node same]
      rw [if_neg (Ne.symm same)] at count
      omega
  · intro frame consuming next loaded
    obtain ⟨successor, stored⟩ := linked.loaded frame consuming next loaded
    refine ⟨successor, ?_⟩
    change (((queue.storeNext first (some second)).nodes queue.tail).next.isSome = true) ∨ _
    by_cases same : queue.tail = first
    · rw [same, here]
      exact .inl rfl
    · rw [elsewhere queue.tail same]
      exact stored

/-- Frames that do not store links are immaterial. -/
theorem reframe (count : ∀ node, after.countP (·.links node) = before.countP (·.links node))
    (links : ∀ old new element, .link old new element ∈ after →
      EnqueueFrame.link old new element ∈ before) :
    Linked queue after consumer pushed :=
  { linked with
    links := fun old new element member =>
      linked.links old new element (links old new element member)
    linked := fun node => by
      rw [count]
      exact linked.linked node }

end

/-- The consumer reads, calls an operation or returns from it. -/
theorem look {follow : Option ConsumeFrame} (linked : Linked queue before consumer pushed)
    (reading : consumer.any (·.disconnected) = false)
    (connected : follow.any (·.disconnected) = false)
    (loaded : ∀ frame, follow = some frame → ∀ next, frame.loaded = some next →
      (queue.nodes queue.tail).next = some next) :
    Linked queue before follow pushed := by
  refine ⟨linked.allocated, linked.order, linked.length, linked.elements, linked.successor,
    linked.links, ?_, ?_, linked.deleted⟩
  · intro node
    have earlier := linked.linked node
    rw [reading] at earlier
    rw [connected]
    exact earlier
  · intro frame following next found
    have stored := loaded frame following next found
    exact ⟨linked.successor queue.tail next stored, .inl (by rw [stored]; rfl)⟩

/-- The consumer disconnects the stub. -/
theorem unlink {next : Nat} (linked : Linked queue before (some (.unlink next)) pushed) :
    Linked (queue.storeNext queue.tail none) before (some (.take next)) pushed := by
  obtain ⟨successor, stored⟩ := linked.loaded _ rfl next rfl
  have present : (queue.nodes queue.tail).next.isSome = true := by
    simpa [ConsumeFrame.disconnected] using stored
  have elsewhere : ∀ node, node ≠ queue.tail →
      (queue.storeNext queue.tail none).nodes node = queue.nodes node := by
    intro node different
    simp [MpscLinkedQueue.storeNext, different]
  have here : (queue.storeNext queue.tail none).nodes queue.tail =
      { queue.nodes queue.tail with next := none } := by
    simp [MpscLinkedQueue.storeNext]
  refine ⟨linked.allocated, linked.order, linked.length, ?_, ?_, linked.links, ?_, ?_,
    linked.deleted⟩
  · intro node low high
    rw [elsewhere (node + 1) (by change queue.tail ≤ node at low; omega)]
    exact linked.elements node low high
  · intro node following found
    by_cases same : node = queue.tail
    · simp [same, here] at found
    · rw [elsewhere node same] at found
      exact linked.successor node following found
  · intro node
    have earlier := linked.linked node
    change _ + _ + (if node = queue.tail then _ else _) =
      if queue.tail ≤ node ∧ node < queue.head then 1 else 0
    by_cases same : node = queue.tail
    · subst same
      rw [here]
      simp only [present, Option.any_some, ConsumeFrame.disconnected, Option.isSome_none,
        if_true, Bool.toNat_true, Bool.toNat_false] at earlier ⊢
      exact earlier
    · rw [elsewhere node same]
      simp only [same, if_false] at earlier ⊢
      exact earlier
  · intro frame following next found
    cases following
    simp only [ConsumeFrame.loaded, Option.some.injEq] at found
    exact ⟨found ▸ successor, .inr rfl⟩

/-- The consumer has disconnected the stub: the next node holds the element that
was pushed first among those that are left. -/
theorem take_element {next : Nat} (linked : Linked queue before (some (.take next)) pushed) :
    next = queue.tail + 1 ∧ queue.tail < queue.head ∧
      (queue.nodes next).element = pushed[queue.tail]? := by
  obtain ⟨successor, -⟩ := linked.loaded _ rfl next rfl
  have gap := linked.linked queue.tail
  have present : queue.tail < queue.head := by
    simp only [Option.any_some, ConsumeFrame.disconnected, if_true, Bool.toNat_true] at gap
    split_ifs at gap with range
    exact range.2
  refine ⟨successor, present, ?_⟩
  rw [successor]
  exact linked.elements queue.tail (Nat.le_refl _) present

/-- The consumer takes the element and moves `tail`. -/
theorem take {next : Nat} (linked : Linked queue before (some (.take next)) pushed) :
    Linked (queue.advanceTail next) before none pushed := by
  obtain ⟨rfl, present, -⟩ := linked.take_element
  have stored : ∀ node, ((queue.advanceTail (queue.tail + 1)).nodes node).next =
      (queue.nodes node).next := by
    intro node
    by_cases same : node = queue.tail + 1 <;> simp [MpscLinkedQueue.advanceTail, same]
  refine ⟨linked.allocated, present, linked.length, ?_, ?_, linked.links, ?_, ?_, ?_⟩
  · intro node low high
    change queue.tail + 1 ≤ node at low
    have different : node + 1 ≠ queue.tail + 1 := by omega
    have kept := linked.elements node (by omega) high
    change (Function.update queue.nodes (queue.tail + 1) _ (node + 1)).element = _
    rw [Function.update_of_ne different]
    exact kept
  · intro node following found
    rw [stored] at found
    exact linked.successor node following found
  · intro node
    have earlier := linked.linked node
    rw [stored]
    change _ + _ + (if node = queue.tail + 1 then _ else _) =
      if queue.tail + 1 ≤ node ∧ node < queue.head then 1 else 0
    simp only [Option.any_some, Option.any_none, ConsumeFrame.disconnected, Bool.toNat_true,
      Bool.toNat_false] at earlier ⊢
    split_ifs at earlier ⊢ <;> omega
  · intro frame following
    cases following
  · intro node deleted
    change node < queue.tail + 1
    by_cases same : node = queue.tail
    · omega
    · have before : queue.deleted node = true := by
        simpa [MpscLinkedQueue.advanceTail, same] using deleted
      have earlier := linked.deleted node before
      omega

end Linked

/-- What a step of the consumer takes out of the queue: nothing, or the element
that comes next in the order of the exchanges.  When it reports that the queue is
empty, nothing that was pushed is left. -/
def Consumed.Accounts (queue next : MpscLinkedQueue α) (pushed : List α) :
    Consumed α → Prop
  | .running _ => next.tail = queue.tail
  | .dequeued none => next.tail = queue.tail ∧ queue.tail = pushed.length
  | .dequeued (some element) =>
      next.tail = queue.tail + 1 ∧ pushed[queue.tail]? = some element
  | .empty answer => next.tail = queue.tail ∧ (answer = true → queue.tail = pushed.length)

/-- Every step of the consumer keeps the queue linked and accounts for what it
takes out. -/
theorem Linked.consume {queue next : MpscLinkedQueue α} {frames : List (EnqueueFrame α)}
    {frame : ConsumeFrame} {pushed : List α} {outcome : Consumed α}
    (linked : Linked queue frames (some frame) pushed)
    (stepped : queue.consume frame = (next, outcome)) :
    Linked next frames outcome.frame pushed ∧ outcome.Accounts queue next pushed := by
  cases frame with
  | dequeueNext | dequeueSpin =>
      simp only [MpscLinkedQueue.consume] at stepped
      split at stepped
      next =>
        obtain ⟨rfl, rfl⟩ := Prod.mk.inj stepped
        exact ⟨linked.look rfl rfl (by rintro frame ⟨⟩ next ⟨⟩), rfl⟩
      next following stored =>
        obtain ⟨rfl, rfl⟩ := Prod.mk.inj stepped
        refine ⟨linked.look rfl rfl ?_, rfl⟩
        rintro frame ⟨⟩ next ⟨⟩
        exact stored
  | dequeueHead =>
      simp only [MpscLinkedQueue.consume] at stepped
      split at stepped
      next same =>
        obtain ⟨rfl, rfl⟩ := Prod.mk.inj stepped
        exact ⟨linked.look rfl rfl (by rintro frame ⟨⟩), rfl, by rw [linked.length, same]⟩
      next =>
        obtain ⟨rfl, rfl⟩ := Prod.mk.inj stepped
        exact ⟨linked.look rfl rfl (by rintro frame ⟨⟩ next ⟨⟩), rfl⟩
  | unlink following =>
      obtain ⟨rfl, rfl⟩ := Prod.mk.inj stepped
      exact ⟨linked.unlink, rfl⟩
  | take following =>
      obtain ⟨rfl, rfl⟩ := Prod.mk.inj stepped
      obtain ⟨successor, present, element⟩ := linked.take_element
      refine ⟨linked.take, ?_⟩
      rw [element, List.getElem?_eq_getElem (by rw [linked.length]; exact present)]
      exact ⟨successor, List.getElem?_eq_getElem _⟩
  | emptyNext =>
      simp only [MpscLinkedQueue.consume] at stepped
      split at stepped
      next =>
        obtain ⟨rfl, rfl⟩ := Prod.mk.inj stepped
        exact ⟨linked.look rfl rfl (by rintro frame ⟨⟩ next ⟨⟩), rfl⟩
      next =>
        obtain ⟨rfl, rfl⟩ := Prod.mk.inj stepped
        exact ⟨linked.look rfl rfl (by rintro frame ⟨⟩), rfl, by simp⟩
  | emptyHead =>
      obtain ⟨rfl, rfl⟩ := Prod.mk.inj stepped
      refine ⟨linked.look rfl rfl (by rintro frame ⟨⟩), rfl, ?_⟩
      intro same
      rw [linked.length, of_decide_eq_true same]

end Libprocess
