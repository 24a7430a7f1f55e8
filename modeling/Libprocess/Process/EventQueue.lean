import Mathlib.Data.List.Basic

/-!
# The event queue of a process

`EventQueue` as it is compiled without `LOCK_FREE_EVENT_QUEUE`: a deque and a
flag behind one mutex, so each operation is one step.
-/

namespace Libprocess

/-- An event.  Only whether it is a `TerminateEvent`, and then its field
`inject`, matters to the scheduler. -/
inductive Event where
  | ordinary (id : Nat)
  | terminate (id : Nat) (inject : Bool)
  deriving DecidableEq, Repr

namespace Event

/-- `event->is<TerminateEvent>()`. -/
def isTerminate : Event → Bool
  | .ordinary _ => false
  | .terminate _ _ => true

/-- The local variable `terminate` of `ProcessBase::enqueue`. -/
def injects : Event → Bool
  | .ordinary _ => false
  | .terminate _ inject => inject

end Event

/-- The mutex-based `EventQueue`. -/
structure EventQueue (α : Type) where
  events : List α
  comissioned : Bool
  deriving DecidableEq, Repr

namespace EventQueue

variable {α : Type}

/-- `EventQueue()`. -/
def new : EventQueue α := ⟨[], true⟩

/-- `EventQueue::enqueue`; on `false` the caller retains the event. -/
def enqueue (event : α) (queue : EventQueue α) : EventQueue α × Bool :=
  if queue.comissioned then
    ({ queue with events := queue.events ++ [event] }, true)
  else
    (queue, false)

@[simp] theorem enqueue_comissioned (event : α) (queue : EventQueue α) :
    (queue.enqueue event).1.comissioned = queue.comissioned := by
  unfold enqueue
  split <;> rfl

/-- `EventQueue::dequeue`; `none` when its `CHECK_NOTNULL` fails. -/
def dequeue (queue : EventQueue α) : Option (EventQueue α × α) :=
  match queue.events with
  | [] => none
  | event :: rest => some ({ queue with events := rest }, event)

/-- `EventQueue::empty`. -/
def empty (queue : EventQueue α) : Bool := queue.events.isEmpty

/-- `EventQueue::decomission`; it deletes the pending events. -/
def decomission (queue : EventQueue α) : EventQueue α × List α :=
  (⟨[], false⟩, queue.events)

end EventQueue

end Libprocess
