import Mathlib.Logic.Function.Basic
import Mathlib.Data.List.Basic

/-!
# The shared state of a future

`Future<T>::Data` holds the state of a future, three flags, the result and six
vectors of callbacks.  Every access that can race is one `synchronized` block,
and each block is one function here.  The callback loops run after a block has
released the lock and belong to the machine that interleaves them.
-/

namespace Libprocess

/-- `Future<T>::State`. -/
inductive FutureState where
  | pending
  | ready
  | failed
  | discarded
  deriving DecidableEq, Repr

/-- `Result<T>`. -/
inductive Result (α : Type) where
  | none
  | some (value : α)
  | error (message : String)
  deriving DecidableEq, Repr

/-- The callback vectors of `Future<T>::Data`, named after the function that
registers into them. -/
inductive CallbackKind where
  | onAbandoned
  | onAny
  | onDiscard
  | onDiscarded
  | onFailed
  | onReady
  deriving DecidableEq, Repr

/-- A callback together with a number that identifies its registration. -/
structure Registration (Callback : Type) where
  ticket : Nat
  callback : Callback
  deriving DecidableEq, Repr

/-- The flags of `Future<T>::Data` that code outside `Future` also writes:
`Promise::associate` sets `associated` and `Future::recover` resets `discard`. -/
structure Flags where
  discard : Bool
  associated : Bool
  deriving DecidableEq, Repr

/-- What code outside `Future` can observe of `Future<T>::Data`. -/
structure Status (α : Type) extends Flags where
  state : FutureState
  abandoned : Bool
  result : Result α

/-- Whether `onAbandoned`, `onAny`, ... find their event already past and run
the callback instead of storing it (their local variable `run`). -/
def Status.fires {α : Type} (kind : CallbackKind) (status : Status α) : Bool :=
  match kind with
  | .onAbandoned => status.abandoned
  | .onAny => status.state ≠ .pending
  | .onDiscard => status.discard
  | .onDiscarded => status.state = .discarded
  | .onFailed => status.state = .failed
  | .onReady => status.state = .ready

/-- `Future<T>::Data`.  The vector `onReadyCallbacks` is `callbacks .onReady`,
and so on. -/
structure Data (α Callback : Type) extends Status α where
  callbacks : CallbackKind → List (Registration Callback)

namespace Data

variable {α Callback : Type}

/-- `Data::Data()`, with the `abandoned` flag that the constructor of `Future`
(`true`) or of `Promise` (`false`) stores next. -/
def fresh (abandoned : Bool) : Data α Callback where
  state := .pending
  discard := false
  associated := false
  abandoned := abandoned
  result := .none
  callbacks _ := []

/-- `Data::clearAllCallbacks`. -/
def clearAllCallbacks (data : Data α Callback) : Data α Callback :=
  { data with callbacks := fun _ => [] }

/-- The block shared by `Future::_set`, `Future::fail` and `Promise::discard`:
leave `PENDING` if nobody did.  The flag is the local variable `result`. -/
def complete (target : FutureState) (result : Result α) (data : Data α Callback) :
    Data α Callback × Bool :=
  if data.state = .pending then
    ({ data with state := target, result := result }, true)
  else
    (data, false)

/-- The block of `Future::_set`. -/
def set (value : α) (data : Data α Callback) : Data α Callback × Bool :=
  data.complete .ready (.some value)

/-- The block of `Future::fail`. -/
def fail (message : String) (data : Data α Callback) : Data α Callback × Bool :=
  data.complete .failed (.error message)

/-- The block of `Promise::discard(Future)`, which stores no result. -/
def discarded (data : Data α Callback) : Data α Callback × Bool :=
  data.complete .discarded data.result

/-- Swap one callback vector with an empty local one. -/
def take (kind : CallbackKind) (data : Data α Callback) :
    Data α Callback × List (Registration Callback) :=
  ({ data with callbacks := Function.update data.callbacks kind [] },
    data.callbacks kind)

/-- The block of `Future::discard`: the local `callbacks` when it returns true. -/
def requestDiscard (data : Data α Callback) :
    Option (Data α Callback × List (Registration Callback)) :=
  if !data.discard ∧ data.state = .pending then
    some (take .onDiscard { data with discard := true })
  else
    none

/-- The block of `Future::abandon`. -/
def abandon (propagating : Bool) (data : Data α Callback) :
    Option (Data α Callback × List (Registration Callback)) :=
  if !data.abandoned ∧ data.state = .pending ∧ (!data.associated ∨ propagating) then
    some (take .onAbandoned { data with abandoned := true })
  else
    none

/-- Append to one callback vector. -/
def push (kind : CallbackKind) (registration : Registration Callback)
    (data : Data α Callback) : Data α Callback :=
  { data with
    callbacks := Function.update data.callbacks kind
      (data.callbacks kind ++ [registration]) }

/-- The block of the six registration functions.  A callback that neither runs
at once nor can run later is dropped. -/
def register (kind : CallbackKind) (registration : Registration Callback)
    (data : Data α Callback) : Data α Callback × Bool :=
  if data.fires kind then
    (data, true)
  else if data.state = .pending then
    (data.push kind registration, false)
  else
    (data, false)

end Data

end Libprocess
