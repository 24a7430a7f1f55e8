import Mathlib.Data.List.Basic

/-!
# `Owned` and `Shared` pointers

Both kinds of pointer are a `std::shared_ptr` to a control block: `Owned::Data` keeps the object in
an atomic pointer, `Shared::Data` keeps it with a flag and a promise.  A block is destroyed when the
last variable that refers to it lets go of it.  Every call of a constructor takes charge of an
object of its own: a raw pointer that `release` returned and that is wrapped once more counts as
another object.
-/

namespace Libprocess.Ownership

/-- `Owned::Data`: an exchange leaves no object behind. -/
structure OwnedData where
  t : Option Nat
  destroyed : Bool := false
  deriving DecidableEq, Repr

/-- The object that a block is in charge of. -/
def OwnedData.holding (data : OwnedData) : Option Nat :=
  if data.destroyed then none else data.t

/-- `Shared::Data`.  The future of the promise is pending, or ready with the block of an `Owned`;
it outlives the block. -/
structure SharedData where
  t : Nat
  owned : Bool := false
  future : Option Nat := none
  destroyed : Bool := false
  deriving DecidableEq, Repr

def SharedData.holding (data : SharedData) : Option Nat :=
  if data.destroyed then none else some data.t

/-- What a variable of the type `Future<Owned<T>>` refers to: nothing any more, a failure, the
`Owned` without an object, or the future of the promise in a `Shared::Data`. -/
inductive Handle where
  | dropped
  | failed
  | null
  | promise (block : Nat)
  deriving DecidableEq, Repr

/-- The control blocks, the variables that refer to them, and what became of the objects. -/
structure Memory where
  allocated : Nat := 0
  ownedData : List OwnedData := []
  sharedData : List SharedData := []
  owneds : List (Option Nat) := []
  shareds : List (Option Nat) := []
  futures : List Handle := []
  /-- The objects in the order in which they were deleted. -/
  deleted : List Nat := []
  /-- The objects in the order in which `release` returned them. -/
  released : List Nat := []
  /-- The `Shared::Data` of each call of `own` whose future has not failed. -/
  owns : List Nat := []
  deriving Repr

namespace Memory

/-- The block of an `Owned` variable. -/
def owned (memory : Memory) (place : Nat) : Option Nat :=
  memory.owneds[place]?.join

/-- The block of a `Shared` variable. -/
def shared (memory : Memory) (place : Nat) : Option Nat :=
  memory.shareds[place]?.join

/-- The block of the `Owned` that a future is ready with. -/
def delivery (memory : Memory) : Handle → Option Nat
  | .promise block => memory.sharedData[block]?.bind SharedData.future
  | _ => none

/-- The references to blocks of `Owned`s, from variables and from ready futures. -/
def ownedReferences (memory : Memory) : List Nat :=
  memory.owneds.filterMap (fun block => block) ++ memory.futures.filterMap memory.delivery

/-- The references to blocks of `Shared`s. -/
def sharedReferences (memory : Memory) : List Nat :=
  memory.shareds.filterMap fun block => block

/-- `Owned::Data::~Data`: a null pointer may be deleted. -/
def destroyOwned (memory : Memory) (block : Nat) : Memory :=
  match memory.ownedData[block]? with
  | none => memory
  | some data =>
      { memory with
        ownedData := memory.ownedData.set block { data with destroyed := true }
        deleted := memory.deleted ++ data.t.toList }

/-- The last reference to a block takes the block along. -/
def collectOwned (memory : Memory) (block : Nat) : Memory :=
  if block ∈ memory.ownedReferences then memory else memory.destroyOwned block

def dropOwned (memory : Memory) : Option Nat → Memory
  | none => memory
  | some block => memory.collectOwned block

/-- `new Owned::Data(t)`. -/
def newOwned (memory : Memory) (t : Nat) : Memory :=
  { memory with ownedData := memory.ownedData ++ [{ t := some t }] }

def putShared (memory : Memory) (block : Nat) (data : SharedData) : Memory :=
  { memory with sharedData := memory.sharedData.set block data }

/-- `Shared::Data::~Data`: the promise of a block that was claimed is set to a new `Owned`.  The
`Owned` that the future was set from is gone after that, and so is the promise. -/
def destroyShared (memory : Memory) (block : Nat) : Memory :=
  match memory.sharedData[block]? with
  | none => memory
  | some data =>
      if data.owned then
        let made := memory.ownedData.length
        ((memory.newOwned data.t).putShared block
          { data with destroyed := true, future := some made }).collectOwned made
      else
        { memory.putShared block { data with destroyed := true } with
          deleted := memory.deleted ++ [data.t] }

def collectShared (memory : Memory) (block : Nat) : Memory :=
  if block ∈ memory.sharedReferences then memory else memory.destroyShared block

def dropShared (memory : Memory) : Option Nat → Memory
  | none => memory
  | some block => memory.collectShared block

/-- `new Shared::Data(t)`. -/
def newShared (memory : Memory) (t : Nat) : Memory :=
  { memory with sharedData := memory.sharedData ++ [{ t }] }

/-- A variable that is given another value lets go of its block after that. -/
def setOwned (memory : Memory) (place : Nat) (value : Option Nat) : Memory :=
  { memory with owneds := memory.owneds.set place value }.dropOwned (memory.owned place)

def setShared (memory : Memory) (place : Nat) (value : Option Nat) : Memory :=
  { memory with shareds := memory.shareds.set place value }.dropShared
    (memory.shared place)

def pushOwned (memory : Memory) (value : Option Nat) : Memory :=
  { memory with owneds := memory.owneds ++ [value] }

def pushShared (memory : Memory) (value : Option Nat) : Memory :=
  { memory with shareds := memory.shareds ++ [value] }

def pushFuture (memory : Memory) (value : Handle) : Memory :=
  { memory with futures := memory.futures ++ [value] }

def future (memory : Memory) (place : Nat) : Handle :=
  memory.futures.getD place .dropped

def setFuture (memory : Memory) (place : Nat) (value : Handle) : Memory :=
  { memory with futures := memory.futures.set place value }.dropOwned
    (memory.delivery (memory.future place))

/-- `new T`: a raw pointer for a constructor. -/
def allocate (memory : Memory) : Memory :=
  { memory with allocated := memory.allocated + 1 }

/-- The object that an `Owned` variable leads to. -/
def pointer (memory : Memory) (place : Nat) : Option (Nat × Nat) :=
  (memory.owned place).bind fun block =>
    (memory.ownedData[block]?.bind OwnedData.t).map fun t => (block, t)

/-- `data->t.exchange(nullptr)`. -/
def exchange (memory : Memory) (block : Nat) : Memory :=
  match memory.ownedData[block]? with
  | none => memory
  | some data => { memory with ownedData := memory.ownedData.set block { data with t := none } }

end Memory

/-- What a program does with its pointers.  A destructor of a variable does what `reset` does to
it, and a variable is only used while it exists. -/
inductive Action where
  | makeOwned
  | makeOwnedNull
  | copyOwned (source : Nat)
  | assignOwned (place source : Nat)
  | resetOwned (place : Nat)
  | resetOwnedTo (place : Nat)
  | share (place : Nat)
  | release (place : Nat)
  | makeShared
  | makeSharedNull
  | copyShared (source : Nat)
  | assignShared (place source : Nat)
  | resetShared (place : Nat)
  | resetSharedTo (place : Nat)
  | own (place : Nat)
  | copyFuture (source : Nat)
  | assignFuture (place source : Nat)
  | dropFuture (place : Nat)
  | get (place : Nat)
  deriving DecidableEq, Repr

namespace Memory

/-- `Owned::Owned(T*)`. -/
def makeOwned (memory : Memory) : Memory :=
  (memory.allocate.newOwned memory.allocated).pushOwned (some memory.ownedData.length)

/-- `Shared::Shared(T*)` with the pointer at hand. -/
def makeSharedOf (memory : Memory) (t : Nat) : Memory :=
  (memory.newShared t).pushShared (some memory.sharedData.length)

/-- `Owned::reset(T*)`. -/
def resetOwnedTo (memory : Memory) (place : Nat) : Memory :=
  if place < memory.owneds.length then
    (memory.allocate.newOwned memory.allocated).setOwned place (some memory.ownedData.length)
  else
    memory

/-- `Shared::reset(T*)`. -/
def resetSharedTo (memory : Memory) (place : Nat) : Memory :=
  if place < memory.shareds.length then
    (memory.allocate.newShared memory.allocated).setShared place
      (some memory.sharedData.length)
  else
    memory

/-- `Owned::share`. -/
def share (memory : Memory) (place : Nat) : Memory :=
  match memory.pointer place with
  | none => memory.pushShared none
  | some (block, old) => ((memory.exchange block).setOwned place none).makeSharedOf old

/-- `Owned::release`. -/
def release (memory : Memory) (place : Nat) : Memory :=
  match memory.pointer place with
  | none => memory
  | some (block, old) =>
      let memory := (memory.exchange block).setOwned place none
      { memory with released := memory.released ++ [old] }

/-- `Shared::own`. -/
def own (memory : Memory) (place : Nat) : Memory :=
  match memory.shared place with
  | none => memory.pushFuture .null
  | some block =>
      match memory.sharedData[block]? with
      | none => memory
      | some data =>
          if data.owned then
            memory.pushFuture .failed
          else
            { memory.putShared block { data with owned := true } with
              futures := memory.futures ++ [Handle.promise block]
              owns := memory.owns ++ [block] }.setShared place none

/-- `future.get()` for a new `Owned` variable; it waits for a pending future and aborts on a failed
one. -/
def get (memory : Memory) (place : Nat) : Memory :=
  match memory.future place with
  | .null => memory.pushOwned none
  | handle =>
      match memory.delivery handle with
      | none => memory
      | some block => memory.pushOwned (some block)

def step (memory : Memory) : Action → Memory
  | .makeOwned => memory.makeOwned
  | .makeOwnedNull => memory.pushOwned none
  | .copyOwned source => memory.pushOwned (memory.owned source)
  | .assignOwned place source => memory.setOwned place (memory.owned source)
  | .resetOwned place => memory.setOwned place none
  | .resetOwnedTo place => memory.resetOwnedTo place
  | .share place => memory.share place
  | .release place => memory.release place
  | .makeShared => memory.allocate.makeSharedOf memory.allocated
  | .makeSharedNull => memory.pushShared none
  | .copyShared source => memory.pushShared (memory.shared source)
  | .assignShared place source => memory.setShared place (memory.shared source)
  | .resetShared place => memory.setShared place none
  | .resetSharedTo place => memory.resetSharedTo place
  | .own place => memory.own place
  | .copyFuture source => memory.pushFuture (memory.future source)
  | .assignFuture place source => memory.setFuture place (memory.future source)
  | .dropFuture place => memory.setFuture place .dropped
  | .get place => memory.get place

def run (actions : List Action) : Memory :=
  actions.foldl step {}

/-- Some variable leads to a block that is in charge of the object. -/
def Held (memory : Memory) (x : Nat) : Prop :=
  (∃ block ∈ memory.ownedReferences, ∃ data, memory.ownedData[block]? = some data ∧
    data.holding = some x) ∨
  ∃ block ∈ memory.sharedReferences, ∃ data, memory.sharedData[block]? = some data ∧
    data.holding = some x

/-- The future of the promise in a block is ready. -/
def Ready (memory : Memory) (block : Nat) : Prop :=
  ∃ data, memory.sharedData[block]? = some data ∧ data.future.isSome = true

/-- The `Owned` that the future is ready with is in charge of the object. -/
def Delivers (memory : Memory) (block x : Nat) : Prop :=
  ∃ data made owned, memory.sharedData[block]? = some data ∧ data.future = some made ∧
    memory.ownedData[made]? = some owned ∧ owned.holding = some x

/-- Some `Shared` variable leads to the object. -/
def Refers (memory : Memory) (x : Nat) : Prop :=
  ∃ block ∈ memory.sharedReferences, ∃ data, memory.sharedData[block]? = some data ∧
    data.t = x

end Memory

/-- The only holder of a shared object claims it: the object goes to the future, and from there to
the variable that the future is read into. -/
example :
    let memory := Memory.run [.makeShared, .copyShared 0, .own 1, .resetShared 0, .get 0,
      .dropFuture 0, .release 0]
    memory.deleted = [] ∧ memory.released = [0] ∧ memory.owns = [0] := by decide

end Libprocess.Ownership
