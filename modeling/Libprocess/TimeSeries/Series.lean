import Libprocess.Containers.NodeMap
import Mathlib.Algebra.Order.Ring.Int

/-!
# Time series

A time series keeps its values in a map by their times.  It remembers the next candidate for
deletion twice: as an iterator into the map and as the position of that iterator.  The objects are
copied by default, iterator included.

Times and durations are numbers of nanoseconds.  An operation whose behavior is undefined gives
nothing.
-/

namespace Libprocess

open Containers (MapNode)

structure TimeSeries (T : Type) where
  window : Int
  capacity : Nat
  values : List (MapNode Int T)
  /-- The node that `next` designates, unless `next` is singular or past the end. -/
  next : Option Nat
  index : Option Nat

namespace TimeSeries

variable {T : Type}

/-- The constructor. -/
def init (window : Int) (capacity : Nat) : TimeSeries T := ⟨window, max 3 capacity, [], none, none⟩

/-- `values.upper_bound(expired)`, up to the end. -/
def upperBound (series : TimeSeries T) (expired : Int) : List (MapNode Int T) :=
  series.values.dropWhile (·.key ≤ expired)

/-- `next->first`; the times of other nodes than those of the series are known `elsewhere`. -/
def nextTime (series : TimeSeries T) (elsewhere : Nat → Option Int) : Option Int :=
  series.next.bind fun id =>
    ((series.values.find? (·.id = id)).map (·.key)).or (elsewhere id)

/-- `truncate` -/
def truncate (series : TimeSeries T) (elsewhere : Nat → Option Int) (now : Int) :
    Option (TimeSeries T) :=
  match series.upperBound (now - series.window) with
  | [] => some series
  | first :: rest =>
      if series.values.length ≤ 1 then some series
      else
        match series.index with
        | none => some { series with index := none, values := first :: rest }
        | some index => do
            let next ← series.nextTime elsewhere
            if first.key < next then
              let erased := series.values.length - (first :: rest).length
              -- The subtraction of two `size_t` wraps around.
              some { series with
                values := first :: rest
                index := some (if erased ≤ index then index - erased else index + 2 ^ 64 - erased) }
            else some { series with index := none, values := first :: rest }

/-- The start of a round of `sparsify`, which goes back to the second value. -/
def restart (series : TimeSeries T) : TimeSeries T :=
  match series.index with
  | some index =>
      if series.values.length / 2 < index then
        { series with next := series.values[1]?.map (·.id), index := some 1 }
      else series
  | none => { series with next := series.values[1]?.map (·.id), index := some 1 }

/-- `next = values.erase(next); next++; index = index.get() + 1` -/
def eraseNext (series : TimeSeries T) : Option (TimeSeries T) := do
  let id ← series.next
  let position ← MapNode.position series.values id
  if position + 1 < series.values.length then
    some { series with
      values := series.values.eraseIdx position
      next := series.values[position + 2]?.map (·.id)
      index := series.index.map (· + 1) }
  else none

/-- The loop of `sparsify`, with a bound on its rounds. -/
def sparsifyLoop : Nat → TimeSeries T → Option (TimeSeries T)
  | 0, series => some series
  | rounds + 1, series =>
      if series.capacity < series.values.length then
        series.restart.eraseNext.bind (sparsifyLoop rounds)
      else some series

/-- `sparsify`; a round erases a value. -/
def sparsify (series : TimeSeries T) : Option (TimeSeries T) :=
  sparsifyLoop series.values.length series

/-- The values with one more of them, up to `truncate` in `set`. -/
def insert (series : TimeSeries T) (fresh : Nat) (value : T) (time : Int) : TimeSeries T :=
  { series with
    index :=
      match series.values.getLast? with
      | some last => if time < last.key then none else series.index
      | none => series.index
    values := MapNode.assign fresh time value series.values }

/-- `set` -/
def set (series : TimeSeries T) (elsewhere : Nat → Option Int) (fresh : Nat) (now : Int)
    (value : T) (time : Int) : Option (TimeSeries T) :=
  ((series.insert fresh value time).truncate elsewhere now).bind sparsify

/-- `Time::epoch` and `Time::max` -/
def epoch : Int := 0

def maxTime : Int := 2 ^ 63 - 1

/-- `start.isSome() && stop.isSome() && start.get() > stop.get()` -/
def inverted : Option Int → Option Int → Bool
  | some start, some stop => decide (stop < start)
  | _, _ => false

/-- `get`, which goes from one iterator up to another. -/
def get (series : TimeSeries T) (start stop : Option Int) : Option (List (Int × T)) :=
  if inverted start stop then some []
  else
    let lower := series.values.dropWhile (·.key < start.getD epoch)
    let upper := series.upperBound (stop.getD maxTime)
    if upper.length ≤ lower.length then
      some ((lower.take (lower.length - upper.length)).map fun node => (node.key, node.value))
    else none

/-! ## Objects -/

/-- The objects, by their numbers, and the next node. -/
structure Store (T : Type) where
  objects : List (Option (TimeSeries T))
  fresh : Nat

/-- What is done to the objects. -/
inductive Action (T : Type) where
  | construct (window : Int) (capacity : Nat)
  | set (name : Nat) (now : Int) (value : T) (time : Int)
  | truncate (name : Nat) (now : Int)
  | copyConstruct (source : Nat)
  | copyAssign (target source : Nat)
  | destroy (name : Nat)

/-- A copy of a series: the nodes are new, and the iterator is not. -/
def copied (series : TimeSeries T) (fresh : Nat) : TimeSeries T :=
  { series with values := MapNode.renumber fresh series.values }

namespace Store

def empty : Store T := ⟨[], 0⟩

def find (store : Store T) (name : Nat) : Option (TimeSeries T) := store.objects[name]?.join

def put (store : Store T) (name : Nat) (series : Option (TimeSeries T)) : Store T :=
  { store with objects := store.objects.set name series }

def add (store : Store T) (series : TimeSeries T) : Store T :=
  { store with objects := store.objects ++ [some series] }

def advance (store : Store T) (count : Nat) : Store T := { store with fresh := store.fresh + count }

/-- The time of a node of any object. -/
def timeOf (store : Store T) (id : Nat) : Option Int :=
  store.objects.findSome? fun object => object.bind fun series =>
    (series.values.find? (·.id = id)).map (·.key)

/-- One action; nothing is done to an object that does not exist. -/
def step (store : Store T) : Action T → Option (Store T)
  | .construct window capacity => some (store.add (.init window capacity))
  | .set name now value time =>
      match store.find name with
      | none => some store
      | some series => (series.set store.timeOf store.fresh now value time).map fun series =>
          (store.put name (some series)).advance 1
  | .truncate name now =>
      match store.find name with
      | none => some store
      | some series => (series.truncate store.timeOf now).map fun series =>
          store.put name (some series)
  | .copyConstruct source =>
      match store.find source with
      | none => some store
      | some series => some ((store.add (series.copied store.fresh)).advance series.values.length)
  | .copyAssign target source =>
      match store.find target, store.find source with
      | some _, some series =>
          if target = source then some store
          else some ((store.put target (some (series.copied store.fresh))).advance
            series.values.length)
      | _, _ => some store
  | .destroy name => some (store.put name none)

/-- The actions one after the other, as long as their behavior is defined. -/
def run (store : Store T) (actions : List (Action T)) : Option (Store T) :=
  actions.foldlM step store

end Store

end TimeSeries

end Libprocess
