import Libprocess.Concurrency.Automaton
import Mathlib.Data.List.Basic

/-!
# The HTTP pipe

A `Pipe` carries the chunks of a body from a writer to a reader.  The operations on its
data run under a lock; the promises that an operation takes out of the data are completed
after the lock is released, one after the other.

Reads are numbered in the order in which they are made.
-/

namespace Libprocess.Http

open Concurrency

/-- What the future of a read becomes. -/
inductive ReadResult where
  | ready (text : String)
  | failed (message : String)
  deriving DecidableEq, Repr

/-- `Pipe::Reader::State` -/
inductive ReadEnd where
  | opened
  | closed
  deriving DecidableEq, Repr

/-- `Pipe::Writer::State` -/
inductive WriteEnd where
  | opened
  | closed
  | failed
  deriving DecidableEq, Repr

/-- What the promise `readerClosure` becomes. -/
inductive Closure where
  | ready
  | discarded
  deriving DecidableEq, Repr

/-- The promises that a call completes after it has released the lock. -/
structure PipeCall where
  reads : List (Nat × ReadResult)
  closure : Option Closure
  deriving DecidableEq, Repr

/-- `Pipe::Data`, without the promise `readerClosure`. -/
structure Pipe where
  readEnd : ReadEnd
  writeEnd : WriteEnd
  reads : List Nat
  writes : List String
  failure : Option String
  deriving DecidableEq, Repr

namespace Pipe

def empty : Pipe := ⟨.opened, .opened, [], [], none⟩

/-- `Reader::read`, which returns nothing if there is no failure to return. -/
def read (pipe : Pipe) (number : Nat) : Option (Pipe × Option ReadResult) :=
  match pipe.readEnd, pipe.writes, pipe.writeEnd with
  | .closed, _, _ => some (pipe, some (.failed "closed"))
  | .opened, text :: writes, _ => some ({ pipe with writes := writes }, some (.ready text))
  | .opened, [], .closed => some (pipe, some (.ready ""))
  | .opened, [], .failed => pipe.failure.map fun message => (pipe, some (.failed message))
  | .opened, [], .opened => some ({ pipe with reads := pipe.reads ++ [number] }, none)

/-- `Reader::close` -/
def closeReader (pipe : Pipe) : Pipe × Bool × PipeCall :=
  if pipe.readEnd = .opened then
    ({ pipe with writes := [], reads := [], readEnd := .closed }, true,
      { reads := pipe.reads.map (·, .failed "closed")
        closure := some (if pipe.writeEnd = .opened then .ready else .discarded) })
  else (pipe, false, ⟨[], none⟩)

/-- `Writer::write` -/
def write (pipe : Pipe) (text : String) : Pipe × Bool × PipeCall :=
  if pipe.writeEnd = .opened ∧ pipe.readEnd = .opened then
    if text ≠ "" then
      match pipe.reads with
      | [] => ({ pipe with writes := pipe.writes ++ [text] }, true, ⟨[], none⟩)
      | first :: reads => ({ pipe with reads := reads }, true, ⟨[(first, .ready text)], none⟩)
    else (pipe, true, ⟨[], none⟩)
  else (pipe, false, ⟨[], none⟩)

/-- `Writer::close` -/
def closeWriter (pipe : Pipe) : Pipe × Bool × PipeCall :=
  if pipe.writeEnd = .opened then
    ({ pipe with reads := [], writeEnd := .closed }, true,
      ⟨pipe.reads.map (·, .ready ""), none⟩)
  else (pipe, false, ⟨[], none⟩)

/-- `Writer::fail` -/
def fail (pipe : Pipe) (message : String) : Pipe × Bool × PipeCall :=
  if pipe.writeEnd = .opened then
    ({ pipe with reads := [], writeEnd := .failed, failure := some message }, true,
      ⟨pipe.reads.map (·, .failed message), none⟩)
  else (pipe, false, ⟨[], none⟩)

end Pipe

/-- A pipe with the futures of its reads and the calls that still complete promises.
`decided` has the result of each read since the lock was held, `accepted` the chunks that
were written, and `closedFirst` whether the reader was closed while the writer was open. -/
structure Channel where
  pipe : Pipe
  readerClosure : Option Closure
  results : List (Option ReadResult)
  calls : List PipeCall
  decided : List (Option ReadResult)
  accepted : List String
  closedFirst : Bool
  deriving DecidableEq, Repr

inductive PipeEvent where
  | read
  | closeReader
  | write (text : String)
  | closeWriter
  | fail (message : String)
  /-- A call completes its next promise. -/
  | complete (call : PipeCall)
  deriving DecidableEq, Repr

namespace Channel

def empty : Channel := ⟨.empty, none, [], [], [], [], false⟩

/-- The results that a call has decided. -/
def decide (decided : List (Option ReadResult)) (call : PipeCall) :
    List (Option ReadResult) :=
  call.reads.foldl (fun decided entry => decided.set entry.1 (some entry.2)) decided

/-- The lock is released with a call that completes promises. -/
def commit (channel : Channel) (outcome : Pipe × Bool × PipeCall) : Channel :=
  { channel with
    pipe := outcome.1
    calls := outcome.2.2 :: channel.calls
    decided := decide channel.decided outcome.2.2 }

/-- `Promise::set` and `Promise::fail` do nothing once the future is not pending. -/
def publish (results : List (Option ReadResult)) (number : Nat) (result : ReadResult) :
    List (Option ReadResult) :=
  if results[number]? = some none then results.set number (some result) else results

def step (channel : Channel) : PipeEvent → Option Channel
  | .read => do
      let (pipe, result) ← channel.pipe.read channel.results.length
      return { channel with
        pipe := pipe
        results := channel.results ++ [result]
        decided := channel.decided ++ [result] }
  | .closeReader =>
      some { channel.commit channel.pipe.closeReader with
        closedFirst := channel.closedFirst ||
          (channel.pipe.readEnd == .opened && channel.pipe.writeEnd == .opened) }
  | .write text =>
      let outcome := channel.pipe.write text
      some { channel.commit outcome with
        accepted := if outcome.2.1 = true ∧ text ≠ "" then channel.accepted ++ [text]
          else channel.accepted }
  | .closeWriter => some (channel.commit channel.pipe.closeWriter)
  | .fail message => some (channel.commit (channel.pipe.fail message))
  | .complete call =>
      if call ∈ channel.calls then
        let others := channel.calls.erase call
        match call.reads, call.closure with
        | (number, result) :: reads, closure =>
            some { channel with
              results := publish channel.results number result
              calls := ⟨reads, closure⟩ :: others }
        | [], some closure =>
            some { channel with
              readerClosure := channel.readerClosure.or (some closure)
              calls := others }
        | [], none => some { channel with calls := others }
      else none

def machine : Automaton Channel PipeEvent where
  start := (· = empty)
  step := step

end Channel

end Libprocess.Http
