import Libprocess.Concurrency.Automaton
import Mathlib.Logic.Function.Basic

/-!
# Redirecting a file descriptor

`io::redirect` duplicates its descriptors and copies from one to the other, chunk by chunk, with
`internal::splice`.  Each chunk is shown to the hooks and then written by `io::write`, which
duplicates its descriptor again.

Other code opens and closes descriptors at any time, and a number may be used again as soon as it is
closed.  It closes only what it has opened.  A step is a system call of `redirect`, a call of a
hook, a callback, or something that other code does; waiting for a descriptor is left out.
-/

namespace Libprocess.Io

open Concurrency

inductive Owner where
  | redirect
  | others
  deriving DecidableEq

/-- Who has opened a descriptor, and the open file that it refers to. -/
structure Descriptor where
  owner : Owner
  file : Nat

/-- How a future is completed. -/
inductive Ended where
  | ready
  | failed (message : String)
  | discarded
  deriving DecidableEq

/-- The parameters of `redirect`, with the number of hooks. -/
structure Arguments where
  source : Int
  target : Option Int
  chunk : Nat
  hooks : Nat

/-- A call that sets a flag of one of the duplicates in `redirect`. -/
inductive Setup where
  | cloexecFrom
  | cloexecTo
  | asyncFrom
  | asyncTo

namespace Setup

def next : Setup → Option Setup
  | cloexecFrom => some cloexecTo
  | cloexecTo => some asyncFrom
  | asyncFrom => some asyncTo
  | asyncTo => none

def failure (error : String) : Setup → String
  | cloexecFrom => "Failed to set close-on-exec on 'from': " ++ error
  | cloexecTo => "Failed to set close-on-exec on 'to': " ++ error
  | asyncFrom => "Failed to make 'from' asynchronous: " ++ error
  | asyncTo => "Failed to make 'to' asynchronous: " ++ error

end Setup

/-- Where `redirect` is.  Its variables `from` and `to` are `source` and `target`. -/
inductive Stage where
  | start
  | dupFrom (target : Int)
  | setup (source target : Int) (call : Setup)
  | reading (source target : Int)
  /-- The hooks from `hook` on are to be called. -/
  | handling (source target : Int) (data : List UInt8) (hook : Nat)
  /-- In `io::write`, before `os::dup`. -/
  | dupTo (source target : Int) (data : List UInt8)
  /-- Before the duplicate of `io::write` is closed on exec, or made asynchronous. -/
  | prepare (source target fd : Int) (data : List UInt8) (cloexec : Bool)
  | writing (source target fd : Int) (data : List UInt8) (index : Nat)
  /-- The chunk is written. -/
  | written (source target : Int)
  | finished (ended : Ended)

structure Redirect where
  table : Int → Option Descriptor
  stage : Stage
  /-- The files that were duplicated, or opened, for reading and writing. -/
  sourceFile : Option Nat
  targetFile : Option Nat
  /-- The data that was read and written, with the file that was accessed. -/
  reads : List (Nat × List UInt8)
  writes : List (Nat × List UInt8)
  /-- The data that a hook was called with. -/
  delivered : Nat → List UInt8
  /-- The descriptors that are still to be closed. -/
  closing : List Int
  discard : Bool

inductive Move where
  /-- `os::dup`, or `os::open` of `/dev/null` as a file. -/
  | acquire (fd : Int) (null : Nat)
  | acquireFails (error : String)
  | setup
  | setupFails (error : String)
  | read (data : List UInt8)
  /-- `io::read` gives zero: at the end, or for chunks of size zero. -/
  | eof
  | readFails (message : String)
  | hook
  | prepare
  | prepareFails (error : String)
  | write (length : Nat)
  | writeFails (message : String)
  | proceed
  | stop
  | close (fd : Int)
  | discard
  | otherOpens (fd : Int) (file : Nat)
  | otherCloses (fd : Int)

namespace Redirect

/-- `redirect` before its first call, for a table in which it has no descriptor. -/
def new (table : Int → Option Descriptor) : Redirect where
  table := table
  stage := .start
  sourceFile := none
  targetFile := none
  reads := []
  writes := []
  delivered _ := []
  closing := []
  discard := false

/-- The future is completed, and descriptors are closed. -/
def finish (state : Redirect) (ended : Ended) (closing : List Int) : Redirect :=
  { state with stage := .finished ended, closing := state.closing ++ closing }

/-- A new descriptor of `redirect`. -/
def opened (state : Redirect) (fd : Int) (file : Nat) : Redirect :=
  { state with table := Function.update state.table fd (some ⟨.redirect, file⟩) }

/-- The number is not used. -/
def unused (state : Redirect) (fd : Int) : Bool := decide (0 ≤ fd) && (state.table fd).isNone

/-- `os::dup`, or for the target `os::open`. -/
def acquire (arguments : Arguments) (state : Redirect) (fd : Int) (null : Nat) : Option Redirect :=
  match state.stage with
  | .start =>
      match arguments.target with
      | none =>
          some { state.opened fd null with stage := .dupFrom fd, targetFile := some null }
      | some target => do
          let descriptor ← state.table target
          return { state.opened fd descriptor.file with
            stage := .dupFrom fd
            targetFile := some descriptor.file }
  | .dupFrom target => do
      let descriptor ← state.table arguments.source
      return { state.opened fd descriptor.file with
        stage := .setup fd target .cloexecFrom
        sourceFile := some descriptor.file }
  | .dupTo source target data => do
      let descriptor ← state.table target
      return { state.opened fd descriptor.file with stage := .prepare source target fd data true }
  | _ => none

/-- `redirect` and `io::write` check that descriptors are not negative. -/
def valid (arguments : Arguments) : Bool :=
  decide (0 ≤ arguments.source) && (match arguments.target with
    | none => true
    | some target => decide (0 ≤ target))

def acquireFails (arguments : Arguments) (state : Redirect) (error : String) : Option Redirect :=
  match state.stage with
  | .start =>
      some (state.finish (.failed <|
        if !valid arguments then "Bad file descriptor"
        else if arguments.target.isNone then "Failed to open /dev/null for writing: " ++ error
        else error) [])
  | .dupFrom target =>
      some (state.finish
        (.failed ("Failed to duplicate 'from' file descriptor: " ++ error)) [target])
  | .dupTo source target _ => some (state.finish (.failed error) [source, target])
  | _ => none

/-- The steps of `redirect` up to the loop. -/
def setupStep (arguments : Arguments) (state : Redirect) : Move → Option Redirect
  | .acquire fd null =>
      if state.unused fd ∧ valid arguments then state.acquire arguments fd null else none
  | .acquireFails error => state.acquireFails arguments error
  | .setup =>
      match state.stage with
      | .setup source target call =>
          some { state with
            stage := match call.next with
              | some next => .setup source target next
              | none => .reading source target }
      | _ => none
  | .setupFails error =>
      match state.stage with
      | .setup source target call =>
          some (state.finish (.failed (call.failure error)) [source, target])
      | _ => none
  | _ => none

/-- The steps of the loop of `splice`. -/
def spliceStep (arguments : Arguments) (state : Redirect) : Move → Option Redirect
  | .read data =>
      match state.stage with
      | .reading source target =>
          if data ≠ [] ∧ data.length ≤ arguments.chunk then do
            let descriptor ← state.table source
            return { state with
              stage := .handling source target data 0
              reads := state.reads ++ [(descriptor.file, data)] }
          else none
      | _ => none
  | .eof =>
      match state.stage with
      | .reading source target => some (state.finish .ready [source, target])
      | _ => none
  | .readFails message =>
      match state.stage with
      | .reading source target => some (state.finish (.failed message) [source, target])
      | _ => none
  | .hook =>
      match state.stage with
      | .handling source target data hook =>
          if hook < arguments.hooks then
            some { state with
              stage := .handling source target data (hook + 1)
              delivered := Function.update state.delivered hook (state.delivered hook ++ data) }
          else some { state with stage := .dupTo source target data }
      | _ => none
  | .proceed =>
      match state.stage with
      | .written source target => some { state with stage := .reading source target }
      | _ => none
  | .stop =>
      -- A discard has reached the future that the loop waits for.
      match state.stage with
      | .reading source target =>
          if state.discard then some (state.finish .discarded [source, target]) else none
      | .written source target =>
          if state.discard then some (state.finish .discarded [source, target]) else none
      | .writing source target fd _ _ =>
          if state.discard then some (state.finish .discarded [fd, source, target]) else none
      | _ => none
  | _ => none

/-- The steps of `io::write`. -/
def writeStep (state : Redirect) : Move → Option Redirect
  | .prepare =>
      match state.stage with
      | .prepare source target fd data true =>
          some { state with stage := .prepare source target fd data false }
      | .prepare source target fd data false =>
          some { state with stage := .writing source target fd data 0 }
      | _ => none
  | .prepareFails error =>
      match state.stage with
      | .prepare source target fd _ cloexec =>
          some (state.finish (.failed <|
            if cloexec then
              "Failed to set close-on-exec on duplicated file descriptor: " ++ error
            else "Failed to make duplicated file descriptor asynchronous: " ++ error)
            [fd, source, target])
      | _ => none
  | .write length =>
      match state.stage with
      | .writing source target fd data index =>
          if length ≤ data.length - index then do
            let descriptor ← state.table fd
            let wrote : Redirect := { state with
              writes := state.writes ++ [(descriptor.file, (data.drop index).take length)] }
            return if index + length ≠ data.length then
              { wrote with stage := .writing source target fd data (index + length) }
            else { wrote with stage := .written source target, closing := state.closing ++ [fd] }
          else none
      | _ => none
  | .writeFails message =>
      match state.stage with
      | .writing source target fd _ _ => some (state.finish (.failed message) [fd, source, target])
      | _ => none
  | _ => none

/-- `os::close`, the caller, and other code. -/
def otherStep (state : Redirect) : Move → Option Redirect
  | .close fd =>
      if fd ∈ state.closing then
        some { state with
          closing := state.closing.erase fd
          table := Function.update state.table fd none }
      else none
  | .discard => some { state with discard := true }
  | .otherOpens fd file =>
      if state.unused fd then
        some { state with table := Function.update state.table fd (some ⟨.others, file⟩) }
      else none
  | .otherCloses fd =>
      match state.table fd with
      | some ⟨.others, _⟩ => some { state with table := Function.update state.table fd none }
      | _ => none
  | _ => none

def step (arguments : Arguments) (state : Redirect) (move : Move) : Option Redirect :=
  (state.setupStep arguments move).or
    ((state.spliceStep arguments move).or ((state.writeStep move).or (state.otherStep move)))

end Redirect

/-- All orders of the calls of `redirect` and of what other code does. -/
def redirect (arguments : Arguments) : Automaton Redirect Move where
  start state := ∃ table : Int → Option Descriptor,
    (∀ fd descriptor, table fd = some descriptor → descriptor.owner = .others) ∧
      state = .new table
  step := Redirect.step arguments

end Libprocess.Io
