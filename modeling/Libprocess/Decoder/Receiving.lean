import Libprocess.Concurrency.Automaton
import Libprocess.Decoder.Streaming

/-!
# The loops that receive requests

`internal::receive` of a process and `http::internal::receive` of a server pass what they
receive to a `StreamingRequestDecoder`.  Both go on after a call of `decode` that has
failed and returned requests.  A state is reached between two callbacks of the parser.
-/

namespace Libprocess.Decoder

open Concurrency
open Http (PipeEvent)

inductive Control where
  /-- The loop waits for `recv`. -/
  | waiting
  /-- `decode` is called; `stale` tells that the parser had recorded an error before. -/
  | decoding (stale : Bool)
  | ended
  /-- A check has failed. -/
  | aborted
  deriving DecidableEq, Repr

/-- A loop with its decoder.  `handled` are the requests it has passed on. -/
structure Receiver (libraries : Libraries) where
  decoder : StreamingRequestDecoder libraries
  parser : Parser
  control : Control
  handled : List Request

inductive ReceiveEvent where
  | recv (length : Nat)
  /-- `recv` fails or is discarded. -/
  | interrupt
  | callback (callback : Callback)
  /-- The parser records an error of its own. -/
  | error
  /-- `http_parser_execute` returns; `peer` tells whether the address of the peer is
  known, which only `internal::receive` asks for in the loop. -/
  | returned (short peer : Bool)
  /-- An operation of a reader, or the completion of a promise of a pipe. -/
  | pipe (pipe : PipeId) (event : PipeEvent)
  deriving DecidableEq, Repr

namespace Receiver

variable {libraries : Libraries}

def init : Receiver libraries := ⟨.init, .init, .waiting, []⟩

/-- The loop is over and the decoder is deleted. -/
def finish (receiver : Receiver libraries) : Receiver libraries :=
  { receiver with control := .ended, decoder := receiver.decoder.destroy }

/-- The rest of the loop's body, from the return of `http_parser_execute` on. -/
def afterExecute (receiver : Receiver libraries) (short peer : Bool) : Receiver libraries :=
  let (decoder, requests) := receiver.decoder.finish short
  let receiver := { receiver with
    decoder := decoder
    parser := { receiver.parser with exited := false } }
  if decoder.failure ∧ requests = [] then receiver.finish
  else if requests ≠ [] ∧ !peer then receiver.finish
  else { receiver with control := .waiting, handled := receiver.handled ++ requests }

def step (receiver : Receiver libraries) : ReceiveEvent → Option (Receiver libraries)
  | .recv length =>
      if receiver.control = .waiting then
        if length = 0 then some receiver.finish
        else some { receiver with control := .decoding receiver.parser.errored }
      else none
  | .interrupt => if receiver.control = .waiting then some receiver.finish else none
  | .callback callback =>
      match receiver.control with
      | .decoding _ =>
          if receiver.parser.invokes callback then
            match receiver.decoder.invoke callback with
            | none => some { receiver with control := .aborted }
            | some (decoder, code) => some { receiver with
                decoder := decoder
                parser := receiver.parser.answered callback code }
          else none
      | _ => none
  | .error =>
      match receiver.control with
      | .decoding _ =>
          if receiver.parser.errored ∨ receiver.parser.exited then none
          else some { receiver with parser := { receiver.parser with errored := true } }
      | _ => none
  | .returned short peer =>
      match receiver.control with
      | .decoding stale =>
          if receiver.parser.returns stale short then some (receiver.afterExecute short peer)
          else none
      | _ => none
  | .pipe pipe event =>
      match event with
      | .read | .closeReader | .complete _ => some { receiver with
          decoder := receiver.decoder.onWriter pipe event }
      | _ => none

def machine (libraries : Libraries) : Automaton (Receiver libraries) ReceiveEvent where
  start := (· = init)
  step := step

end Receiver

end Libprocess.Decoder
