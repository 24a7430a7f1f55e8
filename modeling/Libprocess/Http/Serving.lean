import Libprocess.Http.Writing

/-!
# Serving a connection

`http::internal::serve` runs two loops.  `receive` decodes requests, calls the handler and puts each
request with its future response into a queue.  `send` gets them one by one, awaits the response and
sends it.  When both loops have finished, what is left in the queue is deleted.

A loop is given by the future that it waits for.  Callbacks on a completed future are steps of their
own where other threads may come in between: `delete request`, the `None` that ends the queue, and
what follows on both loops.  The decoder, the handler, the socket, files and pipes are the
environment.  A discard may reach a future at any time after it was requested.
-/

namespace Libprocess.Serving

open Concurrency
open Http (Chunk Chunked.frame Headers Opened Outcome Response Writer bytes)

/-- What `send` uses of a request. -/
structure Request where
  keepAlive : Bool
  headers : Headers

/-- What has become of the future that the handler has returned. -/
inductive Handled where
  | pending
  | completed (outcome : Outcome)
  | abandoned

def serviceUnavailable : Response := .ofBody "503 Service Unavailable." 503

/-- The response that is sent, once the future is awaited: `recover` covers abandoned futures. -/
def Handled.response : Handled → Option Response
  | .pending => none
  | .completed (.ready response) => some response
  | .completed (.failed message) => some (.internalServerError message)
  | .completed .discarded => some serviceUnavailable
  | .abandoned => some serviceUnavailable

/-- How a loop, or serving, ends. -/
inductive Ended where
  | ready
  | failed (message : String)
  | discarded

/-- A response to a request, with what its path turned out to be and what its pipe, if it has a
reader, has given so far. -/
structure Answer where
  request : Request
  response : Response
  opened : Opened
  reads : Option (List Chunk)

namespace Answer

/-- The encoders of `send`, `sendfile` or `stream`, by the type of the response. -/
def encoders (writer : Writer) (answer : Answer) : List Transmission.Encoder :=
  match answer.response.type with
  | .path path => writer.sendfile answer.request.headers answer.response path answer.opened
  | .pipe _ => writer.stream answer.request.headers answer.response answer.reads
  | .body => writer.send answer.request.headers answer.response
  | .none => writer.send answer.request.headers answer.response

/-- The loop of `stream` reads on. -/
def streams (answer : Answer) : Bool :=
  match answer.response.type, answer.reads with
  | .pipe _, some reads => decide (Chunk.ready "" ∉ reads)
  | _, _ => false

/-- The connection persists after the response. -/
def persists (answer : Answer) : Bool := answer.request.keepAlive && !answer.response.closes

def read (answer : Answer) (data : String) : Answer :=
  { answer with reads := answer.reads.map fun reads => reads ++ [.ready data] }

end Answer

/-- The loop of `receive`. -/
inductive Receiver where
  | receiving
  /-- Before the call of the handler for the first of the requests. -/
  | handling (requests : List Request)
  /-- Before `pipeline.put`, with the requests that follow. -/
  | putting (rest : List Request)
  | finished (ended : Ended)

/-- The loop of `send`; requests are numbered. -/
inductive Sender where
  | iterating
  | getting
  | given (item : Option Nat)
  | awaiting (number : Nat)
  /-- With what is left to be sent of the encoders. -/
  | sending (number : Nat) (answer : Answer) (encoders : List Transmission.Encoder)
  | finished (ended : Ended)

/-- The loop that deletes the remaining requests. -/
inductive Drain where
  | waiting
  | iterating
  | getting
  | given (item : Option Nat)
  | finished

/-- The state of `serve`. -/
structure Serve where
  receiver : Receiver
  /-- `pipeline.put(None())` was called. -/
  signified : Bool
  /-- The requests that the handler was called with. -/
  requests : List Request
  handled : Nat → Handled
  elements : List (Option Nat)
  sender : Sender
  drain : Drain
  /-- The requests for which `delete request` is to be run. -/
  releasing : List Nat
  deleted : List Nat
  transmitted : List UInt8
  /-- `discard` was called on the futures of `serve` and of the loops. -/
  discard : Bool
  receivingDiscard : Bool
  sendingDiscard : Bool
  /-- The responses on which `discard` was called. -/
  discards : List Nat
  result : Option Ended

inductive Move where
  | decode (requests : List Request) (failed : Bool)
  | receiveEof
  | receiveFails (message : String)
  | receiveDiscarded
  | handle
  | put
  | signify
  | settle (number : Nat) (handled : Handled)
  | get
  | getDiscarded
  | body
  | respond (opened : Opened) (reader : Bool)
  | awaitDiscarded (reached : Bool)
  | transmit (length : Nat)
  | read (chunk : Chunk)
  | sendFails (message : String)
  | sendDiscarded
  | sent
  | delete (number : Nat)
  | awaited
  | drainGet
  | drainBody
  | complete
  | discard
  | discardReceiving
  | discardSending

namespace Serve

/-- `serve` before the loops run. -/
def new : Serve where
  receiver := .receiving
  signified := false
  requests := []
  handled _ := .pending
  elements := []
  sender := .iterating
  drain := .waiting
  releasing := []
  deleted := []
  transmitted := []
  discard := false
  receivingDiscard := false
  sendingDiscard := false
  discards := []
  result := none

/-- `pipeline.put(item)`; the item goes to the one that waits in `get`, if there is one. -/
def enqueue (state : Serve) (item : Option Nat) : Serve :=
  match state.sender, state.drain with
  | .getting, _ => { state with sender := .given item }
  | _, .getting => { state with drain := .given item }
  | _, _ => { state with elements := state.elements ++ [item] }

/-- The body of the receiving loop, for a decoder that has decoded. -/
def received (state : Serve) (requests : List Request) (failed : Bool) : Serve :=
  if failed ∧ requests = [] then
    { state with receiver := .finished (.failed "Decoder error while receiving") }
  else { state with receiver := .handling requests }

/-- The next request of the `foreach`, up to the call of the handler. -/
def handle (state : Serve) : List Request → Serve
  | [] => { state with receiver := .receiving }
  | request :: rest =>
      { state with receiver := .putting rest, requests := state.requests ++ [request] }

/-- The flow of a request is completed, and the sending loop ends. -/
def endSending (state : Serve) (number : Nat) (ended : Ended) : Serve :=
  { state with sender := .finished ended, releasing := state.releasing ++ [number] }

/-- A call of the socket has taken `length` bytes of an encoder. -/
def taken (state : Serve) (number : Nat) (answer : Answer) (encoder : Transmission.Encoder)
    (rest : List Transmission.Encoder) (length : Nat) : Serve :=
  let transfer := Transmission.send.after ⟨encoder, 0, state.transmitted⟩ length
  { state with
    transmitted := transfer.1.transmitted
    sender := .sending number answer <|
      match transfer.2 with
      | .Continue => transfer.1.state :: rest
      | .Break _ => rest }

/-- The continuation of a response that is sent. -/
def persist (state : Serve) (number : Nat) (answer : Answer) : Serve :=
  if answer.persists then
    { state with sender := .iterating, releasing := state.releasing ++ [number] }
  else state.endSending number .ready

/-- What is done with a chunk of a pipe. -/
def stream (state : Serve) (number : Nat) (answer : Answer) : Chunk → Serve
  | .ready data =>
      { state with
        sender := .sending number (answer.read data) [.ofData (bytes (Chunked.frame data))] }
  | .failed message => state.endSending number (.failed message)
  | .discarded => state.endSending number .discarded

/-- The end of `serve` by the ends of the loops. -/
def conclude : (receiving sending : Ended) → Ended
  | .ready, .ready => .ready
  | .failed receiving, .failed sending =>
      .failed ("Failed to receive (" ++ receiving ++ ") and send (" ++ sending ++ ")")
  | .failed receiving, _ => .failed ("Failed to receive: " ++ receiving)
  | _, .failed sending => .failed ("Failed to send: " ++ sending)
  | _, _ => .discarded

/-- The body of the loop that deletes. -/
def drained (state : Serve) : Option Nat → Serve
  | none => { state with drain := .finished }
  | some number =>
      { state with
        drain := .iterating
        deleted := state.deleted ++ [number]
        discards := if state.discard then state.discards ++ [number] else state.discards }

/-- Steps of the receiving loop. -/
def receiverStep (state : Serve) : Move → Option Serve
  | .decode requests failed =>
      match state.receiver with
      | .receiving => some (state.received requests failed)
      | _ => none
  | .receiveEof =>
      match state.receiver with
      | .receiving => some { state with receiver := .finished .ready }
      | _ => none
  | .receiveFails message =>
      match state.receiver with
      | .receiving => some { state with receiver := .finished (.failed message) }
      | _ => none
  | .receiveDiscarded =>
      match state.receiver with
      | .receiving =>
          if state.receivingDiscard then some { state with receiver := .finished .discarded }
          else none
      | _ => none
  | .handle =>
      match state.receiver with
      | .handling requests => some (state.handle requests)
      | _ => none
  | .put =>
      match state.receiver with
      | .putting rest =>
          some ({ state with receiver := .handling rest }.enqueue
            (some (state.requests.length - 1)))
      | _ => none
  | .signify =>
      match state.receiver with
      | .finished _ =>
          if state.signified then none else some ({ state with signified := true }.enqueue none)
      | _ => none
  | _ => none

/-- Steps of the sending loop. -/
def senderStep (writer : Writer) (state : Serve) : Move → Option Serve
  | .get =>
      match state.sender, state.elements with
      | .iterating, [] => some { state with sender := .getting }
      | .iterating, item :: rest => some { state with sender := .given item, elements := rest }
      | _, _ => none
  | .getDiscarded =>
      match state.sender with
      | .getting =>
          if state.sendingDiscard then some { state with sender := .finished .discarded } else none
      | _ => none
  | .body =>
      match state.sender with
      | .given none => some { state with sender := .finished .ready }
      | .given (some number) => some { state with sender := .awaiting number }
      | _ => none
  | .respond opened reader =>
      match state.sender with
      | .awaiting number => do
          let request ← state.requests[number]?
          let response ← (state.handled number).response
          let answer : Answer := ⟨request, response, opened, if reader then some [] else none⟩
          return { state with sender := .sending number answer (answer.encoders writer) }
      | _ => none
  | .awaitDiscarded reached =>
      match state.sender with
      | .awaiting number =>
          -- The discard has reached `await`, or a continuation of a response that is there.
          if state.sendingDiscard ∧ (reached ∨ (state.handled number).response.isSome) then
            some ({ state with
              discards := if reached then state.discards ++ [number] else state.discards
            }.endSending number .discarded)
          else none
      | _ => none
  | .transmit length =>
      match state.sender with
      | .sending number answer (encoder :: rest) =>
          -- The socket aborts on calls of size zero.
          if 0 < encoder.next.2.size ∧ length ≤ encoder.next.2.size then
            some (state.taken number answer encoder rest length)
          else none
      | _ => none
  | .read chunk =>
      match state.sender with
      | .sending number answer [] =>
          if answer.streams then some (state.stream number answer chunk) else none
      | _ => none
  | .sendFails message =>
      match state.sender with
      | .sending number _ (_ :: _) => some (state.endSending number (.failed message))
      | _ => none
  | .sendDiscarded =>
      match state.sender with
      | .sending number _ _ =>
          if state.sendingDiscard then some (state.endSending number .discarded) else none
      | _ => none
  | .sent =>
      match state.sender with
      | .sending number answer [] =>
          if answer.streams then none else some (state.persist number answer)
      | _ => none
  | _ => none

/-- Steps of `serve` itself, and of the environment. -/
def serveStep (state : Serve) : Move → Option Serve
  | .settle number handled =>
      match state.handled number with
      | .pending =>
          if number < state.requests.length then
            some { state with handled := Function.update state.handled number handled }
          else none
      | _ => none
  | .delete number =>
      if number ∈ state.releasing then
        some { state with
          releasing := state.releasing.erase number
          deleted := state.deleted ++ [number] }
      else none
  | .awaited =>
      match state.receiver, state.sender, state.drain with
      | .finished _, .finished _, .waiting =>
          some { state with drain := if state.elements.length = 0 then .finished else .iterating }
      | _, _, _ => none
  | .drainGet =>
      match state.drain, state.elements with
      | .iterating, [] => some { state with drain := .getting }
      | .iterating, item :: rest => some { state with drain := .given item, elements := rest }
      | _, _ => none
  | .drainBody =>
      match state.drain with
      | .given item => some (state.drained item)
      | _ => none
  | .complete =>
      -- The loop that deletes has been started, and may run on in another thread.
      match state.receiver, state.sender, state.drain, state.result with
      | _, _, .waiting, _ => none
      | .finished receiving, .finished sending, _, none =>
          some { state with result := some (conclude receiving sending) }
      | _, _, _, _ => none
  | .discard => if state.result.isSome then none else some { state with discard := true }
  | .discardReceiving =>
      if state.discard then some { state with receivingDiscard := true } else none
  | .discardSending =>
      if state.receivingDiscard then some { state with sendingDiscard := true } else none
  | _ => none

/-- One step of one of the threads or of the environment. -/
def step (writer : Writer) (state : Serve) (move : Move) : Option Serve :=
  (state.receiverStep move).or ((state.senderStep writer move).or (state.serveStep move))

end Serve

/-- All orders of what the loops, the handler, the socket and the caller do. -/
def serve (writer : Writer) : Automaton Serve Move where
  start state := state = .new
  step := Serve.step writer

end Libprocess.Serving
