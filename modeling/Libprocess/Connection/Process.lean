import Libprocess.Concurrency.Automaton
import Libprocess.Decoder.Streaming

/-!
# The client side of an HTTP connection

`ConnectionProcess` sends requests and matches the responses of the decoder with the
requests that wait in its pipeline.  Accepted requests are numbered, and so are the
responses that the decoder returns.  The socket is the choice of what its calls become.

A function returns nothing if a check of the decoder fails.
-/

namespace Libprocess.Connection

open Concurrency
open Decoder (BodyType Callback Parser PipeId Request Response StreamingResponseDecoder)
open Http (Headers PipeEvent ReadResult)

/-- How the promise of a request is completed; `associate` leaves it to the conversion of
the response. -/
inductive Fate where
  | set (number : Nat) (response : Response)
  | associate (number : Nat) (response : Response)
  | fail (message : String)
  deriving DecidableEq, Repr

/-- `convert`, which reads the body of a response until the end of its pipe.  `read` is the
read that the loop waits for. -/
structure Conversion where
  request : Nat
  pipe : PipeId
  buffer : String
  read : Option Nat
  outcome : Option ReadResult
  deriving DecidableEq, Repr

/-- The body of the loop in `readAll`. -/
def Conversion.got (conversion : Conversion) : ReadResult → Conversion
  | .ready text =>
      if text = "" then
        { conversion with read := none, outcome := some (.ready conversion.buffer) }
      else { conversion with read := none, buffer := conversion.buffer ++ text }
  | .failed message => { conversion with read := none, outcome := some (.failed message) }

/-- What `socket.recv()` becomes. -/
inductive Received where
  | data
  | eof
  | failed (message : String)
  | discarded
  deriving DecidableEq, Repr

/-- Nothing more can be received, though the peer has not ended the connection. -/
def Received.interrupts : Received → Bool
  | .failed _ | .discarded => true
  | .data | .eof => false

inductive Activity where
  /-- No call of `recv` is under way. -/
  | idle
  | receiving
  /-- `decode` is called; `stale` tells that the parser had recorded an error before. -/
  | decoding (stale : Bool)
  | finalized
  | aborted
  deriving DecidableEq, Repr

/-- `ConnectionProcess`.  `produced` are the responses that the decoder has returned, and
`cut` the pipes of the responses that were not complete when the connection was torn down. -/
structure ConnectionProcess where
  decoder : StreamingResponseDecoder
  parser : Parser
  disconnection : Bool
  pipeline : List (Nat × Bool)
  close : Bool
  activity : Activity
  accepted : List Request
  completions : List (Nat × Fate)
  produced : List Response
  conversions : List Conversion
  cut : List PipeId

/-- The response has the header `Connection: close`. -/
def closes (response : Response) : Bool :=
  response.headers.get "Connection" = some "close"

namespace ConnectionProcess

def init : ConnectionProcess where
  decoder := .init
  parser := .init
  disconnection := false
  pipeline := []
  close := false
  activity := .receiving
  accepted := []
  completions := []
  produced := []
  conversions := []
  cut := []

/-- Why a request is not accepted. -/
def refusal (connection : ConnectionProcess) (request : Request) : Option String :=
  if connection.disconnection then some "Disconnected"
  else if connection.close then some "Cannot pipeline after 'Connection: close'"
  else if request.type = .pipe then
    if request.reader = none then some "Request reader must be set for PIPE request"
    else if request.body ≠ "" then some "Request body must be empty for PIPE request"
    else if (request.headers.get "Content-Length").isSome then
      some "'Content-Length' cannot be set for PIPE request"
    else none
  else none

def send (connection : ConnectionProcess) (request : Request) (streamedResponse : Bool) :
    Except String ConnectionProcess :=
  match connection.refusal request with
  | some message => .error message
  | none => .ok { connection with
      close := connection.close || !request.start.keepAlive
      pipeline := connection.pipeline ++ [(connection.accepted.length, streamedResponse)]
      accepted := connection.accepted ++ [request] }

/-- Every promise in the pipeline is failed. -/
def failPipeline (connection : ConnectionProcess) (message : String) : ConnectionProcess :=
  { connection with
    completions := connection.completions ++
      connection.pipeline.map fun entry => (entry.1, .fail message)
    pipeline := [] }

/-- If a response is still streaming, the decoder gets the end of the connection. -/
def stopStreaming (decoder : StreamingResponseDecoder) (parser : Parser) :
    Option (StreamingResponseDecoder × Parser) :=
  if decoder.writingBody then
    (decoder.decodeEof parser).map fun outcome => (outcome.1, outcome.2.1)
  else some (decoder, parser)

def disconnect (connection : ConnectionProcess) (message : Option String) :
    Option ConnectionProcess :=
  (stopStreaming connection.decoder connection.parser).map fun (decoder, parser) =>
    { connection.failPipeline (message.getD "Disconnected") with
      decoder := decoder
      parser := parser
      disconnection := true }

/-- The promise at the head of the pipeline gets a response. -/
def answer (connection : ConnectionProcess) (entry : Nat × Bool) (pipeline : List (Nat × Bool))
    (number : Nat) (response : Response) : ConnectionProcess :=
  { connection with
    pipeline := pipeline
    completions := connection.completions ++
      [(entry.1, if entry.2 then .set number response else .associate number response)]
    conversions := connection.conversions ++
      if entry.2 then []
      else response.reader.toList.map fun pipe => ⟨entry.1, pipe, "", none, none⟩ }

/-- The server announces that a response is the last one. -/
def closeAfter (connection : ConnectionProcess) (response : Response) : ConnectionProcess :=
  if closes response then
    { connection.failPipeline "Received 'Connection: close' from the server" with close := true }
  else connection

/-- The loop of `_read` over the responses, of which `number` is the first.  It ends early
if it disconnects. -/
def deliver (connection : ConnectionProcess) (number : Nat) :
    List Response → Option (ConnectionProcess × Bool)
  | [] => some (connection, true)
  | response :: responses =>
      match connection.pipeline with
      | [] => (connection.disconnect (some "Received response without a request")).map (·, false)
      | entry :: pipeline =>
          ((connection.answer entry pipeline number response).closeAfter response).deliver
            (number + 1) responses

/-- The end of `_read`. -/
def continueReading (connection : ConnectionProcess) : Received → Option ConnectionProcess
  | .failed message => connection.disconnect (some message)
  | .discarded => connection.disconnect (some "discarded")
  | .eof => connection.disconnect none
  | .data =>
      if connection.decoder.failure then connection.disconnect (some "Failed to decode response")
      else if connection.close ∧ connection.pipeline = [] ∧ !connection.decoder.writingBody then
        connection.disconnect none
      else some { connection with activity := .receiving }

/-- `_read`, from the return of `decode` on. -/
def afterDecode (connection : ConnectionProcess) (received : Received) (responses : List Response) :
    Option ConnectionProcess := do
  let (delivered, continues) ← { connection with
    activity := .idle
    produced := connection.produced ++ responses }.deliver connection.produced.length responses
  if continues then delivered.continueReading received else some delivered

/-- The beginning of `_read`. -/
def startReading (connection : ConnectionProcess) : Received → Option ConnectionProcess
  | .data =>
      if connection.pipeline = [] ∧ !connection.decoder.writingBody then
        { connection with activity := .idle }.disconnect
          (some "Received data when none is expected")
      else some { connection with activity := .decoding connection.parser.errored }
  | received => do
      let (decoder, parser, responses) ← connection.decoder.decodeEof connection.parser
      { connection with decoder := decoder, parser := parser }.afterDecode received responses

/-- The pipes of the responses whose body is not complete. -/
def unfinished (connection : ConnectionProcess) : List PipeId :=
  (List.range connection.decoder.pipes.length).filter fun pipe =>
    (connection.decoder.pipes[pipe]?).any fun channel => channel.pipe.writeEnd != .closed

/-- The connection is about to be torn down. -/
def cutOff (connection : ConnectionProcess) : ConnectionProcess :=
  { connection with cut := connection.cut ++ connection.unfinished }

/-- `finalize` and the destructor of the decoder. -/
def finalize (connection : ConnectionProcess) : Option ConnectionProcess := do
  let connection ← connection.disconnect (some "Connection object was destructed")
  return { connection with activity := .finalized, decoder := connection.decoder.destroy }

/-- The loop of `readAll` begins to read. -/
def conversionRead (connection : ConnectionProcess) (conversion : Conversion) :
    Option ConnectionProcess := do
  let channel ← connection.decoder.pipes[conversion.pipe]?
  if conversion ∈ connection.conversions ∧ conversion.read = none ∧
      conversion.outcome = none then
    some { connection with
      decoder := connection.decoder.onWriter conversion.pipe .read
      conversions := connection.conversions.map fun other =>
        if other = conversion then { other with read := some channel.results.length } else other }
  else none

/-- The loop of `readAll` gets the result of its read. -/
def conversionGot (connection : ConnectionProcess) (conversion : Conversion) :
    Option ConnectionProcess := do
  let channel ← connection.decoder.pipes[conversion.pipe]?
  let number ← conversion.read
  let result ← (channel.results[number]?).join
  if conversion ∈ connection.conversions then
    some { connection with
      conversions := connection.conversions.map fun other =>
        if other = conversion then conversion.got result else other }
  else none

end ConnectionProcess

inductive ConnectionEvent where
  | send (request : Request) (streamedResponse : Bool)
  | disconnect
  /-- A call of `Socket::send` has failed. -/
  | sendFailed (message : String)
  | finalize
  | recv (received : Received)
  | callback (callback : Callback)
  /-- The parser records an error of its own. -/
  | error
  /-- `http_parser_execute` returns. -/
  | returned (short : Bool)
  /-- An operation of a reader, or the completion of a promise of a pipe. -/
  | pipe (pipe : PipeId) (event : PipeEvent)
  | conversionRead (conversion : Conversion)
  | conversionGot (conversion : Conversion)
  deriving DecidableEq, Repr

/-- The connection ends though the peer has not ended it. -/
def ConnectionEvent.tearsDown : ConnectionEvent → Bool
  | .disconnect | .sendFailed _ | .finalize => true
  | .recv received => received.interrupts
  | _ => false

namespace ConnectionProcess

/-- Whether the process can handle its next event. -/
def ready (connection : ConnectionProcess) : Bool :=
  connection.activity = .idle || connection.activity = .receiving

/-- A failed check aborts the program. -/
def orAbort (connection : ConnectionProcess) (outcome : Option ConnectionProcess) :
    ConnectionProcess :=
  outcome.getD { connection with activity := .aborted }

def step (connection : ConnectionProcess) : ConnectionEvent → Option ConnectionProcess
  | .send request streamedResponse =>
      if connection.ready then
        match connection.send request streamedResponse with
        | .ok next => some next
        | .error _ => some connection
      else none
  | .disconnect =>
      if connection.ready then
        some (connection.orAbort (connection.cutOff.disconnect none))
      else none
  | .sendFailed message =>
      if connection.ready ∧ connection.accepted ≠ [] then
        some (connection.orAbort (connection.cutOff.disconnect (some message)))
      else none
  | .finalize =>
      if connection.ready then some (connection.orAbort connection.cutOff.finalize) else none
  | .recv received =>
      if connection.activity = .receiving then
        let connection := if received.interrupts then connection.cutOff else connection
        some (connection.orAbort (connection.startReading received))
      else none
  | .callback callback =>
      match connection.activity with
      | .decoding _ =>
          if connection.parser.invokes callback then
            match connection.decoder.invoke callback with
            | none => some { connection with activity := .aborted }
            | some (decoder, code) => some { connection with
                decoder := decoder
                parser := connection.parser.answered callback code }
          else none
      | _ => none
  | .error =>
      match connection.activity with
      | .decoding _ =>
          if connection.parser.errored ∨ connection.parser.exited then none
          else some { connection with parser := { connection.parser with errored := true } }
      | _ => none
  | .returned short =>
      match connection.activity with
      | .decoding stale =>
          if connection.parser.returns stale short then
            let (decoder, responses) := connection.decoder.finish short
            let connection := { connection with
              decoder := decoder
              parser := { connection.parser with exited := false } }
            some (connection.orAbort (connection.afterDecode .data responses))
          else none
      | _ => none
  | .pipe pipe event =>
      match event with
      | .read | .closeReader | .complete _ => some { connection with
          decoder := connection.decoder.onWriter pipe event }
      | _ => none
  | .conversionRead conversion => connection.conversionRead conversion
  | .conversionGot conversion => connection.conversionGot conversion

def machine : Automaton ConnectionProcess ConnectionEvent where
  start := (· = init)
  step := step

end ConnectionProcess

end Libprocess.Connection
