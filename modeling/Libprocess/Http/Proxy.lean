import Libprocess.Concurrency.Automaton
import Libprocess.Http.Encoding

/-!
# The HTTP proxy of a connection

`HttpProxy` sends the responses to the requests of one connection.  The state has
its fields, the continuations it has registered and dispatched, and the encoders
it has passed to `SocketManager::send`.

Continuations are run in any order, which includes the order of the process's
event queue.  Requests are numbered as they are handled.  Headers are a map whose
keys are compared without regard to case, and the text of a chunk is that of `DataEncoder`.
-/

namespace Libprocess.Http

open Concurrency

abbrev FutureId := Nat

abbrev PipeId := Nat

/-- `Response::type` with the field that belongs to it. -/
inductive ResponseType where
  | none
  | body
  | path (path : String)
  | pipe (reader : PipeId)
  deriving DecidableEq, Repr

/-- `http::Response`. -/
structure Response where
  code : Nat
  headers : Headers
  body : String
  type : ResponseType
  deriving DecidableEq, Repr

namespace Response

/-- `Response(body, code)`. -/
def ofBody (body : String) (code : Nat) : Response where
  code := code
  headers := [("Content-Length", toString body.length),
    ("Content-Type", "text/plain; charset=utf-8")]
  body := body
  type := .body

def internalServerError (body : String) : Response := ofBody body 500

def notFound : Response := ofBody "404 Not Found." 404

/-- `response.headers[key] = value`. -/
def setHeader (response : Response) (key value : String) : Response :=
  { response with headers := response.headers.set key value }

/-- The connection is not persisted if the headers include `Connection: close`. -/
def closes (response : Response) : Bool :=
  response.headers.get "Connection" = some "close"

end Response

/-- What a response future becomes. -/
inductive Outcome where
  | ready (response : Response)
  | failed (message : String)
  | discarded
  deriving DecidableEq, Repr

/-- What `os::open` and `os::stat` say about a path. -/
inductive FileAnswer where
  | missing
  | unopened
  | unsized
  | directory
  | regular (size : Nat)
  deriving DecidableEq, Repr

/-- What a read of a pipe becomes; the empty string is the end of the pipe. -/
inductive Chunk where
  | ready (data : String)
  | failed (message : String)
  | discarded
  deriving DecidableEq, Repr

/-- A request: its number on the connection and `keepAlive`. -/
structure Request where
  number : Nat
  keepAlive : Bool
  deriving DecidableEq, Repr

/-- The encoders: `HttpResponseEncoder`, `FileEncoder`, and `DataEncoder` with a
chunk or with the terminating chunk. -/
inductive Encoder where
  | response (response : Response)
  | file (size : Nat)
  | chunk (data : String)
  | lastChunk
  deriving DecidableEq, Repr

/-- A call of `SocketManager::send`, with the request it belongs to. -/
structure Sent where
  request : Nat
  encoder : Encoder
  persist : Bool
  deriving DecidableEq, Repr

/-- `HttpProxy::Item`. -/
structure Item where
  request : Request
  future : FutureId
  deriving DecidableEq, Repr

/-- The proxy.  `waiting` and `reading` are registered continuations `waited` and
`stream`, `dispatched` and `chunks` those that are dispatched and not yet run. -/
structure HttpProxy where
  items : List Item
  pipe : Option PipeId
  waiting : List FutureId
  dispatched : List FutureId
  reading : List (Request × PipeId)
  chunks : List (Request × Chunk)
  futures : Nat
  outcome : FutureId → Option Outcome
  handled : Nat
  sent : List Sent
  finalized : Bool
  aborted : Bool

namespace HttpProxy

/-- `socket_manager->send(encoder, persist, socket)`. -/
def send (proxy : HttpProxy) (request : Request) (encoder : Encoder) (persist : Bool) :
    HttpProxy :=
  { proxy with sent := proxy.sent ++ [⟨request.number, encoder, persist⟩] }

/-- `socket_manager->send(response, request, socket)`. -/
def sendResponse (proxy : HttpProxy) (request : Request) (response : Response) : HttpProxy :=
  proxy.send request (.response response) (request.keepAlive && !response.closes)

/-- `future.onAny(defer(self(), &HttpProxy::waited))`: dispatched at once if the
future is not pending. -/
def onAny (proxy : HttpProxy) (future : FutureId) : HttpProxy :=
  match proxy.outcome future with
  | none => { proxy with waiting := proxy.waiting ++ [future] }
  | some _ => { proxy with dispatched := proxy.dispatched ++ [future] }

/-- `HttpProxy::next`. -/
def next (proxy : HttpProxy) : HttpProxy :=
  match proxy.items with
  | [] => proxy
  | item :: _ => proxy.onAny item.future

/-- `HttpProxy::handle`. -/
def handle (proxy : HttpProxy) (future : FutureId) (keepAlive : Bool) : HttpProxy :=
  let pushed : HttpProxy :=
    { proxy with
      items := proxy.items ++ [⟨⟨proxy.handled, keepAlive⟩, future⟩]
      handled := proxy.handled + 1 }
  if pushed.items.length = 1 then pushed.next else pushed

/-- A new future, which a promise of the response's producer or `enqueue` makes. -/
def future (proxy : HttpProxy) (outcome : Option Outcome) : HttpProxy :=
  { proxy with
    futures := proxy.futures + 1
    outcome := Function.update proxy.outcome proxy.futures outcome }

/-- `HttpProxy::enqueue`. -/
def enqueue (proxy : HttpProxy) (response : Response) (keepAlive : Bool) : HttpProxy :=
  (proxy.future (some (.ready response))).handle proxy.futures keepAlive

/-- The branch of `HttpProxy::process` for a path. -/
def processPath (proxy : HttpProxy) (request : Request) (response : Response) :
    FileAnswer → HttpProxy
  | .missing => proxy.sendResponse request .notFound
  | .unopened => proxy.sendResponse request (.internalServerError "500 Internal Server Error.")
  | .unsized => proxy.sendResponse request (.internalServerError "500 Internal Server Error.")
  | .directory => proxy.sendResponse request .notFound
  | .regular size =>
      let sized := response.setHeader "Content-Length" (toString size)
      if size = 0 then proxy.sendResponse request sized
      else (proxy.send request (.response sized) true).send request (.file size)
        request.keepAlive

/-- `reader.read().onAny(defer(self(), &Self::stream, request))`. -/
def read (proxy : HttpProxy) (request : Request) (reader : PipeId) : HttpProxy :=
  { proxy with reading := proxy.reading ++ [(request, reader)] }

/-- `HttpProxy::process`; the result says whether the response is done.  A future
that is neither ready nor failed counts as discarded. -/
def process (proxy : HttpProxy) (request : Request) (file : FileAnswer) :
    Option Outcome → HttpProxy × Bool
  | none => (proxy.sendResponse request (.internalServerError "discarded future"), true)
  | some .discarded =>
      (proxy.sendResponse request (.internalServerError "discarded future"), true)
  | some (.failed message) =>
      (proxy.sendResponse request (.internalServerError message), true)
  | some (.ready response) =>
      match response.type with
      | .path _ => (proxy.processPath request { response with body := "" } file, true)
      | .pipe reader =>
          let chunked := { response with body := "" }.setHeader "Transfer-Encoding" "chunked"
          let streaming : HttpProxy :=
            { proxy.send request (.response chunked) true with pipe := some reader }
          (streaming.read request reader, false)
      | .none => (proxy.sendResponse request response, true)
      | .body => (proxy.sendResponse request response, true)

/-- A `CHECK` has failed. -/
def abort (proxy : HttpProxy) : HttpProxy := { proxy with aborted := true }

/-- `HttpProxy::waited`. -/
def waited (proxy : HttpProxy) (future : FutureId) (file : FileAnswer) : HttpProxy :=
  match proxy.items with
  | [] => proxy.abort
  | item :: rest =>
      if future = item.future then
        let block := proxy.process item.request file (proxy.outcome item.future)
        let popped : HttpProxy := { block.1 with items := rest }
        if block.2 then popped.next else popped
      else proxy.abort

/-- The end of `HttpProxy::stream` when it is finished. -/
def finish (proxy : HttpProxy) : HttpProxy := { proxy with pipe := none }.next

/-- `HttpProxy::stream`. -/
def stream (proxy : HttpProxy) (request : Request) (chunk : Chunk) : HttpProxy :=
  match proxy.pipe with
  | none => proxy.abort
  | some reader =>
      match chunk with
      | .ready data =>
          if data = "" then (proxy.send request .lastChunk request.keepAlive).finish
          else (proxy.read request reader).send request (.chunk data) true
      | .failed _ =>
          (proxy.sendResponse request
            (.internalServerError "500 Internal Server Error.")).finish
      | .discarded =>
          (proxy.sendResponse request
            (.internalServerError "500 Internal Server Error.")).finish

/-- `HttpProxy::finalize`.  The proxy's events are dropped from now on. -/
def finalize (proxy : HttpProxy) : HttpProxy :=
  { proxy with pipe := none, items := [], finalized := true }

/-- A response future completes, and dispatches what was registered on it. -/
def complete (proxy : HttpProxy) (future : FutureId) (outcome : Outcome) : HttpProxy :=
  { proxy with
    outcome := Function.update proxy.outcome future (some outcome)
    waiting := proxy.waiting.filter fun other => other ≠ future
    dispatched := proxy.dispatched ++ proxy.waiting.filter fun other => other = future }

/-- A connection without requests. -/
def new : HttpProxy where
  items := []
  pipe := none
  waiting := []
  dispatched := []
  reading := []
  chunks := []
  futures := 0
  outcome _ := none
  handled := 0
  sent := []
  finalized := false
  aborted := false

end HttpProxy

/-- What happens to a proxy.  Numbers select a continuation. -/
inductive ProxyMove where
  | future
  | handle (future : FutureId) (keepAlive : Bool)
  | enqueue (response : Response) (keepAlive : Bool)
  | complete (future : FutureId) (outcome : Outcome)
  | chunk (reading : Nat) (chunk : Chunk)
  | waited (dispatched : Nat) (file : FileAnswer)
  | stream (chunk : Nat)
  | finalize
  deriving DecidableEq, Repr

namespace HttpProxy

/-- One step; none is possible after a failed `CHECK`, and only futures and pipes
go on after `finalize`. -/
def step (proxy : HttpProxy) (move : ProxyMove) : Option HttpProxy :=
  if proxy.aborted then none
  else
    match move with
    | .future => some (proxy.future none)
    | .handle future keepAlive =>
        if future < proxy.futures ∧ ¬ proxy.finalized then
          some (proxy.handle future keepAlive)
        else none
    | .enqueue response keepAlive =>
        if proxy.finalized then none else some (proxy.enqueue response keepAlive)
    | .complete future outcome =>
        if future < proxy.futures ∧ proxy.outcome future = none then
          some (proxy.complete future outcome)
        else none
    | .chunk reading chunk => do
        let entry ← proxy.reading[reading]?
        return { proxy with
          reading := proxy.reading.eraseIdx reading
          chunks := proxy.chunks ++ [(entry.1, chunk)] }
    | .waited dispatched file => do
        let future ← proxy.dispatched[dispatched]?
        if proxy.finalized then none
        else return { proxy with
          dispatched := proxy.dispatched.eraseIdx dispatched }.waited future file
    | .stream chunk => do
        let entry ← proxy.chunks[chunk]?
        if proxy.finalized then none
        else return { proxy with
          chunks := proxy.chunks.eraseIdx chunk }.stream entry.1 entry.2
    | .finalize => if proxy.finalized then none else some proxy.finalize

end HttpProxy

/-- All orders of requests, completions and continuations of one connection. -/
def httpProxy : Automaton HttpProxy ProxyMove where
  start proxy := proxy = .new
  step := HttpProxy.step

end Libprocess.Http
