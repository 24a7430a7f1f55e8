import Libprocess.Decoder.Parser
import Libprocess.Http.Encoding
import Libprocess.Http.Pipe

/-!
# The streaming decoders

`StreamingRequestDecoder` and `StreamingResponseDecoder` hand out a message when its
headers are complete and write its body into a pipe.  Both have the same state but for
what belongs to the start line of a message.

A callback returns nothing if one of its checks fails, which aborts the program.  URLs
are parsed and bodies are decompressed by other libraries.
-/

namespace Libprocess.Decoder

open Http (Headers Channel PipeEvent isValidStatus statusString)

abbrev PipeId := Nat

/-- `http_parsing::SUCCESS` and `http_parsing::FAILURE` -/
def success : Nat := 0

def failureCode : Nat := 1

/-- `Request::type` and `Response::type`, as far as the decoders set it. -/
inductive BodyType where
  | none
  | body
  | pipe
  deriving DecidableEq, Repr

/-- A request or a response; `start` has the fields of its start line. -/
structure Message (Start : Type) where
  start : Start
  headers : Headers
  type : BodyType
  body : String
  reader : Option PipeId
  deriving DecidableEq, Repr

inductive HeaderState where
  | field
  | value
  deriving DecidableEq, Repr

/-- The state that both decoders have.  `messages` are the messages to return, and
`pipes` the pipes that were handed out. -/
structure Streaming (Start Extra : Type) where
  failure : Bool
  header : HeaderState
  field : String
  value : String
  message : Option (Message Start)
  writer : Option PipeId
  messages : List (Message Start)
  pipes : List Channel
  extra : Extra

/-- An operation on a pipe.  Those of a writer are always possible. -/
def perform (pipes : List Channel) (pipe : PipeId) (event : PipeEvent) : List Channel :=
  pipes.modify pipe fun channel => (channel.step event).getD channel

namespace Streaming

variable {Start Extra : Type}

def init (extra : Extra) : Streaming Start Extra where
  failure := false
  header := .field
  field := ""
  value := ""
  message := none
  writer := none
  messages := []
  pipes := []
  extra := extra

/-- The part of `on_message_begin` that both decoders have. -/
def begin (decoder : Streaming Start Extra) (start : Start) (type : BodyType) (extra : Extra) :
    Option (Streaming Start Extra × Nat) :=
  if decoder.failure ∨ decoder.message.isSome ∨ decoder.writer.isSome then none
  else some ({ decoder with
    header := .field
    field := ""
    value := ""
    message := some ⟨start, [], type, "", none⟩
    writer := none
    extra := extra }, success)

/-- `headers[field] = value`, after which both texts are empty. -/
def addHeader (decoder : Streaming Start Extra) (message : Message Start) :
    Streaming Start Extra :=
  { decoder with
    field := ""
    value := ""
    message := some { message with
      headers := message.headers.set decoder.field decoder.value } }

def onHeaderField (decoder : Streaming Start Extra) (data : String) :
    Streaming Start Extra × Nat :=
  match decoder.message with
  | none => (decoder, failureCode)
  | some message =>
      let decoder := if decoder.header ≠ .field then decoder.addHeader message else decoder
      ({ decoder with field := decoder.field ++ data, header := .field }, success)

def onHeaderValue (decoder : Streaming Start Extra) (data : String) :
    Streaming Start Extra × Nat :=
  match decoder.message with
  | none => (decoder, failureCode)
  | some _ => ({ decoder with value := decoder.value ++ data, header := .value }, success)

/-- The end of `on_headers_complete`: the message is handed out with the reader of a new
pipe. -/
def handOut (decoder : Streaming Start Extra) (message : Message Start) :
    Option (Streaming Start Extra × Nat) :=
  if decoder.writer.isSome then none
  else some ({ decoder with
    writer := some decoder.pipes.length
    pipes := decoder.pipes ++ [.empty]
    messages := decoder.messages ++ [{ message with reader := some decoder.pipes.length }]
    message := none }, success)

/-- A call on the writer of a pipe. -/
def onWriter (decoder : Streaming Start Extra) (pipe : PipeId) (event : PipeEvent) :
    Streaming Start Extra :=
  { decoder with pipes := perform decoder.pipes pipe event }

/-- The writer of a body is failed, if there is one. -/
def failWriter (decoder : Streaming Start Extra) (message : String) : Streaming Start Extra :=
  match decoder.writer with
  | none => decoder
  | some pipe => decoder.onWriter pipe (.fail message)

/-- What `decode` does once `http_parser_execute` has returned; `short` tells that not
all bytes were consumed. -/
def finish (decoder : Streaming Start Extra) (short : Bool) :
    Streaming Start Extra × List (Message Start) :=
  let decoder := if short then
    { decoder.failWriter "failed to decode body" with failure := true, writer := none }
    else decoder
  ({ decoder with messages := [] }, decoder.messages)

/-- The destructor. -/
def destroy (decoder : Streaming Start Extra) : Streaming Start Extra :=
  decoder.failWriter "Decoder is being deleted"

end Streaming

/-- The fields of `http_parser_url` that are read. -/
structure ParsedUrl where
  path : Option String
  query : Option String
  fragment : Option String
  deriving DecidableEq, Repr

/-- `http_parser_parse_url`, which returns a number, and `gzip::Decompressor`. -/
structure Libraries extends Http.Strings where
  parseUrl : String → Nat × ParsedUrl
  Decompressor : Type
  decompressor : Decompressor
  decompress : Decompressor → String → Option (String × Decompressor)
  finished : Decompressor → Bool

/-- The fields of `http::URL` that a decoder sets. -/
structure Url where
  path : String
  query : List (String × String)
  fragment : Option String
  deriving DecidableEq, Repr

structure RequestLine where
  method : String
  url : Url
  keepAlive : Bool
  deriving DecidableEq, Repr

abbrev Request := Message RequestLine

/-- The fields that only `StreamingRequestDecoder` has. -/
structure RequestExtra (libraries : Libraries) where
  query : String
  url : String
  decompressor : Option libraries.Decompressor

abbrev StreamingRequestDecoder (libraries : Libraries) :=
  Streaming RequestLine (RequestExtra libraries)

namespace StreamingRequestDecoder

variable {libraries : Libraries}

def init : StreamingRequestDecoder libraries := Streaming.init ⟨"", "", none⟩

def onMessageBegin (decoder : StreamingRequestDecoder libraries) :
    Option (StreamingRequestDecoder libraries × Nat) :=
  decoder.begin ⟨"", ⟨"", [], none⟩, false⟩ .pipe ⟨"", "", none⟩

def onUrl (decoder : StreamingRequestDecoder libraries) (data : String) :
    StreamingRequestDecoder libraries × Nat :=
  match decoder.message with
  | none => (decoder, failureCode)
  | some _ =>
      ({ decoder with extra := { decoder.extra with url := decoder.extra.url ++ data } },
        success)

def onHeadersComplete (decoder : StreamingRequestDecoder libraries) (head : Head) :
    Option (StreamingRequestDecoder libraries × Nat) :=
  match decoder.message with
  | none => none
  | some message =>
      let headers := message.headers.set decoder.field decoder.value
      let decoder := decoder.addHeader message
      let start := { message.start with method := head.method, keepAlive := head.keepAlive }
      let (code, url) := libraries.parseUrl decoder.extra.url
      if code ≠ 0 then some ({ decoder with
        failure := true
        message := some { message with headers := headers, start := start } }, code)
      else
        let query := url.query.getD decoder.extra.query
        let start := { start with url := { start.url with
          path := url.path.getD start.url.path
          fragment := url.fragment.or start.url.fragment } }
        let decoder := { decoder with extra := { decoder.extra with query := query } }
        match Http.Query.decode libraries.toStrings query with
        | .error _ => some ({ decoder with
            failure := true
            message := some { message with headers := headers, start := start } }, failureCode)
        | .ok decoded =>
            let start := { start with url := { start.url with query := decoded } }
            let decompressor := if headers.get "Content-Encoding" = some "gzip" then
              some libraries.decompressor else decoder.extra.decompressor
            let decoder := { decoder with
              extra := { decoder.extra with decompressor := decompressor } }
            decoder.handOut { message with headers := headers, start := start }

def onBody (decoder : StreamingRequestDecoder libraries) (data : String) :
    Option (StreamingRequestDecoder libraries × Nat) :=
  match decoder.writer with
  | none => none
  | some pipe =>
      match decoder.extra.decompressor with
      | none => some (decoder.onWriter pipe (.write data), success)
      | some decompressor =>
          match libraries.decompress decompressor data with
          | none => some ({ decoder with failure := true }, failureCode)
          | some (body, decompressor) =>
              some (({ decoder with extra := { decoder.extra with
                decompressor := some decompressor } }).onWriter pipe (.write body), success)

def onMessageComplete (decoder : StreamingRequestDecoder libraries) :
    Option (StreamingRequestDecoder libraries × Nat) :=
  match decoder.writer with
  | none => if decoder.failure then some (decoder, failureCode) else none
  | some pipe =>
      if decoder.extra.decompressor.any fun decompressor => !libraries.finished decompressor then
        some ({ decoder.onWriter pipe (.fail "Failed to decompress body") with
          failure := true }, failureCode)
      else some ({ decoder.onWriter pipe .closeWriter with writer := none }, success)

/-- The callbacks that are set in the constructor. -/
def invoke (decoder : StreamingRequestDecoder libraries) : Callback →
    Option (StreamingRequestDecoder libraries × Nat)
  | .messageBegin => decoder.onMessageBegin
  | .url data => some (decoder.onUrl data)
  | .status _ => some (decoder, success)
  | .headerField data => some (decoder.onHeaderField data)
  | .headerValue data => some (decoder.onHeaderValue data)
  | .headersComplete head => decoder.onHeadersComplete head
  | .body data => decoder.onBody data
  | .chunkHeader => some (decoder, success)
  | .chunkComplete => some (decoder, success)
  | .messageComplete => decoder.onMessageComplete

end StreamingRequestDecoder

structure StatusLine where
  status : String
  code : Nat
  deriving DecidableEq, Repr

abbrev Response := Message StatusLine

abbrev StreamingResponseDecoder := Streaming StatusLine Unit

namespace StreamingResponseDecoder

def init : StreamingResponseDecoder := Streaming.init ()

def onMessageBegin (decoder : StreamingResponseDecoder) :
    Option (StreamingResponseDecoder × Nat) :=
  decoder.begin ⟨"", 0⟩ .pipe ()

def onHeadersComplete (decoder : StreamingResponseDecoder) (head : Head) :
    Option (StreamingResponseDecoder × Nat) :=
  match decoder.message with
  | none => none
  | some message =>
      let headers := message.headers.set decoder.field decoder.value
      let decoder := decoder.addHeader message
      if isValidStatus head.statusCode then
        let message := { message with
          headers := headers
          start := ⟨statusString head.statusCode, head.statusCode⟩ }
        if headers.get "Content-Encoding" = some "gzip" then
          some ({ decoder with failure := true, message := some message }, failureCode)
        else decoder.handOut message
      else some ({ decoder with failure := true }, failureCode)

def onBody (decoder : StreamingResponseDecoder) (data : String) :
    Option (StreamingResponseDecoder × Nat) :=
  match decoder.writer with
  | none => none
  | some pipe => some (decoder.onWriter pipe (.write data), success)

def onMessageComplete (decoder : StreamingResponseDecoder) :
    Option (StreamingResponseDecoder × Nat) :=
  match decoder.writer with
  | none => if decoder.failure then some (decoder, failureCode) else none
  | some pipe => some ({ decoder.onWriter pipe .closeWriter with writer := none }, success)

def writingBody (decoder : StreamingResponseDecoder) : Bool := decoder.writer.isSome

/-- The callbacks that are set in the constructor. -/
def invoke (decoder : StreamingResponseDecoder) : Callback →
    Option (StreamingResponseDecoder × Nat)
  | .messageBegin => decoder.onMessageBegin
  | .url _ => some (decoder, success)
  | .status _ => some (decoder, success)
  | .headerField data => some (decoder.onHeaderField data)
  | .headerValue data => some (decoder.onHeaderValue data)
  | .headersComplete head => decoder.onHeadersComplete head
  | .body data => decoder.onBody data
  | .chunkHeader => some (decoder, success)
  | .chunkComplete => some (decoder, success)
  | .messageComplete => decoder.onMessageComplete

/-- `decode("", 0)` -/
def decodeEof (decoder : StreamingResponseDecoder) (parser : Parser) :
    Option (StreamingResponseDecoder × Parser × List Response) :=
  match parser.atEof with
  | .nothing =>
      let (decoder, responses) := decoder.finish false
      some (decoder, parser, responses)
  | .completes => do
      let (decoder, code) ← decoder.invoke .messageComplete
      let (decoder, responses) := decoder.finish false
      return (decoder, { parser.answered .messageComplete code with exited := false }, responses)
  | .fails =>
      let (decoder, responses) := decoder.finish true
      some (decoder, { parser with errored := true }, responses)

end StreamingResponseDecoder

end Libprocess.Decoder
