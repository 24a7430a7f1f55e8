import Libprocess.Decoder.Streaming

/-!
# The decoders that collect bodies

`DataDecoder` and `ResponseDecoder` hand out a message when it is complete, with its whole body.
They have the same state but for what belongs to the start line of a message.  All checks of the
start line and of the body are made at the end of the message.
-/

namespace Libprocess.Decoder

open Http (Headers isValidStatus statusString)

/-- The state that both decoders have.  `messages` are the messages to return. -/
structure Collecting (Start Extra : Type) where
  failure : Bool
  header : HeaderState
  field : String
  value : String
  message : Option (Message Start)
  messages : List (Message Start)
  extra : Extra

namespace Collecting

variable {Start Extra : Type}

def init (extra : Extra) : Collecting Start Extra where
  failure := false
  header := .field
  field := ""
  value := ""
  message := none
  messages := []
  extra := extra

/-- The part of `on_message_begin` that both decoders have. -/
def begin (decoder : Collecting Start Extra) (start : Start) (extra : Extra) :
    Option (Collecting Start Extra × Nat) :=
  if decoder.failure ∨ decoder.message.isSome then none
  else some ({ decoder with
    header := .field
    field := ""
    value := ""
    message := some ⟨start, [], .body, "", none⟩
    extra := extra }, success)

/-- `headers[field] = value`, after which both texts are empty. -/
def addHeader (decoder : Collecting Start Extra) (message : Message Start) :
    Collecting Start Extra :=
  { decoder with
    field := ""
    value := ""
    message := some { message with
      headers := message.headers.set decoder.field decoder.value } }

def onHeaderField (decoder : Collecting Start Extra) (data : String) :
    Option (Collecting Start Extra × Nat) :=
  match decoder.message with
  | none => none
  | some message =>
      let decoder := if decoder.header ≠ .field then decoder.addHeader message else decoder
      some ({ decoder with field := decoder.field ++ data, header := .field }, success)

def onHeaderValue (decoder : Collecting Start Extra) (data : String) :
    Option (Collecting Start Extra × Nat) :=
  match decoder.message with
  | none => none
  | some _ => some ({ decoder with value := decoder.value ++ data, header := .value }, success)

def onBody (decoder : Collecting Start Extra) (data : String) :
    Option (Collecting Start Extra × Nat) :=
  match decoder.message with
  | none => none
  | some message =>
      some ({ decoder with message := some { message with body := message.body ++ data } },
        success)

/-- The end of `on_message_complete`: the body is decompressed and the message is handed out.
The length of a decompressed body has to fit into a `char`, which becomes the header. -/
def handOut (decompress : String → Option String) (decoder : Collecting Start Extra)
    (message : Message Start) : Option (Collecting Start Extra × Nat) :=
  if message.headers.get "Content-Encoding" = some "gzip" then
    match decompress message.body with
    | none => some ({ decoder with failure := true, message := some message }, failureCode)
    | some body =>
        if body.length > 127 then none
        else some ({ decoder with
          messages := decoder.messages ++ [{ message with
            body := body
            headers := message.headers.set "Content-Length"
              (String.singleton (Char.ofNat body.length)) }]
          message := none }, success)
  else some ({ decoder with messages := decoder.messages ++ [message], message := none }, success)

/-- What `decode` does once `http_parser_execute` has returned; `short` tells that not
all bytes were consumed. -/
def finish (decoder : Collecting Start Extra) (short : Bool) :
    Collecting Start Extra × List (Message Start) :=
  ({ decoder with failure := decoder.failure || short, messages := [] }, decoder.messages)

end Collecting

/-- The fields that only `DataDecoder` has. -/
structure DataExtra where
  query : String
  url : String
  deriving DecidableEq, Repr

abbrev DataDecoder := Collecting RequestLine DataExtra

namespace DataDecoder

variable (libraries : Libraries) (decompress : String → Option String)

def init : DataDecoder := Collecting.init ⟨"", ""⟩

def onMessageBegin (decoder : DataDecoder) : Option (DataDecoder × Nat) :=
  decoder.begin ⟨"", ⟨"", [], none⟩, false⟩ ⟨"", ""⟩

def onUrl (decoder : DataDecoder) (data : String) : Option (DataDecoder × Nat) :=
  match decoder.message with
  | none => none
  | some _ =>
      some ({ decoder with extra := { decoder.extra with url := decoder.extra.url ++ data } },
        success)

def onHeadersComplete (decoder : DataDecoder) (head : Head) : Option (DataDecoder × Nat) :=
  match decoder.message with
  | none => none
  | some message =>
      let headers := message.headers.set decoder.field decoder.value
      some ({ decoder.addHeader message with
        message := some { message with
          headers := headers
          start := { message.start with method := head.method, keepAlive := head.keepAlive } } },
        success)

def onMessageComplete (decoder : DataDecoder) : Option (DataDecoder × Nat) :=
  match decoder.message with
  | none => none
  | some message =>
      let (code, url) := libraries.parseUrl decoder.extra.url
      if code ≠ 0 then some ({ decoder with failure := true }, code)
      else
        let query := url.query.getD decoder.extra.query
        let start := { message.start with url := { message.start.url with
          path := url.path.getD message.start.url.path
          fragment := url.fragment.or message.start.url.fragment } }
        let decoder := { decoder with extra := { decoder.extra with query := query } }
        match Http.Query.decode libraries.toStrings query with
        | .error _ => some ({ decoder with
            failure := true
            message := some { message with start := start } }, failureCode)
        | .ok decoded =>
            decoder.handOut decompress { message with
              start := { start with url := { start.url with query := decoded } } }

/-- The callbacks that are set in the constructor. -/
def invoke (decoder : DataDecoder) : Callback → Option (DataDecoder × Nat)
  | .messageBegin => decoder.onMessageBegin
  | .url data => decoder.onUrl data
  | .status _ => some (decoder, success)
  | .headerField data => decoder.onHeaderField data
  | .headerValue data => decoder.onHeaderValue data
  | .headersComplete head => decoder.onHeadersComplete head
  | .body data => decoder.onBody data
  | .chunkHeader => some (decoder, success)
  | .chunkComplete => some (decoder, success)
  | .messageComplete => decoder.onMessageComplete libraries decompress

end DataDecoder

/-- `ResponseDecoder`, with the `status_code` of its parser. -/
abbrev ResponseDecoder := Collecting StatusLine Nat

namespace ResponseDecoder

variable (decompress : String → Option String)

def init : ResponseDecoder := Collecting.init 0

def onMessageBegin (decoder : ResponseDecoder) : Option (ResponseDecoder × Nat) :=
  decoder.begin ⟨"", 0⟩ 0

def onHeadersComplete (decoder : ResponseDecoder) (head : Head) : Option (ResponseDecoder × Nat) :=
  match decoder.message with
  | none => none
  | some message => some ({ decoder.addHeader message with extra := head.statusCode }, success)

def onMessageComplete (decoder : ResponseDecoder) : Option (ResponseDecoder × Nat) :=
  match decoder.message with
  | none => none
  | some message =>
      if isValidStatus decoder.extra then
        decoder.handOut decompress { message with
          start := ⟨statusString decoder.extra, decoder.extra⟩ }
      else some ({ decoder with failure := true }, failureCode)

/-- The callbacks that are set in the constructor. -/
def invoke (decoder : ResponseDecoder) : Callback → Option (ResponseDecoder × Nat)
  | .messageBegin => decoder.onMessageBegin
  | .url _ => some (decoder, success)
  | .status _ => some (decoder, success)
  | .headerField data => decoder.onHeaderField data
  | .headerValue data => decoder.onHeaderValue data
  | .headersComplete head => decoder.onHeadersComplete head
  | .body data => decoder.onBody data
  | .chunkHeader => some (decoder, success)
  | .chunkComplete => some (decoder, success)
  | .messageComplete => decoder.onMessageComplete decompress

end ResponseDecoder

end Libprocess.Decoder
