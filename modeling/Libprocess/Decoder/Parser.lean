import Mathlib.Data.List.Basic

/-!
# The callbacks of `http_parser`

The parser is known by its contract: in which order it invokes the callbacks, what it
does with the number that a callback returns, and what `http_parser_execute` returns.
The bytes of the peer are the choice of a sequence of callbacks.
-/

namespace Libprocess.Decoder

/-- What the parser knows of a message when its headers are complete. -/
structure Head where
  method : String
  keepAlive : Bool
  statusCode : Nat
  upgrade : Bool
  /-- `http_message_needs_eof`: the body is delimited by the end of the connection. -/
  needsEof : Bool
  deriving DecidableEq, Repr

inductive Callback where
  | messageBegin
  | url (data : String)
  | status (data : String)
  | headerField (data : String)
  | headerValue (data : String)
  | headersComplete (head : Head)
  | body (data : String)
  | chunkHeader
  | chunkComplete
  | messageComplete
  deriving DecidableEq, Repr

inductive Phase where
  /-- Between two messages. -/
  | idle
  | head
  | body
  /-- `on_headers_complete` has asked to skip the body. -/
  | skipping
  deriving DecidableEq, Repr

/-- `http_parser`.  `errored` tells that an error is recorded, `exited` that the current
call of `http_parser_execute` returns because of an upgrade. -/
structure Parser where
  phase : Phase
  upgrade : Bool
  needsEof : Bool
  errored : Bool
  exited : Bool
  deriving DecidableEq, Repr

namespace Parser

/-- `http_parser_init` -/
def init : Parser := ⟨.idle, false, false, false, false⟩

/-- Whether a callback can be the next one. -/
def invokes (parser : Parser) (callback : Callback) : Bool :=
  !parser.errored && !parser.exited &&
    match parser.phase, callback with
    | .idle, .messageBegin => true
    | .head, .url _ | .head, .status _ | .head, .headerField _ | .head, .headerValue _
    | .head, .headersComplete _ => true
    | .body, .headerField _ | .body, .headerValue _ | .body, .body _ | .body, .chunkHeader
    | .body, .chunkComplete | .body, .messageComplete => true
    | .skipping, .messageComplete => true
    | _, _ => false

/-- The parser after a callback has returned a number. -/
def answered (parser : Parser) : Callback → Nat → Parser
  | .headersComplete head, 0 =>
      { parser with phase := .body, upgrade := head.upgrade, needsEof := head.needsEof }
  | .headersComplete head, 1 => { parser with phase := .skipping, upgrade := head.upgrade }
  | .headersComplete _, 2 => { parser with phase := .skipping, upgrade := true }
  | .messageBegin, 0 => { parser with phase := .head, upgrade := false }
  | .messageComplete, 0 => { parser with phase := .idle, exited := parser.upgrade }
  | _, 0 => parser
  | _, _ => { parser with errored := true }

/-- Whether `http_parser_execute` can return fewer bytes than given (`short`), or all of
them.  `stale` tells that an error was recorded before the call, which has consumed
nothing then.  An error that is recorded at the last byte consumes all. -/
def returns (parser : Parser) (stale short : Bool) : Bool :=
  if stale then short else !short || parser.errored || parser.exited

/-- What `http_parser_execute` does with no bytes, that is, at the end of the connection. -/
inductive AtEof where
  | nothing
  | completes
  | fails
  deriving DecidableEq, Repr

def atEof (parser : Parser) : AtEof :=
  if parser.errored then .nothing
  else
    match parser.phase with
    | .idle => .nothing
    | .body => if parser.needsEof then .completes else .fails
    | .head | .skipping => .fails

end Parser

end Libprocess.Decoder
