import Libprocess.Http.Headers
import Libprocess.Http.Proxy

/-!
# Complete responses

What the encoders of one response are, that `HttpProxy::process` sends a complete
response or the beginning of one that is streamed, and what each step of a proxy
does.
-/

namespace Libprocess.Http

/-- The encoders of a streamed response before its terminating chunk. -/
inductive Streaming (request : Nat) : List Sent → Prop where
  | header (response : Response) (reader : PipeId) (persist : Bool)
      (piped : response.type = .pipe reader) :
      Streaming request [⟨request, .response response, persist⟩]
  | chunk {part : List Sent} (data : String) (persist : Bool) (more : data ≠ "")
      (streaming : Streaming request part) :
      Streaming request (part ++ [⟨request, .chunk data, persist⟩])

/-- The encoders of the response to one request, from the first to the last. -/
inductive Complete (request : Nat) : List Sent → Prop where
  /-- Everything is in the response itself; a file that is not sent is empty. -/
  | single (response : Response) (persist : Bool)
      (delimited : ∀ reader, response.type ≠ .pipe reader)
      (empty : ∀ path, response.type = .path path →
        response.headers.get "Content-Length" = some "0") :
      Complete request [⟨request, .response response, persist⟩]
  | file (response : Response) (path : String) (size : Nat) (persist last : Bool)
      (named : response.type = .path path)
      (sized : response.headers.get "Content-Length" = some (toString size)) :
      Complete request
        [⟨request, .response response, persist⟩, ⟨request, .file size, last⟩]
  | stream {part : List Sent} (last : Bool) (streaming : Streaming request part) :
      Complete request (part ++ [⟨request, .lastChunk, last⟩])

namespace HttpProxy

/-- A response that is sent as it is. -/
theorem sendResponse_complete (request : Request) {response : Response}
    (delimited : ∀ reader, response.type ≠ .pipe reader)
    (empty : ∀ path, response.type = .path path →
      response.headers.get "Content-Length" = some "0") (proxy : HttpProxy) :
    ∃ encoders, Complete request.number encoders ∧
      proxy.sendResponse request response = { proxy with sent := proxy.sent ++ encoders } :=
  ⟨_, .single response _ delimited empty, rfl⟩

/-- A response of the proxy itself. -/
theorem sendBody_complete (request : Request) (body : String) (code : Nat)
    (proxy : HttpProxy) :
    ∃ encoders, Complete request.number encoders ∧
      proxy.sendResponse request (.ofBody body code) =
        { proxy with sent := proxy.sent ++ encoders } :=
  sendResponse_complete request (by simp [Response.ofBody]) (by simp [Response.ofBody]) proxy

/-- Whatever becomes of the file, a complete response is sent. -/
theorem processPath_complete (request : Request) {response : Response} {path : String}
    (named : response.type = .path path) (file : FileAnswer) (proxy : HttpProxy) :
    ∃ encoders, Complete request.number encoders ∧
      proxy.processPath request response file =
        { proxy with sent := proxy.sent ++ encoders } := by
  cases file with
  | missing | unopened | unsized | directory => exact sendBody_complete request _ _ proxy
  | regular size =>
      have header : (response.setHeader "Content-Length" (toString size)).headers.get
          "Content-Length" = some (toString size) :=
        Headers.get_set_self _ _ _
      by_cases empty : size = 0
      · subst size
        refine ⟨_, .single (response.setHeader "Content-Length" (toString 0))
          (request.keepAlive && !(response.setHeader "Content-Length" (toString 0)).closes)
          ?_ (fun _ _ => header), ?_⟩
        · intro reader piped
          change response.type = .pipe reader at piped
          rw [named] at piped
          cases piped
        · rfl
      · refine ⟨_, .file (response.setHeader "Content-Length" (toString size)) path size true
          request.keepAlive named header, ?_⟩
        simp [processPath, empty, send]

/-- `process` sends a complete response and is done, or it sends the beginning of
a streamed one, takes its pipe and reads from it. -/
theorem process_spec (proxy : HttpProxy) (request : Request) (file : FileAnswer)
    (outcome : Option Outcome) :
    (∃ encoders, Complete request.number encoders ∧
      proxy.process request file outcome =
        ({ proxy with sent := proxy.sent ++ encoders }, true)) ∨
    ∃ encoders reader, Streaming request.number encoders ∧
      proxy.process request file outcome =
        ({ proxy with
            sent := proxy.sent ++ encoders
            pipe := some reader
            reading := proxy.reading ++ [(request, reader)] }, false) := by
  have done : ∀ {sent : HttpProxy}, (∃ encoders, Complete request.number encoders ∧
      sent = { proxy with sent := proxy.sent ++ encoders }) →
      ∃ encoders, Complete request.number encoders ∧
        (sent, true) = ({ proxy with sent := proxy.sent ++ encoders }, true) := by
    rintro sent ⟨encoders, complete, rfl⟩
    exact ⟨encoders, complete, rfl⟩
  cases outcome with
  | none => exact .inl (done (sendBody_complete request _ _ proxy))
  | some outcome =>
      cases outcome with
      | discarded | failed message => exact .inl (done (sendBody_complete request _ _ proxy))
      | ready response =>
          simp only [process]
          split
          next path named =>
            have cleared : { response with body := "" }.type = .path path := named
            exact .inl (done (processPath_complete request cleared file proxy))
          next reader piped =>
            refine .inr ⟨_, reader, .header (({ response with body := "" } : Response).setHeader
              "Transfer-Encoding" "chunked") reader true piped, ?_⟩
            rfl
          next type =>
            refine .inl (done (sendResponse_complete request ?_ ?_ proxy)) <;> simp [type]
          next type =>
            refine .inl (done (sendResponse_complete request ?_ ?_ proxy)) <;> simp [type]

/-- `waited` for the first item sends its response, or the beginning of it. -/
theorem waited_spec (proxy : HttpProxy) {item : Item} {rest : List Item}
    (items : proxy.items = item :: rest) (file : FileAnswer) :
    (∃ encoders, Complete item.request.number encoders ∧
      proxy.waited item.future file =
        { proxy with items := rest, sent := proxy.sent ++ encoders }.next) ∨
    ∃ encoders reader, Streaming item.request.number encoders ∧
      proxy.waited item.future file =
        { proxy with
          items := rest
          sent := proxy.sent ++ encoders
          pipe := some reader
          reading := proxy.reading ++ [(item.request, reader)] } := by
  unfold waited
  split
  next empty =>
    rw [items] at empty
    cases empty
  next first others same =>
    rw [items] at same
    obtain ⟨rfl, rfl⟩ := List.cons.inj same
    rw [if_pos rfl]
    rcases process_spec proxy item.request file (proxy.outcome item.future) with
      ⟨encoders, complete, done⟩ | ⟨encoders, reader, streaming, streams⟩
    · refine .inl ⟨encoders, complete, ?_⟩
      rw [done, if_pos rfl]
    · refine .inr ⟨encoders, reader, streaming, ?_⟩
      rw [streams, if_neg Bool.false_ne_true]

/-- `stream` sends a chunk and reads the next one, or it ends the response: with
the terminating chunk, or with an error response. -/
theorem stream_spec (proxy : HttpProxy) {reader : PipeId} (pipe : proxy.pipe = some reader)
    (request : Request) (chunk : Chunk) :
    (∃ (data : String) (persist : Bool), data ≠ "" ∧ proxy.stream request chunk =
      { proxy with
        sent := proxy.sent ++ [⟨request.number, .chunk data, persist⟩]
        reading := proxy.reading ++ [(request, reader)] }) ∨
    ∃ (encoder : Encoder) (persist : Bool),
      (∀ data, chunk = .ready data → encoder = .lastChunk) ∧
      proxy.stream request chunk =
        { proxy with
          pipe := none
          sent := proxy.sent ++ [Sent.mk request.number encoder persist] }.next := by
  unfold stream
  split
  next absent =>
    rw [pipe] at absent
    cases absent
  next other same =>
    rw [pipe] at same
    cases same
    split
    next data =>
      split
      next => exact .inr ⟨.lastChunk, _, fun _ _ => rfl, rfl⟩
      next more => exact .inl ⟨data, true, more, rfl⟩
    next => exact .inr ⟨_, _, nofun, rfl⟩
    next => exact .inr ⟨_, _, nofun, rfl⟩

/-- What each step of a proxy does. -/
inductive Moves (proxy : HttpProxy) : ProxyMove → HttpProxy → Prop where
  | future : Moves proxy .future (proxy.future none)
  | handle (future : FutureId) (keepAlive : Bool) (live : proxy.finalized = false) :
      Moves proxy (.handle future keepAlive) (proxy.handle future keepAlive)
  | enqueue (response : Response) (keepAlive : Bool) (live : proxy.finalized = false) :
      Moves proxy (.enqueue response keepAlive) (proxy.enqueue response keepAlive)
  | complete (future : FutureId) (outcome : Outcome) :
      Moves proxy (.complete future outcome) (proxy.complete future outcome)
  | chunk (reading : Nat) (chunk : Chunk) (entry : Request × PipeId)
      (found : proxy.reading[reading]? = some entry) :
      Moves proxy (.chunk reading chunk)
        { proxy with
          reading := proxy.reading.eraseIdx reading
          chunks := proxy.chunks ++ [(entry.1, chunk)] }
  | waited (dispatched : Nat) (file : FileAnswer) (future : FutureId)
      (found : proxy.dispatched[dispatched]? = some future)
      (live : proxy.finalized = false) :
      Moves proxy (.waited dispatched file)
        ({ proxy with dispatched := proxy.dispatched.eraseIdx dispatched }.waited future file)
  | stream (chunk : Nat) (entry : Request × Chunk)
      (found : proxy.chunks[chunk]? = some entry) (live : proxy.finalized = false) :
      Moves proxy (.stream chunk)
        ({ proxy with chunks := proxy.chunks.eraseIdx chunk }.stream entry.1 entry.2)
  | finalize : Moves proxy .finalize proxy.finalize

theorem moves_of_step {proxy after : HttpProxy} {move : ProxyMove}
    (stepped : proxy.step move = some after) :
    proxy.aborted = false ∧ proxy.Moves move after := by
  unfold step at stepped
  split at stepped
  next => cases stepped
  next live =>
    refine ⟨by simpa using live, ?_⟩
    cases move with
    | future =>
        cases stepped
        exact .future
    | handle future keepAlive =>
        simp only [Option.ite_none_right_eq_some, Option.some.injEq, Bool.not_eq_true]
          at stepped
        obtain ⟨⟨-, live⟩, rfl⟩ := stepped
        exact .handle future keepAlive live
    | enqueue response keepAlive =>
        simp only [Option.ite_none_left_eq_some, Option.some.injEq, Bool.not_eq_true]
          at stepped
        obtain ⟨live, rfl⟩ := stepped
        exact .enqueue response keepAlive live
    | complete future outcome =>
        simp only [Option.ite_none_right_eq_some, Option.some.injEq] at stepped
        obtain ⟨-, rfl⟩ := stepped
        exact .complete future outcome
    | chunk reading chunk =>
        simp only [Option.bind_eq_bind, Option.bind_eq_some_iff, Option.pure_def,
          Option.some.injEq] at stepped
        obtain ⟨entry, found, rfl⟩ := stepped
        exact .chunk reading chunk entry found
    | waited dispatched file =>
        simp only [Option.bind_eq_bind, Option.bind_eq_some_iff, Option.pure_def,
          Option.ite_none_left_eq_some, Option.some.injEq, Bool.not_eq_true] at stepped
        obtain ⟨future, found, live, rfl⟩ := stepped
        exact .waited dispatched file future found live
    | stream chunk =>
        simp only [Option.bind_eq_bind, Option.bind_eq_some_iff, Option.pure_def,
          Option.ite_none_left_eq_some, Option.some.injEq, Bool.not_eq_true] at stepped
        obtain ⟨entry, found, live, rfl⟩ := stepped
        exact .stream chunk entry found live
    | finalize =>
        simp only [Option.ite_none_left_eq_some, Option.some.injEq] at stepped
        obtain ⟨-, rfl⟩ := stepped
        exact .finalize

end HttpProxy

end Libprocess.Http
