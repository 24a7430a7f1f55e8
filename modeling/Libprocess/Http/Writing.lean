import Libprocess.Http.ChunkedStreams
import Libprocess.Http.ResponseEncoder
import Libprocess.Http.Responses
import Libprocess.Sockets.Encoders

/-!
# The sizes of writes

`PollSocketImpl` aborts on a call of size zero.  The functions that send responses make encoders,
each of which is sent by one of the loops, one encoder after the other.  An encoder makes a call of
size zero exactly if there is nothing in it.
-/

namespace Libprocess.Transmission

/-- An encoder as it is constructed. -/
structure Encoder.Fresh (encoder : Encoder) : Prop where
  valid : encoder.Valid
  index : encoder.index = 0

theorem Encoder.ofData_fresh (data : List UInt8) : (Encoder.ofData data).Fresh :=
  ⟨(ofData_for data).2, rfl⟩

theorem Encoder.ofFile_fresh (file : File) : (Encoder.ofFile file).Fresh :=
  ⟨(ofFile_for file).2, rfl⟩

/-- Encoders are sent one after the other, until one fails.  `calls` is the number of calls that
have been made before. -/
inductive Sends (sender : Sender Encoder) (socket : PollSocket) : Nat → List Encoder → Ending → Prop
  where
  | done {calls : Nat} : Sends sender socket calls [] .completed
  | stops {calls : Nat} {encoder : Encoder} {rest : List Encoder} {trace : List (Transfer Encoder)}
      {ending : Ending} : sender.Runs socket ⟨encoder, calls, []⟩ trace ending →
      ending ≠ .completed → Sends sender socket calls (encoder :: rest) ending
  | next {calls : Nat} {encoder : Encoder} {rest : List Encoder} {trace : List (Transfer Encoder)}
      {last : Transfer Encoder} {ending : Ending} :
      sender.Runs socket ⟨encoder, calls, []⟩ (trace ++ [last]) .completed →
      Sends sender socket last.calls rest ending → Sends sender socket calls (encoder :: rest) ending

/-- No call of size zero is made, whatever the socket reports. -/
def Positive (sender : Sender Encoder) (encoders : List Encoder) : Prop :=
  ∀ socket calls ending, Sends sender socket calls encoders ending → ending ≠ .aborted

section Positive

variable {sender : Sender Encoder} {encoder : Encoder} {encoders : List Encoder}

theorem Encoder.Fresh.faithful (fresh : encoder.Fresh) (calls : Nat) :
    Sender.Faithful encoder.content Encoder.index (Encoder.For encoder.content)
      ⟨encoder, calls, []⟩ :=
  ⟨⟨rfl, fresh.valid⟩, by rw [fresh.index, List.take_zero]⟩

theorem Encoder.Fresh.left (fresh : encoder.Fresh) (filled : encoder.content ≠ []) :
    encoder.index ≠ encoder.content.length := by
  rw [fresh.index]
  exact fun empty => filled (List.length_eq_zero_iff.mp empty.symm)

/-- A socket that takes something each time comes to the first encoder with nothing in it. -/
theorem sends_aborted
    (tracks : ∀ content, sender.Tracks content Encoder.index (Encoder.For content))
    (fresh : ∀ encoder ∈ encoders, encoder.Fresh) (member : encoder ∈ encoders)
    (empty : encoder.content = []) (calls : Nat) :
    Sends sender pairs.toPollSocket calls encoders .aborted := by
  induction encoders generalizing calls with
  | nil => cases member
  | cons first rest ih =>
      have start := fresh first List.mem_cons_self
      by_cases filled : first.content = []
      · have aborted : sender.round pairs.toPollSocket ⟨first, calls, []⟩ = .aborted := by
          rw [(tracks _).round_aborted (start.faithful calls), start.index, filled]
          rfl
        exact .stops (.aborted aborted) nofun
      · have later : encoder ∈ rest := by
          cases List.mem_cons.mp member with
          | inl same =>
              rw [same] at empty
              exact absurd empty filled
          | inr later => exact later
        obtain ⟨rounds, runs⟩ := (tracks _).terminates (start.faithful calls) (start.left filled)
        obtain ⟨trace, last, rfl, _⟩ := (tracks _).completed runs (start.faithful calls) rfl
        exact .next runs
          (ih (fun other member => fresh other (List.mem_cons_of_mem _ member)) later last.calls)

/-- The loops of `internal` make a call of size zero exactly for an encoder with nothing in it. -/
theorem positive_iff (tracks : ∀ content, sender.Tracks content Encoder.index (Encoder.For content))
    (fresh : ∀ encoder ∈ encoders, encoder.Fresh) :
    Positive sender encoders ↔ ∀ encoder ∈ encoders, encoder.content ≠ [] := by
  constructor
  · intro positive encoder member empty
    exact positive _ 0 _ (sends_aborted tracks fresh member empty 0) rfl
  · intro filled socket calls ending sends
    induction sends with
    | done => exact nofun
    | stops runs _ =>
        have first := fresh _ List.mem_cons_self
        exact (tracks _).not_aborted runs (first.faithful _) (first.left (filled _ List.mem_cons_self))
    | next _ _ ih =>
        exact ih (fun other member => fresh other (List.mem_cons_of_mem _ member))
          (fun other member => filled other (List.mem_cons_of_mem _ member))

/-- The loop of `SocketImpl::send` makes one exactly for the empty string. -/
theorem sendString_positive (data : List UInt8) :
    (∀ socket calls trace ending,
      sendString.Runs socket ⟨⟨data, 0⟩, calls, []⟩ trace ending → ending ≠ .aborted) ↔
    data ≠ [] := by
  have faithful (calls : Nat) : Sender.Faithful data Sending.index
      (fun sending => sending.data = data ∧ sending.index ≤ data.length)
      ⟨⟨data, 0⟩, calls, []⟩ :=
    ⟨⟨rfl, Nat.zero_le _⟩, rfl⟩
  constructor
  · intro positive empty
    have aborted : sendString.round pairs.toPollSocket ⟨⟨data, 0⟩, 0, []⟩ = .aborted := by
      rw [(sendString_tracks data).round_aborted (faithful 0), empty]
      rfl
    exact positive _ 0 _ _ (.aborted aborted) rfl
  · intro filled socket calls trace ending runs
    apply (sendString_tracks data).not_aborted runs (faithful calls)
    exact fun empty => filled (List.length_eq_zero_iff.mp empty.symm)

end Positive

end Libprocess.Transmission

namespace Libprocess.Http

open Transmission (Positive File Sends)

/-- The bytes of a text. -/
def bytes (text : String) : List UInt8 := text.toList.map fun character => .ofNat character.toNat

theorem bytes_eq_nil {text : String} : bytes text = [] ↔ text = "" := by
  rw [bytes, List.map_eq_nil_iff, String.toList_eq_nil_iff]

/-- What `os::open` and `os::stat` say about the path of a response. -/
inductive Opened where
  | failed (error : String)
  | unsized (error : String)
  | directory
  | regular (file : File)

/-- What responses are written with: the libraries, the time, and `Response::status`. -/
structure Writer where
  libraries : EncoderLibraries
  date : String
  status : Response → String

namespace Writer

/-- `new HttpResponseEncoder(response, request)` -/
def responseEncoder (writer : Writer) (request : Headers) (response : Response) :
    Transmission.Encoder :=
  .ofData (bytes (HttpResponseEncoder.encode writer.libraries writer.date (writer.status response)
    response request))

/-- The encoders that `http::internal::send` sends for a response. -/
def send (writer : Writer) (request : Headers) (response : Response) : List Transmission.Encoder :=
  [writer.responseEncoder request response]

/-- Those of `http::internal::sendfile`; the response has a path. -/
def sendfile (writer : Writer) (request : Headers) (response : Response) (path : String) :
    Opened → List Transmission.Encoder
  | .failed error =>
      writer.send request (.internalServerError ("Failed to open '" ++ path ++ "': " ++ error))
  | .unsized error =>
      writer.send request (.internalServerError ("Failed to fstat '" ++ path ++ "': " ++ error))
  | .directory => writer.send request (.internalServerError ("'" ++ path ++ "' is a directory"))
  | .regular file =>
      let response := { response with
        body := ""
        headers := Headers.set response.headers "Content-Length" (toString file.content.length) }
      [writer.responseEncoder request response, .ofFile file]

/-- The encoders of `http::internal::stream` for the reads of a pipe, up to its end. -/
def streamed : List Chunk → List Transmission.Encoder
  | [] => []
  | .ready data :: reads =>
      .ofData (bytes (Chunked.frame data)) :: if data = "" then [] else streamed reads
  | .failed _ :: _ => []
  | .discarded :: _ => []

/-- Those of `http::internal::stream` for a response, which may have no reader. -/
def stream (writer : Writer) (request : Headers) (response : Response) :
    Option (List Chunk) → List Transmission.Encoder
  | none => writer.send request (.internalServerError "Missing data to stream")
  | some reads =>
      let response := { response with
        body := ""
        headers := Headers.set response.headers "Transfer-Encoding" "chunked" }
      writer.responseEncoder request response :: streamed reads

/-- An encoder that `HttpProxy` sends, for the headers of some request and some file. -/
inductive Makes (writer : Writer) : Encoder → Transmission.Encoder → Prop where
  | response (request : Headers) (response : Response) :
      Makes writer (.response response) (writer.responseEncoder request response)
  | file (file : File) : Makes writer (.file file.content.length) (.ofFile file)
  | chunk (data : String) : Makes writer (.chunk data) (.ofData (bytes (Chunked.chunk data)))
  | lastChunk : Makes writer .lastChunk (.ofData (bytes Chunked.lastChunk))

end Writer

/-! ## The encoders of the proxy -/

/-- An encoder with something in it, apart from the text around it. -/
def Encoder.Filled : Encoder → Prop
  | .file size => 0 < size
  | .chunk data => data ≠ ""
  | .response _ | .lastChunk => True

namespace HttpProxy

/-- No empty file and no empty chunk has been sent. -/
def Fills (proxy : HttpProxy) : Prop := ∀ sent ∈ proxy.sent, sent.encoder.Filled

variable {proxy after : HttpProxy}

section

variable (fills : proxy.Fills)

include fills

theorem Fills.send (request : Request) (encoder : Encoder)
    (filled : encoder.Filled) (persist : Bool) : (proxy.send request encoder persist).Fills := by
  intro sent member
  cases List.mem_append.mp member with
  | inl earlier => exact fills sent earlier
  | inr last =>
      rw [List.mem_singleton.mp last]
      exact filled

theorem Fills.sendResponse (request : Request) (response : Response) :
    (proxy.sendResponse request response).Fills :=
  fills.send request (.response response) trivial _

theorem Fills.of_sent (same : after.sent = proxy.sent) : after.Fills := by
  intro sent member
  rw [same] at member
  exact fills sent member

theorem Fills.next : proxy.next.Fills := fills.of_sent (next_sent proxy)

theorem Fills.processPath (request : Request) (response : Response)
    (file : FileAnswer) : (proxy.processPath request response file).Fills := by
  cases file with
  | missing | unopened | unsized | directory => exact fills.sendResponse request _
  | regular size =>
      by_cases empty : size = 0
      · simp only [HttpProxy.processPath, if_pos empty]
        exact fills.sendResponse request _
      · simp only [HttpProxy.processPath, if_neg empty]
        have headed := fills.send request
          (.response (response.setHeader "Content-Length" (toString size))) trivial true
        exact headed.send request (.file size) (Nat.pos_of_ne_zero empty) _

theorem Fills.process (request : Request) (file : FileAnswer)
    (outcome : Option Outcome) : (proxy.process request file outcome).1.Fills := by
  cases outcome with
  | none => exact fills.sendResponse request _
  | some outcome =>
      cases outcome with
      | discarded | failed message => exact fills.sendResponse request _
      | ready response =>
          simp only [HttpProxy.process]
          split
          · exact fills.processPath request _ file
          · exact fills.send request (.response _) trivial true
          · exact fills.sendResponse request response
          · exact fills.sendResponse request response

theorem Fills.waited (future : FutureId) (file : FileAnswer) :
    (proxy.waited future file).Fills := by
  unfold HttpProxy.waited
  split
  · exact fills
  · next item rest _ =>
      split
      · have processed := fills.process item.request file (proxy.outcome item.future)
        dsimp only
        split
        · exact Fills.next (processed.of_sent rfl)
        · exact processed.of_sent rfl
      · exact fills

theorem Fills.stream (request : Request) (chunk : Chunk) :
    (proxy.stream request chunk).Fills := by
  unfold HttpProxy.stream
  split
  · exact fills
  · next reader _ =>
      cases chunk with
      | ready data =>
          by_cases empty : data = ""
          · simp only [if_pos empty]
            have sent : (proxy.send request .lastChunk request.keepAlive).Fills :=
              fills.send request .lastChunk trivial _
            exact Fills.next (sent.of_sent rfl)
          · simp only [if_neg empty]
            have reads : (proxy.read request reader).Fills := fills.of_sent rfl
            exact reads.send request (.chunk data) empty true
      | failed message | discarded => exact Fills.next ((fills.sendResponse request _).of_sent rfl)

theorem Fills.moves {move : ProxyMove} (moves : proxy.Moves move after) :
    after.Fills := by
  cases moves with
  | future | complete | chunk | finalize => exact fills.of_sent rfl
  | handle future keepAlive => exact fills.of_sent (handle_sent proxy future keepAlive)
  | enqueue response keepAlive => exact fills.of_sent (handle_sent _ _ keepAlive)
  | waited dispatched file future =>
      have taken : ({ proxy with dispatched := proxy.dispatched.eraseIdx dispatched } :
          HttpProxy).Fills := fills.of_sent rfl
      exact taken.waited future file
  | stream chunk entry =>
      have taken : ({ proxy with chunks := proxy.chunks.eraseIdx chunk } : HttpProxy).Fills :=
        fills.of_sent rfl
      exact taken.stream entry.1 entry.2

end

theorem fills_of_reachable (reached : httpProxy.Reachable proxy) : proxy.Fills := by
  apply reached.invariant Fills
  · rintro _ rfl _ member
    cases member
  · intro _ _ _ fills _ stepped
    exact fills.moves (moves_of_step stepped).2

end HttpProxy

/-! ## Everything that is sent -/

/-- What is sent through the functions of `http::internal`, by a proxy in any state that it can
reach, or through `SocketImpl::send`. -/
inductive Submission (writer : Writer) where
  | send (request : Headers) (response : Response)
  | sendfile (request : Headers) (response : Response) (path : String) (opened : Opened)
  | stream (request : Headers) (response : Response) (reads : Option (List Chunk))
  | proxy (proxy : HttpProxy) (reachable : httpProxy.Reachable proxy)
      (encoders : List Transmission.Encoder)
      (made : List.Forall₂ writer.Makes (proxy.sent.map Sent.encoder) encoders)
  | string (data : List UInt8)

namespace Submission

variable {writer : Writer}

/-- All calls of the socket are of a positive size. -/
def Safe : Submission writer → Prop
  | send request response => Positive Transmission.send (writer.send request response)
  | sendfile request response path opened =>
      Positive Transmission.send (writer.sendfile request response path opened)
  | stream request response reads =>
      Positive Transmission.send (writer.stream request response reads)
  | proxy _ _ encoders _ => Positive Transmission._send encoders
  | string data => ∀ socket calls trace ending,
      Transmission.sendString.Runs socket ⟨⟨data, 0⟩, calls, []⟩ trace ending → ending ≠ .aborted

/-- An empty file that `http::internal::sendfile` sends, or an empty string. -/
def Empty : Submission writer → Prop
  | sendfile _ _ _ (.regular file) => file.content = []
  | string data => data = []
  | _ => False

end Submission

namespace Writer

variable {writer : Writer} {request : Headers} {response : Response}

/-- An encoder as it is constructed, with something in it. -/
def Proper (encoder : Transmission.Encoder) : Prop := encoder.Fresh ∧ encoder.content ≠ []

theorem ofData_proper {text : String} (filled : text ≠ "") : Proper (.ofData (bytes text)) :=
  ⟨Transmission.Encoder.ofData_fresh _, fun empty => filled (bytes_eq_nil.mp empty)⟩

theorem responseEncoder_proper (writer : Writer) (request : Headers) (response : Response) :
    Proper (writer.responseEncoder request response) := by
  apply ofData_proper
  intro empty
  have text := congrArg String.toList empty
  simp [HttpResponseEncoder.encode] at text

theorem send_proper (writer : Writer) (request : Headers) (response : Response) :
    ∀ encoder ∈ writer.send request response, Proper encoder := by
  intro encoder member
  rw [List.mem_singleton.mp member]
  exact writer.responseEncoder_proper request response

theorem sendfile_fresh (writer : Writer) (request : Headers) (response : Response) (path : String)
    (file : File) :
    ∀ encoder ∈ writer.sendfile request response path (.regular file), encoder.Fresh := by
  intro encoder member
  rcases List.mem_pair.mp member with rfl | rfl
  · exact (writer.responseEncoder_proper request _).1
  · exact Transmission.Encoder.ofFile_fresh file

theorem streamed_proper (reads : List Chunk) : ∀ encoder ∈ streamed reads, Proper encoder := by
  induction reads with
  | nil => simp [streamed]
  | cons first reads ih =>
      cases first with
      | failed message => simp [streamed]
      | discarded => simp [streamed]
      | ready data =>
          intro encoder member
          cases List.mem_cons.mp member with
          | inl same =>
              rw [same]
              apply ofData_proper
              by_cases empty : data = ""
              · rw [Chunked.frame, if_pos empty]
                decide
              · rw [Chunked.frame, if_neg empty]
                exact chunk_ne_empty data
          | inr later =>
              split at later
              · cases later
              · exact ih encoder later

theorem makes_proper {sent : Encoder} {encoder : Transmission.Encoder}
    (makes : writer.Makes sent encoder) (filled : sent.Filled) : Proper encoder := by
  cases makes with
  | response request response => exact writer.responseEncoder_proper request response
  | file file => exact ⟨Transmission.Encoder.ofFile_fresh file, List.ne_nil_of_length_pos filled⟩
  | chunk data => exact ofData_proper (chunk_ne_empty data)
  | lastChunk => exact ofData_proper (by decide)

theorem made_proper {sents : List Encoder} {encoders : List Transmission.Encoder}
    (made : List.Forall₂ writer.Makes sents encoders) (filled : ∀ sent ∈ sents, sent.Filled) :
    ∀ encoder ∈ encoders, Proper encoder := by
  induction made with
  | nil => exact nofun
  | cons makes _ ih =>
      intro encoder member
      cases List.mem_cons.mp member with
      | inl same =>
          rw [same]
          exact makes_proper makes (filled _ List.mem_cons_self)
      | inr later =>
          exact ih (fun sent member => filled sent (List.mem_cons_of_mem _ member)) encoder later

theorem positive_of_proper {sender : Transmission.Sender Transmission.Encoder}
    (tracks : ∀ content,
      sender.Tracks content Transmission.Encoder.index (Transmission.Encoder.For content))
    {encoders : List Transmission.Encoder} (proper : ∀ encoder ∈ encoders, Proper encoder) :
    Positive sender encoders :=
  (Transmission.positive_iff tracks fun encoder member => (proper encoder member).1).mpr
    fun encoder member => (proper encoder member).2

end Writer

/-- A call of size zero is made exactly for an empty file of `http::internal::sendfile` and for an
empty string. -/
theorem safe_iff {writer : Writer} (submission : Submission writer) :
    submission.Safe ↔ ¬ submission.Empty := by
  have tracks := Transmission.send_tracks
  cases submission with
  | send request response =>
      simp only [Submission.Safe, Submission.Empty, not_false_eq_true, iff_true]
      exact Writer.positive_of_proper tracks (writer.send_proper request response)
  | sendfile request response path opened =>
      cases opened with
      | failed error | unsized error | directory =>
          simp only [Submission.Safe, Submission.Empty, not_false_eq_true, iff_true]
          exact Writer.positive_of_proper tracks (writer.send_proper request _)
      | regular file =>
          have headed := writer.responseEncoder_proper request { response with
            body := ""
            headers := Headers.set response.headers "Content-Length" (toString file.content.length) }
          have fresh := writer.sendfile_fresh request response path file
          simp only [Submission.Safe, Submission.Empty]
          rw [Transmission.positive_iff tracks fresh]
          constructor
          · intro filled
            exact filled (.ofFile file) (List.mem_cons_of_mem _ List.mem_cons_self)
          · intro filled encoder member
            rcases List.mem_pair.mp member with rfl | rfl
            · exact headed.2
            · exact filled
  | stream request response reads =>
      simp only [Submission.Safe, Submission.Empty, not_false_eq_true, iff_true]
      cases reads with
      | none => exact Writer.positive_of_proper tracks (writer.send_proper request _)
      | some reads =>
          apply Writer.positive_of_proper tracks
          intro encoder member
          cases List.mem_cons.mp member with
          | inl same =>
              rw [same]
              exact writer.responseEncoder_proper request _
          | inr later => exact Writer.streamed_proper reads encoder later
  | proxy proxy reachable encoders made =>
      simp only [Submission.Safe, Submission.Empty, not_false_eq_true, iff_true]
      have filled : ∀ sent ∈ proxy.sent.map Sent.encoder, sent.Filled := by
        intro sent member
        cases List.mem_map.mp member with
        | intro made belongs =>
            rw [← belongs.2]
            exact HttpProxy.fills_of_reachable reachable made belongs.1
      exact Writer.positive_of_proper Transmission._send_tracks (Writer.made_proper made filled)
  | string data => exact Transmission.sendString_positive data

/-- The client and the time of the tests. -/
def sundayWriter : Writer :=
  ⟨HttpResponseEncoder.identityLibraries, HttpResponseEncoder.sunday, fun _ => "200 OK"⟩

/-- The process aborts for the empty string, and for an empty file that `http::internal::sendfile`
sends. -/
theorem not_safe_empty :
    ¬ (Submission.string [] : Submission sundayWriter).Safe ∧
    ¬ (Submission.sendfile [] ⟨200, [], "", .path "empty"⟩ "empty" (.regular ⟨[], by decide⟩) :
      Submission sundayWriter).Safe := by
  constructor
  · intro safe
    exact (Transmission.sendString_positive []).mp safe rfl
  · intro safe
    have fresh := sundayWriter.sendfile_fresh [] ⟨200, [], "", .path "empty"⟩ "empty"
      ⟨[], by decide⟩
    have filled := (Transmission.positive_iff Transmission.send_tracks fresh).mp safe
    exact filled (.ofFile ⟨[], by decide⟩) (List.mem_cons_of_mem _ List.mem_cons_self) rfl

end Libprocess.Http
