import Libprocess.Http.Chunked
import Libprocess.Http.Forwarding
import Libprocess.Http.Pipelining

/-!
# Streaming a pipe in chunks

`http::internal::encode` writes the chunks of a request into another pipe, `http::internal::stream`
sends those of a response to a socket, and `HttpProxy::stream` passes them to the socket manager.
Each frames what it reads in the same way.
-/

namespace Libprocess.Http

open Forwarding

namespace Forwarding

variable {Out Event : Type} {consumer : Consumer Out Event} {start : Out}
variable {rel : Out → List String → Option Finish → Prop}

/-- What the pipe accepts in a move: the texts that are written before it is shut. -/
def written (loop : Forwarding Out) : ForwardingMove Event → List String
  | .pipe (.write text) => if loop.channel.pipe.writeEnd = .opened ∧ text ≠ "" then [text] else []
  | _ => []

/-- However the moves of a loop and of the writer of its pipe interleave, what the loop makes of all
texts that were accepted is `closed` or `failed`, as the pipe is, and the loop comes to its end. -/
structure Forwards (consumer : Consumer Out Event) (start : Out)
    (closed failed : Out → List String → Prop) : Prop where
  accepted : ∀ loop, (machine consumer start).Reachable loop → ∀ move next,
    Forwarding.step consumer loop move = some next →
      next.channel.accepted = loop.channel.accepted ++ loop.written move
  closed : ∀ loop, (machine consumer start).Reachable loop → loop.stage = .ended →
    loop.channel.pipe.writeEnd = .closed → closed loop.out loop.channel.accepted
  failed : ∀ loop, (machine consumer start).Reachable loop → loop.stage = .ended →
    loop.channel.pipe.writeEnd = .failed → failed loop.out loop.channel.accepted
  ended : ∀ loop, (machine consumer start).Reachable loop →
    loop.channel.pipe.writeEnd ≠ .opened →
    (∀ move, Internal move → Forwarding.step consumer loop move = none) → loop.stage = .ended
  ends : ∀ loop, (machine consumer start).Reachable loop →
    loop.channel.pipe.writeEnd ≠ .opened →
    ∃ moves last, (∀ move ∈ moves, Internal move) ∧
      (machine consumer start).run loop moves = some last ∧ last.stage = .ended ∧
      last.channel.accepted = loop.channel.accepted

/-- A channel accepts what is written while both ends are open. -/
theorem accepted_of_channel {channel after : Channel} {event : PipeEvent}
    (opened : channel.pipe.readEnd = .opened) (stepped : channel.step event = some after) :
    after.accepted = channel.accepted ++ match event with
      | .write text => if channel.pipe.writeEnd = .opened ∧ text ≠ "" then [text] else []
      | _ => [] := by
  cases event with
  | read =>
      simp only [Channel.step, Option.bind_eq_bind, Option.bind_eq_some_iff] at stepped
      obtain ⟨_, -, rest⟩ := stepped
      cases rest
      exact (List.append_nil _).symm
  | closeReader | closeWriter | fail =>
      cases stepped
      exact (List.append_nil _).symm
  | write text =>
      cases stepped
      simp only [Pipe.write, opened, and_true]
      by_cases live : channel.pipe.writeEnd = .opened
      · by_cases empty : text = ""
        · simp [live, empty]
        · cases channel.pipe.reads <;> simp [live, empty]
      · simp [live]
  | complete call =>
      rw [(Channel.complete_same stepped).2.2]
      exact (List.append_nil _).symm

theorem accepted_step {loop next : Forwarding Out} {move : ForwardingMove Event}
    (opened : loop.channel.pipe.readEnd = .opened)
    (stepped : Forwarding.step consumer loop move = some next) :
    next.channel.accepted = loop.channel.accepted ++ loop.written move := by
  cases move with
  | pipe event =>
      simp only [Forwarding.step] at stepped
      split at stepped
      · obtain ⟨channel, moved, rfl⟩ := Option.map_eq_some_iff.mp stepped
        refine (accepted_of_channel opened moved).trans ?_
        cases event <;> rfl
      · cases stepped
  | read =>
      simp only [Forwarding.step] at stepped
      split at stepped
      · obtain ⟨channel, moved, rfl⟩ := Option.map_eq_some_iff.mp stepped
        exact accepted_of_channel opened moved
      · cases stepped
  | handle =>
      simp only [Forwarding.step] at stepped
      split at stepped
      · split at stepped <;> cases stepped <;> exact (List.append_nil _).symm
      · cases stepped
  | outer event =>
      obtain ⟨out, -, rfl⟩ := Option.map_eq_some_iff.mp stepped
      exact (List.append_nil _).symm

theorem forwards (represents : Represents consumer start rel)
    {closed failed : Out → List String → Prop}
    (whole : ∀ out given, (∀ text ∈ given, text ≠ "") → rel out given (some .endOfFile) →
      closed out given)
    (broken : ∀ out given message, (∀ text ∈ given, text ≠ "") →
      rel out given (some (.failed message)) → failed out given) :
    Forwards consumer start closed failed where
  accepted loop reached move next stepped :=
    accepted_step (sound_of_reachable represents reached).opened stepped
  closed := by
    intro loop reached ended writeEnd
    obtain ⟨filled, given⟩ := given_of_ended represents reached ended
    cases given with
    | inl finished => exact whole _ _ filled finished.2
    | inr failure =>
        obtain ⟨_, failed, _⟩ := failure
        rw [writeEnd] at failed
        cases failed
  failed := by
    intro loop reached ended writeEnd
    obtain ⟨filled, given⟩ := given_of_ended represents reached ended
    cases given with
    | inl finished =>
        rw [writeEnd] at finished
        cases finished.1
    | inr failure =>
        obtain ⟨message, _, _, related⟩ := failure
        exact broken _ _ message filled related
  ended _ reached shut settled := ended_of_settled represents reached shut settled
  ends _ reached shut := ends represents reached shut

end Forwarding

/-! ## The body of a request -/

namespace Channel

/-- A call on the writer of a pipe. -/
def perform (channel : Channel) (event : PipeEvent) : Channel := (channel.step event).getD channel

end Channel

/-- The loop of `http::internal::encode` and the writer of the pipe that it returns.  The reader of
that pipe goes on meanwhile. -/
def encodeConsumer : Consumer Channel PipeEvent where
  body writer chunk :=
    if chunk = "" then (writer.perform (.write Chunked.lastChunk)).perform .closeWriter
    else writer.perform (.write (Chunked.chunk chunk))
  failed writer failure := writer.perform (.fail failure)
  outer writer event :=
    match event with
    | .read | .complete _ => writer.step event
    | .closeReader | .write _ | .closeWriter | .fail _ => none

/-- The pipe of a request whose head has been written. -/
def requested (head : String) : Channel := Channel.empty.perform (.write head)

/-- What is written for a body. -/
def chunkTexts (given : List String) (finish : Option Finish) : List String :=
  given.map Chunked.chunk ++
    match finish with
    | some .endOfFile => [Chunked.lastChunk]
    | _ => []

/-- The write end of the pipe of a request. -/
def writeEndOf : Option Finish → WriteEnd
  | none => .opened
  | some .endOfFile => .closed
  | some (.failed _) => .failed

/-- The pipe of a request has the chunks that were read, and ends as the pipe that is read. -/
structure Requesting (head : String) (writer : Channel) (given : List String)
    (finish : Option Finish) : Prop where
  reachable : Channel.machine.Reachable writer
  opened : writer.pipe.readEnd = .opened
  accepted : writer.accepted = (requested head).accepted ++ chunkTexts given finish
  writeEnd : writer.pipe.writeEnd = writeEndOf finish

section Requesting

variable {head text : String} {writer next : Channel} {given : List String}
variable {finish : Option Finish} {event : PipeEvent}

theorem chunk_ne_empty (data : String) : Chunked.chunk data ≠ "" := by
  intro empty
  have length := congrArg (fun text : String => text.toList.length) empty
  rw [Chunked.chunk_toList] at length
  simp at length

theorem perform_reachable (reachable : Channel.machine.Reachable writer) (event : PipeEvent) :
    Channel.machine.Reachable (writer.perform event) := by
  unfold Channel.perform
  cases stepped : writer.step event with
  | none => exact reachable
  | some next =>
      have moved : Channel.machine.step writer event = some next := stepped
      exact .step reachable trivial moved

/-- A text that is written into an open pipe is accepted. -/
theorem perform_write (opened : writer.pipe.readEnd = .opened)
    (writing : writer.pipe.writeEnd = .opened) (filled : text ≠ "") :
    (writer.perform (.write text)).accepted = writer.accepted ++ [text] ∧
      (writer.perform (.write text)).pipe.readEnd = .opened ∧
      (writer.perform (.write text)).pipe.writeEnd = .opened := by
  cases reads : writer.pipe.reads <;>
    simp [Channel.perform, Channel.step, Channel.commit, Pipe.write, opened, writing, filled, reads]

theorem perform_closeWriter (writing : writer.pipe.writeEnd = .opened) :
    (writer.perform .closeWriter).accepted = writer.accepted ∧
      (writer.perform .closeWriter).pipe.readEnd = writer.pipe.readEnd ∧
      (writer.perform .closeWriter).pipe.writeEnd = .closed := by
  simp [Channel.perform, Channel.step, Channel.commit, Pipe.closeWriter, writing]

theorem perform_fail (writing : writer.pipe.writeEnd = .opened) (message : String) :
    (writer.perform (.fail message)).accepted = writer.accepted ∧
      (writer.perform (.fail message)).pipe.readEnd = writer.pipe.readEnd ∧
      (writer.perform (.fail message)).pipe.writeEnd = .failed := by
  simp [Channel.perform, Channel.step, Channel.commit, Pipe.fail, writing]

theorem requesting_represents (head : String) :
    Represents encodeConsumer (requested head) (Requesting head) where
  start := by
    refine ⟨perform_reachable (.start rfl) _, ?_, by simp [chunkTexts], ?_⟩
    · by_cases empty : head = ""
      · subst empty
        rfl
      · exact (perform_write rfl rfl empty).2.1
    · by_cases empty : head = ""
      · subst empty
        rfl
      · exact (perform_write rfl rfl empty).2.2
  chunk := by
    intro writer given text requesting filled
    obtain ⟨accepted, opened, writing⟩ :=
      perform_write requesting.opened requesting.writeEnd (chunk_ne_empty text)
    simp only [encodeConsumer, if_neg filled]
    refine ⟨perform_reachable requesting.reachable _, opened, ?_, writing⟩
    rw [accepted, requesting.accepted]
    simp [chunkTexts]
  finish := by
    intro writer given requesting
    obtain ⟨accepted, opened, writing⟩ :=
      perform_write requesting.opened requesting.writeEnd (by decide : Chunked.lastChunk ≠ "")
    obtain ⟨kept, same, closed⟩ := perform_closeWriter writing
    simp only [encodeConsumer, if_true]
    refine ⟨perform_reachable (perform_reachable requesting.reachable _) _, same.trans opened, ?_,
      closed⟩
    rw [kept, accepted, requesting.accepted]
    simp [chunkTexts]
  failed := by
    intro writer given message requesting
    obtain ⟨kept, same, failed⟩ := perform_fail requesting.writeEnd message
    refine ⟨perform_reachable requesting.reachable (.fail message), same.trans requesting.opened,
      ?_, failed⟩
    change (writer.perform (.fail message)).accepted = _
    rw [kept, requesting.accepted]
    simp [chunkTexts]
  outer := by
    intro writer given finish event next requesting moved
    have same : next.pipe.readEnd = writer.pipe.readEnd ∧
        next.pipe.writeEnd = writer.pipe.writeEnd ∧ next.accepted = writer.accepted ∧
        Channel.machine.step writer event = some next := by
      cases event with
      | read =>
          obtain ⟨readEnd, writeEnd, accepted, _⟩ := read_step moved
          exact ⟨readEnd, writeEnd, accepted, moved⟩
      | complete call =>
          obtain ⟨pipe, _, accepted⟩ := Channel.complete_same moved
          exact ⟨by rw [pipe], by rw [pipe], accepted, moved⟩
      | closeReader | write | closeWriter | fail => cases moved
    obtain ⟨readEnd, writeEnd, accepted, stepped⟩ := same
    exact ⟨.step requesting.reachable trivial stepped, readEnd.trans requesting.opened,
      accepted.trans requesting.accepted, writeEnd.trans requesting.writeEnd⟩

end Requesting

/-- The bytes behind the head of a request. -/
def requestBody (head : String) (writer : Channel) : String :=
  String.join (writer.accepted.drop (requested head).accepted.length)

/-! ## The body of a response -/

/-- The loop of `http::internal::stream` and the bytes that it has passed to the socket.  A failed
read ends the loop. -/
def streamConsumer : Consumer String Empty where
  body bytes data := bytes ++ Chunked.frame data
  failed bytes _ := bytes
  outer _ := nofun

/-- What has been sent of a body. -/
def bodyText (given : List String) : Option Finish → String
  | some .endOfFile => Chunked.frames given ++ Chunked.lastChunk
  | some (.failed _) => Chunked.frames given
  | none => Chunked.frames given

theorem frames_append (given : List String) (text : String) :
    Chunked.frames (given ++ [text]) = Chunked.frames given ++ Chunked.chunk text := by
  simp [Chunked.frames]

theorem stream_represents :
    Represents streamConsumer "" (fun bytes given finish => bytes = bodyText given finish) where
  start := rfl
  chunk := by
    rintro _ given text rfl filled
    simp only [streamConsumer, bodyText, Chunked.frame, if_neg filled, frames_append]
  finish := by
    rintro _ given rfl
    rfl
  failed := by
    rintro _ given message rfl
    rfl
  outer := by
    intro _ _ _ event
    cases event

/-! ## The body of a response of the proxy -/

/-- The continuations of the reads of `HttpProxy` for one request. -/
def proxyConsumer (request : Request) : Consumer HttpProxy Empty where
  body proxy data := proxy.stream request (.ready data)
  failed proxy message := proxy.stream request (.failed message)
  outer _ := nofun

/-- The text of an encoder for a part of a body. -/
def Encoder.bodyText : Encoder → String
  | .chunk data => Chunked.chunk data
  | .lastChunk => Chunked.lastChunk
  | .response _ | .file _ => ""

/-- What a proxy sends for the body of a response. -/
def proxySent (request : Request) (given : List String) (finish : Option Finish) : List Sent :=
  given.map (fun data => ⟨request.number, .chunk data, true⟩) ++
    match finish with
    | none => []
    | some .endOfFile => [⟨request.number, .lastChunk, request.keepAlive⟩]
    | some (.failed _) =>
        let response := Response.internalServerError "500 Internal Server Error."
        [⟨request.number, .response response, request.keepAlive && !response.closes⟩]

/-- A proxy that streams has sent the chunks it was given. -/
structure Proxied (start : HttpProxy) (request : Request) (proxy : HttpProxy)
    (given : List String) (finish : Option Finish) : Prop where
  pipe : finish = none → proxy.pipe.isSome
  sent : proxy.sent = start.sent ++ proxySent request given finish

theorem proxied_represents (proxy : HttpProxy) (reader : PipeId) (request : Request) :
    Represents (proxyConsumer request) { proxy with pipe := some reader } (Proxied proxy request) where
  start := ⟨fun _ => rfl, by simp [proxySent]⟩
  chunk := by
    intro proxy given text proxied filled
    obtain ⟨reader, piped⟩ := Option.isSome_iff_exists.mp (proxied.pipe rfl)
    have sent := proxied.sent
    constructor
    · intro _
      simp [proxyConsumer, HttpProxy.stream, piped, filled, HttpProxy.send, HttpProxy.read]
    · simp only [proxyConsumer, HttpProxy.stream, piped, if_neg filled, HttpProxy.send,
        HttpProxy.read]
      simp [sent, proxySent]
  finish := by
    intro proxy given proxied
    obtain ⟨reader, piped⟩ := Option.isSome_iff_exists.mp (proxied.pipe rfl)
    have sent := proxied.sent
    constructor
    · simp
    · simp only [proxyConsumer, HttpProxy.stream, piped, if_true, HttpProxy.finish,
        HttpProxy.next_sent,
        HttpProxy.send]
      simp [sent, proxySent]
  failed := by
    intro proxy given message proxied
    obtain ⟨reader, piped⟩ := Option.isSome_iff_exists.mp (proxied.pipe rfl)
    have sent := proxied.sent
    constructor
    · simp
    · simp only [proxyConsumer, HttpProxy.stream, piped, HttpProxy.finish, HttpProxy.next_sent,
        HttpProxy.sendResponse, HttpProxy.send]
      simp [sent, proxySent]
  outer := by
    intro _ _ _ event
    cases event

/-- The bytes that a proxy has sent since it began to stream. -/
def proxyBody (start proxy : HttpProxy) : String :=
  String.join ((proxy.sent.drop start.sent.length).map fun sent => sent.encoder.bodyText)

/-- Bytes that are one body with these texts as its chunks. -/
def IsBody (bytes : String) (given : List String) : Prop :=
  Chunked.parse bytes = some (given.map String.toList)

theorem frames_isBody {given : List String} (filled : ∀ text ∈ given, text ≠ "") :
    IsBody (Chunked.frames given ++ Chunked.lastChunk) given :=
  Chunked.parse_frames filled

/-- All three send what is written as one body, and none ends the body if the pipe has failed. -/
theorem chunked_streams (head : String) (proxy : HttpProxy) (reader : PipeId) (request : Request) :
    Forwards encodeConsumer (requested head)
      (fun writer given => IsBody (requestBody head writer) given ∧ writer.pipe.writeEnd = .closed)
      (fun writer _ => writer.pipe.writeEnd = .failed) ∧
    Forwards streamConsumer "" (fun bytes given => IsBody bytes given)
      (fun bytes given => bytes = Chunked.frames given ∧ Chunked.parse bytes = none) ∧
    Forwards (proxyConsumer request) { proxy with pipe := some reader }
      (fun after given => IsBody (proxyBody proxy after) given) (fun _ _ => True) := by
  refine ⟨?_, ?_, ?_⟩
  · apply forwards (requesting_represents head)
    · intro writer given filled requesting
      refine ⟨?_, requesting.writeEnd⟩
      rw [requestBody, requesting.accepted, List.drop_left]
      have texts : String.join (chunkTexts given (some .endOfFile)) =
          Chunked.frames given ++ Chunked.lastChunk := by
        simp [chunkTexts, Chunked.frames]
      rw [texts]
      exact frames_isBody filled
    · intro writer given message _ requesting
      exact requesting.writeEnd
  · apply forwards stream_represents
    · rintro _ given filled rfl
      exact frames_isBody filled
    · rintro _ given message filled rfl
      exact ⟨rfl, Chunked.parse_unfinished filled⟩
  · apply forwards (proxied_represents proxy reader request)
    · intro after given filled proxied
      rw [proxyBody, proxied.sent, List.drop_left]
      have texts : String.join ((proxySent request given (some .endOfFile)).map
          fun sent => sent.encoder.bodyText) = Chunked.frames given ++ Chunked.lastChunk := by
        simp [proxySent, Chunked.frames, Encoder.bodyText, Function.comp_def]
      rw [texts]
      exact frames_isBody filled
    · intros
      trivial

/-- The writer writes two texts and closes its pipe while the loop reads. -/
def twoChunks : List (ForwardingMove Empty) :=
  [.pipe (.write "ab"), .read, .handle, .read, .pipe (.write "c"),
    .pipe (.complete ⟨[(1, .ready "c")], none⟩), .handle, .pipe .closeWriter, .read, .handle]

example : ((Forwarding.machine streamConsumer "").run ⟨.empty, .reading, ""⟩ twoChunks).map
    (fun loop => (loop.channel.accepted, loop.stage, loop.out)) =
      some (["ab", "c"], .ended, "2\r\nab\r\n1\r\nc\r\n0\r\n\r\n") := by
  decide +kernel

end Libprocess.Http
