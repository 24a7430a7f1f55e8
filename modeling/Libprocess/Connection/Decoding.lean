import Libprocess.Connection.Process
import Libprocess.Decoder.Agreement

/-!
# The decoder of a connection

While the connection reads, its decoder and the parser are in step, so no check of the
decoder fails.  Once the connection is disconnected, the decoder returns no response.
-/

namespace Libprocess.Connection

open Decoder (Callback InStep Parser Response Streaming StreamingResponseDecoder)

variable {parser : Parser} {decoder : StreamingResponseDecoder}

/-- A decoder that writes no body unless the parser has recorded an error. -/
def Stopped (parser : Parser) (decoder : StreamingResponseDecoder) : Prop :=
  decoder.writer.isSome = true → parser.errored = true

theorem decodeEof_nothing (atEof : parser.atEof = .nothing) :
    decoder.decodeEof parser = some ({ decoder with messages := [] }, parser, decoder.messages) := by
  simp [StreamingResponseDecoder.decodeEof, atEof, Streaming.finish]

theorem finish_messages (short : Bool) : (decoder.finish short).2 = decoder.messages := by
  simp only [Streaming.finish, Streaming.failWriter]
  split
  · split <;> rfl
  · rfl

theorem decodeEof_fails (atEof : parser.atEof = .fails) :
    decoder.decodeEof parser = some ((decoder.finish true).1, { parser with errored := true },
      decoder.messages) := by
  simp [StreamingResponseDecoder.decodeEof, atEof, finish_messages]

theorem decodeEof_completes {pipe : Decoder.PipeId} (atEof : parser.atEof = .completes)
    (writer : decoder.writer = some pipe) :
    decoder.decodeEof parser = some
      ({ decoder.onWriter pipe .closeWriter with writer := none, messages := [] },
        { parser with phase := .idle, exited := false }, decoder.messages) := by
  simp [StreamingResponseDecoder.decodeEof, atEof, StreamingResponseDecoder.invoke,
    StreamingResponseDecoder.onMessageComplete, writer, Streaming.finish, Streaming.onWriter,
    Parser.answered, Decoder.success]

/-- `decode("", 0)` passes its checks, and stops the writing unless there was an error. -/
theorem decodeEof_spec (inStep : InStep parser decoder) :
    ∃ next after, decoder.decodeEof parser = some (next, after, decoder.messages) ∧
      InStep after next ∧ Stopped after next ∧ next.messages = [] := by
  have agrees := inStep.agrees
  cases atEof : parser.atEof with
  | nothing =>
      refine ⟨_, _, decodeEof_nothing atEof, inStep.frame rfl rfl rfl, fun writing => ?_, rfl⟩
      -- Without an error the parser is between two messages.
      cases errored : parser.errored with
      | true => rfl
      | false =>
          have phase : parser.phase = .idle := by
            revert atEof
            simp only [Parser.atEof, errored]
            cases parser.phase <;> cases parser.needsEof <;> simp
          simp [(phase ▸ agrees errored : decoder.message = none ∧ _).2] at writing
  | fails =>
      exact ⟨_, _, decodeEof_fails atEof, .of_errored rfl inStep.exited, fun _ => rfl, rfl⟩
  | completes =>
      have known : parser.errored = false ∧ parser.phase = .body := by
        revert atEof
        simp only [Parser.atEof]
        cases parser.errored <;> cases parser.phase <;> simp
      have body := known.2 ▸ agrees known.1
      obtain ⟨pipe, has⟩ := Option.isSome_iff_exists.mp body.2
      have failing := inStep.unfailing known.1 (by simp [known.2])
      refine ⟨_, _, decodeEof_completes atEof has, ⟨fun _ => ⟨body.1, rfl⟩, fun failed => ?_,
        nofun⟩, nofun, rfl⟩
      simp [Streaming.onWriter, failing] at failed

namespace ConnectionProcess

variable {connection next : ConnectionProcess}

theorem stopStreaming_spec (closable : InStep parser decoder ∨ Stopped parser decoder) :
    ∃ next after, stopStreaming decoder parser = some (next, after) ∧ Stopped after next ∧
      (InStep parser decoder → InStep after next) ∧
      (decoder.messages = [] → next.messages = []) := by
  unfold stopStreaming
  split
  · rename_i writing
    rcases closable with inStep | stopped
    · obtain ⟨next, after, decoded, kept, stops, none⟩ := decodeEof_spec inStep
      exact ⟨next, after, by rw [decoded]; rfl, stops, fun _ => kept, fun _ => none⟩
    · have errored := stopped writing
      simp only [StreamingResponseDecoder.decodeEof, Parser.atEof, errored, if_true]
      exact ⟨_, _, rfl, fun _ => errored, fun inStep => inStep.frame rfl rfl rfl, fun _ => rfl⟩
  · rename_i silent
    exact ⟨decoder, parser, rfl, fun writing => absurd writing silent, id, id⟩

/-- The process reads from the socket or decodes what it has read. -/
def reads (connection : ConnectionProcess) : Bool :=
  match connection.activity with
  | .receiving | .decoding _ => true
  | .idle | .finalized | .aborted => false

def decodes (connection : ConnectionProcess) : Bool :=
  match connection.activity with
  | .decoding _ => true
  | .idle | .receiving | .finalized | .aborted => false

/-- The decoder and the parser of a connection. -/
structure Wired (connection : ConnectionProcess) : Prop where
  unaborted : connection.activity ≠ .aborted
  inStep : connection.reads = true → InStep connection.parser connection.decoder
  stale : connection.activity = .decoding true → connection.parser.errored = true
  messages : connection.decodes = false → connection.decoder.messages = []
  stopped : connection.disconnection = true → connection.activity ≠ .finalized →
    Stopped connection.parser connection.decoder ∧ connection.decoder.messages = [] ∧
      (connection.decodes = true → connection.parser.errored = true)
  idle : connection.activity = .idle → connection.disconnection = true
  drained : connection.disconnection = true → connection.pipeline = []

/-- What `disconnect` does. -/
theorem disconnect_spec (connection : ConnectionProcess)
    (closable : InStep connection.parser connection.decoder ∨
      Stopped connection.parser connection.decoder)
    (messages : connection.decoder.messages = []) (message : Option String) :
    ∃ next after, connection.disconnect message =
        some { connection.failPipeline (message.getD "Disconnected") with
          decoder := next
          parser := after
          disconnection := true } ∧
      stopStreaming connection.decoder connection.parser = some (next, after) ∧
      Stopped after next ∧
      (InStep connection.parser connection.decoder → InStep after next) ∧
      next.messages = [] := by
  obtain ⟨next, after, stopped, stops, kept, none⟩ := stopStreaming_spec closable
  exact ⟨next, after, by simp [disconnect, stopped], stopped, stops, kept, none messages⟩

theorem Wired.init : init.Wired :=
  ⟨by simp [ConnectionProcess.init], fun _ => ⟨fun _ => ⟨rfl, rfl⟩, nofun, nofun⟩, nofun,
    fun _ => rfl, nofun, nofun, fun _ => rfl⟩

theorem Wired.cutOff (wired : connection.Wired) : connection.cutOff.Wired :=
  ⟨wired.unaborted, wired.inStep, wired.stale, wired.messages, wired.stopped, wired.idle,
    wired.drained⟩

theorem Wired.closable (wired : connection.Wired) (ready : connection.ready = true) :
    InStep connection.parser connection.decoder ∨
      Stopped connection.parser connection.decoder := by
  simp only [ConnectionProcess.ready, Bool.or_eq_true, decide_eq_true_eq] at ready
  rcases ready with idle | receiving
  · exact .inr (wired.stopped (wired.idle idle) (by simp [idle])).1
  · exact .inl (wired.inStep (by simp [reads, receiving]))

theorem decodes_of_ready (ready : connection.ready = true) : connection.decodes = false := by
  simp only [ConnectionProcess.ready, Bool.or_eq_true, decide_eq_true_eq] at ready
  rcases ready with idle | receiving <;> simp [decodes, *]

/-- A disconnected connection whose decoder has stopped. -/
theorem Wired.of_stopped (ready : connection.ready = true)
    (disconnected : connection.disconnection = true) (drained : connection.pipeline = [])
    (stopped : Stopped connection.parser connection.decoder)
    (messages : connection.decoder.messages = [])
    (inStep : connection.reads = true → InStep connection.parser connection.decoder) :
    connection.Wired := by
  have silent := decodes_of_ready ready
  refine ⟨fun aborted => ?_, inStep, fun decoding => ?_, fun _ => messages,
    fun _ _ => ⟨stopped, messages, fun decoding => ?_⟩, fun _ => disconnected, fun _ => drained⟩
  · simp [ConnectionProcess.ready, aborted] at ready
  · simp [decodes, decoding] at silent
  · simp [silent] at decoding

theorem Wired.disconnect (wired : connection.Wired) (ready : connection.ready = true)
    (message : Option String) :
    ∃ next, connection.disconnect message = some next ∧ next.Wired ∧ next.pipeline = [] ∧
      next.decoder.messages = [] := by
  have silent := wired.messages (decodes_of_ready ready)
  obtain ⟨decoder, parser, disconnects, -, stops, kept, none⟩ :=
    disconnect_spec connection (wired.closable ready) silent message
  refine ⟨_, disconnects, .of_stopped ready rfl rfl stops none fun reading => ?_, rfl, none⟩
  exact kept (wired.inStep reading)

theorem closeAfter_decoder (connection : ConnectionProcess) (response : Response) :
    (connection.closeAfter response).decoder = connection.decoder ∧
      (connection.closeAfter response).parser = connection.parser ∧
      (connection.closeAfter response).activity = connection.activity ∧
      (connection.closeAfter response).disconnection = connection.disconnection := by
  unfold closeAfter
  split <;> exact ⟨rfl, rfl, rfl, rfl⟩

/-- The loop over the responses leaves the decoder alone, unless it disconnects. -/
theorem deliver_spec (connection : ConnectionProcess)
    (closable : InStep connection.parser connection.decoder ∨
      Stopped connection.parser connection.decoder)
    (messages : connection.decoder.messages = []) (number : Nat) (responses : List Response) :
    ∃ next continues, connection.deliver number responses = some (next, continues) ∧
      next.activity = connection.activity ∧
      (continues = true ∧ next.decoder = connection.decoder ∧ next.parser = connection.parser ∧
          next.disconnection = connection.disconnection ∧
          (connection.pipeline = [] → next.pipeline = []) ∨
        continues = false ∧ next.disconnection = true ∧ next.pipeline = [] ∧
          Stopped next.parser next.decoder ∧ next.decoder.messages = []) := by
  induction responses generalizing connection number with
  | nil => exact ⟨connection, true, rfl, rfl, .inl ⟨rfl, rfl, rfl, rfl, id⟩⟩
  | cons response responses ih =>
      unfold deliver
      split
      · obtain ⟨decoder, parser, disconnects, -, stops, -, none⟩ :=
          disconnect_spec connection closable messages
            (some "Received response without a request")
        rw [disconnects]
        exact ⟨_, false, rfl, rfl, .inr ⟨rfl, rfl, rfl, stops, none⟩⟩
      · rename_i entry pipeline _
        obtain ⟨sameDecoder, sameParser, sameActivity, sameDisconnection⟩ :=
          closeAfter_decoder (connection.answer entry pipeline number response) response
        change _ = connection.decoder at sameDecoder
        change _ = connection.parser at sameParser
        change _ = connection.activity at sameActivity
        change _ = connection.disconnection at sameDisconnection
        rw [← sameDecoder, ← sameParser] at closable
        rw [← sameDecoder] at messages
        have later := ih _ closable messages (number + 1)
        rw [sameDecoder, sameParser, sameActivity, sameDisconnection] at later
        obtain ⟨next, continues, delivered, activity, outcome⟩ := later
        refine ⟨next, continues, delivered, activity, outcome.imp ?_ id⟩
        rintro ⟨rfl, keptDecoder, keptParser, keptDisconnection, -⟩
        exact ⟨rfl, keptDecoder, keptParser, keptDisconnection, fun none => by simp_all⟩

theorem afterDecode_spec (connection : ConnectionProcess) {received : Received}
    (closable : InStep connection.parser connection.decoder ∨
      Stopped connection.parser connection.decoder)
    (messages : connection.decoder.messages = [])
    (continues : received = .data → connection.decoder.failure = false →
      InStep connection.parser connection.decoder)
    (stopped : connection.disconnection = true →
      Stopped connection.parser connection.decoder ∧ connection.pipeline = [])
    (responses : List Response) :
    ∃ next, connection.afterDecode received responses = some next ∧ next.Wired := by
  obtain ⟨delivered, goesOn, deliverEq, activity, outcome⟩ := deliver_spec
    { connection with activity := .idle, produced := connection.produced ++ responses }
    closable messages connection.produced.length responses
  simp only [afterDecode, deliverEq, Option.bind_eq_bind, Option.bind_some]
  have ready : delivered.ready = true := by simp [ConnectionProcess.ready, activity]
  have silent : delivered.reads = false := by simp [reads, activity]
  rcases outcome with ⟨rfl, sameDecoder, sameParser, sameDisconnection, sameEmpty⟩ |
    ⟨rfl, disconnected, drained, stops, none⟩
  · rw [if_pos rfl]
    change _ = connection.decoder at sameDecoder
    change _ = connection.parser at sameParser
    change _ = connection.disconnection at sameDisconnection
    rw [← sameDecoder, ← sameParser] at closable continues
    have shut (message : Option String) :
        ∃ next, delivered.disconnect message = some next ∧ next.Wired := by
      obtain ⟨decoder, parser, disconnects, -, stops, -, none⟩ :=
        disconnect_spec delivered closable (sameDecoder ▸ messages) message
      refine ⟨_, disconnects, .of_stopped ready rfl rfl stops none fun reading => ?_⟩
      exact absurd reading (by simp [reads, failPipeline, activity])
    cases received with
    | failed message => exact shut (some message)
    | discarded => exact shut (some "discarded")
    | eof => exact shut none
    | data =>
        simp only [continueReading]
        split
        · exact shut _
        · split
          · exact shut _
          · rename_i unfailed _
            have inStep := continues rfl (by simpa using unfailed)
            refine ⟨_, rfl, by simp, fun _ => inStep, nofun, fun _ => sameDecoder ▸ messages,
              fun disconnected _ => ⟨?_, sameDecoder ▸ messages, nofun⟩, nofun,
              fun disconnected => sameEmpty (stopped (sameDisconnection ▸ disconnected)).2⟩
            rw [sameDecoder, sameParser]
            exact (stopped (sameDisconnection ▸ disconnected)).1
  · exact ⟨delivered, rfl, .of_stopped ready disconnected drained stops none
      fun reading => absurd reading (by simp [silent])⟩

/-- Whatever ends the reading also ends the decoding. -/
theorem startReading_eq {received : Received} (ends : received ≠ .data) :
    connection.startReading received =
      (connection.decoder.decodeEof connection.parser).bind fun decoded =>
        { connection with decoder := decoded.1, parser := decoded.2.1 }.afterDecode received
          decoded.2.2 := by
  cases received with
  | data => exact absurd rfl ends
  | failed | discarded | eof => rfl

theorem Wired.startReading (wired : connection.Wired) (receiving : connection.activity = .receiving)
    (received : Received) :
    ∃ next, connection.startReading received = some next ∧ next.Wired := by
  have inStep := wired.inStep (by simp [reads, receiving])
  have messages := wired.messages (by simp [decodes, receiving])
  by_cases ends : received ≠ .data
  · obtain ⟨decoder, parser, decoded, kept, stops, none⟩ := decodeEof_spec inStep
    rw [startReading_eq ends, decoded]
    exact afterDecode_spec { connection with decoder := decoder, parser := parser }
      (.inl kept) none (fun _ _ => kept) (fun disconnected => ⟨stops, wired.drained disconnected⟩)
      connection.decoder.messages
  · obtain rfl : received = .data := not_not.mp ends
    simp only [ConnectionProcess.startReading]
    split
    · obtain ⟨decoder, parser, disconnects, -, stops, -, none⟩ :=
        disconnect_spec { connection with activity := .idle } (.inl inStep) messages
          (some "Received data when none is expected")
      refine ⟨_, disconnects, .of_stopped rfl rfl rfl stops none fun reading => ?_⟩
      exact absurd reading (by simp [reads, failPipeline])
    · rename_i expected
      refine ⟨_, rfl, by simp, fun _ => inStep, fun isStale => ?_, fun _ => messages,
        fun disconnected _ => ?_, (by simp), wired.drained⟩
      · simpa using isStale
      · have stops := (wired.stopped disconnected (by simp [receiving])).1
        refine ⟨stops, messages, fun _ => stops ?_⟩
        simpa [wired.drained disconnected, StreamingResponseDecoder.writingBody,
          Option.isSome_iff_ne_none] using expected

/-- What concerns the pipes, the conversions and the requests keeps a connection wired. -/
theorem Wired.frame (wired : connection.Wired) (activity : next.activity = connection.activity)
    (parser : next.parser = connection.parser)
    (message : next.decoder.message = connection.decoder.message)
    (writer : next.decoder.writer = connection.decoder.writer)
    (failure : next.decoder.failure = connection.decoder.failure)
    (messages : next.decoder.messages = connection.decoder.messages)
    (disconnection : next.disconnection = connection.disconnection)
    (pipeline : connection.disconnection = true → next.pipeline = []) : next.Wired := by
  have stops (stopped : Stopped connection.parser connection.decoder) :
      Stopped next.parser next.decoder := by
    simpa only [Stopped, parser, writer] using stopped
  refine ⟨activity ▸ wired.unaborted, fun reading => ?_, fun decoding => ?_, fun silent => ?_,
    fun disconnected unfinalized => ?_, fun idle => ?_, fun disconnected => ?_⟩
  · have inStep := wired.inStep (by simpa only [reads, activity] using reading)
    rw [parser]
    exact inStep.frame (by rw [message]) writer failure
  · rw [parser]
    exact wired.stale (activity ▸ decoding)
  · rw [messages]
    exact wired.messages (by simpa only [decodes, activity] using silent)
  · obtain ⟨stopped, none, errored⟩ :=
      wired.stopped (disconnection ▸ disconnected) (activity ▸ unfinalized)
    refine ⟨stops stopped, messages ▸ none, fun decoding => ?_⟩
    rw [parser]
    exact errored (by simpa only [decodes, activity] using decoding)
  · rw [disconnection]
    exact wired.idle (activity ▸ idle)
  · exact pipeline (disconnection ▸ disconnected)

theorem Wired.callback {callback : Callback} {stale : Bool} (wired : connection.Wired)
    (decoding : connection.activity = .decoding stale)
    (invokes : connection.parser.invokes callback = true) :
    ∃ decoder code, connection.decoder.invoke callback = some (decoder, code) ∧
      { connection with
        decoder := decoder
        parser := connection.parser.answered callback code }.Wired := by
  have inStep := wired.inStep (by simp [reads, decoding])
  obtain ⟨unerrored, -⟩ := Decoder.Parser.invokes_cases invokes
  obtain ⟨decoder, code, invoked, kept⟩ :=
    StreamingResponseDecoder.invoke_proceeds inStep invokes
  refine ⟨decoder, code, invoked, wired.unaborted, fun _ => kept, fun isStale => ?_,
    fun silent => ?_, fun disconnected unfinalized => ?_, wired.idle, wired.drained⟩
  · simp [wired.stale isStale] at unerrored
  · simp [decodes, decoding] at silent
  · -- A connection that is disconnected only decodes when an error is recorded.
    have errored := (wired.stopped disconnected unfinalized).2.2 (by simp [decodes, decoding])
    simp [errored] at unerrored

theorem Wired.returned {stale short : Bool} (wired : connection.Wired)
    (decoding : connection.activity = .decoding stale) :
    ∃ next, { connection with
        decoder := (connection.decoder.finish short).1
        parser := { connection.parser with exited := false } }.afterDecode .data
          (connection.decoder.finish short).2 = some next ∧ next.Wired := by
  have inStep := wired.inStep (by simp [reads, decoding])
  have same : InStep { connection.parser with exited := false } connection.decoder :=
    ⟨inStep.agrees, inStep.failing, nofun⟩
  refine afterDecode_spec { connection with
    decoder := (connection.decoder.finish short).1
    parser := { connection.parser with exited := false } } ?_ rfl (fun _ unfailed => ?_)
    (fun disconnected => ⟨fun _ => ?_, wired.drained disconnected⟩) _
  · cases short with
    | false => exact .inl (same.frame rfl rfl rfl)
    | true => exact .inr nofun
  · cases short with
    | false => exact same.frame rfl rfl rfl
    | true => cases unfailed
  · exact (wired.stopped disconnected (by simp [decoding])).2.2 (by simp [decodes, decoding])

theorem Wired.send {request : Decoder.Request} {streamed : Bool} (wired : connection.Wired)
    (sent : connection.send request streamed = .ok next) : next.Wired := by
  unfold ConnectionProcess.send at sent
  split at sent <;> cases sent
  rename_i permitted
  refine wired.frame rfl rfl rfl rfl rfl rfl rfl fun disconnected => ?_
  simp [refusal, disconnected] at permitted

/-- The decoder is destroyed with its process. -/
theorem Wired.finalized (drained : connection.pipeline = [])
    (messages : connection.decoder.messages = []) :
    { connection with
      activity := .finalized
      decoder := connection.decoder.destroy }.Wired := by
  refine ⟨nofun, nofun, nofun, fun _ => ?_, fun _ unfinalized => absurd rfl unfinalized, nofun,
    fun _ => drained⟩
  simp only [Streaming.destroy, Streaming.failWriter]
  split <;> exact messages

theorem conversionRead_eq_some {conversion : Conversion}
    (read : connection.conversionRead conversion = some next) :
    ∃ channel, connection.decoder.pipes[conversion.pipe]? = some channel ∧
      conversion ∈ connection.conversions ∧ conversion.read = none ∧
      conversion.outcome = none ∧
      next = { connection with
        decoder := connection.decoder.onWriter conversion.pipe .read
        conversions := connection.conversions.map fun other =>
          if other = conversion then { other with read := some channel.results.length }
          else other } := by
  simp only [conversionRead, Option.bind_eq_bind, Option.bind_eq_some_iff] at read
  obtain ⟨channel, found, read⟩ := read
  split at read <;> cases read
  rename_i permitted
  exact ⟨channel, found, permitted.1, permitted.2.1, permitted.2.2, rfl⟩

theorem conversionGot_eq_some {conversion : Conversion}
    (got : connection.conversionGot conversion = some next) :
    ∃ channel number result, connection.decoder.pipes[conversion.pipe]? = some channel ∧
      conversion ∈ connection.conversions ∧ conversion.read = some number ∧
      channel.results[number]? = some (some result) ∧
      next = { connection with
        conversions := connection.conversions.map fun other =>
          if other = conversion then conversion.got result else other } := by
  simp only [conversionGot, Option.bind_eq_bind, Option.bind_eq_some_iff,
    Option.join_eq_some_iff] at got
  obtain ⟨channel, found, number, waits, result, known, got⟩ := got
  split at got <;> cases got
  exact ⟨channel, number, result, found, ‹_›, waits, known, rfl⟩

/-- Every step keeps the decoder and the parser of a connection in step. -/
theorem Wired.step {event : ConnectionEvent} (wired : connection.Wired)
    (stepped : connection.step event = some next) : next.Wired := by
  cases event with
  | send request streamed =>
      simp only [ConnectionProcess.step] at stepped
      split at stepped
      · split at stepped <;> cases stepped
        · exact wired.send ‹_›
        · exact wired
      · cases stepped
  | disconnect =>
      simp only [ConnectionProcess.step] at stepped
      split at stepped <;> cases stepped
      obtain ⟨next, disconnects, kept, -⟩ := wired.cutOff.disconnect ‹_› none
      rwa [disconnects]
  | sendFailed message =>
      simp only [ConnectionProcess.step] at stepped
      split at stepped <;> cases stepped
      rename_i permitted
      obtain ⟨next, disconnects, kept, -⟩ := wired.cutOff.disconnect permitted.1 (some message)
      rwa [disconnects]
  | finalize =>
      simp only [ConnectionProcess.step] at stepped
      split at stepped <;> cases stepped
      obtain ⟨shut, disconnects, -, drained, messages⟩ :=
        wired.cutOff.disconnect ‹_› (some "Connection object was destructed")
      rw [ConnectionProcess.finalize, disconnects]
      exact .finalized drained messages
  | recv received =>
      simp only [ConnectionProcess.step] at stepped
      split at stepped <;> cases stepped
      rename_i receiving
      split
      · obtain ⟨next, started, kept⟩ := wired.cutOff.startReading receiving received
        rwa [started]
      · obtain ⟨next, started, kept⟩ := wired.startReading receiving received
        rwa [started]
  | callback callback =>
      simp only [ConnectionProcess.step] at stepped
      split at stepped
      · rename_i stale decoding
        split at stepped
        · obtain ⟨decoder, code, invoked, kept⟩ := wired.callback decoding ‹_›
          rw [invoked] at stepped
          cases stepped
          exact kept
        · cases stepped
      · cases stepped
  | error =>
      simp only [ConnectionProcess.step] at stepped
      split at stepped
      · rename_i stale decoding
        split at stepped <;> cases stepped
        have inStep := wired.inStep (by simp [reads, decoding])
        exact ⟨wired.unaborted, fun _ => .of_errored rfl inStep.exited, fun _ => rfl,
          wired.messages, fun disconnected unfinalized =>
            ⟨fun _ => rfl, (wired.stopped disconnected unfinalized).2.1, fun _ => rfl⟩,
          wired.idle, wired.drained⟩
      · cases stepped
  | returned short =>
      simp only [ConnectionProcess.step] at stepped
      split at stepped
      · rename_i stale decoding
        split at stepped <;> cases stepped
        obtain ⟨next, after, kept⟩ := wired.returned decoding
        rwa [after]
      · cases stepped
  | pipe pipe event =>
      simp only [ConnectionProcess.step] at stepped
      split at stepped <;> cases stepped
      all_goals exact wired.frame rfl rfl rfl rfl rfl rfl rfl wired.drained
  | conversionRead conversion =>
      obtain ⟨channel, -, -, -, -, rfl⟩ := conversionRead_eq_some stepped
      exact wired.frame rfl rfl rfl rfl rfl rfl rfl wired.drained
  | conversionGot conversion =>
      obtain ⟨channel, number, result, -, -, -, -, rfl⟩ := conversionGot_eq_some stepped
      exact wired.frame rfl rfl rfl rfl rfl rfl rfl wired.drained

end ConnectionProcess

end Libprocess.Connection
