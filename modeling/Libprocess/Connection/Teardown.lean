import Libprocess.Connection.Decoding
import Libprocess.Decoder.Pipes

/-!
# The end of a connection

When a connection is torn down, the decoder gets the end of the connection so that it fails
the pipe of the response that is still streaming.  This works for a body that is delimited
by its length or by chunks.  A body that is delimited by the end of the connection is
complete for the parser, and its pipe is closed.
-/

namespace Libprocess.Connection

open Decoder (Extends InStep Moves Parser PipeId Piped Response Streaming
  StreamingResponseDecoder perform)
open Http (Channel ReadResult)

variable {parser after : Parser} {decoder next : StreamingResponseDecoder}

theorem decodeEof_moves {responses : List Response}
    (decoded : decoder.decodeEof parser = some (next, after, responses)) :
    Moves decoder next := by
  unfold StreamingResponseDecoder.decodeEof at decoded
  split at decoded
  · cases decoded
    exact .finish decoder false
  · simp only [Option.bind_eq_bind, Option.bind_eq_some_iff] at decoded
    obtain ⟨⟨completed, code⟩, invoked, decoded⟩ := decoded
    cases decoded
    exact (StreamingResponseDecoder.moves invoked).trans (.finish completed false)
  · cases decoded
    exact .finish decoder true

/-- The body that is being written is not delimited by the end of the connection, and no
error is recorded. -/
def Framed (parser : Parser) (decoder : StreamingResponseDecoder) : Prop :=
  decoder.writer.isSome = true → parser.errored = false ∧ parser.needsEof = false

/-- The pipes of the responses that are not complete have failed. -/
def Fails (before after : List Channel) : Prop :=
  ∀ (pipe : PipeId) (channel : Channel), before[pipe]? = some channel →
    channel.pipe.writeEnd ≠ .closed →
      ∃ later : Channel, after[pipe]? = some later ∧ later.pipe.writeEnd = .failed

theorem Fails.extend {before between later : List Channel} (fails : Fails before between)
    (extend : Extends between later) : Fails before later := by
  intro pipe channel found unfinished
  obtain ⟨failed, found', isFailed⟩ := fails pipe channel found unfinished
  obtain ⟨last, found'', -, same⟩ := extend pipe failed found'
  exact ⟨last, found'', (same (by simp [isFailed])).trans isFailed⟩

/-- Without an open pipe there is nothing to fail. -/
theorem fails_of_silent {pipes : List Channel} (piped : Piped decoder)
    (silent : decoder.writer = none) (extend : Extends decoder.pipes pipes) :
    Fails decoder.pipes pipes := by
  intro pipe channel found unfinished
  have shut : channel.pipe.writeEnd ≠ .opened := by
    intro opened
    simp [piped.opened pipe channel found opened] at silent
  obtain ⟨later, found', -, same⟩ := extend pipe channel found
  refine ⟨later, found', (same shut).trans ?_⟩
  revert shut unfinished
  cases channel.pipe.writeEnd <;> simp

/-- The decoder fails the pipe that it writes into. -/
theorem fails_of_perform {pipe : PipeId} {message : String} (piped : Piped decoder)
    (own : decoder.writer = some pipe) :
    Fails decoder.pipes (perform decoder.pipes pipe (.fail message)) := by
  intro other channel found unfinished
  cases writing : channel.pipe.writeEnd with
  | closed => exact absurd writing unfinished
  | failed =>
      obtain ⟨later, found', -, same⟩ :=
        Decoder.extends_perform decoder.pipes pipe (.fail message) other channel found
      exact ⟨later, found', (same (by simp [writing])).trans writing⟩
  | opened =>
      obtain rfl := Option.some.inj (own.symm.trans (piped.opened other channel found writing))
      refine ⟨_, by rw [Decoder.perform_getElem?, if_pos rfl, found]; rfl, ?_⟩
      rw [Decoder.getD_step_writeEnd, writing]
      rfl

theorem decodeEof_fails_pipes {responses : List Response} (inStep : InStep parser decoder)
    (framed : Framed parser decoder) (piped : Piped decoder)
    (decoded : decoder.decodeEof parser = some (next, after, responses)) :
    Fails decoder.pipes next.pipes := by
  cases own : decoder.writer with
  | none => exact fails_of_silent piped own (decodeEof_moves decoded).extend
  | some pipe =>
      obtain ⟨unerrored, delimited⟩ := framed (by simp [own])
      have atEof : parser.atEof = .fails := by
        have agrees := inStep.agrees unerrored
        cases phase : parser.phase <;> rw [phase] at agrees
        case body => simp [Parser.atEof, unerrored, phase, delimited]
        case idle | head => exact absurd (own.symm.trans agrees.2) (by simp)
        case skipping => exact absurd (own.symm.trans agrees.1) (by simp)
      rw [decodeEof_fails atEof] at decoded
      cases decoded
      have pipes : (decoder.finish true).1.pipes =
          perform decoder.pipes pipe (.fail "failed to decode body") := by
        simp [Streaming.finish, Streaming.failWriter, own, Streaming.onWriter]
      rw [pipes]
      exact fails_of_perform piped own

namespace ConnectionProcess

variable {connection next : ConnectionProcess}

theorem stopStreaming_moves {stopped : StreamingResponseDecoder}
    (stops : stopStreaming decoder parser = some (stopped, after)) : Moves decoder stopped := by
  unfold stopStreaming at stops
  split at stops
  · obtain ⟨⟨_, _, responses⟩, decoded, same⟩ := Option.map_eq_some_iff.mp stops
    cases same
    exact decodeEof_moves decoded
  · cases stops
    exact .of_eq rfl rfl

theorem stopStreaming_fails {stopped : StreamingResponseDecoder}
    (closable : InStep parser decoder ∨ Stopped parser decoder) (framed : Framed parser decoder)
    (piped : Piped decoder) (stops : stopStreaming decoder parser = some (stopped, after)) :
    Fails decoder.pipes stopped.pipes := by
  cases own : decoder.writer with
  | none => exact fails_of_silent piped own (stopStreaming_moves stops).extend
  | some pipe =>
      have writing : decoder.writer.isSome = true := by simp [own]
      rcases closable with inStep | stopped
      · rw [stopStreaming, StreamingResponseDecoder.writingBody, if_pos writing] at stops
        obtain ⟨⟨_, _, responses⟩, decoded, same⟩ := Option.map_eq_some_iff.mp stops
        cases same
        exact decodeEof_fails_pipes inStep framed piped decoded
      · have errored := stopped writing
        simp [(framed writing).1] at errored

/-- A step that tears nothing down: the pipes move on, and no conversion is finished. -/
structure Passes (connection next : ConnectionProcess) : Prop where
  moves : Moves connection.decoder next.decoder
  cut : next.cut = connection.cut
  conversions : ∀ conversion ∈ next.conversions, conversion ∈ connection.conversions ∨
    conversion.read = none ∧ conversion.outcome = none

namespace Passes

theorem of_moves (moves : Moves connection.decoder next.decoder)
    (cut : next.cut = connection.cut) (conversions : next.conversions = connection.conversions) :
    Passes connection next :=
  ⟨moves, cut, fun _ member => .inl (conversions ▸ member)⟩

theorem trans {last : ConnectionProcess} (left : Passes connection next)
    (right : Passes next last) : Passes connection last :=
  ⟨left.moves.trans right.moves, right.cut.trans left.cut, fun conversion member =>
    (right.conversions conversion member).elim (left.conversions conversion) .inr⟩

theorem disconnect {message : Option String}
    (disconnects : connection.disconnect message = some next) : Passes connection next := by
  obtain ⟨⟨decoder, parser⟩, stops, rfl⟩ := Option.map_eq_some_iff.mp disconnects
  exact .of_moves (stopStreaming_moves stops) rfl rfl

theorem answer (connection : ConnectionProcess) (entry : Nat × Bool)
    (pipeline : List (Nat × Bool)) (number : Nat) (response : Response) :
    Passes connection (connection.answer entry pipeline number response) := by
  refine ⟨.of_eq rfl rfl, rfl, fun conversion member => ?_⟩
  refine (List.mem_append.mp member).imp id fun new => ?_
  split at new
  · cases new
  · obtain ⟨pipe, -, rfl⟩ := List.mem_map.mp new
    exact ⟨rfl, rfl⟩

theorem closeAfter (connection : ConnectionProcess) (response : Response) :
    Passes connection (connection.closeAfter response) := by
  unfold ConnectionProcess.closeAfter
  split <;> exact .of_moves (.of_eq rfl rfl) rfl rfl

theorem deliver {number : Nat} {responses : List Response} {continues : Bool}
    (delivered : connection.deliver number responses = some (next, continues)) :
    Passes connection next := by
  induction responses generalizing connection number with
  | nil =>
      cases delivered
      exact .of_moves (.of_eq rfl rfl) rfl rfl
  | cons response responses ih =>
      simp only [ConnectionProcess.deliver] at delivered
      split at delivered
      · obtain ⟨shut, disconnects, same⟩ := Option.map_eq_some_iff.mp delivered
        cases same
        exact disconnect disconnects
      · exact ((answer _ _ _ _ _).trans (closeAfter _ _)).trans (ih delivered)

theorem afterDecode {received : Received} {responses : List Response}
    (decoded : connection.afterDecode received responses = some next) :
    Passes connection next := by
  simp only [ConnectionProcess.afterDecode, Option.bind_eq_bind, Option.bind_eq_some_iff] at decoded
  obtain ⟨⟨delivered, continues⟩, delivers, decoded⟩ := decoded
  have passes : Passes connection delivered := by
    refine Passes.trans ?_ (deliver delivers)
    exact .of_moves (.of_eq rfl rfl) rfl rfl
  split at decoded
  · refine passes.trans ?_
    cases received with
    | failed | discarded | eof => exact disconnect decoded
    | data =>
        simp only [continueReading] at decoded
        split at decoded
        · exact disconnect decoded
        · split at decoded
          · exact disconnect decoded
          · cases decoded
            exact .of_moves (.of_eq rfl rfl) rfl rfl
  · cases decoded
    exact passes

end Passes

/-- The pipes and the conversions of a connection. -/
structure Torn (connection : ConnectionProcess) : Prop where
  piped : Piped connection.decoder
  failed : ∀ pipe ∈ connection.cut, ∃ channel : Channel,
    connection.decoder.pipes[pipe]? = some channel ∧ channel.pipe.writeEnd = .failed
  finished : ∀ conversion ∈ connection.conversions, ∀ body,
    conversion.outcome = some (.ready body) → ∃ channel : Channel,
      connection.decoder.pipes[conversion.pipe]? = some channel ∧ channel.pipe.writeEnd = .closed
  reading : ∀ conversion ∈ connection.conversions, ∀ number, conversion.read = some number →
    ∃ channel : Channel, connection.decoder.pipes[conversion.pipe]? = some channel ∧
      number < channel.results.length

theorem Torn.init : init.Torn := ⟨⟨nofun, nofun⟩, nofun, nofun, nofun⟩

section

variable (torn : connection.Torn)

include torn

theorem Torn.finished_extend {pipes : List Channel}
    (extend : Extends connection.decoder.pipes pipes) {conversion : Conversion} {body : String}
    (member : conversion ∈ connection.conversions)
    (finished : conversion.outcome = some (.ready body)) :
    ∃ channel : Channel, pipes[conversion.pipe]? = some channel ∧
      channel.pipe.writeEnd = .closed := by
  obtain ⟨channel, found, closed⟩ := torn.finished conversion member body finished
  obtain ⟨later, found', -, same⟩ := extend conversion.pipe channel found
  exact ⟨later, found', (same (by simp [closed])).trans closed⟩

theorem Torn.reading_extend {pipes : List Channel}
    (extend : Extends connection.decoder.pipes pipes) {conversion : Conversion} {number : Nat}
    (member : conversion ∈ connection.conversions) (reads : conversion.read = some number) :
    ∃ channel : Channel, pipes[conversion.pipe]? = some channel ∧
      number < channel.results.length := by
  obtain ⟨channel, found, bound⟩ := torn.reading conversion member number reads
  obtain ⟨later, found', grows, -⟩ := extend conversion.pipe channel found
  exact ⟨later, found', Nat.lt_of_lt_of_le bound grows⟩

theorem Torn.failed_extend {pipes : List Channel}
    (extend : Extends connection.decoder.pipes pipes) {pipe : PipeId}
    (member : pipe ∈ connection.cut) :
    ∃ channel : Channel, pipes[pipe]? = some channel ∧ channel.pipe.writeEnd = .failed := by
  obtain ⟨channel, found, failed⟩ := torn.failed pipe member
  obtain ⟨later, found', -, same⟩ := extend pipe channel found
  exact ⟨later, found', (same (by simp [failed])).trans failed⟩

theorem Torn.of_conversions (piped : Piped next.decoder)
    (extend : Extends connection.decoder.pipes next.decoder.pipes)
    (failed : ∀ pipe ∈ next.cut, ∃ channel : Channel,
      next.decoder.pipes[pipe]? = some channel ∧ channel.pipe.writeEnd = .failed)
    (conversions : ∀ conversion ∈ next.conversions, conversion ∈ connection.conversions ∨
      conversion.read = none ∧ conversion.outcome = none) : next.Torn := by
  refine ⟨piped, failed, fun conversion member body finished => ?_,
    fun conversion member number reads => ?_⟩
  · rcases conversions conversion member with known | new
    · exact torn.finished_extend extend known finished
    · simp [new.2] at finished
  · rcases conversions conversion member with known | new
    · exact torn.reading_extend extend known reads
    · simp [new.1] at reads

theorem Torn.passes (passes : Passes connection next) : next.Torn :=
  torn.of_conversions (passes.moves.piped torn.piped) passes.moves.extend
    (fun _ member => torn.failed_extend passes.moves.extend (passes.cut ▸ member))
    passes.conversions

theorem Torn.frame (decoder : next.decoder = connection.decoder)
    (cut : next.cut = connection.cut) (conversions : next.conversions = connection.conversions) :
    next.Torn :=
  torn.passes (.of_moves (.of_eq (by rw [decoder]) (by rw [decoder])) cut conversions)

/-- The connection is torn down and fails what is not complete. -/
theorem Torn.cutOff (passes : Passes connection.cutOff next)
    (fails : Fails connection.decoder.pipes next.decoder.pipes) : next.Torn := by
  refine torn.of_conversions (passes.moves.piped torn.piped) passes.moves.extend
    (fun pipe member => ?_) passes.conversions
  rw [passes.cut] at member
  rcases List.mem_append.mp member with known | new
  · exact torn.failed_extend passes.moves.extend known
  · obtain ⟨-, unfinished⟩ := List.mem_filter.mp new
    cases found : connection.decoder.pipes[pipe]? with
    | none => simp [found] at unfinished
    | some channel => exact fails pipe channel found (by simpa [found] using unfinished)

end

/-- A read that gets the end of a pipe tells that its writer was closed. -/
theorem writeEnd_closed {channel : Channel} {number : Nat} (sound : channel.Sound)
    (found : channel.results[number]? = some (some (.ready ""))) :
    channel.pipe.writeEnd = .closed := by
  obtain ⟨taken, tail, sequenced⟩ := sound.sequenced
  have decided := sound.published.known number (.ready "") found
  exact (sequenced.justified decided rfl).2.2.1

theorem Torn.conversionGot {conversion : Conversion} (torn : connection.Torn)
    (got : connection.conversionGot conversion = some next) : next.Torn := by
  obtain ⟨channel, number, result, found, member, -, known, rfl⟩ := conversionGot_eq_some got
  refine ⟨torn.piped, torn.failed, fun other listed body finished => ?_,
    fun other listed other' reads => ?_⟩
  all_goals obtain ⟨before, member', rfl⟩ := List.mem_map.mp listed
  rotate_left
  · split at reads
    · cases result <;> simp only [Conversion.got] at reads
      · split at reads <;> cases reads
      · cases reads
    · rename_i different
      rw [if_neg different]
      exact torn.reading before member' other' reads
  split at finished
  · rename_i same
    rw [if_pos same]
    cases result with
    | failed message => simp [Conversion.got] at finished
    | ready text =>
        by_cases empty : text = ""
        · subst empty
          have sound := torn.piped.sound channel (List.mem_of_getElem? found)
          refine ⟨channel, ?_, writeEnd_closed sound known⟩
          simpa [Conversion.got] using found
        · simp only [Conversion.got, empty, if_false] at finished ⊢
          exact torn.finished conversion member body finished
  · rename_i different
    rw [if_neg different]
    exact torn.finished before member' body finished

/-- A read has the next number. -/
theorem length_results_read {channel : Channel} (sound : channel.Sound) :
    channel.results.length < ((channel.step .read).getD channel).results.length := by
  obtain ⟨taken, tail, sequenced⟩ := sound.sequenced
  obtain ⟨after, result, -, -, read, -⟩ := sequenced.read
  rw [← sound.published.length_eq] at read
  simp [Channel.step, read]

theorem Torn.conversionRead {conversion : Conversion} (torn : connection.Torn)
    (read : connection.conversionRead conversion = some next) : next.Torn := by
  obtain ⟨channel, found, -, -, pending, rfl⟩ := conversionRead_eq_some read
  have moves : Moves connection.decoder (connection.decoder.onWriter conversion.pipe .read) :=
    .of_perform rfl (.inl rfl)
  refine ⟨moves.piped torn.piped, fun pipe member => torn.failed_extend moves.extend member,
    fun other listed body finished => ?_, fun other listed number reads => ?_⟩
  all_goals obtain ⟨before, member, rfl⟩ := List.mem_map.mp listed
  · split at finished
    · rename_i same
      subst same
      simp [pending] at finished
    · rename_i different
      rw [if_neg different]
      exact torn.finished_extend moves.extend member finished
  · split at reads
    · rename_i same
      subst same
      obtain rfl := Option.some.inj reads
      rw [if_pos rfl]
      exact ⟨_, by rw [Streaming.onWriter, Decoder.perform_getElem?, if_pos rfl, found]; rfl,
        length_results_read (torn.piped.sound channel (List.mem_of_getElem? found))⟩
    · rename_i different
      rw [if_neg different]
      exact torn.reading_extend moves.extend member reads

/-- Whether a body that is being written when the connection is torn down is delimited by
its length or by chunks, and no error is recorded. -/
def framed (connection : ConnectionProcess) (event : ConnectionEvent) : Bool :=
  !event.tearsDown || !connection.decoder.writer.isSome ||
    (!connection.parser.errored && !connection.parser.needsEof)

theorem framed_of_tearsDown {event : ConnectionEvent} (framed : connection.framed event = true)
    (tearsDown : event.tearsDown = true) : Framed connection.parser connection.decoder := by
  intro writing
  simpa [ConnectionProcess.framed, tearsDown, writing] using framed

theorem Torn.disconnect {message : Option String} (torn : connection.Torn)
    (wired : connection.Wired) (ready : connection.ready = true)
    (framed : Framed connection.parser connection.decoder)
    (disconnects : connection.cutOff.disconnect message = some next) : next.Torn := by
  refine torn.cutOff (.disconnect disconnects) ?_
  obtain ⟨⟨decoder, parser⟩, stops, rfl⟩ := Option.map_eq_some_iff.mp disconnects
  exact stopStreaming_fails (wired.closable ready) framed torn.piped stops

/-- The socket could not be read from. -/
theorem Torn.interrupted {received : Received} (torn : connection.Torn) (wired : connection.Wired)
    (receiving : connection.activity = .receiving) (interrupts : received.interrupts = true)
    (framed : Framed connection.parser connection.decoder)
    (started : connection.cutOff.startReading received = some next) : next.Torn := by
  have inStep := wired.inStep (by simp [reads, receiving])
  have ends : received ≠ .data := by
    rintro rfl
    cases interrupts
  rw [startReading_eq ends, Option.bind_eq_some_iff] at started
  obtain ⟨⟨decoder, parser, responses⟩, decoded, started⟩ := started
  have passes := Passes.afterDecode started
  refine torn.cutOff (Passes.trans ?_ passes) ?_
  · exact .of_moves (decodeEof_moves decoded) rfl rfl
  · exact (decodeEof_fails_pipes inStep framed torn.piped decoded).extend passes.moves.extend

theorem Torn.startReading {received : Received} (torn : connection.Torn)
    (started : connection.startReading received = some next) : next.Torn := by
  by_cases ends : received ≠ .data
  · rw [startReading_eq ends, Option.bind_eq_some_iff] at started
    obtain ⟨⟨decoder, parser, responses⟩, decoded, started⟩ := started
    refine torn.passes (Passes.trans ?_ (.afterDecode started))
    exact .of_moves (decodeEof_moves decoded) rfl rfl
  · obtain rfl : received = .data := not_not.mp ends
    simp only [ConnectionProcess.startReading] at started
    split at started
    · refine torn.passes (Passes.trans ?_ (.disconnect started))
      exact .of_moves (.of_eq rfl rfl) rfl rfl
    · cases started
      exact torn.frame rfl rfl rfl

theorem Torn.step {event : ConnectionEvent} (torn : connection.Torn) (wired : connection.Wired)
    (framed : connection.framed event = true)
    (stepped : connection.step event = some next) : next.Torn := by
  cases event with
  | send request streamed =>
      simp only [ConnectionProcess.step] at stepped
      split at stepped
      · split at stepped <;> cases stepped
        · rename_i sent
          unfold ConnectionProcess.send at sent
          split at sent <;> cases sent
          exact torn.frame rfl rfl rfl
        · exact torn
      · cases stepped
  | disconnect =>
      simp only [ConnectionProcess.step] at stepped
      split at stepped <;> cases stepped
      rename_i ready
      obtain ⟨next, disconnects, -⟩ := wired.cutOff.disconnect ready none
      rw [disconnects]
      exact torn.disconnect wired ready (framed_of_tearsDown framed rfl) disconnects
  | sendFailed message =>
      simp only [ConnectionProcess.step] at stepped
      split at stepped <;> cases stepped
      rename_i permitted
      obtain ⟨next, disconnects, -⟩ := wired.cutOff.disconnect permitted.1 (some message)
      rw [disconnects]
      exact torn.disconnect wired permitted.1 (framed_of_tearsDown framed rfl) disconnects
  | finalize =>
      simp only [ConnectionProcess.step] at stepped
      split at stepped <;> cases stepped
      rename_i ready
      obtain ⟨shut, disconnects, -⟩ :=
        wired.cutOff.disconnect ready (some "Connection object was destructed")
      rw [ConnectionProcess.finalize, disconnects]
      refine (torn.disconnect wired ready (framed_of_tearsDown framed rfl) disconnects).passes ?_
      exact .of_moves (.destroy shut.decoder) rfl rfl
  | recv received =>
      simp only [ConnectionProcess.step] at stepped
      split at stepped <;> cases stepped
      rename_i receiving
      split
      · rename_i interrupts
        obtain ⟨next, started, -⟩ := wired.cutOff.startReading receiving received
        rw [started]
        exact torn.interrupted wired receiving interrupts
          (framed_of_tearsDown framed interrupts) started
      · obtain ⟨next, started, -⟩ := wired.startReading receiving received
        rw [started]
        exact torn.startReading started
  | callback callback =>
      simp only [ConnectionProcess.step] at stepped
      split at stepped
      · split at stepped
        · split at stepped <;> cases stepped
          · exact torn.frame rfl rfl rfl
          · rename_i invoked
            exact torn.passes (.of_moves (StreamingResponseDecoder.moves invoked) rfl rfl)
        · cases stepped
      · cases stepped
  | error =>
      simp only [ConnectionProcess.step] at stepped
      split at stepped
      · split at stepped <;> cases stepped
        exact torn.frame rfl rfl rfl
      · cases stepped
  | returned short =>
      simp only [ConnectionProcess.step] at stepped
      split at stepped
      · rename_i stale decoding
        split at stepped <;> cases stepped
        obtain ⟨next, decoded, -⟩ := wired.returned decoding
        rw [decoded]
        refine torn.passes (Passes.trans ?_ (.afterDecode decoded))
        exact .of_moves (.finish connection.decoder short) rfl rfl
      · cases stepped
  | pipe pipe event =>
      simp only [ConnectionProcess.step] at stepped
      split at stepped <;> cases stepped
      all_goals exact torn.passes (.of_moves (.of_perform rfl (.inl rfl)) rfl rfl)
  | conversionRead conversion => exact torn.conversionRead stepped
  | conversionGot conversion => exact torn.conversionGot stepped

/-- A read of a pipe that has failed gets a chunk or a failure, and a failure if there are no more
chunks than reads before it. -/
def Fated (channel : Channel) (number : Nat) (result : Option ReadResult) : Prop :=
  ∃ known, result = some known ∧ known ≠ .ready "" ∧
    (channel.accepted.length ≤ number → ∃ message, known = .failed message)

/-- A response is not taken to be complete: its reads fail after the chunks that there are.  A
response that is converted never becomes ready, and it has failed when its loop cannot go on any
more and the promises of the pipe are completed. -/
def EndsInFailure (connection : ConnectionProcess) (pipe : PipeId) : Prop :=
  ∃ channel : Channel, connection.decoder.pipes[pipe]? = some channel ∧
    channel.pipe.writeEnd = .failed ∧
    (∀ number result, channel.decided[number]? = some result → Fated channel number result) ∧
    ∀ conversion ∈ connection.conversions, conversion.pipe = pipe →
      (∀ body, conversion.outcome ≠ some (.ready body)) ∧
      (channel.calls = [] → connection.conversionRead conversion = none →
        connection.conversionGot conversion = none →
          ∃ message, conversion.outcome = some (.failed message))

/-- No read of a pipe that has failed waits, or gets the end of the pipe. -/
theorem decided_of_failed {channel : Channel} {number : Nat} {result : Option ReadResult}
    (sound : channel.Sound) (failed : channel.pipe.writeEnd = .failed)
    (found : channel.decided[number]? = some result) : Fated channel number result := by
  obtain ⟨taken, tail, sequenced⟩ := sound.sequenced
  cases result with
  | none =>
      have waits := sequenced.undecided_iff.mp found
      rcases sequenced.waiting with ⟨count, -, reads, both⟩ | ⟨none, -⟩
      · have positive : 0 < count := by
          rcases Nat.eq_zero_or_pos count with rfl | positive
          · simp [reads] at waits
          · exact positive
        simp [failed] at both
        omega
      · simp [none] at waits
  | some known =>
      have unclosed {text : String} (empty : text = "") : known ≠ .ready text := by
        rintro rfl
        have closed := (sequenced.justified found (by simp [ReadResult.chunk, empty])).2.2.1
        simp [failed] at closed
      refine ⟨known, rfl, unclosed rfl, fun beyond => ?_⟩
      cases known with
      | failed message => exact ⟨message, rfl⟩
      | ready text =>
          -- All chunks were taken by earlier reads.
          have few := sequenced.taken_prefix.length_le
          rw [sequenced.decided_eq, List.getElem?_append_right (by simp; omega)] at found
          have inside := List.mem_of_getElem? found
          rcases sequenced.waiting with ⟨count, none, -⟩ | ⟨-, -, justified⟩
          · simp [none] at inside
          · exact absurd rfl (unclosed (justified _ inside).1)

/-- A conversion that has no outcome can go on when the promises of its pipe are completed. -/
theorem Torn.goes_on (torn : connection.Torn) {conversion : Conversion} {channel : Channel}
    (listed : conversion ∈ connection.conversions)
    (found : connection.decoder.pipes[conversion.pipe]? = some channel)
    (failed : channel.pipe.writeEnd = .failed) (completed : channel.calls = [])
    (pending : conversion.outcome = none) (stays : connection.conversionRead conversion = none) :
    connection.conversionGot conversion ≠ none := by
  cases reads : conversion.read with
  | none => simp [ConnectionProcess.conversionRead, found, listed, reads, pending] at stays
  | some number =>
      obtain ⟨other, same, bound⟩ := torn.reading conversion listed number reads
      obtain rfl := Option.some.inj (found.symm.trans same)
      have sound := torn.piped.sound channel (List.mem_of_getElem? found)
      rw [sound.published.length_eq] at bound
      obtain ⟨known, same', -⟩ :=
        decided_of_failed sound failed (List.getElem?_eq_getElem bound)
      have published : channel.results[number]? = some (some known) := by
        refine (sound.published.covered number known ?_).resolve_right ?_
        · rw [List.getElem?_eq_getElem bound, same']
        · simp [completed]
      simp [ConnectionProcess.conversionGot, found, reads, published, listed]

/-- A connection that is torn down fails every response that is not complete, as long as
the body that is being written then is not delimited by the end of the connection. -/
theorem cut_endsInFailure {connection : ConnectionProcess}
    (reached : machine.Reaches (fun connection event => connection.framed event = true)
      connection) : ∀ pipe ∈ connection.cut, connection.EndsInFailure pipe := by
  have invariant : connection.Wired ∧ connection.Torn := by
    refine reached.invariant (fun connection => connection.Wired ∧ connection.Torn) ?_ ?_
    · intro connection started
      cases started
      exact ⟨.init, .init⟩
    · intro connection event next ⟨wired, torn⟩ framed stepped
      exact ⟨wired.step stepped, torn.step wired framed stepped⟩
  obtain ⟨-, torn⟩ := invariant
  intro pipe member
  obtain ⟨channel, found, failed⟩ := torn.failed pipe member
  have sound := torn.piped.sound channel (List.mem_of_getElem? found)
  refine ⟨channel, found, failed, fun number result decided =>
    decided_of_failed sound failed decided, fun conversion listed same => ?_⟩
  have unready (body : String) : conversion.outcome ≠ some (.ready body) := by
    intro finished
    obtain ⟨other, found', closed⟩ := torn.finished conversion listed body finished
    rw [same, found, Option.some.injEq] at found'
    simp [← found', failed] at closed
  refine ⟨unready, fun completed stays waits => ?_⟩
  cases outcome : conversion.outcome with
  | none =>
      exact absurd waits
        (torn.goes_on listed (same.symm ▸ found) failed completed outcome stays)
  | some result =>
      cases result with
      | failed message => exact ⟨message, rfl⟩
      | ready body => exact absurd outcome (unready body)

/-- A request, and a response whose body is not complete.  The request is sent by a caller
that does not want it streamed. -/
def partialResponse (needsEof : Bool) : List ConnectionEvent :=
  [.send ⟨⟨"GET", ⟨"/", [], none⟩, true⟩, [], .body, "", none⟩ false, .recv .data,
    .callback .messageBegin, .callback (.headersComplete ⟨"", true, 200, false, needsEof⟩),
    .callback (.body "a"), .returned false, .conversionRead ⟨0, 0, "", none, none⟩,
    .conversionGot ⟨0, 0, "", some 0, none⟩, .conversionRead ⟨0, 0, "a", none, none⟩]

/-- The length of the body is known, and the caller disconnects. -/
def disconnected : List ConnectionEvent :=
  partialResponse false ++ [.disconnect,
    .pipe 0 (.complete ⟨[(1, .failed "failed to decode body")], none⟩),
    .conversionGot ⟨0, 0, "a", some 1, none⟩]

theorem cut_endsInFailure_disconnected : ∃ connection,
    machine.run init disconnected = some connection ∧ connection.cut = [0] ∧
      connection.conversions =
        [⟨0, 0, "a", none, some (.failed "failed to decode body")⟩] ∧
      connection.EndsInFailure 0 := by
  obtain ⟨connection, ran, known⟩ : ∃ connection ∈ machine.run init disconnected,
      connection.cut = [0] ∧
      connection.conversions = [⟨0, 0, "a", none, some (.failed "failed to decode body")⟩] := by
    decide +kernel
  refine ⟨connection, ran, known.1, known.2, ?_⟩
  exact cut_endsInFailure (.of_along (.start rfl) (by decide +kernel) ran) 0 (by simp [known.1])

/-- The body is delimited by the end of the connection, and `recv` fails: the response is
converted as if it were complete. -/
theorem not_cut_endsInFailure :
    ¬ ∀ connection, machine.Reachable connection →
      ∀ pipe ∈ connection.cut, connection.EndsInFailure pipe := by
  intro holds
  obtain ⟨connection, ran, known⟩ : ∃ connection ∈ machine.run init (partialResponse true ++
      [.recv (.failed "Connection reset by peer"), .pipe 0 (.complete ⟨[], none⟩),
        .pipe 0 (.complete ⟨[(1, .ready "")], none⟩),
        .conversionGot ⟨0, 0, "a", some 1, none⟩]),
      connection.cut = [0] ∧
      connection.conversions = [⟨0, 0, "a", none, some (.ready "a")⟩] := by
    decide +kernel
  obtain ⟨channel, -, -, -, unconverted⟩ :=
    holds connection (.of_run rfl ran) 0 (by simp [known.1])
  exact (unconverted ⟨0, 0, "a", none, some (.ready "a")⟩ (by simp [known.2]) rfl).1 "a" rfl

end ConnectionProcess

end Libprocess.Connection
