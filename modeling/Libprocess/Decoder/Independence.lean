import Libprocess.Decoder.Checks
import Libprocess.Decoder.Streamed

/-!
# Fragmentation and agreement of the decoders

Each decoder makes the same messages of a trace however its data are split and however it is
distributed over calls of `decode`.  The decoder that collects the bodies and the streaming one make
the same messages of a trace, and fail on the same traces.
-/

namespace Libprocess.Decoder

open Http (Headers Channel)

variable {Start Extra : Type}

/-- The text that was written to a pipe, once it is closed. -/
def closedText (channel : Channel) : Option String :=
  if channel.pipe.writeEnd = .closed then some (channel.accepted.foldl (· ++ ·) "") else none

/-- Start line, headers and body of the messages that all calls of `decode` have returned. -/
def Collecting.delivered (session : Session (Collecting Start Extra) Start) :
    List (Start × Headers × Option String) :=
  session.returned.flatten.map fun message => (message.start, message.headers, some message.body)

/-- The same for a streaming decoder.  The body is what was written to the pipe of the message. -/
def Streaming.delivered (session : Session (Streaming Start Extra) Start) :
    List (Start × Headers × Option String) :=
  session.returned.flatten.map fun message => (message.start, message.headers,
    message.reader.bind fun pipe => session.decoder.pipes[pipe]?.bind closedText)

/-- What is expected of contents. -/
def expected (entry : Content × Start) : Start × Headers × Option String :=
  (entry.2, headersOf entry.1.lines, some entry.1.body)

namespace Collects

variable {interface : Interface (Collecting Start Extra) Start} {collects : Collects interface}
  {session : Session (Collecting Start Extra) Start} {contents : List Content}

section

variable (tracks : collects.Tracks ⟨contents, .between⟩ session)

include tracks

theorem Tracks.returned (drained : session.decoder.messages = []) :
    session.returned.flatten = (handed collects.line contents).map message := by
  have messages := tracks.messages
  rwa [drained, List.append_nil] at messages

theorem Tracks.delivered (drained : session.decoder.messages = []) :
    Collecting.delivered session = (handed collects.line contents).map expected := by
  rw [Collecting.delivered, tracks.returned drained, List.map_map]
  rfl

theorem Tracks.failure_iff :
    session.decoder.failure = true ↔ ¬ Accepts collects.line contents := by
  obtain ⟨accepts, -, failure, -⟩ | ⟨refuses, -, failure⟩ := tracks.state
  · simp [accepts, failure]
  · simp [refuses, failure]

theorem Tracks.accepts (running : session.stage = .running) : Accepts collects.line contents := by
  obtain ⟨accepts, -, -, -⟩ | ⟨-, stopped, -⟩ := tracks.state
  · exact accepts
  · exact absurd (running.symm.trans stopped) (by decide)

end

end Collects

namespace Streams

variable {interface : Interface (Streaming Start Extra) Start} {streams : Streams interface}
  {session : Session (Streaming Start Extra) Start} {contents : List Content}

theorem closed_getElem? {entries : List (Content × Start)} {pipes : List Channel} {index : Nat}
    {entry : Content × Start} (closed : List.Forall₂ Closed entries pipes)
    (found : entries[index]? = some entry) :
    ∃ channel, pipes[index]? = some channel ∧ Carries channel entry.1.body .closed := by
  induction closed generalizing index with
  | nil => simp at found
  | @cons first channel entries pipes carries _ ih =>
      cases index with
      | zero =>
          rw [List.getElem?_cons_zero] at found
          cases found
          exact ⟨channel, rfl, carries⟩
      | succ index => exact ih (by simpa using found)

section

variable (tracks : streams.Tracks ⟨contents, .between⟩ session)

include tracks

/-- The messages that were handed out and their pipes. -/
theorem Tracks.handed_out (drained : session.decoder.messages = []) :
    session.returned.flatten = (handed streams.line contents).mapIdx message ∧
      List.Forall₂ Closed (handed streams.line contents) session.decoder.pipes := by
  cases tracks with
  | proceeds accepts running failure represents =>
      generalize total : session.returned.flatten ++ session.decoder.messages = all at represents
      rw [drained, List.append_nil] at total
      cases represents with
      | between pipes writer message => exact ⟨total, pipes⟩
  | failed refuses failure writer pipes all stage =>
      rw [drained, List.append_nil] at all
      exact ⟨all, pipes⟩

theorem Tracks.failure_iff :
    session.decoder.failure = true ↔ ¬ Accepts streams.line contents := by
  cases tracks with
  | proceeds accepts running failure represents => simp [accepts, failure]
  | failed refuses failure writer pipes all stage =>
      simp only [Collector.current, List.append_nil] at refuses
      simp [refuses, failure]

theorem Tracks.accepts (running : session.stage = .running) : Accepts streams.line contents := by
  cases tracks with
  | proceeds accepts => exact accepts
  | failed refuses failure writer pipes all stage =>
      obtain stopped | ⟨skipping, -⟩ := stage
      · exact absurd (running.symm.trans stopped) (by decide)
      · exact absurd (running.symm.trans skipping) (by decide)

theorem Tracks.delivered (drained : session.decoder.messages = []) :
    Streaming.delivered session = (handed streams.line contents).map expected := by
  obtain ⟨messages, pipes⟩ := tracks.handed_out drained
  rw [Streaming.delivered, messages]
  apply List.ext_getElem?
  intro index
  rw [List.getElem?_map, List.getElem?_mapIdx, List.getElem?_map, Option.map_map]
  cases found : (handed streams.line contents)[index]? with
  | none => rfl
  | some entry =>
      obtain ⟨channel, present, closed⟩ := closed_getElem? pipes found
      simp [message, expected, present, closedText, closed.writeEnd, closed.accepted]

end

end Streams

/-- Nothing is left to return behind a call of `decode`. -/
theorem Collects.drained {interface : Interface (Collecting Start Extra) Start}
    (collects : Collects interface) {extra : Extra} {calls : List (List Callback × Bool)}
    {session : Session (Collecting Start Extra) Start}
    (ran : interface.run (.init extra) calls = some session) : session.decoder.messages = [] := by
  obtain same | ⟨executed, short, same⟩ := Interface.run_finished ran
  · rw [same]
    rfl
  · rw [same, collects.finish]
    rfl

theorem Streams.drained {interface : Interface (Streaming Start Extra) Start}
    (streams : Streams interface) {extra : Extra} {calls : List (List Callback × Bool)}
    {session : Session (Streaming Start Extra) Start}
    (ran : interface.run (.init extra) calls = some session) : session.decoder.messages = [] := by
  obtain same | ⟨executed, short, same⟩ := Interface.run_finished ran
  · rw [same]
    rfl
  · rw [same, streams.finish]
    rfl

/-- No callback of a trace fails, if no check does. -/
def Interface.Succeeds {Decoder : Type} (interface : Interface Decoder Start) (decoder : Decoder)
    (trace : List Callback) : Prop :=
  ∀ session, interface.run decoder [(trace, true)] = some session → session.stage = .running

/-- However the data of a trace are split and distributed over calls of `decode`, no check fails,
the decoder does not fail, and each message is returned once, with its whole body. -/
def Independent {Decoder : Type} (interface : Interface Decoder Start) (decoder : Decoder)
    (failure : Decoder → Bool)
    (delivered : Session Decoder Start → List (Start × Headers × Option String))
    (trace : List Callback) (contents : List Content) : Prop :=
  interface.Succeeds decoder trace → ∀ pieces calls, Fragments trace pieces →
    Grouped pieces calls → ∃ whole session,
      interface.run decoder [(trace, true)] = some whole ∧
      interface.run decoder calls = some session ∧ failure session.decoder = false ∧
      delivered session = delivered whole ∧ (delivered session).length = contents.length ∧
      ∀ entry ∈ delivered session, entry.2.2.isSome = true

section Independent

variable {trace : List Callback} {contents : List Content}

theorem expected_isSome {entries : List (Content × Start)} :
    ∀ entry ∈ entries.map expected, entry.2.2.isSome = true := by
  intro entry member
  obtain ⟨original, -, rfl⟩ := List.mem_map.mp member
  rfl

/-- What a decoder makes of a trace depends on the contents only. -/
structure Determined {Decoder : Type} (interface : Interface Decoder Start)
    (failure : Decoder → Bool)
    (delivered : Session Decoder Start → List (Start × Headers × Option String))
    (line : String → Head → Option Start) (contents : List Content)
    (session : Session Decoder Start) : Prop where
  delivered : delivered session = (handed line contents).map expected
  failure : failure session.decoder = true ↔ ¬ Accepts line contents
  running : session.stage = .running → Accepts line contents

theorem independent_of {Decoder : Type} {interface : Interface Decoder Start} {decoder : Decoder}
    {failure : Decoder → Bool}
    {delivered : Session Decoder Start → List (Start × Headers × Option String)}
    {line : String → Head → Option Start}
    (determined : ∀ trace calls, Complete trace contents → Grouped trace calls →
      ∃ session, interface.run decoder calls = some session ∧
        Determined interface failure delivered line contents session)
    (complete : Complete trace contents) :
    Independent interface decoder failure delivered trace contents := by
  intro succeeds pieces calls fragments grouped
  obtain ⟨whole, ran, original⟩ := determined trace [(trace, true)] complete (by simp [Grouped])
  obtain ⟨session, executed, result⟩ := determined pieces calls (complete.fragments fragments) grouped
  have accepts := original.running (succeeds whole ran)
  refine ⟨whole, session, ran, executed, ?_, ?_, ?_, ?_⟩
  · exact Bool.eq_false_iff.mpr fun failed => result.failure.mp failed accepts
  · rw [result.delivered, original.delivered]
  · rw [result.delivered, List.length_map, handed_length accepts]
  · rw [result.delivered]
    exact expected_isSome

theorem Collects.determined {interface : Interface (Collecting Start Extra) Start}
    (collects : Collects interface) (extra : Extra)
    (plain : ∀ content ∈ contents, Plain content.lines) (trace : List Callback)
    (calls : List (List Callback × Bool)) (complete : Complete trace contents)
    (grouped : Grouped trace calls) :
    ∃ session, interface.run (.init extra) calls = some session ∧
      Determined interface (·.failure) Collecting.delivered collects.line contents session := by
  obtain ⟨session, ran, tracks⟩ := (collects.simulates extra).run complete plain grouped
  exact ⟨session, ran, tracks.delivered (collects.drained ran), tracks.failure_iff, tracks.accepts⟩

theorem Streams.determined {interface : Interface (Streaming Start Extra) Start}
    (streams : Streams interface) (extra : Extra)
    (plain : ∀ content ∈ contents, Plain content.lines) (trace : List Callback)
    (calls : List (List Callback × Bool)) (complete : Complete trace contents)
    (grouped : Grouped trace calls) :
    ∃ session, interface.run (.init extra) calls = some session ∧
      Determined interface (·.failure) Streaming.delivered streams.line contents session := by
  obtain ⟨session, ran, tracks⟩ := (streams.simulates extra).run complete plain grouped
  exact ⟨session, ran, tracks.delivered (streams.drained ran), tracks.failure_iff, tracks.accepts⟩

end Independent

/-- The decoders are independent of fragmentation. -/
theorem decoding_independent (libraries : Libraries) (decompress : String → Option String)
    {trace : List Callback} {contents : List Content} (complete : Complete trace contents)
    (plain : ∀ content ∈ contents, Plain content.lines) :
    Independent (DataDecoder.interface libraries decompress) .init (·.failure)
        Collecting.delivered trace contents ∧
      Independent (StreamingRequestDecoder.interface libraries) .init (·.failure)
        Streaming.delivered trace contents ∧
      Independent (ResponseDecoder.interface decompress) .init (·.failure)
        Collecting.delivered trace contents ∧
      Independent StreamingResponseDecoder.interface .init (·.failure)
        Streaming.delivered trace contents :=
  ⟨independent_of ((DataDecoder.collects libraries decompress).determined _ plain) complete,
    independent_of ((StreamingRequestDecoder.streams libraries).determined _ plain) complete,
    independent_of ((ResponseDecoder.collects decompress).determined _ plain) complete,
    independent_of (StreamingResponseDecoder.streams.determined _ plain) complete⟩

/-- A message with one header and a body. -/
def helloTrace : List Callback :=
  [.messageBegin, .url "/path", .headerField "Host", .headerValue "example",
    .headersComplete ⟨"GET", true, 200, false, false⟩, .body "hello", .messageComplete]

def helloContent : Content :=
  ⟨"/path", [("Host", "example")], ⟨"GET", true, 200, false, false⟩, "hello"⟩

/-- The same message in smaller pieces. -/
def helloPieces : List Callback :=
  [.messageBegin, .url "/pa", .url "th", .headerField "Host", .headerValue "exam",
    .headerValue "ple", .headersComplete ⟨"GET", true, 200, false, false⟩, .body "hel", .body "lo",
    .messageComplete]

theorem helloPieces_fragments : Fragments helloTrace helloPieces := by
  have rest : Fragments [.messageComplete] [.messageComplete] := .keep .nil
  have body := @Fragments.split .body "hel" ["lo"] _ _ rest
  have headers := @Fragments.keep (.headersComplete ⟨"GET", true, 200, false, false⟩) _ _ body
  have value := @Fragments.split .headerValue "exam" ["ple"] _ _ headers
  have field := @Fragments.keep (.headerField "Host") _ _ value
  exact .keep (@Fragments.split .url "/pa" ["th"] _ _ field)

theorem decoding_independent_pieces :
    ∃ session, (StreamingRequestDecoder.interface Receiver.plain).run .init
        [(helloPieces.take 4, true), (helloPieces.drop 4, true)] = some session ∧
      Streaming.delivered session = [(⟨"GET", ⟨"/path", [], none⟩, true⟩, [("Host", "example")],
        some "hello")] := by
  have complete : Complete helloTrace [helloContent] := by decide +kernel
  have plain : ∀ content ∈ [helloContent], Plain content.lines := by decide +kernel
  obtain ⟨first, ran, runs, delivered⟩ :
      ∃ session ∈ (StreamingRequestDecoder.interface Receiver.plain).run .init
        [(helloTrace, true)], session.stage = .running ∧
      Streaming.delivered session = [(⟨"GET", ⟨"/path", [], none⟩, true⟩, [("Host", "example")],
        some "hello")] := by
    decide +kernel
  have independent := (decoding_independent Receiver.plain some complete plain).2.1
  have succeeds : (StreamingRequestDecoder.interface Receiver.plain).Succeeds .init helloTrace := by
    intro session executed
    rw [Option.some.inj (executed.symm.trans ran)]
    exact runs
  obtain ⟨whole, session, again, executed, -, same, -⟩ :=
    independent succeeds helloPieces [(helloPieces.take 4, true), (helloPieces.drop 4, true)]
      helloPieces_fragments rfl
  rw [ran] at again
  cases again
  exact ⟨session, executed, same.trans delivered⟩

/-! ## Agreement -/

/-- The two messages say the same, and the reader of the second one gets the body of the first
one. -/
structure SameMessage (pipes : List Channel) (collected streamed : Message Start) : Prop where
  start : collected.start = streamed.start
  headers : collected.headers = streamed.headers
  body : ∃ pipe channel fuel, streamed.reader = some pipe ∧ pipes[pipe]? = some channel ∧
    channel.pipe.readAll fuel "" = some (.ready collected.body)

/-- Two decoders have returned the same messages, and both have failed or none. -/
structure Agree {Other : Type} (collected : Session (Collecting Start Extra) Start)
    (streamed : Session (Streaming Start Other) Start) : Prop where
  failure : collected.decoder.failure = streamed.decoder.failure
  messages : List.Forall₂ (SameMessage streamed.decoder.pipes) collected.returned.flatten
    streamed.returned.flatten

theorem agree_of_line_eq {Other : Type} {interface : Interface (Collecting Start Extra) Start}
    {other : Interface (Streaming Start Other) Start} {collects : Collects interface}
    {streams : Streams other} {collected : Session (Collecting Start Extra) Start}
    {streamed : Session (Streaming Start Other) Start} {contents : List Content}
    (line : collects.line = streams.line)
    (tracks : collects.Tracks ⟨contents, .between⟩ collected)
    (follows : streams.Tracks ⟨contents, .between⟩ streamed)
    (drained : collected.decoder.messages = []) (empty : streamed.decoder.messages = []) :
    Agree collected streamed := by
  obtain ⟨messages, pipes⟩ := follows.handed_out empty
  constructor
  · rw [Bool.eq_iff_iff, tracks.failure_iff, follows.failure_iff, line]
  · rw [tracks.returned drained, messages, line]
    apply List.forall₂_iff_get.mpr
    refine ⟨by simp, ?_⟩
    intro index first second
    simp only [List.length_map] at first
    have found : (handed streams.line contents)[index]? =
        some ((handed streams.line contents)[index]) := List.getElem?_eq_getElem first
    obtain ⟨channel, present, carries⟩ := Streams.closed_getElem? pipes found
    simp only [List.get_eq_getElem, List.getElem_map, List.getElem_mapIdx]
    exact ⟨rfl, rfl, index, channel, _, rfl, present, carries.readAll⟩

/-- The decoders of requests agree, and so do the decoders of responses. -/
theorem decoders_agree (libraries : Libraries) (decompress : String → Option String)
    {trace : List Callback} {contents : List Content} (complete : Complete trace contents)
    (plain : ∀ content ∈ contents, Plain content.lines)
    {calls others : List (List Callback × Bool)} (grouped : Grouped trace calls)
    (regrouped : Grouped trace others) :
    (∃ collected streamed,
      (DataDecoder.interface libraries decompress).run .init calls = some collected ∧
      (StreamingRequestDecoder.interface libraries).run .init others = some streamed ∧
      Agree collected streamed) ∧
    ∃ collected streamed,
      (ResponseDecoder.interface decompress).run .init calls = some collected ∧
      StreamingResponseDecoder.interface.run .init others = some streamed ∧
      Agree collected streamed := by
  constructor
  · obtain ⟨collected, ran, tracks⟩ :=
      ((DataDecoder.collects libraries decompress).simulates ⟨"", ""⟩).run complete plain grouped
    obtain ⟨streamed, executed, follows⟩ :=
      ((StreamingRequestDecoder.streams libraries).simulates ⟨"", "", none⟩).run complete plain
        regrouped
    exact ⟨collected, streamed, ran, executed, agree_of_line_eq rfl tracks follows
      (Collects.drained (DataDecoder.collects libraries decompress) ran)
      (Streams.drained (StreamingRequestDecoder.streams libraries) executed)⟩
  · obtain ⟨collected, ran, tracks⟩ :=
      ((ResponseDecoder.collects decompress).simulates 0).run complete plain grouped
    obtain ⟨streamed, executed, follows⟩ :=
      (StreamingResponseDecoder.streams.simulates ()).run complete plain regrouped
    exact ⟨collected, streamed, ran, executed, agree_of_line_eq rfl tracks follows
      (Collects.drained (ResponseDecoder.collects decompress) ran)
      (Streams.drained StreamingResponseDecoder.streams executed)⟩

/-- A second message has a status that is unknown. -/
def refusedTrace : List Callback :=
  helloTrace ++ [.messageBegin, .headersComplete ⟨"GET", true, 999, false, false⟩, .body "more",
    .messageComplete]

theorem decoders_agree_refused : ∃ collected streamed,
    (ResponseDecoder.interface some).run .init [(refusedTrace, false)] = some collected ∧
      StreamingResponseDecoder.interface.run .init [(refusedTrace, false)] = some streamed ∧
      Agree collected streamed ∧ collected.returned.flatten.length = 1 ∧
      streamed.decoder.failure = true := by
  have complete : Complete refusedTrace
      [helloContent, ⟨"", [], ⟨"GET", true, 999, false, false⟩, "more"⟩] := by
    decide +kernel
  have plain : ∀ content ∈ [helloContent, ⟨"", [], ⟨"GET", true, 999, false, false⟩, "more"⟩],
      Plain content.lines := by
    decide +kernel
  have grouped : Grouped refusedTrace [(refusedTrace, false)] := by simp [Grouped]
  obtain ⟨-, collected, streamed, ran, executed, agree⟩ :=
    decoders_agree Receiver.plain some complete plain grouped grouped
  have outcome : ((ResponseDecoder.interface some).run .init [(refusedTrace, false)]).map
      (fun session => (session.returned.flatten.length, session.decoder.failure)) =
      some (1, true) := by
    decide +kernel
  rw [ran, Option.map_some, Option.some.injEq, Prod.mk.injEq] at outcome
  exact ⟨collected, streamed, ran, executed, agree, outcome.1, agree.failure ▸ outcome.2⟩

end Libprocess.Decoder
