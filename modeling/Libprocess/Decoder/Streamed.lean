import Libprocess.Decoder.Collected
import Mathlib.Data.List.Forall2

/-!
# The streaming decoders, on whole traces

What `StreamingRequestDecoder` and `StreamingResponseDecoder` have in common is `Streams`.  They
refuse a start line when the headers are complete.  The body of a message that was handed out goes
into its pipe, which is closed at the end of the message.
-/

namespace Libprocess.Http

/-- `Pipe::Reader::readAll`, once the writer has made its last write.  Nothing is returned if a
read would have to wait. -/
def Pipe.readAll : Nat → Pipe → String → Option ReadResult
  | 0, _, _ => none
  | fuel + 1, pipe, buffer =>
      match pipe.read 0 with
      | some (pipe, some (.ready text)) =>
          if text = "" then some (.ready buffer) else readAll fuel pipe (buffer ++ text)
      | some (_, some (.failed message)) => some (.failed message)
      | _ => none

end Libprocess.Http

namespace Libprocess.Decoder

open Http (Headers Channel PipeEvent WriteEnd Pipe)

/-- What is in a pipe that nobody has read from. -/
structure Carries (channel : Channel) (text : String) (writeEnd : WriteEnd) : Prop where
  readEnd : channel.pipe.readEnd = .opened
  writeEnd : channel.pipe.writeEnd = writeEnd
  reads : channel.pipe.reads = []
  chunks : ∀ chunk ∈ channel.pipe.writes, chunk ≠ ""
  writes : channel.pipe.writes.foldl (· ++ ·) "" = text
  accepted : channel.accepted.foldl (· ++ ·) "" = text

namespace Carries

variable {channel : Channel} {text : String}

theorem empty : Carries .empty "" .opened :=
  ⟨rfl, rfl, rfl, fun _ member => absurd member (by simp [Channel.empty, Pipe.empty]), rfl, rfl⟩

theorem write (carries : Carries channel text .opened) (data : String) :
    Carries ((channel.step (.write data)).getD channel) (text ++ data) .opened := by
  obtain ⟨readEnd, writeEnd, reads, chunks, writes, accepted⟩ := carries
  by_cases nothing : data = ""
  · have same : ((channel.step (.write data)).getD channel) = { channel with
        calls := ⟨[], none⟩ :: channel.calls } := by
      simp [Channel.step, Pipe.write, readEnd, writeEnd, nothing, Channel.commit, Channel.decide]
    rw [same, nothing, String.append_empty]
    exact ⟨readEnd, writeEnd, reads, chunks, writes, accepted⟩
  · have same : ((channel.step (.write data)).getD channel) = { channel with
        pipe := { channel.pipe with writes := channel.pipe.writes ++ [data] }
        calls := ⟨[], none⟩ :: channel.calls
        accepted := channel.accepted ++ [data] } := by
      simp [Channel.step, Pipe.write, readEnd, writeEnd, reads, nothing, Channel.commit,
        Channel.decide]
    rw [same]
    refine ⟨readEnd, writeEnd, reads, ?_, ?_, ?_⟩
    · intro chunk member
      cases List.mem_append.mp member with
      | inl earlier => exact chunks chunk earlier
      | inr last =>
          rw [List.mem_singleton.mp last]
          exact nothing
    · simp [writes]
    · simp [accepted]

theorem close (carries : Carries channel text .opened) :
    Carries ((channel.step .closeWriter).getD channel) text .closed := by
  obtain ⟨readEnd, writeEnd, reads, chunks, writes, accepted⟩ := carries
  have same : ((channel.step .closeWriter).getD channel) = { channel with
      pipe := { channel.pipe with reads := [], writeEnd := .closed }
      calls := ⟨[], none⟩ :: channel.calls } := by
    simp [Channel.step, Pipe.closeWriter, writeEnd, reads, Channel.commit, Channel.decide]
  rw [same]
  exact ⟨readEnd, rfl, rfl, chunks, writes, accepted⟩

/-- The reader gets the whole body. -/
theorem readAll (carries : Carries channel text .closed) :
    channel.pipe.readAll (channel.pipe.writes.length + 1) "" = some (.ready text) := by
  obtain ⟨readEnd, writeEnd, -, chunks, rfl, -⟩ := carries
  have general : ∀ (writes : List String) (pipe : Pipe) (buffer : String),
      pipe.readEnd = .opened → pipe.writeEnd = .closed → pipe.writes = writes →
      (∀ chunk ∈ writes, chunk ≠ "") →
      pipe.readAll (writes.length + 1) buffer =
        some (.ready (writes.foldl (· ++ ·) buffer)) := by
    intro writes
    induction writes with
    | nil =>
        intro pipe buffer readEnd writeEnd empty _
        simp [Pipe.readAll, Pipe.read, readEnd, writeEnd, empty]
    | cons first rest ih =>
        intro pipe buffer readEnd writeEnd filled chunks
        have proper : first ≠ "" := chunks first List.mem_cons_self
        have later := ih { pipe with writes := rest } (buffer ++ first) readEnd writeEnd rfl
          fun chunk member => chunks chunk (List.mem_cons_of_mem _ member)
        rw [List.length_cons, Pipe.readAll]
        rw [readEnd] at later
        simp only [Pipe.read, readEnd, filled, proper, if_false]
        exact later
  exact general _ _ _ readEnd writeEnd rfl chunks

end Carries

theorem perform_last (closed : List Channel) (channel : Channel) (event : PipeEvent) :
    perform (closed ++ [channel]) closed.length event =
      closed ++ [(channel.step event).getD channel] := by
  induction closed with
  | nil => rfl
  | cons first rest ih =>
      simp only [perform, List.cons_append, List.length_cons, List.modify_succ_cons] at ih ⊢
      rw [ih]

/-- A decoder that refuses a start line when the headers are complete. -/
structure Streams {Start Extra : Type} (interface : Interface (Streaming Start Extra) Start) where
  /-- The start line of a message that begins, and what is kept of it. -/
  blank : Start
  named : String → Extra
  /-- The body is not decompressed. -/
  Uncompressed : Extra → Prop
  /-- The start line of a message, unless it is refused. -/
  line : String → Head → Option Start
  finish : interface.finish = Streaming.finish
  begins : ∀ decoder, interface.invoke decoder .messageBegin = decoder.begin blank .pipe (named "")
  url : ∀ decoder message text data, decoder.message = some message → decoder.extra = named text →
    interface.invoke decoder (.url data) =
      some ({ decoder with extra := named (text ++ data) }, success)
  status : ∀ decoder data, interface.invoke decoder (.status data) = some (decoder, success)
  headerField : ∀ decoder data,
    interface.invoke decoder (.headerField data) = some (decoder.onHeaderField data)
  headerValue : ∀ decoder data,
    interface.invoke decoder (.headerValue data) = some (decoder.onHeaderValue data)
  accepted : ∀ decoder message text head start, decoder.message = some message →
    message.start = blank → decoder.extra = named text → decoder.writer = none →
    line text head = some start →
    (message.headers.set decoder.field decoder.value).get "Content-Encoding" ≠ some "gzip" →
    ∃ extra, Uncompressed extra ∧ interface.invoke decoder (.headersComplete head) =
      some ({ decoder with
        field := ""
        value := ""
        writer := some decoder.pipes.length
        pipes := decoder.pipes ++ [.empty]
        messages := decoder.messages ++ [{ message with
          headers := message.headers.set decoder.field decoder.value
          start := start
          reader := some decoder.pipes.length }]
        message := none
        extra := extra }, success)
  refused : ∀ decoder message text head, decoder.message = some message → message.start = blank →
    decoder.extra = named text → line text head = none →
    ∃ next code, interface.invoke decoder (.headersComplete head) = some (next, code) ∧
      code ≠ 0 ∧ next.failure = true ∧ next.messages = decoder.messages ∧
      next.writer = decoder.writer ∧ next.pipes = decoder.pipes
  body : ∀ decoder pipe data, decoder.writer = some pipe → Uncompressed decoder.extra →
    interface.invoke decoder (.body data) = some (decoder.onWriter pipe (.write data), success)
  chunkHeader : ∀ decoder, interface.invoke decoder .chunkHeader = some (decoder, success)
  chunkComplete : ∀ decoder, interface.invoke decoder .chunkComplete = some (decoder, success)
  completes : ∀ decoder pipe, decoder.writer = some pipe → Uncompressed decoder.extra →
    interface.invoke decoder .messageComplete =
      some ({ decoder.onWriter pipe .closeWriter with writer := none }, success)
  fails : ∀ decoder, decoder.writer = none → decoder.failure = true →
    interface.invoke decoder .messageComplete = some (decoder, failureCode)

namespace Streaming

variable {Start Extra : Type} {decoder : Streaming Start Extra} {message : Message Start}

/-- The name of a header continues or begins. -/
theorem onHeaderField_field (known : decoder.message = some message)
    (header : decoder.header = .field) (data : String) :
    decoder.onHeaderField data =
      ({ decoder with field := decoder.field ++ data, header := .field }, success) := by
  simp [onHeaderField, known, header]

/-- The name of a header follows the value of another one. -/
theorem onHeaderField_value (known : decoder.message = some message)
    (header : decoder.header = .value) (data : String) :
    decoder.onHeaderField data =
      ({ decoder.addHeader message with field := data, header := .field }, success) := by
  simp [onHeaderField, known, header, addHeader]

theorem onHeaderValue_some (known : decoder.message = some message) (data : String) :
    decoder.onHeaderValue data =
      ({ decoder with value := decoder.value ++ data, header := .value }, success) := by
  simp [onHeaderValue, known]

end Streaming

namespace Streams

variable {Start Extra : Type} {interface : Interface (Streaming Start Extra) Start}
  (streams : Streams interface)

/-- The message that is handed out with a pipe. -/
def message (pipe : PipeId) (entry : Content × Start) : Message Start :=
  ⟨entry.2, headersOf entry.1.lines, .pipe, "", some pipe⟩

/-- The body of a complete message is in its pipe. -/
def Closed (entry : Content × Start) (channel : Channel) : Prop :=
  Carries channel entry.1.body .closed

/-- What a decoder knows at a position of a trace behind some complete messages, and all messages
that it has handed out. -/
inductive Represents (entries : List (Content × Start)) : Position → Streaming Start Extra →
    List (Message Start) → Prop where
  | between {decoder : Streaming Start Extra} : List.Forall₂ Closed entries decoder.pipes →
      decoder.writer = none → decoder.message = none →
      Represents entries .between decoder (entries.mapIdx message)
  | head {decoder : Streaming Start Extra} {url : String} {lines : List (String × String)}
      {line : Line} : List.Forall₂ Closed entries decoder.pipes → decoder.writer = none →
      decoder.message = some ⟨streams.blank, added lines, .pipe, "", none⟩ →
      decoder.extra = streams.named url → line.Held (decoder.field, decoder.value) decoder.header →
      (line = .none → lines = []) →
      Represents entries (.head url lines line) decoder (entries.mapIdx message)
  | body {decoder : Streaming Start Extra} {url data : String} {lines : List (String × String)}
      {head : Head} {start : Start} {closed : List Channel} {channel : Channel} :
      decoder.pipes = closed ++ [channel] → List.Forall₂ Closed entries closed →
      Carries channel data .opened → decoder.writer = some closed.length →
      decoder.message = none → streams.Uncompressed decoder.extra →
      streams.line url head = some start →
      Represents entries (.body url lines head data) decoder
        (entries.mapIdx message ++ [message closed.length (⟨url, lines, head, data⟩, start)])

/-- The messages that were handed out are those of the trace up to the first refused one. -/
inductive Tracks (collector : Collector) (session : Session (Streaming Start Extra) Start) :
    Prop where
  | proceeds : Accepts streams.line collector.contents → session.stage = .running →
      session.decoder.failure = false →
      streams.Represents (handed streams.line collector.contents) collector.position
        session.decoder (session.returned.flatten ++ session.decoder.messages) →
      Tracks collector session
  | failed : ¬ Accepts streams.line (collector.contents ++ collector.current) →
      session.decoder.failure = true → session.decoder.writer = none →
      List.Forall₂ Closed (handed streams.line collector.contents) session.decoder.pipes →
      session.returned.flatten ++ session.decoder.messages =
        (handed streams.line collector.contents).mapIdx message →
      session.stage = .stopped ∨ session.stage = .skipping ∧ collector.current ≠ [] →
      Tracks collector session

variable {streams} {collector next : Collector} {session : Session (Streaming Start Extra) Start}
  {callback : Callback} {decoder : Streaming Start Extra} {entries : List (Content × Start)}
  {all : List (Message Start)}

/-- What is known of a message whose headers are being read. -/
structure Reading (url : String) (lines : List (String × String)) (line : Line)
    (decoder : Streaming Start Extra) : Prop where
  message : decoder.message = some ⟨streams.blank, added lines, .pipe, "", none⟩
  extra : decoder.extra = streams.named url
  held : line.Held (decoder.field, decoder.value) decoder.header
  first : line = .none → lines = []

/-- A callback that concerns neither the bodies nor the messages that were handed out. -/
structure Aside (decoder after : Streaming Start Extra) : Prop where
  failure : after.failure = decoder.failure
  messages : after.messages = decoder.messages
  writer : after.writer = decoder.writer
  pipes : after.pipes = decoder.pipes

theorem Aside.refl (decoder : Streaming Start Extra) : Aside decoder decoder := ⟨rfl, rfl, rfl, rfl⟩

section Reading

variable {url data : String} {lines : List (String × String)} {line : Line} {contents : List Content}

section

variable (reading : streams.Reading url lines line decoder)

include reading

theorem Reading.headerField
    (read : Collector.next ⟨contents, .head url lines line⟩ (.headerField data) = some next) :
    ∃ after lines' line', decoder.onHeaderField data = (after, success) ∧
      next = ⟨contents, .head url lines' line'⟩ ∧ streams.Reading url lines' line' after ∧
      Aside decoder after := by
  obtain ⟨message, extra, held, first⟩ := reading
  cases line with
  | none | field name =>
      cases read
      obtain ⟨same, header⟩ := held
      rw [Prod.mk.injEq] at same
      refine ⟨_, _, _, Streaming.onHeaderField_field message header data, rfl, ?_, rfl, rfl, rfl, rfl⟩
      refine ⟨message, extra, ⟨?_, rfl⟩, nofun⟩
      simp [same.1, same.2]
  | value name text =>
      cases read
      obtain ⟨same, header⟩ := held
      rw [Prod.mk.injEq] at same
      refine ⟨_, _, _, Streaming.onHeaderField_value message header data, rfl, ?_, rfl, rfl, rfl, rfl⟩
      refine ⟨?_, extra, ⟨rfl, rfl⟩, nofun⟩
      simp [Streaming.addHeader, added_append, same.1, same.2]

theorem Reading.headerValue
    (read : Collector.next ⟨contents, .head url lines line⟩ (.headerValue data) = some next) :
    ∃ after lines' line', decoder.onHeaderValue data = (after, success) ∧
      next = ⟨contents, .head url lines' line'⟩ ∧ streams.Reading url lines' line' after ∧
      Aside decoder after := by
  obtain ⟨message, extra, held, first⟩ := reading
  cases line with
  | none => cases read
  | field name | value name text =>
      cases read
      obtain ⟨same, -⟩ := held
      rw [Prod.mk.injEq] at same
      refine ⟨_, _, _, Streaming.onHeaderValue_some message data, rfl, ?_, rfl, rfl, rfl, rfl⟩
      refine ⟨message, extra, ⟨?_, rfl⟩, nofun⟩
      simp [same.1, same.2]

/-- A callback within the headers succeeds. -/
theorem Reading.react (read : Collector.next ⟨contents, .head url lines line⟩ callback = some next)
    (incomplete : ∀ head, callback ≠ .headersComplete head) :
    ∃ after url' lines' line', interface.invoke decoder callback = some (after, success) ∧
      next = ⟨contents, .head url' lines' line'⟩ ∧ streams.Reading url' lines' line' after ∧
      Aside decoder after := by
  cases callback with
  | url data =>
      cases read
      exact ⟨_, _, _, _, streams.url _ _ url data reading.message reading.extra, rfl,
        ⟨reading.message, rfl, reading.held, reading.first⟩, rfl, rfl, rfl, rfl⟩
  | status data =>
      cases read
      exact ⟨_, _, _, _, streams.status _ data, rfl, reading, .refl _⟩
  | headerField data =>
      obtain ⟨after, lines', line', invoked, same, kept, aside⟩ := reading.headerField read
      exact ⟨after, url, lines', line', by rw [streams.headerField, invoked], same, kept, aside⟩
  | headerValue data =>
      obtain ⟨after, lines', line', invoked, same, kept, aside⟩ := reading.headerValue read
      exact ⟨after, url, lines', line', by rw [streams.headerValue, invoked], same, kept, aside⟩
  | headersComplete head => exact absurd rfl (incomplete head)
  | messageBegin | body | chunkHeader | chunkComplete | messageComplete => cases read

end

end Reading

/-- A callback that succeeds and completes no message. -/
theorem proceed {after : Streaming Start Extra} (running : session.stage = .running)
    (accepts : Accepts streams.line collector.contents)
    (invoked : interface.invoke session.decoder callback = some (after, success))
    (failure : after.failure = false) (contents : next.contents = collector.contents)
    (represents : streams.Represents (handed streams.line collector.contents) next.position after
      (session.returned.flatten ++ after.messages)) :
    ∃ reacted, interface.react session callback = some reacted ∧ streams.Tracks next reacted := by
  refine ⟨_, Interface.react_running running invoked, .proceeds ?_ rfl failure ?_⟩
  · rw [contents]
    exact accepts
  · rw [contents]
    exact represents

/-- The headers of a message are complete. -/
theorem headersComplete (running : session.stage = .running)
    (accepts : Accepts streams.line collector.contents)
    (failure : session.decoder.failure = false) {url : String}
    {lines last : List (String × String)} {line : Line} {head : Head}
    (closed : line.close = some last) (plain : Plain (lines ++ last))
    (represents : streams.Represents (handed streams.line collector.contents)
      (.head url lines line) session.decoder
      (session.returned.flatten ++ session.decoder.messages)) :
    ∃ reacted, interface.react session (.headersComplete head) = some reacted ∧
      streams.Tracks ⟨collector.contents, .body url (lines ++ last) head ""⟩ reacted := by
  generalize total : session.returned.flatten ++ session.decoder.messages = all at represents
  cases represents with
  | head pipes writer message extra held first =>
      have headers := held.last closed first
      cases found : streams.line url head with
      | some start =>
          obtain ⟨kept, uncompressed, invoked⟩ := streams.accepted _ _ url head start message rfl
            extra writer found (by rw [headers]; exact plain)
          refine proceed running accepts invoked failure rfl ?_
          rw [← List.append_assoc, total, headers]
          exact .body rfl pipes .empty rfl rfl uncompressed found
      | none =>
          obtain ⟨after, code, invoked, fails, failed, messages, same, kept⟩ :=
            streams.refused _ _ url head message rfl extra found
          refine ⟨_, Interface.react_running running invoked, .failed ?_ failed ?_ ?_ ?_ ?_⟩
          · exact not_accepts_append found
          · exact same.trans writer
          · rw [kept]
            exact pipes
          · rw [messages]
            exact total
          · cases Stage.answered_headersComplete fails with
            | inl skipping => exact .inr ⟨skipping, by simp [Collector.current]⟩
            | inr stopped => exact .inl stopped

/-- The end of a message that was handed out. -/
theorem messageComplete (running : session.stage = .running)
    (accepts : Accepts streams.line collector.contents)
    (failure : session.decoder.failure = false) {url data : String}
    {lines : List (String × String)} {head : Head}
    (represents : streams.Represents (handed streams.line collector.contents)
      (.body url lines head data) session.decoder
      (session.returned.flatten ++ session.decoder.messages)) :
    ∃ reacted, interface.react session .messageComplete = some reacted ∧
      streams.Tracks ⟨collector.contents ++ [⟨url, lines, head, data⟩], .between⟩ reacted := by
  generalize total : session.returned.flatten ++ session.decoder.messages = all at represents
  cases represents with
  | @body _ _ _ _ _ start closed channel pipes complete carries writer fresh uncompressed found =>
      have invoked := streams.completes session.decoder _ writer uncompressed
      have shut : List.Forall₂ Closed
          (handed streams.line collector.contents ++ [(⟨url, lines, head, data⟩, start)])
          (closed ++ [(channel.step .closeWriter).getD channel]) :=
        List.rel_append complete (.cons carries.close .nil)
      have indexed : session.returned.flatten ++ session.decoder.messages =
          (handed streams.line collector.contents ++
            [((⟨url, lines, head, data⟩ : Content), start)]).mapIdx message := by
        rw [total, List.mapIdx_append, complete.length_eq]
        simp
      refine ⟨_, Interface.react_running running invoked, .proceeds ?_ rfl failure ?_⟩
      · exact accepts.append found
      · rw [handed_append accepts, handed_singleton_some found]
        change Represents _ _ _ _ (session.returned.flatten ++ session.decoder.messages)
        rw [indexed]
        refine .between ?_ rfl fresh
        simp only [Streaming.onWriter, pipes, perform_last]
        exact shut

/-- Once the decoder has failed, only the message that it has refused is completed. -/
theorem Tracks.ignore (read : collector.next callback = some next)
    (refuses : ¬ Accepts streams.line (collector.contents ++ collector.current))
    (failure : session.decoder.failure = true) (writer : session.decoder.writer = none)
    (pipes : List.Forall₂ Closed (handed streams.line collector.contents) session.decoder.pipes)
    (all : session.returned.flatten ++ session.decoder.messages =
      (handed streams.line collector.contents).mapIdx message)
    (stage : session.stage = .stopped ∨ session.stage = .skipping ∧ collector.current ≠ []) :
    ∃ reacted, interface.react session callback = some reacted ∧
      streams.Tracks next reacted := by
  have remains : ¬ Accepts streams.line (next.contents ++ next.current) := fun accepts =>
    refuses (Collector.accepts_of_next accepts read)
  have same : handed streams.line next.contents = handed streams.line collector.contents := by
    cases Collector.contents_next read with
    | inl same => rw [same]
    | inr completed =>
        rw [completed.2]
        cases current : collector.current with
        | nil => rw [List.append_nil]
        | cons content rest =>
            have single : rest = [] := by
              unfold Collector.current at current
              split at current <;> simp_all
            rw [current, single] at refuses
            rw [single]
            exact handed_append_refused refuses
  rw [← same] at pipes all
  cases stage with
  | inl stopped =>
      exact ⟨session, Interface.react_stopped callback stopped,
        .failed remains failure writer pipes all (.inl stopped)⟩
  | inr skips =>
      obtain ⟨skipping, begun⟩ := skips
      obtain ⟨content, current⟩ := List.exists_mem_of_ne_nil _ begun
      cases Collector.current_next current read with
      | inl completed =>
          obtain ⟨rfl, -⟩ := completed
          refine ⟨{ session with stage := .stopped }, ?_,
            .failed remains failure writer pipes all (.inl rfl)⟩
          simp [Interface.react, skipping, Stage.invokes, streams.fails _ writer failure,
            Stage.answered, failureCode]
      | inr continues =>
          obtain ⟨another, -, data, later⟩ := continues
          have ignored : Stage.invokes .skipping callback = false := by
            cases callback <;> first | rfl | exact absurd rfl another
          refine ⟨session, by simp [Interface.react, skipping, ignored],
            .failed remains failure writer pipes all (.inr ⟨skipping, by simp [later]⟩)⟩

theorem Tracks.react (tracks : streams.Tracks collector session)
    (read : collector.next callback = some next) (plain : next.AllPlain) :
    ∃ reacted, interface.react session callback = some reacted ∧
      streams.Tracks next reacted := by
  cases tracks with
  | failed refuses failure writer pipes all stage =>
      exact Tracks.ignore read refuses failure writer pipes all stage
  | proceeds accepts running failure represents =>
      obtain ⟨contents, position⟩ := collector
      generalize total : session.returned.flatten ++ session.decoder.messages = all at represents
      have known := represents
      cases represents with
      | between pipes writer message =>
          cases callback <;> simp only [Collector.next, reduceCtorEq] at read
          cases read
          have invoked := streams.begins session.decoder
          rw [Streaming.begin, if_neg (by simp [failure, message, writer])] at invoked
          refine proceed running accepts invoked failure rfl ?_
          change Represents _ _ _ _ (session.returned.flatten ++ session.decoder.messages)
          rw [total]
          exact .head pipes rfl rfl rfl ⟨rfl, rfl⟩ fun _ => rfl
      | @head _ url lines line pipes writer message extra held first =>
          by_cases completes : ∃ head, callback = .headersComplete head
          · obtain ⟨head, rfl⟩ := completes
            simp only [Collector.next, Option.map_eq_some_iff] at read
            obtain ⟨last, closed, rfl⟩ := read
            rw [← total] at known
            apply headersComplete running accepts failure closed _ known
            exact plain ⟨url, lines ++ last, head, ""⟩ (by simp [Collector.current])
          · have reading : streams.Reading url lines line session.decoder :=
              ⟨message, extra, held, first⟩
            obtain ⟨after, url', lines', line', invoked, rfl, kept, aside⟩ :=
              reading.react read fun head same => completes ⟨head, same⟩
            refine proceed running accepts invoked (aside.failure.trans failure) rfl ?_
            rw [aside.messages, total]
            exact .head (aside.pipes ▸ pipes) (aside.writer.trans writer) kept.message kept.extra
              kept.held kept.first
      | @body _ url data lines head start closed channel pipes complete carries writer message
          uncompressed found =>
          cases callback with
          | body more =>
              cases read
              refine proceed running accepts (streams.body _ _ more writer uncompressed) failure rfl
                ?_
              change Represents _ _ _ _ (session.returned.flatten ++ session.decoder.messages)
              rw [total]
              refine .body ?_ complete (carries.write more) writer message uncompressed found
              simp only [Streaming.onWriter, pipes, perform_last]
          | chunkHeader =>
              cases read
              refine proceed running accepts (streams.chunkHeader _) failure rfl ?_
              rw [total]
              exact known
          | chunkComplete =>
              cases read
              refine proceed running accepts (streams.chunkComplete _) failure rfl ?_
              rw [total]
              exact known
          | messageComplete =>
              cases read
              rw [← total] at known
              exact messageComplete running accepts failure known
          | messageBegin | url | status | headerField | headerValue | headersComplete => cases read

theorem simulates (streams : Streams interface) (extra : Extra) :
    interface.Simulates (.init extra) streams.Tracks := by
  constructor
  · exact .proceeds (fun _ member => absurd member (by simp [Collector.init])) rfl rfl
      (.between .nil rfl rfl)
  · exact fun tracks read plain => tracks.react read plain
  · intro collector session short tracks stops
    rw [streams.finish]
    cases tracks with
    | failed refuses failure writer pipes all stage =>
        have same : session.decoder.finish short =
            ({ session.decoder with messages := [] }, session.decoder.messages) := by
          cases short
          · rfl
          · simp [Streaming.finish, Streaming.failWriter, writer, ← failure]
        rw [same]
        exact .failed refuses failure writer pipes (by simpa using all) stage
    | proceeds accepts running failure represents =>
        have complete : short = false := by
          cases short with
          | false => rfl
          | true => exact absurd (running.symm.trans (stops rfl)) (by decide)
        subst complete
        refine .proceeds accepts running failure ?_
        have flat : (session.returned ++ [session.decoder.messages]).flatten ++ [] =
            session.returned.flatten ++ session.decoder.messages := by
          simp
        change Represents _ _ _ _ ((session.returned ++ [session.decoder.messages]).flatten ++ [])
        rw [flat]
        generalize session.returned.flatten ++ session.decoder.messages = all at represents ⊢
        obtain ⟨contents, position⟩ := collector
        cases represents with
        | between pipes writer message => exact .between pipes writer message
        | head pipes writer message extra held first =>
            exact .head pipes writer message extra held first
        | body pipes complete carries writer message uncompressed found =>
            exact .body pipes complete carries writer message uncompressed found

end Streams

namespace StreamingRequestDecoder

variable (libraries : Libraries)

def interface : Interface (StreamingRequestDecoder libraries) RequestLine where
  invoke := invoke
  finish := Streaming.finish

def streams : Streams (interface libraries) where
  blank := ⟨"", ⟨"", [], none⟩, false⟩
  named url := ⟨"", url, none⟩
  Uncompressed extra := extra.decompressor = none
  line := requestLine libraries
  finish := rfl
  begins _ := rfl
  url decoder message text data known extra := by
    simp [interface, invoke, onUrl, known, extra]
  status _ _ := rfl
  headerField _ _ := rfl
  headerValue _ _ := rfl
  accepted decoder message text head start known blank extra writer found plain := by
    simp only [requestLine] at found
    simp only [interface, invoke, onHeadersComplete, known, Streaming.addHeader, extra]
    split at found
    · cases found
    · rename_i valid
      rw [if_neg valid]
      generalize Http.Query.decode _ _ = decoded at found ⊢
      cases decoded with
      | error _ => cases found
      | ok query =>
          cases found
          simp [Streaming.handOut, writer, plain, blank]
  refused decoder message text head known blank extra found := by
    simp only [requestLine] at found
    simp only [interface, invoke, onHeadersComplete, known, Streaming.addHeader, extra]
    split at found
    · rename_i invalid
      rw [if_pos invalid]
      exact ⟨_, _, rfl, invalid, rfl, rfl, rfl, rfl⟩
    · rename_i valid
      rw [if_neg valid]
      generalize Http.Query.decode _ _ = decoded at found ⊢
      cases decoded with
      | error error => exact ⟨_, _, rfl, by decide, rfl, rfl, rfl, rfl⟩
      | ok query => cases found
  body decoder pipe data writer uncompressed := by
    simp [interface, invoke, onBody, writer, uncompressed]
  chunkHeader _ := rfl
  chunkComplete _ := rfl
  completes decoder pipe writer uncompressed := by
    simp [interface, invoke, onMessageComplete, writer, uncompressed]
  fails decoder writer failure := by
    simp [interface, invoke, onMessageComplete, writer, failure]

end StreamingRequestDecoder

namespace StreamingResponseDecoder

def interface : Interface StreamingResponseDecoder StatusLine where
  invoke := invoke
  finish := Streaming.finish

def streams : Streams interface where
  blank := ⟨"", 0⟩
  named _ := ()
  Uncompressed _ := True
  line _ := statusLine
  finish := rfl
  begins _ := rfl
  url _ _ _ _ _ _ := rfl
  status _ _ := rfl
  headerField _ _ := rfl
  headerValue _ _ := rfl
  accepted decoder message text head start known blank extra writer found plain := by
    simp only [statusLine] at found
    split at found
    · rename_i valid
      cases found
      simp [interface, invoke, onHeadersComplete, known, valid, plain, Streaming.handOut,
        Streaming.addHeader, writer]
    · cases found
  refused decoder message text head known blank extra found := by
    simp only [statusLine] at found
    split at found
    · cases found
    · rename_i invalid
      simp only [interface, invoke, onHeadersComplete, known, invalid]
      exact ⟨_, _, rfl, by decide, rfl, rfl, rfl, rfl⟩
  body decoder pipe data writer _ := by
    simp [interface, invoke, onBody, writer]
  chunkHeader _ := rfl
  chunkComplete _ := rfl
  completes decoder pipe writer _ := by
    simp [interface, invoke, onMessageComplete, writer]
  fails decoder writer failure := by
    simp [interface, invoke, onMessageComplete, writer, failure]

end StreamingResponseDecoder

end Libprocess.Decoder
