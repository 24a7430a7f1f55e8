import Libprocess.Decoder.Compressed

/-!
# The headers of decoded messages

Each decoder puts the headers of a message together from pieces, and adds the last one separately.
The headers of a message that is handed out have the value of the last line for every key.  The
decoders that collect bodies then change the length of a compressed one.
-/

namespace Libprocess.Decoder

open Http (Headers)

/-- The value of the last line with a key. -/
def lastValue (lines : List (String × String)) (key : String) : Option String :=
  (lines.reverse.find? fun line => Headers.sameKey line.1 key).map Prod.snd

theorem distinct_added (lines : List (String × String)) : (added lines).Distinct := by
  induction lines using List.reverseRecOn with
  | nil => exact List.Pairwise.nil
  | append_singleton lines last ih =>
      rw [added_append]
      exact Headers.distinct_set ih

theorem get_added (lines : List (String × String)) (key : String) :
    (added lines).get key = lastValue lines key := by
  induction lines using List.reverseRecOn with
  | nil => rfl
  | append_singleton lines last ih =>
      rw [added_append, Headers.get_set, ih]
      unfold lastValue
      rw [List.reverse_concat, List.find?_cons]
      cases Headers.sameKey last.1 key <;> rfl

theorem distinct_headersOf (lines : List (String × String)) : (headersOf lines).Distinct := by
  unfold headersOf
  split
  · exact Headers.distinct_set List.Pairwise.nil
  · exact distinct_added lines

/-- A message without headers has an entry under the empty key only. -/
theorem get_headersOf {lines : List (String × String)} {key : String}
    (known : lines ≠ [] ∨ key ≠ "") : (headersOf lines).get key = lastValue lines key := by
  unfold headersOf
  split
  · next bare =>
      have apart : ¬ Headers.sameKey "" key = true := by
        intro same
        have none : key.toList = [] := List.map_eq_nil_iff.mp (Headers.sameKey_iff.mp same).symm
        exact known.elim (absurd bare) (absurd (String.toList_eq_nil_iff.mp none))
      rw [Headers.get_set, if_neg apart, bare]
      rfl
  · exact get_added lines key

/-- The headers of a message are exact, except for keys whose value the decoder changes.  Nothing
is said about the empty key of a message that has no headers. -/
def Exact {Start : Type} (changes : List (String × String) → String → Prop)
    (lines : List (String × String)) (message : Message Start) : Prop :=
  message.headers.Distinct ∧ ∀ key, ¬ changes lines key → lines ≠ [] ∨ key ≠ "" →
    message.headers.get key = lastValue lines key

/-- A streaming decoder changes no header. -/
def unchanged (_ : List (String × String)) (_ : String) : Prop := False

/-- The length of a compressed body. -/
def lengthChanged (lines : List (String × String)) (key : String) : Prop :=
  ¬ Plain lines ∧ Headers.sameKey "Content-Length" key = true

section Exact

variable {Start : Type} {changes : List (String × String) → String → Prop}
  {lines : List (String × String)} {message : Message Start}

theorem exact_of_headers (headers : message.headers = headersOf lines) :
    Exact changes lines message := by
  rw [Exact, headers]
  exact ⟨distinct_headersOf lines, fun _ _ known => get_headersOf known⟩

theorem exact_of_length {length : String} (compressed : ¬ Plain lines)
    (headers : message.headers = (headersOf lines).set "Content-Length" length) :
    Exact lengthChanged lines message := by
  rw [Exact, headers]
  constructor
  · exact Headers.distinct_set (distinct_headersOf lines)
  · intro key kept known
    have different : ¬ Headers.sameKey "Content-Length" key = true := fun same =>
      kept ⟨compressed, same⟩
    rw [Headers.get_set, if_neg different, get_headersOf known]

end Exact

/-- The messages of all calls are those of the first contents, with exact headers, and no content is
left out unless the decoder has failed.  The decoder fails on no uncompressed contents whose start
lines it accepts. -/
structure Maps {Decoder Start : Type} (interface : Interface Decoder Start) (decoder : Decoder)
    (failure : Decoder → Bool) (line : String → Head → Option Start)
    (changes : List (String × String) → String → Prop) (contents : List Content)
    (calls : List (List Callback × Bool)) : Prop where
  safe : ∀ session, interface.run decoder calls = some session → ∃ handed,
    handed <+: contents.map Content.lines ∧
    List.Forall₂ (Exact changes) handed session.returned.flatten ∧
    (failure session.decoder = false → handed = contents.map Content.lines)
  live : (∀ content ∈ contents, Plain content.lines) → Accepts line contents →
    ∃ session, interface.run decoder calls = some session ∧ failure session.decoder = false

/-! ## The decoders that collect bodies -/

namespace Collects

variable {Start Extra : Type} {interface : Interface (Collecting Start Extra) Start}
  {collects : Collects interface} {decompress : String → Option String} {contents : List Content}

theorem verdict_exact {content : Content} {message : Message Start}
    (hands : collects.verdict decompress content = .hands message) :
    Exact lengthChanged content.lines message := by
  unfold verdict at hands
  split at hands
  · cases hands
  · split at hands
    · cases hands
      exact exact_of_headers rfl
    · next compressed =>
        split at hands
        · cases hands
        · split at hands
          · cases hands
          · cases hands
            exact exact_of_length compressed rfl

theorem outcome_exact {messages : List (Message Start)} {failed : Bool}
    (told : outcome (collects.verdict decompress) contents = some (messages, failed)) :
    ∃ handed, handed <+: contents.map Content.lines ∧
      List.Forall₂ (Exact lengthChanged) handed messages ∧
      (failed = false → handed = contents.map Content.lines) := by
  induction contents generalizing messages with
  | nil =>
      cases told
      exact ⟨[], List.prefix_rfl, .nil, fun _ => rfl⟩
  | cons content rest ih =>
      cases found : collects.verdict decompress content with
      | aborts => simp [outcome, found] at told
      | refuses =>
          simp only [outcome, found] at told
          cases told
          exact ⟨[], List.nil_prefix, .nil, (by simp)⟩
      | hands message =>
          simp only [outcome, found, Option.map_eq_some_iff, Prod.mk.injEq] at told
          obtain ⟨⟨later, refused⟩, remaining, rfl, rfl⟩ := told
          obtain ⟨handed, front, exact, whole⟩ := ih remaining
          refine ⟨content.lines :: handed, ?_, .cons (verdict_exact found) exact, ?_⟩
          · exact List.cons_prefix_cons.mpr ⟨rfl, front⟩
          · intro proceeds
            rw [whole proceeds, List.map_cons]

theorem maps (handsOut : collects.HandsOut decompress) (extra : Extra) {trace : List Callback}
    {calls : List (List Callback × Bool)} (complete : Complete trace contents)
    (grouped : Grouped trace calls) :
    Maps interface (.init extra) (·.failure) collects.line lengthChanged contents calls := by
  constructor
  · intro session ran
    have observed := ((keeps handsOut extra).run complete grouped).observe
      fun session ran => collects.drained ran
    rw [ran] at observed
    exact outcome_exact observed.symm
  · intro plain accepts
    obtain ⟨session, ran, determined⟩ := collects.determined extra plain trace calls complete grouped
    refine ⟨session, ran, Bool.eq_false_iff.mpr ?_⟩
    exact fun failed => determined.failure.mp failed accepts

end Collects

/-! ## The streaming decoders -/

namespace Collector

variable {collector next : Collector} {callback : Callback}

/-- The lines of the messages whose headers are complete. -/
def heads (collector : Collector) : List (List (String × String)) :=
  (collector.contents ++ collector.current).map Content.lines

theorem heads_prefix (read : collector.next callback = some next) :
    collector.heads <+: next.heads := by
  obtain ⟨contents, position⟩ := collector
  cases position with
  | between =>
      cases callback <;> simp only [Collector.next, reduceCtorEq] at read
      cases read
      exact List.prefix_rfl
  | head url lines line =>
      have known : contents <+: next.contents := by
        cases contents_next read with
        | inl same => exact same ▸ List.prefix_rfl
        | inr completed => exact completed.2 ▸ List.prefix_append _ _
      simp only [heads, current, List.append_nil]
      exact (known.trans (List.prefix_append _ _)).map _
  | body url lines head data =>
      cases callback <;> simp only [Collector.next, reduceCtorEq, Option.some.injEq] at read <;>
        subst read <;> simp [heads, current]

end Collector

/-- A message with these headers is handed out, or the decoder fails. -/
def Answers {Start Extra : Type} (decoder : Streaming Start Extra) (headers : Headers)
    (outcome : Option (Streaming Start Extra × Nat)) : Prop :=
  ∃ next code, outcome = some (next, code) ∧
    (code = success ∧ next.failure = decoder.failure ∧ next.message = none ∧
        next.writer.isSome = true ∧ (∃ handed : Message Start, handed.headers = headers ∧
          next.messages = decoder.messages ++ [handed]) ∨
      code ≠ success ∧ next.failure = true ∧ next.writer = none ∧ next.messages = decoder.messages)

/-- What the callbacks of a streaming decoder do for any message, compressed or not. -/
structure Reports {Start Extra : Type} (interface : Interface (Streaming Start Extra) Start) :
    Prop where
  headersComplete : ∀ decoder message head, decoder.message = some message →
    decoder.writer = none → Answers decoder (message.headers.set decoder.field decoder.value)
      (interface.invoke decoder (.headersComplete head))
  body : ∀ decoder data, decoder.writer.isSome = true →
    ∃ next code, interface.invoke decoder (.body data) = some (next, code) ∧
      next.messages = decoder.messages ∧
      (code = success ∧ next.failure = decoder.failure ∧ next.message = decoder.message ∧
          next.writer.isSome = true ∨
        code ≠ success ∧ next.failure = true)
  messageComplete : ∀ decoder, decoder.writer.isSome = true →
    ∃ next code, interface.invoke decoder .messageComplete = some (next, code) ∧
      next.messages = decoder.messages ∧
      (code = success ∧ next.failure = decoder.failure ∧ next.message = decoder.message ∧
          next.writer = none ∨
        code ≠ success ∧ next.failure = true)

namespace Streams

variable {Start Extra : Type} {interface : Interface (Streaming Start Extra) Start}
  (streams : Streams interface)

/-- What a decoder holds at a position of a trace. -/
inductive Holds : Position → Streaming Start Extra → Prop where
  | between {decoder : Streaming Start Extra} : decoder.writer = none → decoder.message = none →
      Holds .between decoder
  | head {decoder : Streaming Start Extra} {url : String} {lines : List (String × String)}
      {line : Line} : decoder.writer = none → streams.Reading url lines line decoder →
      Holds (.head url lines line) decoder
  | body {decoder : Streaming Start Extra} {url data : String} {lines : List (String × String)}
      {head : Head} : decoder.writer.isSome = true → decoder.message = none →
      Holds (.body url lines head data) decoder

/-- The messages that were handed out have exact headers. -/
inductive Hands (collector : Collector) : Option (Session (Streaming Start Extra) Start) → Prop
  where
  | proceeds {session : Session (Streaming Start Extra) Start} : session.stage = .running →
      session.decoder.failure = false → streams.Holds collector.position session.decoder →
      List.Forall₂ (Exact unchanged) collector.heads
        (session.returned.flatten ++ session.decoder.messages) →
      Hands collector (some session)
  | failed {session : Session (Streaming Start Extra) Start}
      {handed : List (List (String × String))} :
      session.stage = .stopped ∨ session.stage = .skipping ∧ session.decoder.writer = none →
      session.decoder.failure = true → handed <+: collector.heads →
      List.Forall₂ (Exact unchanged) handed
        (session.returned.flatten ++ session.decoder.messages) →
      Hands collector (some session)

variable {streams} {collector next : Collector} {session : Session (Streaming Start Extra) Start}
  {callback : Callback}

/-- Once the decoder has failed, it hands out nothing. -/
theorem Hands.ignore (read : collector.next callback = some next)
    (stage : session.stage = .stopped ∨
      session.stage = .skipping ∧ session.decoder.writer = none)
    (failure : session.decoder.failure = true) {handed : List (List (String × String))}
    (front : handed <+: collector.heads)
    (exact : List.Forall₂ (Exact unchanged) handed
      (session.returned.flatten ++ session.decoder.messages)) :
    streams.Hands next (interface.react session callback) := by
  have later := front.trans (Collector.heads_prefix read)
  cases stage with
  | inl stopped =>
      rw [Interface.react_stopped callback stopped]
      exact .failed (.inl stopped) failure later exact
  | inr skips =>
      obtain ⟨skipping, writer⟩ := skips
      by_cases completes : callback = .messageComplete
      · have reacted : interface.react session callback = some { session with stage := .stopped } := by
          simp [Interface.react, skipping, Stage.invokes, completes,
            streams.fails _ writer failure, Stage.answered, failureCode]
        rw [reacted]
        exact .failed (.inl rfl) failure later exact
      · have ignored : Stage.invokes .skipping callback = false := by
          cases callback <;> first | rfl | exact absurd rfl completes
        have reacted : interface.react session callback = some session := by
          simp [Interface.react, skipping, ignored]
        rw [reacted]
        exact .failed (.inr ⟨skipping, writer⟩) failure later exact

/-- A callback that succeeds and hands out no message. -/
theorem Hands.proceed {after : Streaming Start Extra} (running : session.stage = .running)
    (invoked : interface.invoke session.decoder callback = some (after, success))
    (failure : after.failure = false) (messages : after.messages = session.decoder.messages)
    (heads : next.heads = collector.heads) (holds : streams.Holds next.position after)
    (exact : List.Forall₂ (Exact unchanged) collector.heads
      (session.returned.flatten ++ session.decoder.messages)) :
    streams.Hands next (interface.react session callback) := by
  rw [Interface.react_running running invoked]
  apply Hands.proceeds rfl failure holds
  rw [heads, messages]
  exact exact

/-- A callback that fails. -/
theorem Hands.fail {after : Streaming Start Extra} {code : Nat}
    (running : session.stage = .running)
    (invoked : interface.invoke session.decoder callback = some (after, code))
    (stage : Stage.answered callback code = .stopped ∨
      Stage.answered callback code = .skipping ∧ after.writer = none)
    (failure : after.failure = true) (messages : after.messages = session.decoder.messages)
    (read : collector.next callback = some next)
    (exact : List.Forall₂ (Exact unchanged) collector.heads
      (session.returned.flatten ++ session.decoder.messages)) :
    streams.Hands next (interface.react session callback) := by
  rw [Interface.react_running running invoked]
  apply Hands.failed stage failure (Collector.heads_prefix read)
  rw [messages]
  exact exact

/-- The headers of a message are complete. -/
theorem Hands.headersComplete (reports : Reports interface) {contents : List Content} {url : String}
    {lines last : List (String × String)} {line : Line} {head : Head}
    (running : session.stage = .running) (failure : session.decoder.failure = false)
    (writer : session.decoder.writer = none)
    (reading : streams.Reading url lines line session.decoder) (closed : line.close = some last)
    (exact : List.Forall₂ (Exact unchanged) (contents.map Content.lines)
      (session.returned.flatten ++ session.decoder.messages)) :
    streams.Hands ⟨contents, .body url (lines ++ last) head ""⟩
      (interface.react session (.headersComplete head)) := by
  have headers := reading.held.last closed reading.first
  obtain ⟨after, code, invoked, outcome⟩ := reports.headersComplete _ _ head reading.message writer
  rw [Interface.react_running running invoked]
  cases outcome with
  | inl succeeds =>
      obtain ⟨rfl, same, silent, opened, handed, told, messages⟩ := succeeds
      apply Hands.proceeds rfl (same.trans failure) (.body opened silent)
      rw [messages, ← List.append_assoc]
      simp only [Collector.heads, Collector.current, List.map_append, List.map_cons, List.map_nil]
      exact List.rel_append exact (.cons (exact_of_headers (told.trans headers)) .nil)
  | inr fails =>
      obtain ⟨nonzero, failed, shut, messages⟩ := fails
      have front : contents.map Content.lines <+:
          Collector.heads ⟨contents, .body url (lines ++ last) head ""⟩ := by
        simp [Collector.heads]
      apply Hands.failed _ failed front
      · rw [messages]
        exact exact
      · cases Stage.answered_headersComplete nonzero with
        | inl skipping => exact .inr ⟨skipping, shut⟩
        | inr stopped => exact .inl stopped

theorem answered_body {data : String} {code : Nat} (fails : code ≠ success) :
    Stage.answered (.body data) code = .stopped := by
  cases code with
  | zero => exact absurd rfl fails
  | succ code => simp [Stage.answered]

theorem Hands.react (reports : Reports interface) (hands : streams.Hands collector (some session))
    (read : collector.next callback = some next) :
    streams.Hands next (interface.react session callback) := by
  cases hands with
  | failed stage failure front exact => exact Hands.ignore read stage failure front exact
  | proceeds running failure holds exact =>
      obtain ⟨contents, position⟩ := collector
      cases holds with
      | between writer message =>
          cases callback <;> simp only [Collector.next, reduceCtorEq] at read
          cases read
          have invoked := streams.begins session.decoder
          rw [Streaming.begin, if_neg (by simp [failure, message, writer])] at invoked
          exact .proceed running invoked failure rfl rfl
            (.head rfl ⟨rfl, rfl, ⟨rfl, rfl⟩, fun _ => rfl⟩) exact
      | head writer reading =>
          by_cases completes : ∃ head, callback = .headersComplete head
          · obtain ⟨head, rfl⟩ := completes
            simp only [Collector.next, Option.map_eq_some_iff] at read
            obtain ⟨last, closed, rfl⟩ := read
            rw [Collector.heads, Collector.current, List.append_nil] at exact
            exact .headersComplete reports running failure writer reading closed exact
          · obtain ⟨after, url, lines, line, invoked, rfl, kept, aside⟩ :=
              reading.react read fun head same => completes ⟨head, same⟩
            exact .proceed running invoked (aside.failure.trans failure) aside.messages rfl
              (.head (aside.writer.trans writer) kept) exact
      | body opened message =>
          cases callback with
          | body more =>
              have known := read
              cases read
              obtain ⟨after, code, invoked, messages, outcome⟩ := reports.body _ more opened
              cases outcome with
              | inl succeeds =>
                  obtain ⟨rfl, same, silent, opened⟩ := succeeds
                  exact .proceed running invoked (same.trans failure) messages
                    (by simp [Collector.heads, Collector.current])
                    (.body opened (silent.trans message)) exact
              | inr fails =>
                  exact .fail running invoked (.inl (answered_body fails.1)) fails.2 messages known
                    exact
          | chunkHeader =>
              cases read
              exact .proceed running (streams.chunkHeader _) failure rfl rfl (.body opened message)
                exact
          | chunkComplete =>
              cases read
              exact .proceed running (streams.chunkComplete _) failure rfl rfl
                (.body opened message) exact
          | messageComplete =>
              have known := read
              cases read
              obtain ⟨after, code, invoked, messages, outcome⟩ := reports.messageComplete _ opened
              cases outcome with
              | inl succeeds =>
                  obtain ⟨rfl, same, silent, shut⟩ := succeeds
                  exact .proceed running invoked (same.trans failure) messages
                    (by simp [Collector.heads, Collector.current])
                    (.between shut (silent.trans message)) exact
              | inr fails =>
                  exact .fail running invoked (.inl (Stage.answered_messageComplete fails.1)) fails.2
                    messages known exact
          | messageBegin | url | status | headerField | headerValue | headersComplete => cases read

theorem hands (reports : Reports interface) (extra : Extra) :
    interface.Follows (.init extra) streams.Hands := by
  constructor
  · exact .proceeds rfl rfl (.between rfl rfl) .nil
  · exact fun hands read => hands.react reports read
  · intro collector next callback hands read
    cases hands
  · intro collector session short hands stops
    rw [streams.finish]
    have told : (session.decoder.finish short).2 = session.decoder.messages := by
      cases short with
      | false => rfl
      | true =>
          simp only [Streaming.finish, Streaming.failWriter, if_true]
          cases session.decoder.writer <;> rfl
    have flat : (session.returned ++ [(session.decoder.finish short).2]).flatten ++
        (session.decoder.finish short).1.messages =
        session.returned.flatten ++ session.decoder.messages := by
      rw [told, List.flatten_append]
      simp [Streaming.finish]
    cases hands with
    | failed stage failure front exact =>
        refine .failed ?_ ?_ front (flat ▸ exact)
        · cases stage with
          | inl stopped => exact .inl stopped
          | inr skips =>
              refine .inr ⟨skips.1, ?_⟩
              cases short with
              | false => exact skips.2
              | true => rfl
        · cases short with
          | false => exact failure
          | true => rfl
    | proceeds running failure holds exact =>
        have complete : short = false := by
          cases short with
          | false => rfl
          | true => exact absurd (running.symm.trans (stops rfl)) (by decide)
        subst complete
        refine .proceeds running failure ?_ (flat ▸ exact)
        obtain ⟨contents, position⟩ := collector
        cases holds with
        | between writer message => exact .between writer message
        | head writer reading =>
            exact .head writer ⟨reading.message, reading.extra, reading.held, reading.first⟩
        | body opened message => exact .body opened message

theorem maps (reports : Reports interface) (extra : Extra) {trace : List Callback}
    {contents : List Content} {calls : List (List Callback × Bool)}
    (complete : Complete trace contents) (grouped : Grouped trace calls) :
    Maps interface (.init extra) (·.failure) streams.line unchanged contents calls := by
  constructor
  · intro session ran
    have hands := (streams.hands reports extra).run complete grouped
    rw [ran] at hands
    have drained := streams.drained ran
    cases hands with
    | proceeds running failure holds exact =>
        simp only [Collector.heads, Collector.current, drained, List.append_nil] at exact
        exact ⟨_, List.prefix_rfl, exact, fun _ => rfl⟩
    | failed stage failure front exact =>
        simp only [Collector.heads, Collector.current, drained, List.append_nil] at front exact
        refine ⟨_, front, exact, fun unfailed => ?_⟩
        rw [failure] at unfailed
        cases unfailed
  · intro plain accepts
    obtain ⟨session, ran, determined⟩ := streams.determined extra plain trace calls complete grouped
    refine ⟨session, ran, Bool.eq_false_iff.mpr ?_⟩
    exact fun failed => determined.failure.mp failed accepts

end Streams

namespace StreamingRequestDecoder

theorem reports (libraries : Libraries) : Reports (interface libraries) where
  headersComplete decoder message head known writer := by
    simp only [interface, invoke, onHeadersComplete, known]
    split
    · next invalid => exact ⟨_, _, rfl, .inr ⟨invalid, rfl, writer, rfl⟩⟩
    · split
      · exact ⟨_, _, rfl, .inr ⟨Nat.one_ne_zero, rfl, writer, rfl⟩⟩
      · refine ⟨_, _, if_neg (by simp [Streaming.addHeader, writer]), .inl ?_⟩
        exact ⟨rfl, rfl, rfl, rfl, _, rfl, rfl⟩
  body decoder data opened := by
    obtain ⟨pipe, writer⟩ := Option.isSome_iff_exists.mp opened
    simp only [interface, invoke, onBody, writer]
    split
    · exact ⟨_, _, rfl, rfl, .inl ⟨rfl, rfl, rfl, opened⟩⟩
    · split
      · exact ⟨_, _, rfl, rfl, .inr ⟨Nat.one_ne_zero, rfl⟩⟩
      · exact ⟨_, _, rfl, rfl, .inl ⟨rfl, rfl, rfl, rfl⟩⟩
  messageComplete decoder opened := by
    obtain ⟨pipe, writer⟩ := Option.isSome_iff_exists.mp opened
    simp only [interface, invoke, onMessageComplete, writer]
    split
    · exact ⟨_, _, rfl, rfl, .inr ⟨Nat.one_ne_zero, rfl⟩⟩
    · exact ⟨_, _, rfl, rfl, .inl ⟨rfl, rfl, rfl, rfl⟩⟩

end StreamingRequestDecoder

namespace StreamingResponseDecoder

theorem reports : Reports interface where
  headersComplete decoder message head known writer := by
    simp only [interface, invoke, onHeadersComplete, known]
    split
    · split
      · exact ⟨_, _, rfl, .inr ⟨Nat.one_ne_zero, rfl, writer, rfl⟩⟩
      · refine ⟨_, _, if_neg (by simp [Streaming.addHeader, writer]), .inl ?_⟩
        exact ⟨rfl, rfl, rfl, rfl, _, rfl, rfl⟩
    · exact ⟨_, _, rfl, .inr ⟨Nat.one_ne_zero, rfl, writer, rfl⟩⟩
  body decoder data opened := by
    obtain ⟨pipe, writer⟩ := Option.isSome_iff_exists.mp opened
    simp only [interface, invoke, onBody, writer]
    exact ⟨_, _, rfl, rfl, .inl ⟨rfl, rfl, rfl, opened⟩⟩
  messageComplete decoder opened := by
    obtain ⟨pipe, writer⟩ := Option.isSome_iff_exists.mp opened
    simp only [interface, invoke, onMessageComplete, writer]
    exact ⟨_, _, rfl, rfl, .inl ⟨rfl, rfl, rfl, rfl⟩⟩

end StreamingResponseDecoder

/-- The headers of all messages that are handed out are exact. -/
theorem headers_exact (libraries : Libraries) (decompress : String → Option String)
    {trace : List Callback} {contents : List Content} (complete : Complete trace contents)
    {calls : List (List Callback × Bool)} (grouped : Grouped trace calls) :
    Maps (DataDecoder.interface libraries decompress) .init (·.failure) (requestLine libraries)
        lengthChanged contents calls ∧
      Maps (StreamingRequestDecoder.interface libraries) .init (·.failure) (requestLine libraries)
        unchanged contents calls ∧
      Maps (ResponseDecoder.interface decompress) .init (·.failure) (fun _ => statusLine)
        lengthChanged contents calls ∧
      Maps StreamingResponseDecoder.interface .init (·.failure) (fun _ => statusLine) unchanged
        contents calls :=
  ⟨Collects.maps (DataDecoder.handsOut libraries decompress) _ complete grouped,
    (StreamingRequestDecoder.streams libraries).maps (StreamingRequestDecoder.reports libraries) _
      complete grouped,
    Collects.maps (ResponseDecoder.handsOut decompress) _ complete grouped,
    StreamingResponseDecoder.streams.maps StreamingResponseDecoder.reports _ complete grouped⟩

/-- A message with a key that comes twice, and one without headers. -/
def repeatedTrace : List Callback :=
  [.messageBegin, .url "/", .headerField "Host", .headerValue "a", .headerField "Accept",
    .headerValue "", .headerField "host", .headerValue "b", .headerValue "c",
    .headersComplete ⟨"GET", true, 200, false, false⟩, .messageComplete, .messageBegin, .url "/",
    .headersComplete ⟨"GET", true, 200, false, false⟩, .messageComplete]

theorem headers_exact_repeated :
    (∃ contents : List Content, contents.map Content.lines =
        [[("Host", "a"), ("Accept", ""), ("host", "bc")], []] ∧
      Maps (DataDecoder.interface Receiver.plain some) .init (·.failure)
        (requestLine Receiver.plain) lengthChanged contents
        [(repeatedTrace.take 8, true), (repeatedTrace.drop 8, true)] ∧
      Maps (StreamingRequestDecoder.interface Receiver.plain) .init (·.failure)
        (requestLine Receiver.plain) unchanged contents
        [(repeatedTrace.take 8, true), (repeatedTrace.drop 8, true)]) ∧
    ((DataDecoder.interface Receiver.plain some).run .init [(repeatedTrace.take 8, true),
        (repeatedTrace.drop 8, true)]).map (fun session =>
          session.returned.flatten.map Message.headers) =
      some [[("Host", "bc"), ("Accept", "")], [("", "")]] := by
  have complete : Complete repeatedTrace
      [⟨"/", [("Host", "a"), ("Accept", ""), ("host", "bc")], ⟨"GET", true, 200, false, false⟩, ""⟩,
        ⟨"/", [], ⟨"GET", true, 200, false, false⟩, ""⟩] := by decide +kernel
  have grouped : Grouped repeatedTrace [(repeatedTrace.take 8, true), (repeatedTrace.drop 8, true)] :=
    rfl
  have maps := headers_exact Receiver.plain some complete grouped
  exact ⟨⟨_, rfl, maps.1, maps.2.1⟩, by decide +kernel⟩

/-- A message is handed out whose headers tell something else about a key than its lines. -/
def Interface.Misreads {Decoder Start : Type} (interface : Interface Decoder Start)
    (decoder : Decoder) (trace : List Callback) (lines : List (String × String)) (key : String) :
    Prop :=
  ∃ session, interface.run decoder [(trace, true)] = some session ∧
    ∃ message ∈ session.returned.flatten, message.headers.get key ≠ lastValue lines key

instance {Decoder Start : Type} (interface : Interface Decoder Start) (decoder : Decoder)
    (trace : List Callback) (lines : List (String × String)) (key : String) :
    Decidable (interface.Misreads decoder trace lines key) :=
  inferInstanceAs (Decidable (∃ session ∈ interface.run decoder [(trace, true)],
    ∃ message ∈ session.returned.flatten, message.headers.get key ≠ lastValue lines key))

/-- A message without headers. -/
def bareTrace : List Callback :=
  [.messageBegin, .url "/", .headersComplete ⟨"GET", true, 200, false, false⟩, .messageComplete]

/-- Without headers there is an entry nevertheless, and a compressed message gets a length. -/
theorem not_headers_exact :
    Complete bareTrace [⟨"/", [], ⟨"GET", true, 200, false, false⟩, ""⟩] ∧
    (DataDecoder.interface Receiver.plain some).Misreads .init bareTrace [] "" ∧
    (StreamingRequestDecoder.interface Receiver.plain).Misreads .init bareTrace [] "" ∧
    (ResponseDecoder.interface some).Misreads .init bareTrace [] "" ∧
    StreamingResponseDecoder.interface.Misreads .init bareTrace [] "" ∧
    Complete (gzipTrace "x") [gzipContent "x"] ∧
    (DataDecoder.interface Receiver.plain some).Misreads .init (gzipTrace "x")
      (gzipContent "x").lines "Content-Length" ∧
    (ResponseDecoder.interface some).Misreads .init (gzipTrace "x")
      (gzipContent "x").lines "Content-Length" := by
  decide +kernel

end Libprocess.Decoder
