import Libprocess.Decoder.Contents

/-!
# The decoders that collect bodies, on whole traces

What `DataDecoder` and `ResponseDecoder` have in common is `Collects`: which callbacks do the same
in both, and what is known when a message begins, when its headers are complete and when it ends.
-/

namespace Libprocess.Decoder

open Http (Headers)

namespace Collecting

variable {Start Extra : Type} {decoder : Collecting Start Extra} {message : Message Start}

section

variable (known : decoder.message = some message)

include known

/-- The name of a header continues or begins. -/
theorem onHeaderField_field (header : decoder.header = .field) (data : String) :
    decoder.onHeaderField data =
      some ({ decoder with field := decoder.field ++ data, header := .field }, success) := by
  simp [onHeaderField, known, header]

/-- The name of a header follows the value of another one. -/
theorem onHeaderField_value (header : decoder.header = .value) (data : String) :
    decoder.onHeaderField data =
      some ({ decoder.addHeader message with field := data, header := .field }, success) := by
  simp [onHeaderField, known, header, addHeader]

theorem onHeaderValue_some (data : String) :
    decoder.onHeaderValue data =
      some ({ decoder with value := decoder.value ++ data, header := .value }, success) := by
  simp [onHeaderValue, known]

theorem onBody_some (data : String) :
    decoder.onBody data = some ({ decoder with
      message := some { message with body := message.body ++ data } }, success) := by
  simp [onBody, known]

end

end Collecting

/-- A decoder that refuses a start line at the end of the message. -/
structure Collects {Start Extra : Type} (interface : Interface (Collecting Start Extra) Start) where
  /-- The start line of a message that begins, and of one whose headers are complete. -/
  blank : Start
  opened : Head → Start
  /-- What is kept of the start line until then. -/
  named : String → Extra
  known : String → Head → Extra
  /-- The start line of a message, unless it is refused. -/
  line : String → Head → Option Start
  finish : interface.finish = Collecting.finish
  begins : ∀ decoder, interface.invoke decoder .messageBegin = decoder.begin blank (named "")
  url : ∀ decoder message text data, decoder.message = some message → decoder.extra = named text →
    interface.invoke decoder (.url data) =
      some ({ decoder with extra := named (text ++ data) }, success)
  status : ∀ decoder data, interface.invoke decoder (.status data) = some (decoder, success)
  headerField : ∀ decoder data,
    interface.invoke decoder (.headerField data) = decoder.onHeaderField data
  headerValue : ∀ decoder data,
    interface.invoke decoder (.headerValue data) = decoder.onHeaderValue data
  headersComplete : ∀ decoder message text head, decoder.message = some message →
    message.start = blank → decoder.extra = named text →
    interface.invoke decoder (.headersComplete head) = some ({ decoder.addHeader message with
      message := some { message with
        headers := message.headers.set decoder.field decoder.value
        start := opened head }
      extra := known text head }, success)
  body : ∀ decoder data, interface.invoke decoder (.body data) = decoder.onBody data
  chunkHeader : ∀ decoder, interface.invoke decoder .chunkHeader = some (decoder, success)
  chunkComplete : ∀ decoder, interface.invoke decoder .chunkComplete = some (decoder, success)
  accepted : ∀ decoder message text head start, decoder.message = some message →
    message.start = opened head → decoder.extra = known text head → line text head = some start →
    message.headers.get "Content-Encoding" ≠ some "gzip" → ∃ extra,
    interface.invoke decoder .messageComplete = some ({ decoder with
      messages := decoder.messages ++ [{ message with start := start }]
      message := none
      extra := extra }, success)
  refused : ∀ decoder message text head, decoder.message = some message →
    message.start = opened head → decoder.extra = known text head → line text head = none →
    ∃ next code, interface.invoke decoder .messageComplete = some (next, code) ∧ code ≠ 0 ∧
      next.failure = true ∧ next.messages = decoder.messages

namespace Collects

variable {Start Extra : Type} {interface : Interface (Collecting Start Extra) Start}
  (collects : Collects interface)

/-- The message that is handed out. -/
def message (entry : Content × Start) : Message Start :=
  ⟨entry.2, headersOf entry.1.lines, .body, entry.1.body, none⟩

/-- What a decoder knows at a position of a trace. -/
inductive Represents : Position → Collecting Start Extra → Prop where
  | between {decoder : Collecting Start Extra} : decoder.message = none →
      Represents .between decoder
  | head {decoder : Collecting Start Extra} {url : String} {lines : List (String × String)}
      {line : Line} : decoder.message = some ⟨collects.blank, added lines, .body, "", none⟩ →
      decoder.extra = collects.named url → line.Held (decoder.field, decoder.value) decoder.header →
      (line = .none → lines = []) → Represents (.head url lines line) decoder
  | body {decoder : Collecting Start Extra} {url : String} {lines : List (String × String)}
      {head : Head} {data : String} :
      decoder.message = some ⟨collects.opened head, headersOf lines, .body, data, none⟩ →
      decoder.extra = collects.known url head → Represents (.body url lines head data) decoder

/-- The messages that were handed out are those of the trace up to the first refused one. -/
structure Tracks (collector : Collector) (session : Session (Collecting Start Extra) Start) :
    Prop where
  messages : session.returned.flatten ++ session.decoder.messages =
    (handed collects.line collector.contents).map message
  state : Accepts collects.line collector.contents ∧ session.stage = .running ∧
      session.decoder.failure = false ∧
      collects.Represents collector.position session.decoder ∨
    ¬ Accepts collects.line collector.contents ∧ session.stage = .stopped ∧
      session.decoder.failure = true

variable {collects} {collector next : Collector} {session : Session (Collecting Start Extra) Start}
  {callback : Callback} {decoder : Collecting Start Extra}

theorem Represents.headerField {url data : String} {lines : List (String × String)} {line : Line}
    (represents : collects.Represents (.head url lines line) decoder) {contents : List Content}
    (read : Collector.next ⟨contents, .head url lines line⟩ (.headerField data) = some next) :
    ∃ after, decoder.onHeaderField data = some (after, success) ∧
      after.failure = decoder.failure ∧ after.messages = decoder.messages ∧
      next.contents = contents ∧ collects.Represents next.position after := by
  cases represents with
  | head message extra held first =>
      cases line with
      | none | field name =>
          cases read
          obtain ⟨same, header⟩ := held
          rw [Prod.mk.injEq] at same
          refine ⟨_, Collecting.onHeaderField_field message header data, rfl, rfl, rfl, ?_⟩
          refine .head message extra ⟨?_, rfl⟩ (fun absent => nomatch absent)
          simp [same.1, same.2]
      | value name text =>
          cases read
          obtain ⟨same, header⟩ := held
          rw [Prod.mk.injEq] at same
          refine ⟨_, Collecting.onHeaderField_value message header data, rfl, rfl, rfl, ?_⟩
          refine .head ?_ extra ⟨rfl, rfl⟩ (fun absent => nomatch absent)
          simp [Collecting.addHeader, added_append, same.1, same.2]

theorem Represents.headerValue {url data : String} {lines : List (String × String)} {line : Line}
    (represents : collects.Represents (.head url lines line) decoder) {contents : List Content}
    (read : Collector.next ⟨contents, .head url lines line⟩ (.headerValue data) = some next) :
    ∃ after, decoder.onHeaderValue data = some (after, success) ∧
      after.failure = decoder.failure ∧ after.messages = decoder.messages ∧
      next.contents = contents ∧ collects.Represents next.position after := by
  cases represents with
  | head message extra held first =>
      cases line with
      | none => cases read
      | field name | value name text =>
          cases read
          obtain ⟨same, -⟩ := held
          rw [Prod.mk.injEq] at same
          refine ⟨_, Collecting.onHeaderValue_some message data, rfl, rfl, rfl, ?_⟩
          refine .head message extra ⟨?_, rfl⟩ (fun absent => nomatch absent)
          simp [same.1, same.2]

/-- A callback that does not complete a message succeeds. -/
theorem Represents.react {contents : List Content} {position : Position}
    (represents : collects.Represents position decoder) (failure : decoder.failure = false)
    (read : Collector.next ⟨contents, position⟩ callback = some next)
    (continues : callback ≠ .messageComplete) :
    ∃ after, interface.invoke decoder callback = some (after, success) ∧
      after.failure = decoder.failure ∧ after.messages = decoder.messages ∧
      next.contents = contents ∧ collects.Represents next.position after := by
  have known := represents
  cases represents with
  | between message =>
      cases callback <;> simp only [Collector.next, reduceCtorEq] at read
      cases read
      have invoked := collects.begins decoder
      rw [Collecting.begin, if_neg (by simp [failure, message])] at invoked
      exact ⟨_, invoked, rfl, rfl, rfl, .head rfl rfl ⟨rfl, rfl⟩ fun _ => rfl⟩
  | head message extra held first =>
      cases callback with
      | url data =>
          cases read
          exact ⟨_, collects.url _ _ _ data message extra, rfl, rfl, rfl,
            .head message rfl held first⟩
      | status data =>
          cases read
          exact ⟨_, collects.status _ data, rfl, rfl, rfl, known⟩
      | headerField data =>
          rw [collects.headerField]
          exact known.headerField read
      | headerValue data =>
          rw [collects.headerValue]
          exact known.headerValue read
      | headersComplete head =>
          simp only [Collector.next, Option.map_eq_some_iff] at read
          obtain ⟨last, closed, rfl⟩ := read
          refine ⟨_, collects.headersComplete _ _ _ head message rfl extra, rfl, rfl, rfl,
            .body ?_ rfl⟩
          rw [held.last closed first]
      | messageBegin | body | chunkHeader | chunkComplete | messageComplete => cases read
  | body message extra =>
      cases callback with
      | body more =>
          cases read
          exact ⟨_, (collects.body _ more).trans (Collecting.onBody_some message more), rfl, rfl, rfl,
            .body rfl extra⟩
      | chunkHeader =>
          cases read
          exact ⟨_, collects.chunkHeader _, rfl, rfl, rfl, known⟩
      | chunkComplete =>
          cases read
          exact ⟨_, collects.chunkComplete _, rfl, rfl, rfl, known⟩
      | messageComplete => exact absurd rfl continues
      | messageBegin | url | status | headerField | headerValue | headersComplete => cases read

/-- A message is completed behind its headers. -/
theorem Represents.completes {contents : List Content} {position : Position}
    (represents : collects.Represents position decoder)
    (read : Collector.next ⟨contents, position⟩ .messageComplete = some next) :
    ∃ content, next = ⟨contents ++ [content], .between⟩ ∧
      decoder.message =
        some ⟨collects.opened content.head, headersOf content.lines, .body, content.body, none⟩ ∧
      decoder.extra = collects.known content.url content.head := by
  cases represents with
  | between => cases read
  | @head _ url lines line => cases line <;> cases read
  | @body _ url lines head data message extra =>
      cases read
      exact ⟨⟨url, lines, head, data⟩, rfl, message, extra⟩

/-- Once the decoder has failed, nothing changes any more. -/
theorem Tracks.ignore (tracks : collects.Tracks collector session)
    (read : collector.next callback = some next) (stopped : session.stage = .stopped)
    (refuses : ¬ Accepts collects.line collector.contents)
    (failure : session.decoder.failure = true) : collects.Tracks next session := by
  have grows : ∃ more, next.contents = collector.contents ++ more := by
    cases Collector.contents_next read with
    | inl same => exact ⟨[], by rw [same, List.append_nil]⟩
    | inr completed => exact ⟨_, completed.2⟩
  obtain ⟨more, contents⟩ := grows
  constructor
  · rw [contents, handed_append_of_not refuses]
    exact tracks.messages
  · right
    rw [contents]
    exact ⟨fun accepts => refuses accepts.of_append, stopped, failure⟩

/-- The end of a message. -/
theorem Tracks.complete (tracks : collects.Tracks collector session)
    (running : session.stage = .running) (accepts : Accepts collects.line collector.contents)
    (failure : session.decoder.failure = false) {content : Content} (plain : Plain content.lines)
    (message : session.decoder.message =
      some ⟨collects.opened content.head, headersOf content.lines, .body, content.body, none⟩)
    (extra : session.decoder.extra = collects.known content.url content.head) :
    ∃ reacted, interface.react session .messageComplete = some reacted ∧
      collects.Tracks ⟨collector.contents ++ [content], .between⟩ reacted := by
  cases found : collects.line content.url content.head with
  | some start =>
      obtain ⟨kept, invoked⟩ := collects.accepted _ _ _ _ start message rfl extra found plain
      refine ⟨_, Interface.react_running running invoked, ?_, ?_⟩
      · rw [handed_append accepts, handed_singleton_some found, List.map_append,
          ← tracks.messages, List.append_assoc]
        rfl
      · exact .inl ⟨accepts.append found, rfl, failure, .between rfl⟩
  | none =>
      obtain ⟨after, code, invoked, fails, failed, messages⟩ :=
        collects.refused _ _ _ _ message rfl extra found
      have stops := Stage.answered_messageComplete fails
      refine ⟨_, Interface.react_running running invoked, ?_, ?_⟩
      · rw [handed_append accepts, handed_singleton_none found, List.append_nil, messages]
        exact tracks.messages
      · exact .inr ⟨not_accepts_append found, stops, failed⟩

theorem Tracks.react (tracks : collects.Tracks collector session)
    (read : collector.next callback = some next) (plain : next.AllPlain) :
    ∃ reacted, interface.react session callback = some reacted ∧
      collects.Tracks next reacted := by
  cases tracks.state with
  | inr failed =>
      obtain ⟨refuses, stopped, failure⟩ := failed
      exact ⟨session, Interface.react_stopped callback stopped,
        tracks.ignore read stopped refuses failure⟩
  | inl proceeds =>
      obtain ⟨accepts, running, failure, represents⟩ := proceeds
      by_cases completes : callback = .messageComplete
      · subst completes
        obtain ⟨content, rfl, message, extra⟩ := represents.completes read
        apply tracks.complete running accepts failure _ message extra
        exact plain content (by simp)
      · obtain ⟨after, invoked, same, messages, contents, represents⟩ :=
          represents.react failure read completes
        refine ⟨_, Interface.react_running running invoked, ?_, ?_⟩
        · rw [contents, messages]
          exact tracks.messages
        · left
          rw [contents]
          exact ⟨accepts, rfl, same.trans failure, represents⟩

theorem simulates (collects : Collects interface) (extra : Extra) :
    interface.Simulates (.init extra) collects.Tracks := by
  constructor
  · exact ⟨rfl, 
      .inl ⟨fun _ member => absurd member (by simp [Collector.init]), rfl, rfl, .between rfl⟩⟩
  · exact fun tracks read plain => tracks.react read plain
  · intro collector session short tracks stops
    rw [collects.finish]
    obtain ⟨contents, position⟩ := collector
    constructor
    · simpa [Collecting.finish] using tracks.messages
    · cases tracks.state with
      | inl proceeds =>
          obtain ⟨accepts, running, failure, represents⟩ := proceeds
          have complete : short = false := by
            cases short with
            | false => rfl
            | true => exact absurd (running.symm.trans (stops rfl)) (by decide)
          refine .inl ⟨accepts, running, by simp [Collecting.finish, failure, complete], ?_⟩
          cases represents with
          | between message => exact .between message
          | head message extra held first => exact .head message extra held first
          | body message extra => exact .body message extra
      | inr failed =>
          obtain ⟨refuses, stopped, failure⟩ := failed
          exact .inr ⟨refuses, stopped, by simp [Collecting.finish, failure]⟩

end Collects

/-- The start line of a request, unless its URL or its query is malformed. -/
def requestLine (libraries : Libraries) (url : String) (head : Head) : Option RequestLine :=
  let (code, parsed) := libraries.parseUrl url
  if code ≠ 0 then none
  else
    match Http.Query.decode libraries.toStrings (parsed.query.getD "") with
    | .error _ => none
    | .ok query => some ⟨head.method, ⟨parsed.path.getD "", query, parsed.fragment⟩, head.keepAlive⟩

/-- The start line of a response, unless its status is unknown. -/
def statusLine (head : Head) : Option StatusLine :=
  if Http.isValidStatus head.statusCode then
    some ⟨Http.statusString head.statusCode, head.statusCode⟩
  else none

namespace DataDecoder

variable (libraries : Libraries) (decompress : String → Option String)

def interface : Interface DataDecoder RequestLine where
  invoke := invoke libraries decompress
  finish := Collecting.finish

def collects : Collects (interface libraries decompress) where
  blank := ⟨"", ⟨"", [], none⟩, false⟩
  opened head := ⟨head.method, ⟨"", [], none⟩, head.keepAlive⟩
  named url := ⟨"", url⟩
  known url _ := ⟨"", url⟩
  line := requestLine libraries
  finish := rfl
  begins _ := rfl
  url decoder message text data known extra := by
    simp [interface, invoke, onUrl, known, extra]
  status _ _ := rfl
  headerField _ _ := rfl
  headerValue _ _ := rfl
  headersComplete decoder message text head known start extra := by
    simp [interface, invoke, onHeadersComplete, known, start, Collecting.addHeader, extra]
  body _ _ := rfl
  chunkHeader _ := rfl
  chunkComplete _ := rfl
  accepted decoder message text head start known opened extra found plain := by
    simp only [requestLine] at found
    simp only [interface, invoke, onMessageComplete, known, extra]
    split at found
    · cases found
    · rename_i valid
      rw [if_neg valid]
      generalize Http.Query.decode _ _ = decoded at found ⊢
      cases decoded with
      | error _ => cases found
      | ok query =>
          cases found
          simp [Collecting.handOut, plain, opened]
  refused decoder message text head known opened extra found := by
    simp only [requestLine] at found
    simp only [interface, invoke, onMessageComplete, known, extra]
    split at found
    · rename_i invalid
      rw [if_pos invalid]
      exact ⟨_, _, rfl, invalid, rfl, rfl⟩
    · rename_i valid
      rw [if_neg valid]
      generalize Http.Query.decode _ _ = decoded at found ⊢
      cases decoded with
      | error error => exact ⟨_, _, rfl, by decide, rfl, rfl⟩
      | ok query => cases found

end DataDecoder

namespace ResponseDecoder

variable (decompress : String → Option String)

def interface : Interface ResponseDecoder StatusLine where
  invoke := invoke decompress
  finish := Collecting.finish

def collects : Collects (interface decompress) where
  blank := ⟨"", 0⟩
  opened _ := ⟨"", 0⟩
  named _ := 0
  known _ head := head.statusCode
  line _ := statusLine
  finish := rfl
  begins _ := rfl
  url decoder message text data known extra := by
    simp [interface, invoke, ← extra]
  status _ _ := rfl
  headerField _ _ := rfl
  headerValue _ _ := rfl
  headersComplete decoder message text head known start extra := by
    simp [interface, invoke, onHeadersComplete, known, ← start, Collecting.addHeader]
  body _ _ := rfl
  chunkHeader _ := rfl
  chunkComplete _ := rfl
  accepted decoder message text head start known opened extra found plain := by
    simp only [statusLine] at found
    split at found
    · rename_i valid
      cases found
      simp [interface, invoke, onMessageComplete, known, extra, valid, Collecting.handOut, plain]
    · cases found
  refused decoder message text head known opened extra found := by
    simp only [statusLine] at found
    split at found
    · cases found
    · rename_i invalid
      simp only [interface, invoke, onMessageComplete, known, extra, invalid]
      exact ⟨_, _, rfl, by decide, rfl, rfl⟩

end ResponseDecoder

end Libprocess.Decoder
