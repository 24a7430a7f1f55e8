import Libprocess.Http.ServingRequests

/-!
# The responses on a connection that is served

The bytes that `serve` hands to the socket are those of one response for each request, in the order
of the requests.  Only the last response may be cut off, and the connection ends with the first that
does not persist.
-/

namespace Libprocess.Serving

open Concurrency
open Http (Chunk Chunked.frame Headers Opened Outcome Response Writer bytes)
open Transmission (Encoder)

variable {writer : Writer} {state next : Serve}

/-! ## The bytes of an answer -/

/-- What encoders are for, and what is left of it. -/
def contents (encoders : List Encoder) : List UInt8 :=
  encoders.flatMap Encoder.content

def unsent (encoders : List Encoder) : List UInt8 :=
  encoders.flatMap fun encoder => encoder.content.drop encoder.index

theorem unsent_fresh {encoders : List Encoder}
    (fresh : ∀ encoder ∈ encoders, encoder.Fresh) : unsent encoders = contents encoders := by
  induction encoders with
  | nil => rfl
  | cons encoder rest ih =>
      simp only [unsent, contents, List.flatMap_cons] at ih ⊢
      rw [ih fun other member => fresh other (List.mem_cons_of_mem _ member),
        (fresh encoder List.mem_cons_self).index, List.drop_zero]

/-- Chunks of a pipe that has not ended. -/
def Flowing (reads : List Chunk) : Prop := ∀ chunk ∈ reads, ∃ data, chunk = .ready data ∧ data ≠ ""

namespace Flowing

variable {reads : List Chunk}

theorem read (flowing : Flowing reads) {data : String} (filled : data ≠ "") :
    Flowing (reads ++ [.ready data]) := by
  intro chunk member
  obtain earlier | last := List.mem_append.mp member
  · exact flowing chunk earlier
  · exact ⟨data, List.mem_singleton.mp last, filled⟩

theorem streamed_append (flowing : Flowing reads) (data : String) :
    Writer.streamed (reads ++ [.ready data]) =
      Writer.streamed reads ++ [.ofData (bytes (Chunked.frame data))] := by
  induction reads with
  | nil => simp [Writer.streamed]
  | cons first rest ih =>
      obtain ⟨text, rfl, filled⟩ := flowing first List.mem_cons_self
      have rest := ih fun chunk member => flowing chunk (List.mem_cons_of_mem _ member)
      simp [Writer.streamed, if_neg filled, rest]

end Flowing

namespace Answer

variable {answer : Answer}

def bytes (writer : Writer) (answer : Answer) : List UInt8 := contents (answer.encoders writer)

/-- The pipe of the response, if there is one, has been read in order. -/
def Readable (answer : Answer) : Prop :=
  ∀ reads, answer.reads = some reads →
    Flowing reads ∨ ∃ earlier, Flowing earlier ∧ reads = earlier ++ [.ready ""]

/-- The response is complete: if it has a pipe, that has been read to its end. -/
def Whole (answer : Answer) : Prop := answer.Readable ∧ answer.streams = false

/-- The response when its pipe ends at once. -/
def cut (answer : Answer) : Answer := if answer.streams then answer.read "" else answer

theorem streams_cases (streams : answer.streams = true) :
    ∃ reader reads, answer.response.type = .pipe reader ∧ answer.reads = some reads ∧
      Chunk.ready "" ∉ reads := by
  unfold Answer.streams at streams
  split at streams
  · next reader reads type given => exact ⟨reader, reads, type, given, of_decide_eq_true streams⟩
  · cases streams

theorem Readable.flowing (readable : answer.Readable) {reads : List Chunk}
    (given : answer.reads = some reads) (streaming : Chunk.ready "" ∉ reads) : Flowing reads := by
  obtain flowing | ⟨earlier, _, rfl⟩ := readable reads given
  · exact flowing
  · exact absurd (List.mem_append_right _ List.mem_cons_self) streaming

theorem Readable.read (readable : answer.Readable) (streams : answer.streams = true)
    (data : String) : (answer.read data).Readable := by
  obtain ⟨reader, reads, type, given, streaming⟩ := streams_cases streams
  have flowing := readable.flowing given streaming
  intro after same
  simp only [Answer.read, given, Option.map_some] at same
  cases same
  by_cases empty : data = ""
  · exact .inr ⟨reads, flowing, by rw [empty]⟩
  · exact .inl (flowing.read empty)

/-- Reading on adds the frame of what was read. -/
theorem bytes_read (readable : answer.Readable) (streams : answer.streams = true) (data : String) :
    (answer.read data).bytes writer = answer.bytes writer ++ Http.bytes (Chunked.frame data) := by
  obtain ⟨reader, reads, type, given, streaming⟩ := streams_cases streams
  have flowing := readable.flowing given streaming
  simp [Answer.bytes, Answer.encoders, Answer.read, type, given, Writer.stream, contents,
    flowing.streamed_append, Encoder.ofData, Encoder.content,
    Transmission.DataEncoder.new]

theorem streams_read (streams : answer.streams = true) : (answer.read "").streams = false := by
  obtain ⟨reader, reads, type, given, _⟩ := streams_cases streams
  simp [Answer.streams, Answer.read, type, given]

theorem Readable.cut (readable : answer.Readable) (writer : Writer) :
    answer.cut.Whole ∧ answer.bytes writer <+: answer.cut.bytes writer ∧
      answer.cut.request = answer.request ∧ answer.cut.response = answer.response := by
  unfold Answer.cut
  split
  · next streams =>
      refine ⟨⟨readable.read streams "", streams_read streams⟩, ?_, rfl, rfl⟩
      rw [bytes_read readable streams]
      exact List.prefix_append _ _
  · next streams =>
      exact ⟨⟨readable, Bool.eq_false_iff.mpr streams⟩, List.prefix_rfl, rfl, rfl⟩

end Answer

/-- What was sent of a response is the beginning of the one that is cut. -/
theorem Answer.Readable.cut_prefix {answer : Answer} {answers : List Answer}
    {transmitted rest : List UInt8} (readable : answer.Readable)
    (sent : transmitted ++ rest = answers.flatMap (Answer.bytes writer) ++ answer.bytes writer) :
    transmitted <+: (answers ++ [answer.cut]).flatMap (Answer.bytes writer) := by
  have begun : transmitted <+: _ := ⟨_, sent⟩
  rw [List.flatMap_append, List.flatMap_singleton]
  exact begun.trans (List.prefix_append_right_inj _ |>.mpr (readable.cut writer).2.1)

/-! ## Fresh encoders -/

theorem send_fresh (request : Headers) (response : Response) :
    ∀ encoder ∈ writer.send request response, encoder.Fresh :=
  fun encoder member => (writer.send_proper request response encoder member).1

theorem sendfile_fresh (request : Headers) (response : Response) (path : String)
    (opened : Opened) :
    ∀ encoder ∈ writer.sendfile request response path opened, encoder.Fresh := by
  cases opened with
  | failed error | unsized error | directory => exact send_fresh request _
  | regular file => exact writer.sendfile_fresh request response path file

theorem stream_fresh (request : Headers) (response : Response) (reads : Option (List Chunk)) :
    ∀ encoder ∈ writer.stream request response reads, encoder.Fresh := by
  cases reads with
  | none => exact send_fresh request _
  | some reads =>
      intro encoder member
      obtain same | later := List.mem_cons.mp member
      · rw [same]
        exact (writer.responseEncoder_proper request _).1
      · exact (Writer.streamed_proper reads encoder later).1

theorem Answer.encoders_fresh (answer : Answer) :
    ∀ encoder ∈ answer.encoders writer, encoder.Fresh := by
  unfold Answer.encoders
  split
  · exact sendfile_fresh _ _ _ _
  · exact stream_fresh _ _ _
  · exact send_fresh _ _
  · exact send_fresh _ _

/-- A call of the socket takes some of what is left of an encoder. -/
theorem send_after {encoder : Encoder} {length : Nat} (valid : encoder.Valid)
    (small : length ≤ encoder.next.2.size) (transmitted : List UInt8) :
    (Transmission.send.after ⟨encoder, 0, transmitted⟩ length).1.transmitted =
        transmitted ++ (encoder.content.drop encoder.index).take length ∧
      Encoder.For encoder.content
        (Transmission.send.after ⟨encoder, 0, transmitted⟩ length).1.state ∧
      (Transmission.send.after ⟨encoder, 0, transmitted⟩ length).1.state.index =
        encoder.index + length ∧
      (Transmission.send.after ⟨encoder, 0, transmitted⟩ length).2 =
        if encoder.index + length = encoder.content.length then .Break () else .Continue := by
  have holds : encoder.For encoder.content := ⟨rfl, valid⟩
  have tracks := Transmission.send_tracks encoder.content
  have size : encoder.next.2.size = encoder.content.length - encoder.index := tracks.size holds
  have taken : encoder.next.2.taken length = (encoder.content.drop encoder.index).take length :=
    tracks.taken holds
  exact ⟨congrArg (transmitted ++ ·) taken, tracks.advances holds (size ▸ small)⟩

/-- What a call of the socket takes is what was left in front. -/
theorem Serve.taken_spec (state : Serve) (number : Nat) (answer : Answer)
    {encoder : Encoder} {rest : List Encoder} {length : Nat}
    (valid : ∀ other ∈ encoder :: rest, other.Valid) (small : length ≤ encoder.next.2.size) :
    ∃ encoders, (state.taken number answer encoder rest length).sender =
        .sending number answer encoders ∧
      (∀ other ∈ encoders, other.Valid) ∧
      (state.taken number answer encoder rest length).transmitted ++ unsent encoders =
        state.transmitted ++ unsent (encoder :: rest) := by
  obtain ⟨sent, kept, advanced, flow⟩ :=
    send_after (valid encoder List.mem_cons_self) small state.transmitted
  have others : ∀ other ∈ rest, other.Valid :=
    fun other member => valid other (List.mem_cons_of_mem _ member)
  have left : encoder.content.drop encoder.index =
      (encoder.content.drop encoder.index).take length ++
        encoder.content.drop (encoder.index + length) := by
    rw [← List.drop_drop, List.take_append_drop]
  have front : unsent (encoder :: rest) =
      (encoder.content.drop encoder.index).take length ++
        (encoder.content.drop (encoder.index + length) ++ unsent rest) := by
    rw [← List.append_assoc, ← left]
    rfl
  rw [front]
  simp only [Serve.taken, flow, sent]
  by_cases whole : encoder.index + length = encoder.content.length
  · refine ⟨rest, by rw [if_pos whole], others, ?_⟩
    rw [whole, List.drop_length, List.nil_append, List.append_assoc]
  · refine ⟨_, by rw [if_neg whole], ?_, ?_⟩
    · intro other member
      obtain same | later := List.mem_cons.mp member
      · exact same ▸ kept.2
      · exact others other later
    · rw [List.append_assoc, unsent, List.flatMap_cons, kept.1, advanced]
      rfl

/-! ## What has been sent -/

/-- The answer is to the request with this number, and is what its handler has come to. -/
structure Answers (state : Serve) (number : Nat) (answer : Answer) : Prop where
  request : state.requests[number]? = some answer.request
  response : (state.handled number).response = some answer.response

/-- The sending loop is between two responses. -/
def Sender.Idle : Sender → Prop
  | .sending _ _ _ => False
  | .finished _ => False
  | _ => True

/-- How the sending loop ends if nothing fails: with a response that does not persist, or when all
requests are answered. -/
def Exhausted (state : Serve) (answers : List Answer) : Prop :=
  (∃ answer, answers.getLast? = some answer ∧ answer.persists = false) ∨
    state.receiver.Finished ∧ answers.length = state.requests.length

/-- How far the answers have been sent. -/
inductive Progress (writer : Writer) (state : Serve) (answers : List Answer) : Prop where
  | idle : state.sender.Idle → (∀ answer ∈ answers, answer.persists = true) →
      answers.length = state.freed.length →
      state.transmitted = answers.flatMap (Answer.bytes writer) → Progress writer state answers
  | sending {number : Nat} {answer : Answer} {encoders : List Encoder} :
      state.sender = .sending number answer encoders →
      (∀ answer ∈ answers, answer.persists = true) → answers.length = state.freed.length →
      Answers state answers.length answer → answer.Readable →
      (∀ encoder ∈ encoders, encoder.Valid) →
      state.transmitted ++ unsent encoders =
        answers.flatMap (Answer.bytes writer) ++ answer.bytes writer →
      Progress writer state answers
  | finished {ended : Ended} : state.sender = .finished ended →
      (∀ answer ∈ answers.dropLast, answer.persists = true) →
      answers.length ≤ state.freed.length →
      state.transmitted <+: answers.flatMap (Answer.bytes writer) →
      (ended = .ready → state.transmitted = answers.flatMap (Answer.bytes writer) ∧
        Exhausted state answers) → Progress writer state answers

structure Served (writer : Writer) (state : Serve) (answers : List Answer) : Prop where
  answered : ∀ number answer, answers[number]? = some answer →
    Answers state number answer ∧ answer.Whole
  discards : ∀ number ∈ state.discards,
    state.sender.Finished ∧ answers.length ≤ number ∧ state.discard = true
  progress : Progress writer state answers

/-! ## What steps leave -/

/-- The loops are discarded only if serving is. -/
def Flagged (state : Serve) : Prop :=
  (state.receivingDiscard = true → state.discard = true) ∧
    (state.sendingDiscard = true → state.discard = true)

theorem Flagged.enqueue (flagged : Flagged state) (item : Option Nat) :
    Flagged (state.enqueue item) := by
  obtain ⟨_, same⟩ | ⟨_, _, same⟩ | ⟨_, _, same⟩ := state.enqueue_cases item <;> rw [same] <;>
    exact flagged

theorem Flagged.stepped (flagged : Flagged state) (stepped : Stepped writer state next) :
    Flagged next := by
  cases stepped with
  | @put rest =>
      have between : Flagged { state with receiver := .handling rest } := flagged
      exact between.enqueue _
  | signify =>
      have between : Flagged { state with signified := true } := flagged
      exact between.enqueue _
  | sent =>
      unfold Serve.persist
      split <;> exact flagged
  | @drained item => cases item <;> exact flagged
  | discard => exact ⟨fun _ => rfl, fun _ => rfl⟩
  | discardReceiving asked => exact ⟨fun _ => asked, flagged.2⟩
  | discardSending asked => exact ⟨flagged.1, fun _ => flagged.1 asked⟩
  | _ => exact flagged

/-- Requests and settled responses stay. -/
structure Extends (state next : Serve) : Prop where
  requests : next.requests = state.requests ∨
    ¬ state.receiver.Finished ∧ ∃ request, next.requests = state.requests ++ [request]
  receiver : state.receiver.Finished → next.receiver.Finished
  handled : ∀ number response, (state.handled number).response = some response →
    (next.handled number).response = some response
  discard : state.discard = true → next.discard = true

namespace Extends

theorem of_same (requests : next.requests = state.requests)
    (receiver : next.receiver = state.receiver) (handled : next.handled = state.handled)
    (discard : state.discard = true → next.discard = true) : Extends state next :=
  ⟨.inl requests, fun finished => receiver ▸ finished, fun _ _ settled => handled ▸ settled, discard⟩

theorem receives (receiving : ¬ state.receiver.Finished)
    (requests : next.requests = state.requests) (handled : next.handled = state.handled)
    (discard : state.discard = true → next.discard = true) : Extends state next :=
  ⟨.inl requests, fun finished => absurd finished receiving, fun _ _ settled => handled ▸ settled,
    discard⟩

variable {answers : List Answer} (extension : Extends state next)
include extension

theorem answered {number : Nat} {answer : Answer} (before : Answers state number answer) :
    Answers next number answer := by
  refine ⟨?_, extension.handled _ _ before.response⟩
  obtain same | ⟨_, request, more⟩ := extension.requests
  · rw [same]
    exact before.request
  · have bound := (List.getElem?_eq_some_iff.mp before.request).1
    rw [more, List.getElem?_append_left bound]
    exact before.request

theorem exhausted (exhausted : Exhausted state answers) : Exhausted next answers := by
  obtain last | ⟨finished, all⟩ := exhausted
  · exact .inl last
  · refine .inr ⟨extension.receiver finished, ?_⟩
    obtain same | ⟨receiving, _⟩ := extension.requests
    · rw [same, all]
    · exact absurd finished receiving

/-- Nothing that concerns the sending loop happens. -/
theorem progress (progress : Progress writer state answers) (sender : next.sender = state.sender)
    (transmitted : next.transmitted = state.transmitted)
    (freed : next.freed.length = state.freed.length ∨
      state.sender.Finished ∧ state.freed.length ≤ next.freed.length) :
    Progress writer next answers := by
  cases progress with
  | idle idle persists count bytes =>
      have same : next.freed.length = state.freed.length := by
        refine freed.resolve_right ?_
        rintro ⟨⟨ended, finished⟩, _⟩
        rw [finished] at idle
        exact idle
      exact .idle (sender ▸ idle) persists (same ▸ count) (transmitted ▸ bytes)
  | sending sending persists count answered readable valid bytes =>
      have same : next.freed.length = state.freed.length := by
        refine freed.resolve_right ?_
        rintro ⟨⟨ended, finished⟩, _⟩
        cases sending.symm.trans finished
      exact .sending (sender.trans sending) persists (same ▸ count) (extension.answered answered)
        readable valid (transmitted ▸ bytes)
  | finished finished persists count bytes ready =>
      refine .finished (sender.trans finished) persists ?_ (transmitted ▸ bytes) ?_
      · obtain same | ⟨_, more⟩ := freed
        · rw [same]
          exact count
        · exact Nat.le_trans count more
      · intro ended
        rw [transmitted]
        exact ⟨(ready ended).1, extension.exhausted (ready ended).2⟩

end Extends

/-! ## Steps of the sending loop -/

theorem getElem?_concat {answers : List Answer} {answer found : Answer} {number : Nat}
    (got : (answers ++ [answer])[number]? = some found) :
    answers[number]? = some found ∨ number = answers.length ∧ found = answer := by
  by_cases bound : number < answers.length
  · rw [List.getElem?_append_left bound] at got
    exact .inl got
  · have last := (List.getElem?_eq_some_iff.mp got).1
    rw [List.length_append, List.length_singleton] at last
    have same : number = answers.length := by omega
    rw [same, List.getElem?_concat_length] at got
    exact .inr ⟨same, (Option.some.inj got).symm⟩

theorem Sender.Idle.not_finished {sender : Sender} (idle : sender.Idle) : ¬ sender.Finished := by
  rintro ⟨ended, rfl⟩
  exact idle

namespace Progress

variable {answers : List Answer}

theorem of_idle (progress : Progress writer state answers) (idle : state.sender.Idle) :
    (∀ answer ∈ answers, answer.persists = true) ∧ answers.length = state.freed.length ∧
      state.transmitted = answers.flatMap (Answer.bytes writer) := by
  cases progress with
  | idle _ persists count bytes => exact ⟨persists, count, bytes⟩
  | sending sending =>
      rw [sending] at idle
      cases idle
  | finished finished => exact absurd ⟨_, finished⟩ idle.not_finished

theorem of_sending (progress : Progress writer state answers) {number : Nat} {answer : Answer}
    {encoders : List Encoder}
    (sender : state.sender = .sending number answer encoders) :
    (∀ answer ∈ answers, answer.persists = true) ∧ answers.length = state.freed.length ∧
      Answers state answers.length answer ∧ answer.Readable ∧
      (∀ encoder ∈ encoders, encoder.Valid) ∧
      state.transmitted ++ unsent encoders =
        answers.flatMap (Answer.bytes writer) ++ answer.bytes writer := by
  cases progress with
  | idle idle =>
      rw [sender] at idle
      cases idle
  | sending sending persists count answered readable valid bytes =>
      cases sender.symm.trans sending
      exact ⟨persists, count, answered, readable, valid, bytes⟩
  | finished finished => cases sender.symm.trans finished

end Progress

namespace Served

variable {answers : List Answer} (served : Served writer state answers)
include served

/-- The answers stay. -/
theorem keeps (extension : Extends state next) (discards : next.discards = state.discards)
    (finished : state.sender.Finished → next.sender.Finished)
    (progress : Progress writer next answers) : Served writer next answers := by
  refine ⟨fun number answer got => ?_, ?_, progress⟩
  · obtain ⟨answered, whole⟩ := served.answered number answer got
    exact ⟨extension.answered answered, whole⟩
  · intro number member
    obtain ⟨ended, bound, before⟩ := served.discards number (discards ▸ member)
    exact ⟨finished ended, bound, extension.discard before⟩

/-- Nothing that concerns the sending loop happens. -/
theorem other (extension : Extends state next) (sender : next.sender = state.sender)
    (transmitted : next.transmitted = state.transmitted)
    (freed : next.freed.length = state.freed.length) (discards : next.discards = state.discards) :
    Served writer next answers :=
  served.keeps extension discards (fun finished => sender ▸ finished)
    (extension.progress served.progress sender transmitted (.inl freed))

/-- The sending loop comes closer to its next response. -/
theorem idles (extension : Extends state next) (before : state.sender.Idle)
    (after : next.sender.Idle) (transmitted : next.transmitted = state.transmitted)
    (freed : next.freed = state.freed) (discards : next.discards = state.discards) :
    Served writer next answers := by
  obtain ⟨persists, count, bytes⟩ := served.progress.of_idle before
  refine served.keeps extension discards
    (fun finished => absurd finished before.not_finished) (.idle after persists ?_ ?_)
  · rw [freed]
    exact count
  · rw [transmitted]
    exact bytes

/-- Nothing is discarded while the sending loop runs. -/
theorem no_discards (running : ¬ state.sender.Finished) : state.discards = [] := by
  apply List.eq_nil_iff_forall_not_mem.mpr
  exact fun number member => running (served.discards number member).1

/-- A response is done with. -/
theorem append {answer : Answer} (running : ¬ state.sender.Finished)
    (same : next.requests = state.requests ∧ next.handled = state.handled)
    (discards : next.discards = state.discards)
    (answered : Answers state answers.length answer) (whole : answer.Whole)
    (progress : Progress writer next (answers ++ [answer])) :
    Served writer next (answers ++ [answer]) := by
  have stays : ∀ number other, Answers state number other → Answers next number other :=
    fun number other before => ⟨same.1 ▸ before.request, same.2 ▸ before.response⟩
  refine ⟨fun number other got => ?_, ?_, progress⟩
  · obtain earlier | ⟨last, rfl⟩ := getElem?_concat got
    · obtain ⟨before, complete⟩ := served.answered number other earlier
      exact ⟨stays number other before, complete⟩
    · exact ⟨stays _ _ (last ▸ answered), whole⟩
  · rw [discards, served.no_discards running]
    exact fun number member => absurd member List.not_mem_nil

/-- The response cannot be sent to its end. -/
theorem endSending {number : Nat} {answer : Answer} {encoders : List Encoder}
    {ended : Ended} (sender : state.sender = .sending number answer encoders)
    (incomplete : ended ≠ .ready) :
    Served writer (state.endSending number ended) (answers ++ [answer.cut]) := by
  obtain ⟨persists, count, answered, readable, _, bytes⟩ := served.progress.of_sending sender
  obtain ⟨whole, _, request, response⟩ := readable.cut writer
  refine served.append (Sender.unfinished sender nofun) ⟨rfl, rfl⟩ rfl
    ⟨request ▸ answered.request, response ▸ answered.response⟩ whole ?_
  refine .finished rfl ?_ ?_ (readable.cut_prefix bytes) fun ready => absurd ready incomplete
  · rw [List.dropLast_concat]
    exact persists
  · rw [List.length_append, count]
    exact Nat.le_of_eq (Eq.symm (Serve.freed_release rfl rfl))

/-- The response is sent. -/
theorem persist {number : Nat} {answer : Answer} (sender : state.sender = .sending number answer [])
    (ended : answer.streams = false) :
    Served writer (state.persist number answer) (answers ++ [answer]) := by
  obtain ⟨persists, count, answered, readable, _, bytes⟩ := served.progress.of_sending sender
  have sent : state.transmitted = (answers ++ [answer]).flatMap (Answer.bytes writer) := by
    rw [List.flatMap_append, List.flatMap_singleton, ← bytes]
    exact (List.append_nil _).symm
  have running := Sender.unfinished sender nofun
  unfold Serve.persist
  split
  · next persisting =>
      refine served.append running ⟨rfl, rfl⟩ rfl answered ⟨readable, ended⟩ ?_
      refine .idle trivial ?_ ?_ sent
      · intro other member
        obtain earlier | last := List.mem_append.mp member
        · exact persists other earlier
        · exact List.mem_singleton.mp last ▸ persisting
      · rw [List.length_append, count]
        exact Eq.symm (Serve.freed_release rfl rfl)
  · next closing =>
      refine served.append running ⟨rfl, rfl⟩ rfl answered ⟨readable, ended⟩ ?_
      refine .finished rfl ?_ ?_ (sent ▸ List.prefix_rfl) fun _ => ⟨sent, .inl ⟨answer, ?_, ?_⟩⟩
      · rw [List.dropLast_concat]
        exact persists
      · rw [List.length_append, count]
        exact Nat.le_of_eq (Eq.symm (Serve.freed_release rfl rfl))
      · exact List.getLast?_concat
      · exact Bool.eq_false_iff.mpr closing

/-- The sending loop is discarded while it waits for a response. -/
theorem awaitDiscarded (accounted : Accounted state) (flagged : Flagged state) {number : Nat}
    {discards : List Nat}
    (sender : state.sender = .awaiting number) (asked : state.sendingDiscard = true)
    (more : discards = state.discards ∨ discards = state.discards ++ [number]) :
    Served writer ({ state with discards := discards }.endSending number .discarded) answers := by
  have idle : state.sender.Idle := by rw [sender]; trivial
  obtain ⟨persists, count, bytes⟩ := served.progress.of_idle idle
  have first : number = answers.length := (accounted.awaiting sender).trans count.symm
  refine ⟨fun number answer got => ?_, ?_, ?_⟩
  · obtain ⟨answered, whole⟩ := served.answered number answer got
    exact ⟨⟨answered.request, answered.response⟩, whole⟩
  · intro other member
    have member : other ∈ discards := member
    rw [served.no_discards idle.not_finished] at more
    obtain rfl | rfl := more
    · cases member
    · rw [List.mem_singleton.mp member]
      exact ⟨⟨_, rfl⟩, first ▸ Nat.le_refl _, flagged.2 asked⟩
  · refine .finished rfl (fun answer member => persists answer (List.dropLast_subset _ member)) ?_
      (bytes ▸ List.prefix_rfl) nofun
    rw [count]
    exact Nat.le_of_succ_le (Nat.le_of_eq (Eq.symm (Serve.freed_release rfl rfl)))

/-- The response is there, and `send` begins to send it. -/
theorem responds (accounted : Accounted state) {number : Nat} {answer : Answer}
    (sender : state.sender = .awaiting number)
    (request : state.requests[number]? = some answer.request)
    (response : (state.handled number).response = some answer.response)
    (reads : answer.reads = none ∨ answer.reads = some []) :
    Served writer { state with sender := .sending number answer (answer.encoders writer) }
      answers := by
  have idle : state.sender.Idle := by rw [sender]; trivial
  obtain ⟨persists, count, bytes⟩ := served.progress.of_idle idle
  have first : number = answers.length := (accounted.awaiting sender).trans count.symm
  refine served.keeps (.of_same rfl rfl rfl id) rfl
    (fun finished => absurd finished idle.not_finished)
    (.sending rfl persists count ⟨first ▸ request, first ▸ response⟩ ?_ ?_ ?_)
  · intro given same
    obtain none | empty := reads
    · cases same.symm.trans none
    · cases same.symm.trans empty
      exact .inl fun chunk member => absurd member List.not_mem_nil
  · exact fun encoder member => (answer.encoders_fresh encoder member).valid
  · rw [unsent_fresh answer.encoders_fresh, bytes]
    rfl

/-- The sending loop gets the `None` that is put last. -/
theorem breaks (queued : Queued state) (accounted : Accounted state)
    (sender : state.sender = .given none) :
    Served writer { state with sender := .finished .ready } answers := by
  have idle : state.sender.Idle := by rw [sender]; trivial
  obtain ⟨persists, count, bytes⟩ := served.progress.of_idle idle
  obtain ⟨empty, signified⟩ := queued.breaks sender
  have finished := queued.signified signified
  have all : state.freed.length = state.requests.length := by
    obtain ⟨_, receiver⟩ := finished
    have line : state.line = [] := by
      simp [Serve.line, Serve.queued, sender, receiver, empty,
        queued.waiting_of_sending idle.not_finished, Sender.holding, Drain.holding,
        Receiver.pending]
    have whole := congrArg List.length accounted.line
    rw [line, List.append_nil, List.length_range, List.length_range] at whole
    exact whole
  refine served.keeps (.of_same rfl rfl rfl id) rfl
    (fun finished => absurd finished idle.not_finished)
    (.finished rfl (fun answer member => persists answer (List.dropLast_subset _ member))
      (Nat.le_of_eq count) (bytes ▸ List.prefix_rfl)
      fun _ => ⟨bytes, .inr ⟨finished, count.trans all⟩⟩)

theorem getDiscarded (sender : state.sender = .getting) :
    Served writer { state with sender := .finished .discarded } answers := by
  have idle : state.sender.Idle := by rw [sender]; trivial
  obtain ⟨persists, count, bytes⟩ := served.progress.of_idle idle
  exact served.keeps (.of_same rfl rfl rfl id) rfl
    (fun finished => absurd finished idle.not_finished)
    (.finished rfl (fun answer member => persists answer (List.dropLast_subset _ member))
      (Nat.le_of_eq count) (bytes ▸ List.prefix_rfl) nofun)

theorem transmits {number : Nat} {answer : Answer} {encoder : Encoder}
    {rest : List Encoder} {length : Nat}
    (sender : state.sender = .sending number answer (encoder :: rest))
    (small : length ≤ encoder.next.2.size) :
    Served writer (state.taken number answer encoder rest length) answers := by
  obtain ⟨persists, count, answered, readable, valid, bytes⟩ := served.progress.of_sending sender
  obtain ⟨encoders, after, still, same⟩ := state.taken_spec number answer valid small
  refine served.keeps (.of_same rfl rfl rfl id) rfl
    (fun finished => absurd finished (Sender.unfinished sender nofun))
    (.sending after persists count ⟨answered.request, answered.response⟩ readable still ?_)
  rw [same, bytes]

/-- A chunk of the pipe is sent next. -/
theorem streams {number : Nat} {answer : Answer}
    (sender : state.sender = .sending number answer []) (streaming : answer.streams = true)
    (data : String) :
    Served writer (state.stream number answer (.ready data)) answers := by
  obtain ⟨persists, count, answered, readable, _, bytes⟩ := served.progress.of_sending sender
  refine served.keeps (.of_same rfl rfl rfl id) rfl
    (fun finished => absurd finished (Sender.unfinished sender nofun))
    (.sending rfl persists count ⟨answered.request, answered.response⟩
      (readable.read streaming data) ?_ ?_)
  · intro encoder member
    rw [List.mem_singleton.mp member]
    exact (Encoder.ofData_fresh _).valid
  · have next : unsent [Encoder.ofData (Http.bytes (Chunked.frame data))] =
        Http.bytes (Chunked.frame data) := List.append_nil _
    rw [Answer.bytes_read readable streaming, next, ← List.append_assoc, ← bytes]
    exact congrArg (· ++ _) (List.append_nil _).symm

end Served

theorem Serve.enqueue_running (item : Option Nat) (state : Serve)
    {answers : List Answer} (served : Served writer state answers) :
    Served writer (state.enqueue item) answers := by
  obtain ⟨sender, same⟩ | ⟨_, _, same⟩ | ⟨_, _, same⟩ := state.enqueue_cases item <;> rw [same]
  · exact served.idles (.of_same rfl rfl rfl id) (by rw [sender]; trivial) trivial rfl rfl rfl
  · exact served.other (.of_same rfl rfl rfl id) rfl rfl rfl rfl
  · exact served.other (.of_same rfl rfl rfl id) rfl rfl rfl rfl

/-- The remaining requests are deleted, and their responses are discarded. -/
theorem Served.drained {answers : List Answer} (served : Served writer state answers)
    (queued : Queued state) (accounted : Accounted state) {item : Option Nat}
    (drain : state.drain = .given item) : Served writer (state.drained item) answers := by
  obtain ⟨⟨_, finished⟩, _⟩ := queued.draining (by rw [drain]; exact nofun)
  cases item with
  | none => exact served.other (.of_same rfl rfl rfl id) rfl rfl rfl rfl
  | some number =>
      obtain ⟨ended, sender⟩ := finished
      have first : number = state.freed.length := by
        have line : state.line = number :: (state.queued ++
            state.receiver.pending state.requests.length) := by
          simp [Serve.line, sender, drain, Sender.holding, Drain.holding]
        exact accounted.first line
      have more : state.freed.length ≤ (state.drained (some number)).freed.length := by
        simp [Serve.freed, Serve.drained]
      have extension : Extends state (state.drained (some number)) := .of_same rfl rfl rfl id
      refine ⟨fun index answer got => ?_, ?_,
        extension.progress served.progress rfl rfl (.inr ⟨⟨ended, sender⟩, more⟩)⟩
      · obtain ⟨answered, whole⟩ := served.answered index answer got
        exact ⟨extension.answered answered, whole⟩
      · intro other member
        change other ∈ (if _ then _ else _) at member
        split at member
        · next asked =>
            obtain earlier | last := List.mem_append.mp member
            · exact served.discards other earlier
            · refine ⟨⟨ended, sender⟩, ?_, asked⟩
              rw [List.mem_singleton.mp last, first]
              cases served.progress with
              | idle idle => exact absurd ⟨ended, sender⟩ idle.not_finished
              | sending sending => cases sending.symm.trans sender
              | finished _ _ count => exact count
        · exact served.discards other member

theorem Served.stepped {answers : List Answer} (served : Served writer state answers)
    (queued : Queued state) (accounted : Accounted state) (flagged : Flagged state)
    (stepped : Stepped writer state next) : ∃ answers, Served writer next answers := by
  cases stepped with
  | receives receiving =>
      exact ⟨answers, served.other (.receives receiving rfl rfl id) rfl rfl rfl rfl⟩
  | @arrives request rest receiver =>
      have receiving := Receiver.unfinished receiver nofun
      have extension : Extends state (state.handle (request :: rest)) :=
        ⟨.inr ⟨receiving, request, rfl⟩, fun finished => absurd finished receiving,
          fun _ _ settled => settled, id⟩
      exact ⟨answers, served.other extension rfl rfl rfl rfl⟩
  | @put rest receiver =>
      have receiving := Receiver.unfinished receiver nofun
      have between : Served writer { state with receiver := .handling rest } answers :=
        served.other (.receives receiving rfl rfl id) rfl rfl rfl rfl
      exact ⟨answers, Serve.enqueue_running _ _ between⟩
  | signify =>
      have between : Served writer { state with signified := true } answers :=
        served.other (.of_same rfl rfl rfl id) rfl rfl rfl rfl
      exact ⟨answers, Serve.enqueue_running _ _ between⟩
  | @settle number handled pending =>
      have extension : Extends state
          { state with handled := Function.update state.handled number handled } := by
        refine ⟨.inl rfl, id, fun other response settled => ?_, id⟩
        have different : other ≠ number := by
          rintro rfl
          rw [pending] at settled
          cases settled
        exact (congrArg Handled.response (Function.update_of_ne different _ _)).trans settled
      exact ⟨answers, served.other extension rfl rfl rfl rfl⟩
  | waits sender | gets sender | begins sender =>
      exact ⟨answers, served.idles (.of_same rfl rfl rfl id) (by rw [sender]; trivial) trivial
        rfl rfl rfl⟩
  | getDiscarded sender => exact ⟨answers, served.getDiscarded sender⟩
  | breaks sender => exact ⟨answers, served.breaks queued accounted sender⟩
  | responds sender request response reads =>
      exact ⟨answers, served.responds accounted sender request response reads⟩
  | awaitDiscarded sender asked more =>
      exact ⟨answers, served.awaitDiscarded accounted flagged sender asked more⟩
  | transmits sender small => exact ⟨answers, served.transmits sender small⟩
  | reads sender streaming => exact ⟨answers, served.streams sender streaming _⟩
  | fails sender incomplete => exact ⟨_, served.endSending sender incomplete⟩
  | sent sender ended => exact ⟨_, served.persist sender ended⟩
  | delete member =>
      exact ⟨answers, served.other (.of_same rfl rfl rfl id) rfl rfl
        (Serve.delete_perm member).length_eq rfl⟩
  | drained drain => exact ⟨answers, served.drained queued accounted drain⟩
  | awaited | drainWaits | drainGets | completes | discardReceiving | discardSending =>
      exact ⟨answers, served.other (.of_same rfl rfl rfl id) rfl rfl rfl rfl⟩
  | discard =>
      exact ⟨answers, served.other (.of_same rfl rfl rfl fun _ => rfl) rfl rfl rfl rfl⟩

theorem Served.new : Served writer .new [] where
  answered number answer got := by cases got
  discards number member := absurd member List.not_mem_nil
  progress := .idle trivial (fun answer member => absurd member List.not_mem_nil) rfl rfl

/-- Two responses, of which the second one is to be the last. -/
def pair : List Answer :=
  [⟨⟨true, []⟩, .ofBody "ok" 200, .directory, none⟩,
    ⟨⟨true, []⟩, ⟨200, [("connection", "close"), ("content-length", "3")], "bye", .body⟩,
      .directory, none⟩]

end Libprocess.Serving
