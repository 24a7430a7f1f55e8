import Libprocess.Http.Continuations

/-!
# The order of the responses

The encoders that a proxy passes to its socket are complete responses in the
order of the requests, followed by the beginning of the response that is being
streamed.
-/

namespace Libprocess.Http

open Concurrency

/-- `sent` is `responses`, complete and in order, and then `part` of the next one. -/
structure Concatenates (sent : List Sent) (responses : List (List Sent)) (part : List Sent) :
    Prop where
  complete : ∀ number response, responses[number]? = some response →
    Complete number response
  sent : sent = responses.flatten ++ part
  part : part = [] ∨ Streaming responses.length part

/-- The order of the responses of a proxy.  When nothing is queued or streamed, all
requests have their responses. -/
def HttpProxy.Pipelined (proxy : HttpProxy) : Prop :=
  ∃ responses part, Concatenates proxy.sent responses part ∧
    (proxy.finalized = false → proxy.items = [] → proxy.pipe = none →
      part = [] ∧ responses.length = proxy.handled)

/-- The encoders of a response all belong to its request. -/
theorem Streaming.request_eq {number : Nat} {part : List Sent}
    (streaming : Streaming number part) : ∀ sent ∈ part, sent.request = number := by
  induction streaming with
  | header response reader persist piped => simp
  | chunk data persist more streaming ih =>
      intro sent member
      rcases List.mem_append.mp member with earlier | last
      · exact ih sent earlier
      · rw [List.mem_singleton.mp last]

theorem Complete.request_eq {number : Nat} {response : List Sent}
    (complete : Complete number response) : ∀ sent ∈ response, sent.request = number := by
  cases complete with
  | single response persist delimited empty => simp
  | file response path size persist last named sized => simp
  | stream last streaming =>
      intro sent member
      rcases List.mem_append.mp member with earlier | ending
      · exact streaming.request_eq sent earlier
      · rw [List.mem_singleton.mp ending]

namespace Concatenates

variable {sent : List Sent} {responses : List (List Sent)} {part : List Sent}

/-- A complete response is appended. -/
theorem append (concatenates : Concatenates sent responses part) {response added : List Sent}
    (complete : Complete responses.length response) (joined : part ++ added = response) :
    Concatenates (sent ++ added) (responses ++ [response]) [] where
  complete := by
    intro number other found
    rcases Nat.lt_or_ge number responses.length with before | behind
    · rw [List.getElem?_append_left before] at found
      exact concatenates.complete number other found
    · rw [List.getElem?_append_right behind] at found
      obtain ⟨bound, same⟩ := List.getElem?_eq_some_iff.mp found
      have last : number = responses.length := by
        simp at bound
        omega
      subst last
      simp only [Nat.sub_self, List.getElem_cons_zero] at same
      rw [← same]
      exact complete
  sent := by
    rw [concatenates.sent, List.append_assoc, joined]
    simp
  part := .inl rfl

/-- Nothing of a later response precedes anything of an earlier one. -/
theorem request_le (concatenates : Concatenates sent responses part) :
    sent.Pairwise fun first second => first.request ≤ second.request := by
  have numbered : ∀ (number : Nat) (response : List Sent),
      responses[number]? = some response → ∀ sent ∈ response, sent.request = number :=
    fun number response found => (concatenates.complete number response found).request_eq
  have streamed : ∀ sent ∈ part, sent.request = responses.length := by
    rcases concatenates.part with rfl | streaming
    · simp
    · exact streaming.request_eq
  rw [concatenates.sent, List.pairwise_append, List.pairwise_flatten]
  refine ⟨⟨?_, ?_⟩, ?_, ?_⟩
  · intro response member
    obtain ⟨number, found⟩ := List.mem_iff_getElem?.mp member
    refine List.pairwise_of_forall_mem_list fun first inFirst second inSecond => ?_
    exact Nat.le_of_eq ((numbered number response found first inFirst).trans
      (numbered number response found second inSecond).symm)
  · rw [List.pairwise_iff_getElem]
    intro first second inFirst inSecond before one memberOne other memberOther
    rw [numbered first _ (List.getElem?_eq_getElem inFirst) one memberOne,
      numbered second _ (List.getElem?_eq_getElem inSecond) other memberOther]
    exact Nat.le_of_lt before
  · refine List.pairwise_of_forall_mem_list fun first inFirst second inSecond => ?_
    exact Nat.le_of_eq ((streamed first inFirst).trans (streamed second inSecond).symm)
  · intro first inFirst second inSecond
    obtain ⟨response, member, inResponse⟩ := List.mem_flatten.mp inFirst
    obtain ⟨number, found⟩ := List.mem_iff_getElem?.mp member
    rw [numbered number response found first inResponse, streamed second inSecond]
    exact Nat.le_of_lt (List.getElem?_eq_some_iff.mp found).1

/-- The response that is being streamed goes on. -/
theorem extend (concatenates : Concatenates sent responses part) {added : List Sent}
    (streaming : Streaming responses.length (part ++ added)) :
    Concatenates (sent ++ added) responses (part ++ added) where
  complete := concatenates.complete
  sent := by
    rw [concatenates.sent, List.append_assoc]
  part := .inr streaming

end Concatenates

namespace HttpProxy

variable {proxy after : HttpProxy} {responses : List (List Sent)} {part : List Sent}

/-- The number of the first item. -/
def due (proxy : HttpProxy) (responses : List (List Sent)) : Nat :=
  responses.length + if proxy.pipe = none then 0 else 1

/-- The requests of a proxy that is not finalized: the items are numbered from
the first response that is due, and the streamed response belongs to the request
before it. -/
structure Numbered (proxy : HttpProxy) (responses : List (List Sent)) (part : List Sent) :
    Prop where
  items : proxy.items.map (·.request.number) =
    List.range' (proxy.due responses) proxy.items.length
  handled : proxy.handled = proxy.due responses + proxy.items.length
  idle : proxy.pipe = none → part = []
  streaming : proxy.pipe ≠ none → Streaming responses.length part
  reading : ∀ entry ∈ proxy.reading, entry.1.number = responses.length
  chunks : ∀ entry ∈ proxy.chunks, entry.1.number = responses.length

/-- The invariant of the order. -/
def Ordered (proxy : HttpProxy) : Prop :=
  ∃ responses part, Concatenates proxy.sent responses part ∧
    (proxy.finalized = false → proxy.Numbered responses part)

/-- A read of the streamed pipe delivers its data or its end. -/
def readable (proxy : HttpProxy) : ProxyMove → Bool
  | .stream chunk =>
      match proxy.chunks[chunk]? with
      | some (_, .ready _) => true
      | some (_, .failed _) => false
      | some (_, .discarded) => false
      | none => true
  | _ => true

/-- `next` does not touch what is numbered. -/
theorem next_numbered (numbered : proxy.Numbered responses part) :
    proxy.next.Numbered responses part := by
  obtain ⟨waiting, dispatched, same, -⟩ := proxy.next_eq
  rw [same]
  exact ⟨numbered.items, numbered.handled, numbered.idle, numbered.streaming,
    numbered.reading, numbered.chunks⟩

theorem next_sent (proxy : HttpProxy) : proxy.next.sent = proxy.sent := by
  obtain ⟨waiting, dispatched, same, -⟩ := proxy.next_eq
  rw [same]

/-- A request takes the next number. -/
theorem handle_numbered (numbered : proxy.Numbered responses part) (future : FutureId)
    (keepAlive : Bool) : (proxy.handle future keepAlive).Numbered responses part := by
  have pushed : ({ proxy with
      items := proxy.items ++ [⟨⟨proxy.handled, keepAlive⟩, future⟩]
      handled := proxy.handled + 1 } : HttpProxy).Numbered responses part := by
    refine ⟨?_, ?_, numbered.idle, numbered.streaming, numbered.reading, numbered.chunks⟩
    · change _ = List.range' (proxy.due responses) _
      rw [List.map_append, numbered.items, List.length_append, List.length_singleton,
        List.range'_concat, numbered.handled]
      simp
    · change proxy.handled + 1 = proxy.due responses + _
      rw [List.length_append, List.length_singleton, numbered.handled]
      omega
  unfold handle
  dsimp only
  split
  next => exact next_numbered pushed
  next => exact pushed

theorem handle_sent (proxy : HttpProxy) (future : FutureId) (keepAlive : Bool) :
    (proxy.handle future keepAlive).sent = proxy.sent := by
  unfold handle
  dsimp only
  split
  next => exact next_sent _
  next => rfl

/-- `waited` sends the response that is due. -/
theorem waited_ordered (continues : proxy.Continues)
    (concatenates : Concatenates proxy.sent responses part)
    (numbered : proxy.Numbered responses part) {index : Nat} {future : FutureId}
    (found : proxy.dispatched[index]? = some future) (file : FileAnswer) :
    ({ proxy with dispatched := proxy.dispatched.eraseIdx index }.waited future
      file).Ordered := by
  obtain ⟨pipe, reading, chunks, -, -, item, rest, items, rfl⟩ :=
    dispatched_front continues found
  have numbers := numbered.items
  have handled := numbered.handled
  have empty := numbered.idle pipe
  subst empty
  simp only [due, pipe, if_true, Nat.add_zero] at numbers handled
  rw [items, List.map_cons, List.length_cons, List.range'_succ] at numbers
  obtain ⟨number, others⟩ := List.cons.inj numbers
  rw [items, List.length_cons] at handled
  rcases waited_spec { proxy with dispatched := proxy.dispatched.eraseIdx index } items file with
    ⟨encoders, complete, done⟩ | ⟨encoders, reader, streaming, streams⟩
  · rw [done]
    refine ⟨responses ++ [encoders], [], ?_, fun _ => next_numbered ?_⟩
    · rw [next_sent]
      exact concatenates.append (number ▸ complete) rfl
    · refine ⟨?_, ?_, fun _ => rfl, fun piped => absurd pipe piped, ?_, ?_⟩
      · simpa [due, pipe] using others
      · simp [due, pipe]
        omega
      · simp [reading]
      · simp [chunks]
  · rw [streams]
    refine ⟨responses, encoders, ?_, fun _ => ?_⟩
    · exact concatenates.extend (number ▸ streaming)
    · refine ⟨?_, ?_, nofun, fun _ => number ▸ streaming, ?_, ?_⟩
      · simpa [due] using others
      · simp [due]
        omega
      · simp [reading, number]
      · simp [chunks]

/-- `stream` sends the next chunk of the response that is being streamed, or ends
it. -/
theorem stream_ordered (continues : proxy.Continues)
    (concatenates : Concatenates proxy.sent responses part)
    (numbered : proxy.Numbered responses part) {index : Nat} {entry : Request × Chunk}
    (found : proxy.chunks[index]? = some entry) {data : String} (ready : entry.2 = .ready data) :
    ({ proxy with chunks := proxy.chunks.eraseIdx index }.stream entry.1
      entry.2).Ordered := by
  obtain ⟨reader, pipe, -, reading, erased⟩ := chunk_streaming continues found
  have number := numbered.chunks entry (List.mem_of_getElem? found)
  have piped : proxy.pipe ≠ none := by simp [pipe]
  have streaming := numbered.streaming piped
  have items := numbered.items
  have handled := numbered.handled
  simp only [due, piped, if_false] at items handled
  rw [erased]
  rcases stream_spec { proxy with chunks := [] } pipe entry.1 entry.2 with
    ⟨chunk, persist, more, reads⟩ | ⟨encoder, persist, last, ends⟩
  · rw [reads]
    have extended : Streaming responses.length
        (part ++ [⟨entry.1.number, .chunk chunk, persist⟩]) := by
      rw [number]
      exact .chunk chunk persist more streaming
    refine ⟨responses, _, concatenates.extend extended, fun _ => ?_⟩
    refine ⟨?_, ?_, fun absent => absurd absent piped, fun _ => extended, ?_, nofun⟩
    · simpa [due, piped] using items
    · simpa [due, piped] using handled
    · simp [reading, number]
  · rw [ends, last data ready]
    have complete : Complete responses.length
        (part ++ [⟨entry.1.number, .lastChunk, persist⟩]) := by
      rw [number]
      exact .stream persist streaming
    refine ⟨responses ++ [part ++ [⟨entry.1.number, .lastChunk, persist⟩]], [], ?_,
      fun _ => next_numbered ?_⟩
    · rw [next_sent]
      exact concatenates.append complete rfl
    · refine ⟨?_, ?_, fun _ => rfl, fun absent => absurd rfl absent, ?_, nofun⟩
      · simpa [due] using items
      · simpa [due] using handled
      · simp [reading]

theorem new_ordered : new.Ordered :=
  ⟨[], [], ⟨nofun, rfl, .inl rfl⟩,
    fun _ => ⟨rfl, rfl, fun _ => rfl, fun piped => absurd rfl piped, nofun, nofun⟩⟩

/-- Every step keeps the order, if requests do not overtake a streamed response
and the pipes of streamed responses do not fail. -/
theorem step_ordered (waits : proxy.Waits) (ordered : proxy.Ordered) {move : ProxyMove}
    (readable : proxy.readable move = true) (stepped : proxy.step move = some after) :
    after.Ordered := by
  obtain ⟨responses, part, concatenates, numbered⟩ := ordered
  obtain ⟨-, moves⟩ := moves_of_step stepped
  cases moves with
  | future | complete future outcome =>
      refine ⟨responses, part, concatenates, fun live => ?_⟩
      exact ⟨(numbered live).items, (numbered live).handled, (numbered live).idle,
        (numbered live).streaming, (numbered live).reading, (numbered live).chunks⟩
  | handle future keepAlive live =>
      refine ⟨responses, part, ?_, fun _ => handle_numbered (numbered live) future keepAlive⟩
      rw [handle_sent]
      exact concatenates
  | enqueue response keepAlive live =>
      have before := numbered live
      refine ⟨responses, part, ?_, fun _ => handle_numbered ?_ proxy.futures keepAlive⟩
      · rw [enqueue, handle_sent]
        exact concatenates
      · exact ⟨before.items, before.handled, before.idle, before.streaming, before.reading,
          before.chunks⟩
  | chunk reading chunk entry found =>
      refine ⟨responses, part, concatenates, fun live => ?_⟩
      have before := numbered live
      refine ⟨before.items, before.handled, before.idle, before.streaming, ?_, ?_⟩
      · intro other member
        exact before.reading other (List.mem_of_mem_eraseIdx member)
      · intro other member
        rcases List.mem_append.mp member with old | new
        · exact before.chunks other old
        · rw [List.mem_singleton.mp new]
          exact before.reading entry (List.mem_of_getElem? found)
  | waited dispatched file future found live =>
      exact waited_ordered (waits.continues live) concatenates (numbered live) found file
  | stream chunk entry found live =>
      simp only [HttpProxy.readable, found] at readable
      split at readable
      next request data same =>
        rw [Option.some.injEq] at same
        exact stream_ordered (waits.continues live) concatenates (numbered live) found
          (congrArg Prod.snd same)
      next => cases readable
      next => cases readable
      next absent => cases absent
  | finalize =>
      refine ⟨responses, part, concatenates, fun live => ?_⟩
      simp [HttpProxy.finalize] at live

theorem Ordered.pipelined (ordered : proxy.Ordered) : proxy.Pipelined := by
  obtain ⟨responses, part, concatenates, numbered⟩ := ordered
  refine ⟨responses, part, concatenates, fun live items pipe => ?_⟩
  have handled := (numbered live).handled
  simp only [due, pipe, items, if_true, List.length_nil, Nat.add_zero] at handled
  exact ⟨(numbered live).idle pipe, handled.symm⟩

end HttpProxy

/-- Responses are sent completely and in the order of the requests in every run
in which no request arrives while a response is streamed and no other request
waits behind it, and no pipe of a streamed response fails or is discarded. -/
theorem httpProxy_pipelined_of_queued {proxy : HttpProxy}
    (reached : httpProxy.Reaches
      (fun proxy move => proxy.queued move = true ∧ proxy.readable move = true) proxy) :
    proxy.Pipelined := by
  have both := reached.invariant (fun proxy => proxy.Waits ∧ proxy.Ordered)
    (by
      rintro proxy rfl
      exact ⟨HttpProxy.new_waits, HttpProxy.new_ordered⟩)
    (by
      rintro proxy move after ⟨waits, ordered⟩ ⟨queued, readable⟩ stepped
      exact ⟨HttpProxy.step_waits waits queued stepped,
        HttpProxy.step_ordered waits ordered readable stepped⟩)
  exact both.2.pipelined

theorem httpProxy_pipelined_streamed : ∃ proxy,
    httpProxy.run .new pipelinedSchedule = some proxy ∧ proxy.Pipelined ∧
      proxy.sent.map Sent.request = [0, 0, 0, 1, 2] := by
  obtain ⟨proxy, executed, observed⟩ : ∃ proxy ∈ httpProxy.run .new pipelinedSchedule,
      proxy.sent.map Sent.request = [0, 0, 0, 1, 2] := by
    decide
  have permitted : httpProxy.Along
      (fun proxy move => proxy.queued move = true ∧ proxy.readable move = true) .new
      pipelinedSchedule := by decide
  exact ⟨proxy, executed,
    httpProxy_pipelined_of_queued (.of_along (.start rfl) permitted executed), observed⟩

/-- A second request is handled while the first response is streamed, and its
response goes out between the header and the first chunk. -/
def interleavingSchedule : List ProxyMove :=
  [.future, .handle 0 true, .complete 0 (.ready streamedResponse), .waited 0 .missing,
    .enqueue (.ofBody "second" 200) true, .waited 0 .missing, .chunk 0 (.ready "data"),
    .stream 0]

theorem httpProxy_not_pipelined : ∃ proxy, httpProxy.Reachable proxy ∧ ¬ proxy.Pipelined ∧
    proxy.sent.map Sent.request = [0, 1, 0] := by
  obtain ⟨proxy, executed, observed⟩ : ∃ proxy ∈ httpProxy.run .new interleavingSchedule,
      proxy.sent.map Sent.request = [0, 1, 0] := by
    decide
  refine ⟨proxy, .of_run rfl executed, ?_, observed⟩
  rintro ⟨responses, part, concatenates, -⟩
  have sorted : (proxy.sent.map Sent.request).Pairwise (· ≤ ·) :=
    List.pairwise_map.mpr concatenates.request_le
  rw [observed] at sorted
  exact absurd sorted (by decide)

end Libprocess.Http
