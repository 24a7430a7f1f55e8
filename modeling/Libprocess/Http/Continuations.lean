import Libprocess.Http.Responses

/-!
# The outstanding continuations of an HTTP proxy

The proxy does not store how often `waited` and `stream` are outstanding.  While
no request arrives in the middle of a streamed response that nothing waits
behind, `waited` is outstanding once if there is an item and no pipe, and `stream`
once if there is a pipe.
-/

namespace Libprocess.Http

open Concurrency

namespace HttpProxy

variable {proxy after : HttpProxy}

/-- The futures of the outstanding `waited` continuations. -/
def outstanding (proxy : HttpProxy) : List FutureId := proxy.waiting ++ proxy.dispatched

/-- The future of the first item. -/
def front (proxy : HttpProxy) : List FutureId := (proxy.items.head?.map Item.future).toList

/-- The continuations of a proxy that is not finalized. -/
structure Continues (proxy : HttpProxy) : Prop where
  idle : proxy.pipe = none →
    proxy.outstanding = proxy.front ∧ proxy.reading = [] ∧ proxy.chunks = []
  streaming : ∀ reader, proxy.pipe = some reader →
    proxy.outstanding = [] ∧ proxy.reading.length + proxy.chunks.length = 1

/-- The invariant of the continuations. -/
structure Waits (proxy : HttpProxy) : Prop where
  checks : proxy.aborted = false
  continues : proxy.finalized = false → proxy.Continues

/-- A request does not arrive while a response is streamed and nothing waits
behind it. -/
def queued (proxy : HttpProxy) : ProxyMove → Bool
  | .handle _ _ => proxy.pipe = none ∨ proxy.items ≠ []
  | .enqueue _ _ => proxy.pipe = none ∨ proxy.items ≠ []
  | _ => true

theorem new_waits : new.Waits :=
  ⟨rfl, fun _ => ⟨fun _ => ⟨rfl, rfl, rfl⟩, by rintro reader ⟨⟩⟩⟩

/-- `next` only registers or dispatches `waited`. -/
theorem next_eq (proxy : HttpProxy) : ∃ waiting dispatched,
    proxy.next = { proxy with waiting := waiting, dispatched := dispatched } ∧
      (proxy.outstanding = [] → waiting ++ dispatched = proxy.front) := by
  unfold next
  split
  next empty =>
    refine ⟨proxy.waiting, proxy.dispatched, rfl, fun none => ?_⟩
    simp only [outstanding] at none
    rw [none, front, empty]
    rfl
  next item rest items =>
    have front : proxy.front = [item.future] := by
      rw [HttpProxy.front, items]
      rfl
    unfold onAny
    split
    next =>
      refine ⟨_, _, rfl, fun none => ?_⟩
      simp only [outstanding, List.append_eq_nil_iff] at none
      rw [none.1, none.2, front]
      rfl
    next =>
      refine ⟨_, _, rfl, fun none => ?_⟩
      simp only [outstanding, List.append_eq_nil_iff] at none
      rw [none.1, none.2, front]
      rfl

/-- Without a pipe and without continuations, `next` starts to wait for the first
item. -/
theorem next_continues (pipe : proxy.pipe = none) (outstanding : proxy.outstanding = [])
    (reading : proxy.reading = []) (chunks : proxy.chunks = []) : proxy.next.Continues := by
  obtain ⟨waiting, dispatched, same, waits⟩ := proxy.next_eq
  rw [same]
  refine ⟨fun _ => ⟨waits outstanding, reading, chunks⟩, ?_⟩
  rintro reader piped
  change proxy.pipe = some reader at piped
  rw [pipe] at piped
  cases piped

theorem next_aborted (proxy : HttpProxy) : proxy.next.aborted = proxy.aborted := by
  obtain ⟨waiting, dispatched, same, -⟩ := proxy.next_eq
  rw [same]

/-- A request is handled. -/
theorem handle_continues (continues : proxy.Continues)
    (queued : proxy.pipe = none ∨ proxy.items ≠ []) (future : FutureId) (keepAlive : Bool) :
    (proxy.handle future keepAlive).Continues := by
  unfold handle
  cases items : proxy.items with
  | nil =>
      have pipe : proxy.pipe = none := queued.resolve_right (by simp [items])
      obtain ⟨outstanding, reading, chunks⟩ := continues.idle pipe
      rw [front, items] at outstanding
      simp only [List.nil_append, List.length_singleton, if_true]
      exact next_continues pipe outstanding reading chunks
  | cons item rest =>
      simp only [List.cons_append, List.length_cons, List.length_append, List.length_nil]
      rw [if_neg (by omega)]
      refine ⟨fun pipe => ?_, continues.streaming⟩
      obtain ⟨outstanding, reading, chunks⟩ := continues.idle pipe
      rw [front, items] at outstanding
      exact ⟨outstanding, reading, chunks⟩

theorem handle_aborted (proxy : HttpProxy) (future : FutureId) (keepAlive : Bool) :
    (proxy.handle future keepAlive).aborted = proxy.aborted := by
  unfold handle
  dsimp only
  split
  next => exact next_aborted _
  next => rfl

/-- A new future changes nothing that the proxy waits for. -/
theorem future_continues (continues : proxy.Continues) (outcome : Option Outcome) :
    (proxy.future outcome).Continues :=
  ⟨continues.idle, continues.streaming⟩

/-- At most one continuation is registered, and completion dispatches it or
leaves it alone. -/
theorem complete_outstanding (proxy : HttpProxy) (future : FutureId) (outcome : Outcome)
    (atMost : proxy.outstanding.length ≤ 1) :
    (proxy.complete future outcome).outstanding = proxy.outstanding := by
  unfold outstanding at atMost ⊢
  unfold complete
  cases waiting : proxy.waiting with
  | nil => simp
  | cons first rest =>
      rw [waiting, List.length_append, List.length_cons] at atMost
      have none : rest = [] ∧ proxy.dispatched = [] := by
        constructor <;> apply List.eq_nil_of_length_eq_zero <;> omega
      rw [none.1, none.2]
      by_cases same : first = future
      · simp [same]
      · simp [same]

section

variable (continues : proxy.Continues)

include continues

theorem complete_continues (future : FutureId)
    (outcome : Outcome) : (proxy.complete future outcome).Continues := by
  have frontal : proxy.front.length ≤ 1 := by
    unfold front
    cases proxy.items <;> simp
  constructor
  · intro pipe
    obtain ⟨outstanding, reading, chunks⟩ := continues.idle pipe
    refine ⟨?_, reading, chunks⟩
    rw [complete_outstanding proxy future outcome (by rw [outstanding]; exact frontal)]
    exact outstanding
  · intro reader pipe
    obtain ⟨outstanding, one⟩ := continues.streaming reader pipe
    refine ⟨?_, one⟩
    rw [complete_outstanding proxy future outcome (by rw [outstanding]; simp)]
    exact outstanding

/-- A dispatched `waited` is the only one, and it is for the first item. -/
theorem dispatched_front {index : Nat} {future : FutureId}
    (found : proxy.dispatched[index]? = some future) :
    proxy.pipe = none ∧ proxy.reading = [] ∧ proxy.chunks = [] ∧ proxy.waiting = [] ∧
      proxy.dispatched.eraseIdx index = [] ∧
      ∃ item rest, proxy.items = item :: rest ∧ item.future = future := by
  have member := List.mem_of_getElem? found
  have pipe : proxy.pipe = none := by
    cases pipe : proxy.pipe with
    | none => rfl
    | some reader =>
        have none := (continues.streaming reader pipe).1
        rw [outstanding, List.append_eq_nil_iff] at none
        rw [none.2] at member
        cases member
  obtain ⟨waits, reading, chunks⟩ := continues.idle pipe
  refine ⟨pipe, reading, chunks, ?_⟩
  unfold outstanding front at waits
  cases items : proxy.items with
  | nil =>
      rw [items] at waits
      simp only [List.head?_nil, Option.map_none, Option.toList_none,
        List.append_eq_nil_iff] at waits
      rw [waits.2] at member
      cases member
  | cons item rest =>
      rw [items] at waits
      simp only [List.head?_cons, Option.map_some, Option.toList_some] at waits
      have lengths := congrArg List.length waits
      have positive := List.length_pos_of_mem member
      rw [List.length_append, List.length_singleton] at lengths
      have waiting : proxy.waiting = [] := List.eq_nil_of_length_eq_zero (by omega)
      rw [waiting, List.nil_append] at waits
      rw [waits] at found member ⊢
      have first : index = 0 := by
        have bound := (List.getElem?_eq_some_iff.mp found).1
        simpa using bound
      subst index
      simp only [List.getElem?_cons_zero, Option.some.injEq] at found
      exact ⟨waiting, rfl, item, rest, rfl, found⟩

/-- A dispatched `waited` passes its checks. -/
theorem waited_continues {index : Nat} {future : FutureId}
    (found : proxy.dispatched[index]? = some future) (file : FileAnswer) :
    ({ proxy with dispatched := proxy.dispatched.eraseIdx index }.waited future
        file).Continues ∧
      ({ proxy with dispatched := proxy.dispatched.eraseIdx index }.waited future
        file).aborted = proxy.aborted := by
  obtain ⟨pipe, reading, chunks, waiting, erased, item, rest, items, rfl⟩ :=
    dispatched_front continues found
  rw [erased]
  rcases waited_spec { proxy with dispatched := [] } items file with
    ⟨encoders, -, done⟩ | ⟨encoders, reader, -, streams⟩
  · rw [done]
    refine ⟨next_continues pipe ?_ reading chunks, next_aborted _⟩
    simp [outstanding, waiting]
  · rw [streams]
    refine ⟨⟨nofun, fun _ _ => ⟨?_, ?_⟩⟩, rfl⟩
    · simp [outstanding, waiting]
    · simp [reading, chunks]

/-- A dispatched `stream` is the only one, and there is a pipe. -/
theorem chunk_streaming {index : Nat}
    {entry : Request × Chunk} (found : proxy.chunks[index]? = some entry) :
    ∃ reader, proxy.pipe = some reader ∧ proxy.outstanding = [] ∧ proxy.reading = [] ∧
      proxy.chunks.eraseIdx index = [] := by
  have member := List.mem_of_getElem? found
  have positive := List.length_pos_of_mem member
  cases pipe : proxy.pipe with
  | none =>
      rw [(continues.idle pipe).2.2] at member
      cases member
  | some reader =>
      obtain ⟨outstanding, one⟩ := continues.streaming reader pipe
      refine ⟨reader, rfl, outstanding, List.eq_nil_of_length_eq_zero (by omega), ?_⟩
      apply List.eq_nil_of_length_eq_zero
      have bound := (List.getElem?_eq_some_iff.mp found).1
      rw [List.length_eraseIdx_of_lt bound]
      omega

/-- A dispatched `stream` passes its check. -/
theorem stream_continues {index : Nat}
    {entry : Request × Chunk} (found : proxy.chunks[index]? = some entry) :
    ({ proxy with chunks := proxy.chunks.eraseIdx index }.stream entry.1 entry.2).Continues ∧
      ({ proxy with chunks := proxy.chunks.eraseIdx index }.stream entry.1
        entry.2).aborted = proxy.aborted := by
  obtain ⟨reader, pipe, outstanding, reading, erased⟩ := chunk_streaming continues found
  rw [erased]
  rcases stream_spec { proxy with chunks := [] } pipe entry.1 entry.2 with
    ⟨data, persist, -, reads⟩ | ⟨encoder, persist, -, ends⟩
  · rw [reads]
    refine ⟨⟨fun absent => ?_, fun _ _ => ⟨outstanding, ?_⟩⟩, rfl⟩
    · change proxy.pipe = none at absent
      rw [pipe] at absent
      cases absent
    · simp [reading]
  · rw [ends]
    exact ⟨next_continues rfl outstanding reading rfl, next_aborted _⟩

/-- A read of the pipe completes. -/
theorem chunk_continues {index : Nat}
    {entry : Request × PipeId} (found : proxy.reading[index]? = some entry)
    (chunk : Chunk) :
    { proxy with
      reading := proxy.reading.eraseIdx index
      chunks := proxy.chunks ++ [(entry.1, chunk)] }.Continues := by
  have member := List.mem_of_getElem? found
  have bound := (List.getElem?_eq_some_iff.mp found).1
  constructor
  · intro pipe
    rw [(continues.idle pipe).2.1] at member
    cases member
  · intro reader pipe
    obtain ⟨outstanding, one⟩ := continues.streaming reader pipe
    refine ⟨outstanding, ?_⟩
    simp only [List.length_eraseIdx_of_lt bound, List.length_append, List.length_singleton]
    omega

end

/-- Every step that finds a queue behind a streamed response, or no streamed
response, keeps the invariant. -/
theorem step_waits (waits : proxy.Waits) {move : ProxyMove} (queued : proxy.queued move = true)
    (stepped : proxy.step move = some after) : after.Waits := by
  obtain ⟨unaborted, moves⟩ := moves_of_step stepped
  cases moves with
  | future =>
      exact ⟨unaborted, fun live => future_continues (waits.continues live) none⟩
  | handle future keepAlive live =>
      simp only [HttpProxy.queued, decide_eq_true_eq] at queued
      refine ⟨?_, fun _ => handle_continues (waits.continues live) queued future keepAlive⟩
      rw [handle_aborted]
      exact unaborted
  | enqueue response keepAlive live =>
      simp only [HttpProxy.queued, decide_eq_true_eq] at queued
      refine ⟨?_, fun _ => handle_continues
        (future_continues (waits.continues live) _) queued proxy.futures keepAlive⟩
      rw [enqueue, handle_aborted]
      exact unaborted
  | complete future outcome =>
      exact ⟨unaborted, fun live => complete_continues (waits.continues live) future outcome⟩
  | chunk reading chunk entry found =>
      exact ⟨unaborted, fun live => chunk_continues (waits.continues live) found chunk⟩
  | waited dispatched file future found live =>
      obtain ⟨continues, aborted⟩ := waited_continues (waits.continues live) found file
      exact ⟨aborted.trans unaborted, fun _ => continues⟩
  | stream chunk entry found live =>
      obtain ⟨continues, aborted⟩ := stream_continues (waits.continues live) found
      exact ⟨aborted.trans unaborted, fun _ => continues⟩
  | finalize => exact ⟨unaborted, nofun⟩

/-- The continuations that the assertions of the proxy rely on, and that no
assertion has failed. -/
structure Sound (proxy : HttpProxy) : Prop where
  waited : proxy.finalized = false → proxy.waiting.length + proxy.dispatched.length =
    if proxy.items ≠ [] ∧ proxy.pipe = none then 1 else 0
  stream : proxy.finalized = false → proxy.reading.length + proxy.chunks.length ≤ 1
  piped : proxy.finalized = false → 0 < proxy.reading.length + proxy.chunks.length →
    proxy.pipe ≠ none
  checks : proxy.aborted = false

theorem Waits.sound (waits : proxy.Waits) : proxy.Sound := by
  refine ⟨fun live => ?_, fun live => ?_, fun live => ?_, waits.checks⟩ <;>
    have continues := waits.continues live <;>
    cases pipe : proxy.pipe with
    | none =>
        obtain ⟨outstanding, reading, chunks⟩ := continues.idle pipe
        have lengths := congrArg List.length outstanding
        rw [HttpProxy.outstanding, List.length_append] at lengths
        cases items : proxy.items <;> simp_all [front]
    | some reader =>
        obtain ⟨outstanding, one⟩ := continues.streaming reader pipe
        have lengths := congrArg List.length outstanding
        rw [HttpProxy.outstanding, List.length_append] at lengths
        simp_all

/-- A request that arrives while a response is streamed and nothing waits behind
it makes the proxy wait for two things at once. -/
theorem handle_not_sound (continues : proxy.Continues) (live : proxy.finalized = false)
    {reader : PipeId} (pipe : proxy.pipe = some reader) (items : proxy.items = [])
    (future : FutureId) (keepAlive : Bool) : ¬ (proxy.handle future keepAlive).Sound := by
  intro sound
  have none := (continues.streaming reader pipe).1
  have handled : proxy.handle future keepAlive =
      ({ proxy with
        items := [⟨⟨proxy.handled, keepAlive⟩, future⟩]
        handled := proxy.handled + 1 } : HttpProxy).next := by
    simp [handle, items]
  obtain ⟨waiting, dispatched, registered, waits⟩ := next_eq
    { proxy with
      items := [⟨⟨proxy.handled, keepAlive⟩, future⟩]
      handled := proxy.handled + 1 }
  have lengths := congrArg List.length (waits none)
  have count := sound.waited
  rw [handled, registered] at count
  have zero := count live
  simp only [pipe, reduceCtorEq, and_false, if_false] at zero
  rw [List.length_append] at lengths
  simp [front] at lengths
  omega

theorem step_not_sound (waits : proxy.Waits) {move : ProxyMove}
    (unqueued : ¬ proxy.queued move = true) (stepped : proxy.step move = some after) :
    ¬ after.Sound := by
  have streaming : ¬ (proxy.pipe = none ∨ proxy.items ≠ []) →
      ∃ reader, proxy.pipe = some reader ∧ proxy.items = [] := by
    intro refused
    rw [not_or, not_not] at refused
    exact ⟨_, (Option.ne_none_iff_exists'.mp refused.1).choose_spec, refused.2⟩
  obtain ⟨-, moves⟩ := moves_of_step stepped
  cases moves with
  | handle future keepAlive live =>
      simp only [HttpProxy.queued, decide_eq_true_eq] at unqueued
      obtain ⟨reader, pipe, items⟩ := streaming unqueued
      exact handle_not_sound (waits.continues live) live pipe items future keepAlive
  | enqueue response keepAlive live =>
      simp only [HttpProxy.queued, decide_eq_true_eq] at unqueued
      obtain ⟨reader, pipe, items⟩ := streaming unqueued
      have continues := future_continues (waits.continues live) (some (.ready response))
      exact handle_not_sound continues live pipe items proxy.futures keepAlive
  | _ => exact absurd rfl unqueued

end HttpProxy

/-- The continuations are as the assertions require, in every state of a run,
exactly if no request arrives while a response is streamed and no other request
waits behind it. -/
theorem httpProxy_sound_iff {schedule : List ProxyMove} {final : HttpProxy}
    (executed : httpProxy.run .new schedule = some final) :
    httpProxy.Throughout HttpProxy.Sound .new schedule ↔
      httpProxy.Along (fun proxy move => proxy.queued move = true) .new schedule :=
  Automaton.throughout_iff_along HttpProxy.Sound HttpProxy.Waits HttpProxy.new_waits
    (fun _ waits => waits.sound)
    (fun _ _ _ waits queued stepped => HttpProxy.step_waits waits queued stepped)
    (fun _ _ _ waits unqueued stepped => HttpProxy.step_not_sound waits unqueued stepped)
    executed

/-- A streamed response. -/
def streamedResponse : Response := ⟨200, [], "", .pipe 0⟩

/-- A second and a third request are handled before the first response, which is
streamed, begins. -/
def pipelinedSchedule : List ProxyMove :=
  [.future, .handle 0 true, .enqueue (.ofBody "second" 200) true,
    .complete 0 (.ready streamedResponse), .waited 0 .missing, .enqueue .notFound false,
    .chunk 0 (.ready "data"), .stream 0, .chunk 0 (.ready ""), .stream 0,
    .waited 0 .missing, .waited 0 .missing]

theorem httpProxy_sound_pipelined :
    (httpProxy.run .new pipelinedSchedule).isSome = true ∧
      httpProxy.Throughout HttpProxy.Sound .new pipelinedSchedule := by
  have succeeds : (httpProxy.run .new pipelinedSchedule).isSome = true := by decide
  obtain ⟨final, executed⟩ := Option.isSome_iff_exists.mp succeeds
  have queued : httpProxy.Along (fun proxy move => proxy.queued move = true) .new
      pipelinedSchedule := by decide
  exact ⟨succeeds, (httpProxy_sound_iff executed).mpr queued⟩

/-- A second request is handled while the first response is streamed.  When the
stream ends, the proxy waits for it a second time, and the second `waited` finds
no item. -/
def abortingSchedule : List ProxyMove :=
  [.future, .future, .handle 0 true, .complete 0 (.ready streamedResponse),
    .waited 0 .missing, .handle 1 true, .chunk 0 (.ready ""), .stream 0,
    .complete 1 (.ready (.ofBody "second" 200)), .waited 0 .missing, .waited 0 .missing]

theorem httpProxy_not_sound : ∃ proxy, httpProxy.Reachable proxy ∧ ¬ proxy.Sound ∧
    proxy.aborted = true := by
  obtain ⟨proxy, executed, aborted⟩ : ∃ proxy ∈ httpProxy.run .new abortingSchedule,
      proxy.aborted = true := by
    decide
  refine ⟨proxy, .of_run rfl executed, fun sound => ?_, aborted⟩
  rw [sound.checks] at aborted
  cases aborted

end Libprocess.Http
