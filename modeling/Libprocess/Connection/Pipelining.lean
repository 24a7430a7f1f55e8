import Libprocess.Connection.Decoding

/-!
# Responses and requests of a connection

The promises are completed in the order of the requests, and the responses are delivered
in the order in which the decoder returns them.  Both are aligned until a response
announces that it is the last one, or the connection is disconnected; no request is
accepted from then on.
-/

namespace Libprocess.Connection

open Decoder (Request Response)

/-- The response that a promise gets, with its number. -/
def Fate.response : Fate → Option (Nat × Response)
  | .set number response => some (number, response)
  | .associate number response => some (number, response)
  | .fail _ => none

namespace ConnectionProcess

variable {connection next : ConnectionProcess} {number : Nat}

/-- A response before this one announces that it is the last. -/
def ClosedBefore (connection : ConnectionProcess) (number : Nat) : Prop :=
  ∃ earlier < number, ∃ response,
    connection.produced[earlier]? = some response ∧ closes response = true

/-- The promise of a request gets the response of the same number. -/
def Answered (connection : ConnectionProcess) (number : Nat) (response : Response) : Prop :=
  ∃ fate, (number, fate) ∈ connection.completions ∧ fate.response = some (number, response)

/-- The promises that are completed, and the first responses. -/
structure Counted (connection : ConnectionProcess) (number : Nat) : Prop where
  numbered : connection.completions.map Prod.fst ++ connection.pipeline.map Prod.fst =
    List.range connection.accepted.length
  answers : ∀ request fate, (request, fate) ∈ connection.completions → ∀ number response,
    fate.response = some (number, response) → number = request ∧
      connection.produced[request]? = some response ∧ ¬ connection.ClosedBefore request
  keepAlive : ∀ request ∈ connection.accepted, request.start.keepAlive = false →
    connection.close = true
  answered : ∀ earlier < number, ∀ response, connection.produced[earlier]? = some response →
    connection.Answered earlier response ∨ connection.disconnection = true ∧
      (connection.accepted.length ≤ earlier ∨ connection.ClosedBefore earlier)

/-- The requests and the first responses are matched. -/
structure Matched (connection : ConnectionProcess) (number : Nat) : Prop
    extends connection.Counted number where
  aligned : connection.disconnection = false → connection.completions.length = number ∨
    connection.pipeline = [] ∧ connection.close = true ∧ connection.ClosedBefore number
  closing : connection.ClosedBefore number →
    (connection.close = true ∨ connection.disconnection = true) ∧ connection.pipeline = []
  drained : connection.disconnection = true → connection.pipeline = []

theorem Matched.init : init.Matched 0 :=
  ⟨⟨rfl, nofun, nofun, fun _ less => absurd less (Nat.not_lt_zero _)⟩, fun _ => .inl rfl,
    fun ⟨_, less, _⟩ => absurd less (Nat.not_lt_zero _), fun _ => rfl⟩

theorem numbered_failPipeline (connection : ConnectionProcess) (message : String) :
    (connection.failPipeline message).completions.map Prod.fst =
      connection.completions.map Prod.fst ++ connection.pipeline.map Prod.fst := by
  simp [failPipeline, Function.comp_def]

/-- Failed promises add no answer. -/
theorem mem_failPipeline {message : String} {request : Nat} {fate : Fate}
    (member : (request, fate) ∈ (connection.failPipeline message).completions) :
    (request, fate) ∈ connection.completions ∨ fate.response = none := by
  simp only [failPipeline, List.mem_append, List.mem_map, Prod.mk.injEq] at member
  rcases member with known | ⟨entry, -, -, rfl⟩
  · exact .inl known
  · exact .inr rfl

/-- The pipeline is failed and nothing is accepted afterwards. -/
theorem Counted.failPipeline (counted : connection.Counted number) {message : String}
    (fields : next.completions = (connection.failPipeline message).completions ∧
      next.pipeline = [] ∧ next.accepted = connection.accepted ∧
      next.produced = connection.produced)
    (close : connection.close = true → next.close = true)
    (disconnection : connection.disconnection = true → next.disconnection = true)
    (aligned : next.disconnection = false → next.close = true ∧ next.ClosedBefore number)
    (closing : next.ClosedBefore number → next.close = true ∨ next.disconnection = true) :
    next.Matched number := by
  obtain ⟨completions, pipeline, accepted, produced⟩ := fields
  have before (earlier : Nat) :
      next.ClosedBefore earlier ↔ connection.ClosedBefore earlier := by
    simp only [ClosedBefore, produced]
  refine ⟨⟨?_, fun request fate member number response answers => ?_,
    fun request member stays => close (counted.keepAlive request (accepted ▸ member) stays),
    fun earlier less response found => ?_⟩, fun live => .inr ⟨pipeline, aligned live⟩,
    fun closed => ⟨closing closed, pipeline⟩, fun _ => pipeline⟩
  · rw [completions, numbered_failPipeline, pipeline, List.map_nil, List.append_nil, accepted]
    exact counted.numbered
  · rw [completions] at member
    rw [produced]
    rcases mem_failPipeline member with known | none
    · rw [before]
      exact counted.answers request fate known number response answers
    · simp [none] at answers
  · rw [produced] at found
    rcases counted.answered earlier less response found with ⟨fate, member, answers⟩ | lost
    · refine .inl ⟨fate, ?_, answers⟩
      rw [completions]
      exact List.mem_append_left _ member
    · exact .inr ⟨disconnection lost.1, lost.2.imp (accepted ▸ id) (before earlier).mpr⟩

theorem Matched.disconnect (matched : connection.Matched number) {message : Option String}
    (disconnects : connection.disconnect message = some next) :
    next.Matched number ∧ next.disconnection = true ∧ next.produced = connection.produced ∧
      next.accepted = connection.accepted := by
  simp only [ConnectionProcess.disconnect, Option.map_eq_some_iff] at disconnects
  obtain ⟨⟨decoder, parser⟩, -, rfl⟩ := disconnects
  refine ⟨matched.toCounted.failPipeline ⟨rfl, rfl, rfl, rfl⟩ id (fun _ => rfl) (by simp)
    fun _ => .inr rfl,
    rfl, rfl, rfl⟩

/-- The decoder has returned more responses. -/
theorem Matched.produced (matched : connection.Matched number) (responses : List Response)
    (known : number ≤ connection.produced.length)
    (fields : next.completions = connection.completions ∧ next.pipeline = connection.pipeline ∧
      next.accepted = connection.accepted ∧ next.close = connection.close ∧
      next.disconnection = connection.disconnection)
    (produced : next.produced = connection.produced ++ responses) : next.Matched number := by
  obtain ⟨completions, pipeline, accepted, close, disconnection⟩ := fields
  have same {earlier : Nat} (less : earlier < connection.produced.length) :
      next.produced[earlier]? = connection.produced[earlier]? := by
    rw [produced, List.getElem?_append_left less]
  have before {count : Nat} (bound : count ≤ connection.produced.length) :
      next.ClosedBefore count ↔ connection.ClosedBefore count := by
    simp only [ClosedBefore]
    refine exists_congr fun earlier => and_congr_right fun less => ?_
    rw [same (Nat.lt_of_lt_of_le less bound)]
  refine ⟨⟨?_, fun request fate member number' response answers => ?_, ?_,
    fun earlier less response found => ?_⟩, ?_, ?_, ?_⟩
  · rw [completions, pipeline, accepted]
    exact matched.numbered
  · obtain ⟨equal, found, unclosed⟩ :=
      matched.answers request fate (completions ▸ member) number' response answers
    obtain ⟨bound, -⟩ := List.getElem?_eq_some_iff.mp found
    rw [same bound, before (Nat.le_of_lt bound)]
    exact ⟨equal, found, unclosed⟩
  · rw [accepted, close]
    exact matched.keepAlive
  · rw [same (by omega)] at found
    simp only [Answered, completions, accepted, disconnection,
      before (show earlier ≤ connection.produced.length by omega)]
    exact matched.answered earlier less response found
  · rw [completions, pipeline, close, disconnection, before known]
    exact matched.aligned
  · rw [close, disconnection, pipeline, before known]
    exact matched.closing
  · rw [disconnection, pipeline]
    exact matched.drained

/-- The responses that are left when the connection is disconnected are for nobody. -/
theorem Matched.abandon {count : Nat} (matched : connection.Matched number)
    (disconnected : connection.disconnection = true)
    (lost : connection.accepted.length ≤ number ∨ connection.ClosedBefore number) :
    connection.Matched count := by
  have later {earlier : Nat} (least : number ≤ earlier) :
      connection.accepted.length ≤ earlier ∨ connection.ClosedBefore earlier :=
    lost.imp (fun few => Nat.le_trans few least) fun ⟨first, less, closed⟩ => ⟨first, by omega, closed⟩
  refine ⟨⟨matched.numbered, matched.answers, matched.keepAlive,
    fun earlier _ response found => ?_⟩, fun live => by simp [disconnected] at live,
    fun _ => ⟨.inr disconnected, matched.drained disconnected⟩, matched.drained⟩
  rcases Nat.lt_or_ge earlier number with less | least
  · exact matched.answered earlier less response found
  · exact .inr ⟨disconnected, later least⟩

/-- The request at the head of the pipeline has the number of the next response. -/
theorem Matched.head {entry : Nat × Bool} {pipeline : List (Nat × Bool)}
    (matched : connection.Matched number) (live : connection.disconnection = false)
    (waits : connection.pipeline = entry :: pipeline) :
    connection.completions.length = number ∧ entry.1 = number := by
  have length : connection.completions.length = number := by
    rcases matched.aligned live with equal | ⟨empty, -⟩
    · exact equal
    · simp [waits] at empty
  refine ⟨length, ?_⟩
  have numbered := congrArg (·[number]?) matched.numbered
  rw [← length] at numbered ⊢
  simp only [waits, List.map_cons] at numbered
  rw [List.getElem?_append_right (by simp)] at numbered
  simp only [List.length_map, Nat.sub_self, List.getElem?_cons_zero] at numbered
  obtain ⟨bound, equal⟩ := List.getElem?_eq_some_iff.mp numbered.symm
  rw [← equal, List.getElem_range]

/-- A request gets its response. -/
theorem Matched.counted_answer {entry : Nat × Bool} {pipeline : List (Nat × Bool)}
    {response : Response} (matched : connection.Matched number)
    (live : connection.disconnection = false) (waits : connection.pipeline = entry :: pipeline)
    (found : connection.produced[number]? = some response) :
    (connection.answer entry pipeline number response).Counted (number + 1) := by
  obtain ⟨-, equal⟩ := matched.head live waits
  obtain ⟨fate, completed, answers⟩ : ∃ fate,
      (connection.answer entry pipeline number response).completions =
        connection.completions ++ [(number, fate)] ∧ fate.response = some (number, response) := by
    refine ⟨_, by rw [ConnectionProcess.answer, equal], ?_⟩
    split <;> rfl
  refine ⟨?_, fun request other member number' response' isAnswer => ?_, matched.keepAlive,
    fun earlier less response' found' => .inl ?_⟩
  · have numbered := matched.numbered
    rw [waits, List.map_cons, equal] at numbered
    rw [completed, List.map_append, List.map_singleton, List.append_assoc]
    exact numbered
  · rw [completed, List.mem_append, List.mem_singleton, Prod.mk.injEq] at member
    rcases member with known | ⟨rfl, rfl⟩
    · exact matched.answers request other known number' response' isAnswer
    · rw [answers, Option.some.injEq, Prod.mk.injEq] at isAnswer
      refine ⟨isAnswer.1.symm, isAnswer.2 ▸ found, fun closed => ?_⟩
      -- The pipeline would be empty.
      have empty := (matched.closing closed).2
      rw [waits] at empty
      cases empty
  · simp only [Answered, completed, List.mem_append, List.mem_singleton, Prod.mk.injEq]
    rcases Nat.lt_succ_iff_lt_or_eq.mp less with known | rfl
    · rcases matched.answered earlier known response' found' with ⟨fate', member, answers'⟩ | lost
      · exact ⟨fate', .inl member, answers'⟩
      · simp [live] at lost
    · obtain rfl := Option.some.inj (found.symm.trans found')
      exact ⟨fate, .inr ⟨rfl, rfl⟩, answers⟩

/-- The response may be the last one. -/
theorem Matched.answer {entry : Nat × Bool} {pipeline : List (Nat × Bool)} {response : Response}
    (matched : connection.Matched number) (live : connection.disconnection = false)
    (waits : connection.pipeline = entry :: pipeline)
    (found : connection.produced[number]? = some response) :
    ((connection.answer entry pipeline number response).closeAfter response).Matched
      (number + 1) := by
  have counted := matched.counted_answer live waits found
  unfold closeAfter
  split
  · rename_i last
    exact counted.failPipeline ⟨rfl, rfl, rfl, rfl⟩ (fun _ => rfl) id
      (fun _ => ⟨rfl, number, Nat.lt_succ_self number, response, found, last⟩) fun _ => .inl rfl
  · rename_i notLast
    have earlier (closed : (connection.answer entry pipeline number response).ClosedBefore
        (number + 1)) : connection.ClosedBefore number := by
      obtain ⟨first, less, other, found', closed⟩ := closed
      rcases Nat.lt_succ_iff_lt_or_eq.mp less with known | rfl
      · exact ⟨first, known, other, found', closed⟩
      · obtain rfl := Option.some.inj (found.symm.trans found')
        exact absurd closed notLast
    refine ⟨counted, fun _ => .inl ?_, fun closed => ?_, fun disconnected => ?_⟩
    · simp [ConnectionProcess.answer, (matched.head live waits).1]
    · have empty := (matched.closing (earlier closed)).2
      rw [waits] at empty
      cases empty
    · simp [ConnectionProcess.answer, live] at disconnected

/-- The loop over the responses of one call of `decode`. -/
theorem Matched.deliver {responses : List Response} {continues : Bool}
    (matched : connection.Matched number)
    (live : responses ≠ [] → connection.disconnection = false)
    (rest : connection.produced.drop number = responses)
    (known : number ≤ connection.produced.length)
    (delivered : connection.deliver number responses = some (next, continues)) :
    next.Matched next.produced.length ∧ next.produced = connection.produced := by
  induction responses generalizing connection number with
  | nil =>
      have length : number = connection.produced.length :=
        Nat.le_antisymm known (List.drop_eq_nil_iff.mp rest)
      cases delivered
      exact ⟨length ▸ matched, rfl⟩
  | cons response responses ih =>
      have found : connection.produced[number]? = some response := by
        rw [← List.head?_drop, rest, List.head?_cons]
      simp only [ConnectionProcess.deliver] at delivered
      split at delivered
      · rename_i empty
        rw [Option.map_eq_some_iff] at delivered
        obtain ⟨shut, disconnects, same⟩ := delivered
        cases same
        obtain ⟨kept, disconnected, produced, accepted⟩ := matched.disconnect disconnects
        refine ⟨kept.abandon disconnected ?_, produced⟩
        simp only [ClosedBefore, produced, accepted]
        rcases matched.aligned (live (by simp)) with length | ⟨-, -, closed⟩
        · left
          have counts := congrArg List.length matched.numbered
          simp [empty] at counts
          omega
        · exact .inr closed
      · rename_i entry pipeline waits
        have produced : ((connection.answer entry pipeline number response).closeAfter
            response).produced = connection.produced := by
          unfold closeAfter
          split <;> rfl
        have stillLive := (closeAfter_decoder (connection.answer entry pipeline number response)
          response).2.2.2
        rw [← produced]
        refine ih (matched.answer (live (by simp)) waits found)
          (fun _ => stillLive.trans (live (by simp))) ?_ ?_ delivered
        · rw [produced, ← List.drop_drop, rest, List.drop_one, List.tail_cons]
        · rw [produced]
          exact (List.getElem?_eq_some_iff.mp found).1

/-- A connection in which all responses that were returned are matched. -/
structure Pipelined (connection : ConnectionProcess) : Prop where
  wired : connection.Wired
  matched : connection.Matched connection.produced.length

theorem Matched.frame (matched : connection.Matched connection.produced.length)
    (fields : next.completions = connection.completions ∧ next.pipeline = connection.pipeline ∧
      next.accepted = connection.accepted ∧ next.close = connection.close ∧
      next.disconnection = connection.disconnection)
    (produced : next.produced = connection.produced) : next.Matched next.produced.length := by
  rw [produced]
  exact matched.produced [] (Nat.le_refl _) fields (by simp [produced])

theorem Matched.afterDecode {received : Received} {responses : List Response}
    (matched : connection.Matched connection.produced.length)
    (live : responses ≠ [] → connection.disconnection = false)
    (decoded : connection.afterDecode received responses = some next) :
    next.Matched next.produced.length := by
  simp only [ConnectionProcess.afterDecode, Option.bind_eq_bind, Option.bind_eq_some_iff] at decoded
  obtain ⟨⟨delivered, continues⟩, delivers, decoded⟩ := decoded
  have before : { connection with
      activity := .idle
      produced := connection.produced ++ responses }.Matched connection.produced.length :=
    matched.produced responses (Nat.le_refl _) ⟨rfl, rfl, rfl, rfl, rfl⟩ rfl
  have kept : delivered.Matched delivered.produced.length :=
    (before.deliver live (by simp) (by simp) delivers).1
  have shut {message : Option String} (disconnects : delivered.disconnect message = some next) :
      next.Matched next.produced.length := by
    obtain ⟨matched, -, produced, -⟩ := kept.disconnect disconnects
    rwa [produced]
  split at decoded
  · cases received with
    | failed | discarded | eof => exact shut decoded
    | data =>
        simp only [continueReading] at decoded
        split at decoded
        · exact shut decoded
        · split at decoded
          · exact shut decoded
          · cases decoded
            exact kept.frame ⟨rfl, rfl, rfl, rfl, rfl⟩ rfl
  · cases decoded
    exact kept

theorem Matched.send {request : Request} {streamed : Bool}
    (matched : connection.Matched connection.produced.length)
    (sent : connection.send request streamed = .ok next) : next.Matched next.produced.length := by
  unfold ConnectionProcess.send at sent
  split at sent <;> cases sent
  rename_i permitted
  obtain ⟨live, unclosed⟩ : connection.disconnection = false ∧ connection.close = false := by
    unfold refusal at permitted
    split at permitted
    · cases permitted
    · split at permitted
      · cases permitted
      · simp_all
  have length : connection.completions.length = connection.produced.length := by
    rcases matched.aligned live with equal | ⟨-, closed, -⟩
    · exact equal
    · simp [unclosed] at closed
  refine ⟨⟨?_, matched.answers, fun other member stays => ?_, fun earlier less response found =>
    .inl ?_⟩, fun _ => .inl length, fun closed => ?_, fun disconnected => ?_⟩
  · simp only [List.map_append, List.map_cons, List.map_nil, List.length_append,
      List.length_singleton, List.range_succ]
    rw [← List.append_assoc, matched.numbered]
  · rcases List.mem_append.mp member with known | new
    · simp [matched.keepAlive other known stays] at unclosed
    · obtain rfl := List.mem_singleton.mp new
      simp [stays]
  · rcases matched.answered earlier less response found with answered | lost
    · exact answered
    · simp [live] at lost
  · rcases (matched.closing closed).1 with isClosed | disconnected
    · simp [isClosed] at unclosed
    · simp [disconnected] at live
  · cases live.symm.trans disconnected

/-- A step whose checks fail would change nothing else. -/
theorem matched_orAbort {shown : ConnectionProcess} {outcome : Option ConnectionProcess}
    (aborted : shown.Matched shown.produced.length)
    (done : ∀ next, outcome = some next → next.Matched next.produced.length) :
    (shown.orAbort outcome).Matched (shown.orAbort outcome).produced.length := by
  cases outcome with
  | none => exact aborted.frame ⟨rfl, rfl, rfl, rfl, rfl⟩ rfl
  | some next => exact done next rfl

theorem Matched.disconnect_all {message : Option String}
    (matched : connection.Matched connection.produced.length)
    (disconnects : connection.disconnect message = some next) :
    next.Matched next.produced.length := by
  obtain ⟨matched, -, produced, -⟩ := matched.disconnect disconnects
  rwa [produced]

theorem Matched.cutOff (matched : connection.Matched connection.produced.length) :
    connection.cutOff.Matched connection.cutOff.produced.length :=
  matched.frame ⟨rfl, rfl, rfl, rfl, rfl⟩ rfl

/-- `decode` returns nothing to a connection that is disconnected. -/
theorem Wired.live (wired : connection.Wired) (unfinalized : connection.activity ≠ .finalized)
    (some : connection.decoder.messages ≠ []) : connection.disconnection = false := by
  cases disconnected : connection.disconnection with
  | false => rfl
  | true => exact absurd (wired.stopped disconnected unfinalized).2.1 some

theorem Pipelined.startReading {received : Received} (pipelined : connection.Pipelined)
    (receiving : connection.activity = .receiving)
    (started : connection.startReading received = some next) :
    next.Matched next.produced.length := by
  obtain ⟨wired, matched⟩ := pipelined
  have inStep := wired.inStep (by simp [reads, receiving])
  have live := wired.live (by simp [receiving])
  by_cases ends : received ≠ .data
  · obtain ⟨decoder, parser, decoded, -⟩ := decodeEof_spec inStep
    rw [startReading_eq ends, decoded] at started
    refine Matched.afterDecode ?_ ?_ started
    · exact matched.frame ⟨rfl, rfl, rfl, rfl, rfl⟩ rfl
    · exact live
  · obtain rfl : received = .data := not_not.mp ends
    simp only [ConnectionProcess.startReading] at started
    split at started
    · refine Matched.disconnect_all ?_ started
      exact matched.frame ⟨rfl, rfl, rfl, rfl, rfl⟩ rfl
    · cases started
      exact matched.frame ⟨rfl, rfl, rfl, rfl, rfl⟩ rfl

theorem Pipelined.step {event : ConnectionEvent} (pipelined : connection.Pipelined)
    (stepped : connection.step event = some next) : next.Pipelined := by
  refine ⟨pipelined.wired.step stepped, ?_⟩
  obtain ⟨wired, matched⟩ := pipelined
  cases event with
  | send request streamed =>
      simp only [ConnectionProcess.step] at stepped
      split at stepped
      · split at stepped <;> cases stepped
        · exact matched.send ‹_›
        · exact matched
      · cases stepped
  | disconnect | sendFailed message =>
      simp only [ConnectionProcess.step] at stepped
      split at stepped <;> cases stepped
      exact matched_orAbort matched fun _ disconnects => matched.cutOff.disconnect_all disconnects
  | finalize =>
      simp only [ConnectionProcess.step] at stepped
      split at stepped <;> cases stepped
      refine matched_orAbort matched fun next finalizes => ?_
      simp only [ConnectionProcess.finalize, Option.bind_eq_bind,
        Option.bind_eq_some_iff] at finalizes
      obtain ⟨shut, disconnects, done⟩ := finalizes
      cases done
      exact (matched.cutOff.disconnect_all disconnects).frame ⟨rfl, rfl, rfl, rfl, rfl⟩ rfl
  | recv received =>
      simp only [ConnectionProcess.step] at stepped
      split at stepped <;> cases stepped
      rename_i receiving
      split
      · exact matched_orAbort matched.cutOff fun _ started =>
          Pipelined.startReading ⟨wired.cutOff, matched.cutOff⟩ receiving started
      · exact matched_orAbort matched fun _ started =>
          Pipelined.startReading ⟨wired, matched⟩ receiving started
  | callback callback =>
      simp only [ConnectionProcess.step] at stepped
      split at stepped
      · split at stepped
        · split at stepped <;> cases stepped
          all_goals exact matched.frame ⟨rfl, rfl, rfl, rfl, rfl⟩ rfl
        · cases stepped
      · cases stepped
  | error =>
      simp only [ConnectionProcess.step] at stepped
      split at stepped
      · split at stepped <;> cases stepped
        exact matched.frame ⟨rfl, rfl, rfl, rfl, rfl⟩ rfl
      · cases stepped
  | returned short =>
      simp only [ConnectionProcess.step] at stepped
      split at stepped
      · rename_i stale decoding
        split at stepped <;> cases stepped
        have messages : (connection.decoder.finish short).2 = connection.decoder.messages :=
          finish_messages short
        refine matched_orAbort (matched.frame ⟨rfl, rfl, rfl, rfl, rfl⟩ rfl) fun _ decoded => ?_
        refine Matched.afterDecode ?_ ?_ decoded
        · exact matched.frame ⟨rfl, rfl, rfl, rfl, rfl⟩ rfl
        · rw [messages]
          exact wired.live (by simp [decoding])
      · cases stepped
  | pipe pipe event =>
      simp only [ConnectionProcess.step] at stepped
      split at stepped <;> cases stepped
      all_goals exact matched.frame ⟨rfl, rfl, rfl, rfl, rfl⟩ rfl
  | conversionRead conversion =>
      obtain ⟨channel, -, -, -, -, rfl⟩ := conversionRead_eq_some stepped
      exact matched.frame ⟨rfl, rfl, rfl, rfl, rfl⟩ rfl
  | conversionGot conversion =>
      obtain ⟨channel, number, result, -, -, -, -, rfl⟩ := conversionGot_eq_some stepped
      exact matched.frame ⟨rfl, rfl, rfl, rfl, rfl⟩ rfl

theorem pipelined_of_reachable (reached : machine.Reachable connection) :
    connection.Pipelined := by
  refine reached.invariant Pipelined ?_ ?_
  · intro connection started
    cases started
    exact ⟨.init, .init⟩
  · intro connection event next pipelined _ stepped
    exact pipelined.step stepped

/-- No request is there for a response, or a response before it was announced to be the last. -/
def Unwanted (connection : ConnectionProcess) (number : Nat) : Prop :=
  connection.accepted.length ≤ number ∨ connection.ClosedBefore number

/-- Responses are delivered to the requests in order. -/
structure InOrder (connection : ConnectionProcess) : Prop where
  /-- A request gets no response but the one of its number. -/
  answers : ∀ request fate, (request, fate) ∈ connection.completions → ∀ number response,
    fate.response = some (number, response) →
      number = request ∧ connection.produced[request]? = some response
  /-- A response that is wanted is delivered, -/
  answered : ∀ number response, connection.produced[number]? = some response →
    ¬ connection.Unwanted number → connection.Answered number response
  /-- and one that is not is delivered to nobody, and the connection is disconnected. -/
  unanswered : ∀ number response, connection.produced[number]? = some response →
    connection.Unwanted number → connection.disconnection = true ∧
      ∀ request fate, (request, fate) ∈ connection.completions → ∀ response,
        fate.response ≠ some (number, response)
  /-- Behind a response that is announced to be the last, the rest of the pipeline is failed. -/
  failed : ∀ number response, connection.produced[number]? = some response →
    closes response = true → connection.pipeline = [] ∧
      ∀ request < connection.accepted.length, number < request →
        ∃ message, (request, .fail message) ∈ connection.completions
  once : (connection.completions.map Prod.fst).Nodup
  complete : connection.disconnection = true → connection.pipeline = [] ∧
    ∀ request < connection.accepted.length, ∃ fate, (request, fate) ∈ connection.completions
  refuses : connection.disconnection = true ∨
    (∃ request ∈ connection.accepted, request.start.keepAlive = false) ∨
    (∃ response ∈ connection.produced, closes response = true) →
      ∀ request streamed, ∃ message, connection.send request streamed = .error message

theorem send_refused (refused : connection.disconnection = true ∨ connection.close = true)
    (request : Request) (streamed : Bool) :
    ∃ message, connection.send request streamed = .error message := by
  unfold ConnectionProcess.send refusal
  rcases refused with disconnected | closed
  · exact ⟨"Disconnected", by simp [disconnected]⟩
  · cases connection.disconnection with
    | true => exact ⟨"Disconnected", rfl⟩
    | false => exact ⟨"Cannot pipeline after 'Connection: close'", by simp [closed]⟩

theorem closedBefore_of_produced {response : Response}
    (found : connection.produced[number]? = some response) (closed : closes response = true) :
    connection.ClosedBefore connection.produced.length :=
  ⟨number, (List.getElem?_eq_some_iff.mp found).1, response, found, closed⟩

section InOrder

variable (matched : connection.Matched connection.produced.length)

include matched

/-- The requests whose promises are completed were accepted. -/
theorem Matched.completed_lt {request : Nat} {fate : Fate}
    (member : (request, fate) ∈ connection.completions) : request < connection.accepted.length := by
  refine List.mem_range.mp (matched.numbered ▸ ?_)
  exact List.mem_append_left _ (List.mem_map.mpr ⟨_, member, rfl⟩)

/-- When nothing waits, all promises are completed. -/
theorem Matched.completed (drained : connection.pipeline = []) {request : Nat}
    (less : request < connection.accepted.length) :
    ∃ fate, (request, fate) ∈ connection.completions := by
  have numbered := matched.numbered
  rw [drained, List.map_nil, List.append_nil] at numbered
  have listed : request ∈ connection.completions.map Prod.fst := numbered ▸ List.mem_range.mpr less
  obtain ⟨⟨_, fate⟩, member, rfl⟩ := List.mem_map.mp listed
  exact ⟨fate, member⟩

/-- A response that is not wanted is delivered to nobody. -/
theorem Matched.unanswered (unwanted : connection.Unwanted number) {request : Nat} {fate : Fate}
    (member : (request, fate) ∈ connection.completions) (response : Response) :
    fate.response ≠ some (number, response) := by
  intro answers
  obtain ⟨rfl, -, unclosed⟩ := matched.answers request fate member number response answers
  rcases unwanted with few | closed
  · exact absurd (matched.completed_lt member) (Nat.not_lt.mpr few)
  · exact unclosed closed

end InOrder

/-- The responses of every run are delivered in order. -/
theorem responses_inOrder {connection : ConnectionProcess}
    (reached : machine.Reachable connection) : connection.InOrder := by
  obtain ⟨-, matched⟩ := pipelined_of_reachable reached
  have settled (number : Nat) (response : Response)
      (found : connection.produced[number]? = some response) :=
    matched.answered number (List.getElem?_eq_some_iff.mp found).1 response found
  refine ⟨fun request fate member number response answers => ?_,
    fun number response found wanted => ?_, fun number response found unwanted => ⟨?_, ?_⟩,
    fun number response found closed => ?_, ?_, fun disconnected => ?_, fun past => send_refused ?_⟩
  · obtain ⟨equal, found, -⟩ := matched.answers request fate member number response answers
    exact ⟨equal, found⟩
  · exact (settled number response found).resolve_right fun lost => wanted lost.2
  · rcases settled number response found with ⟨fate, member, answers⟩ | lost
    · exact absurd answers (matched.unanswered unwanted member response)
    · exact lost.1
  · exact fun _ _ member => matched.unanswered unwanted member
  · have drained := (matched.closing (closedBefore_of_produced found closed)).2
    refine ⟨drained, fun request less behind => ?_⟩
    obtain ⟨fate, member⟩ := matched.completed drained less
    have nobody := matched.unanswered (.inr ⟨number, behind, response, found, closed⟩) member
    cases fate with
    | fail message => exact ⟨message, member⟩
    | set other answer | associate other answer =>
        obtain ⟨rfl, -⟩ := matched.answers request _ member other answer rfl
        exact absurd rfl (nobody answer)
  · have nodup : (List.range connection.accepted.length).Nodup := List.nodup_range
    rw [← matched.numbered] at nodup
    exact (List.nodup_append.mp nodup).1
  · have drained := matched.drained disconnected
    exact ⟨drained, fun request less => matched.completed drained less⟩
  · rcases past with disconnected | ⟨request, member, stays⟩ | ⟨response, member, closed⟩
    · exact .inl disconnected
    · exact .inr (matched.keepAlive request member stays)
    · obtain ⟨number, found⟩ := List.mem_iff_getElem?.mp member
      exact ((matched.closing (closedBefore_of_produced found closed)).1).symm

/-- A request without a body. -/
def get (keepAlive : Bool) : Request :=
  ⟨⟨"GET", ⟨"/", [], none⟩, keepAlive⟩, [], .body, "", none⟩

/-- The callbacks for the head of a response with one header. -/
def head (field value : String) : List ConnectionEvent :=
  [.callback .messageBegin, .callback (.headerField field), .callback (.headerValue value),
    .callback (.headersComplete ⟨"", true, 200, false, false⟩)]

/-- Two requests are answered by the responses of one buffer, and a third one is failed. -/
theorem responses_inOrder_pipelined :
    ∃ connection, machine.run init
        ([.send (get true) true, .send (get true) false, .send (get false) true, .recv .data] ++
          head "Server" "a" ++ [.callback .messageComplete] ++ head "Connection" "close" ++
          [.callback .messageComplete, .returned false]) = some connection ∧
      connection.completions.map Prod.fst = [0, 1, 2] ∧ connection.InOrder := by
  obtain ⟨connection, ran, completed⟩ : ∃ connection ∈ machine.run init
      ([.send (get true) true, .send (get true) false, .send (get false) true, .recv .data] ++
        head "Server" "a" ++ [.callback .messageComplete] ++ head "Connection" "close" ++
        [.callback .messageComplete, .returned false]),
      connection.completions.map Prod.fst = [0, 1, 2] := by
    decide +kernel
  exact ⟨connection, ran, completed, responses_inOrder (.of_run rfl ran)⟩

/-- The second of two responses is not delivered, as the first was announced to be the last. -/
theorem not_all_answered :
    ¬ ∀ connection, machine.Reachable connection → ∀ number response,
      connection.produced[number]? = some response → number < connection.accepted.length →
        connection.Answered number response := by
  intro holds
  obtain ⟨connection, ran, produced, accepted, completions⟩ : ∃ connection ∈ machine.run init
      ([.send (get true) true, .send (get true) true, .recv .data] ++
        head "Connection" "close" ++ [.callback .messageComplete] ++ head "Server" "a" ++
        [.callback .messageComplete, .returned false]),
      connection.produced.length = 2 ∧ connection.accepted.length = 2 ∧
      (connection.completions.map fun entry => (entry.1, entry.2.response.map Prod.fst)) =
        [(0, some 0), (1, none)] := by
    decide +kernel
  obtain ⟨response, found⟩ : ∃ response, connection.produced[1]? = some response :=
    ⟨_, List.getElem?_eq_getElem (by omega)⟩
  obtain ⟨fate, member, answers⟩ := holds connection (.of_run rfl ran) 1 response found (by omega)
  have listed := List.mem_map_of_mem (f := fun entry : Nat × Fate =>
    (entry.1, entry.2.response.map Prod.fst)) member
  simp [completions, answers] at listed

end ConnectionProcess

end Libprocess.Connection
