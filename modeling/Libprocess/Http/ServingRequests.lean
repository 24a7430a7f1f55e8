import Libprocess.Http.Serving
import Mathlib.Data.List.ReduceOption

/-!
# The requests of a connection that is served

Every request goes through `pipeline` in the order in which it was received, to the sending loop or
to the loop that deletes what remains.  Each is deleted once, after its last use.
-/

namespace Libprocess.Serving

open Concurrency
open Http (Opened Outcome Response Writer)
open Transmission (Encoder)

variable {writer : Writer} {state next : Serve}

/-! ## Where the requests are -/

/-- The request that `receive` is about to put. -/
def Receiver.pending (count : Nat) : Receiver → List Nat
  | .putting _ => [count - 1]
  | _ => []

/-- The request that `send` has got and not released. -/
def Sender.holding : Sender → List Nat
  | .given item => item.toList
  | .awaiting number => [number]
  | .sending number _ _ => [number]
  | _ => []

def Drain.holding : Drain → List Nat
  | .given item => item.toList
  | _ => []

namespace Serve

def queued (state : Serve) : List Nat := state.elements.reduceOption

/-- The requests that may still be used, in the order in which they were received. -/
def line (state : Serve) : List Nat :=
  state.sender.holding ++ state.drain.holding ++ state.queued ++
    state.receiver.pending state.requests.length

/-- The requests that are given up: `delete request` is run, or will be run as a callback. -/
def freed (state : Serve) : List Nat := state.releasing ++ state.deleted

theorem freed_release {number : Nat} (releasing : next.releasing = state.releasing ++ [number])
    (deleted : next.deleted = state.deleted) : next.freed.length = state.freed.length + 1 := by
  rw [freed, freed, releasing, deleted, List.length_append, List.length_append, List.length_append,
    List.length_singleton]
  omega

end Serve

def Receiver.Finished (receiver : Receiver) : Prop := ∃ ended, receiver = .finished ended

def Sender.Finished (sender : Sender) : Prop := ∃ ended, sender = .finished ended

theorem Receiver.unfinished {receiver other : Receiver} (current : receiver = other)
    (running : ∀ ended, other ≠ .finished ended) : ¬ receiver.Finished := by
  rintro ⟨ended, finished⟩
  exact running ended (current.symm.trans finished)

theorem Sender.unfinished {sender other : Sender} (current : sender = other)
    (running : ∀ ended, other ≠ .finished ended) : ¬ sender.Finished := by
  rintro ⟨ended, finished⟩
  exact running ended (current.symm.trans finished)

/-! ## Steps -/

/-- What a step does. -/
inductive Stepped (writer : Writer) (state : Serve) : Serve → Prop where
  | receives {receiver : Receiver} : ¬ state.receiver.Finished →
      (∀ count, state.receiver.pending count = []) → (∀ count, receiver.pending count = []) →
      Stepped writer state { state with receiver := receiver }
  | arrives {request : Request} {rest : List Request} :
      state.receiver = .handling (request :: rest) →
      Stepped writer state (state.handle (request :: rest))
  | put {rest : List Request} : state.receiver = .putting rest →
      Stepped writer state ({ state with receiver := .handling rest }.enqueue
        (some (state.requests.length - 1)))
  | signify {ended : Ended} : state.receiver = .finished ended → state.signified = false →
      Stepped writer state ({ state with signified := true }.enqueue none)
  | settle {number : Nat} {handled : Handled} : state.handled number = .pending →
      Stepped writer state
        { state with handled := Function.update state.handled number handled }
  | waits : state.sender = .iterating → state.elements = [] →
      Stepped writer state { state with sender := .getting }
  | gets {item : Option Nat} {rest : List (Option Nat)} : state.sender = .iterating →
      state.elements = item :: rest →
      Stepped writer state { state with sender := .given item, elements := rest }
  | getDiscarded : state.sender = .getting →
      Stepped writer state { state with sender := .finished .discarded }
  | breaks : state.sender = .given none →
      Stepped writer state { state with sender := .finished .ready }
  | begins {number : Nat} : state.sender = .given (some number) →
      Stepped writer state { state with sender := .awaiting number }
  | responds {number : Nat} {answer : Answer} : state.sender = .awaiting number →
      state.requests[number]? = some answer.request →
      (state.handled number).response = some answer.response →
      answer.reads = none ∨ answer.reads = some [] →
      Stepped writer state
        { state with sender := .sending number answer (answer.encoders writer) }
  | awaitDiscarded {number : Nat} {discards : List Nat} : state.sender = .awaiting number →
      state.sendingDiscard = true →
      discards = state.discards ∨ discards = state.discards ++ [number] →
      Stepped writer state ({ state with discards := discards }.endSending number .discarded)
  | transmits {number : Nat} {answer : Answer} {encoder : Encoder}
      {rest : List Encoder} {length : Nat} :
      state.sender = .sending number answer (encoder :: rest) → length ≤ encoder.next.2.size →
      Stepped writer state (state.taken number answer encoder rest length)
  | reads {number : Nat} {answer : Answer} {data : String} :
      state.sender = .sending number answer [] → answer.streams = true →
      Stepped writer state (state.stream number answer (.ready data))
  | fails {number : Nat} {answer : Answer} {encoders : List Encoder} {ended : Ended} :
      state.sender = .sending number answer encoders → ended ≠ .ready →
      Stepped writer state (state.endSending number ended)
  | sent {number : Nat} {answer : Answer} : state.sender = .sending number answer [] →
      answer.streams = false → Stepped writer state (state.persist number answer)
  | delete {number : Nat} : number ∈ state.releasing →
      Stepped writer state { state with
        releasing := state.releasing.erase number
        deleted := state.deleted ++ [number] }
  | awaited {receiving sending : Ended} : state.receiver = .finished receiving →
      state.sender = .finished sending → state.drain = .waiting →
      Stepped writer state
        { state with drain := if state.elements.length = 0 then .finished else .iterating }
  | drainWaits : state.drain = .iterating → state.elements = [] →
      Stepped writer state { state with drain := .getting }
  | drainGets {item : Option Nat} {rest : List (Option Nat)} : state.drain = .iterating →
      state.elements = item :: rest →
      Stepped writer state { state with drain := .given item, elements := rest }
  | drained {item : Option Nat} : state.drain = .given item →
      Stepped writer state (state.drained item)
  | completes {ended : Ended} : Stepped writer state { state with result := some ended }
  | discard : Stepped writer state { state with discard := true }
  | discardReceiving : state.discard = true →
      Stepped writer state { state with receivingDiscard := true }
  | discardSending : state.receivingDiscard = true →
      Stepped writer state { state with sendingDiscard := true }

theorem Stepped.of_receiving {receiver : Receiver}
    (receiving : state.receiver = .receiving ∨ state.receiver = .handling [])
    (pending : ∀ count, receiver.pending count = []) :
    Stepped writer state { state with receiver := receiver } := by
  obtain receiving | receiving := receiving
  all_goals
    refine .receives (Receiver.unfinished receiving nofun) (fun count => ?_) pending
    rw [receiving]
    rfl

theorem Serve.receiverStep_stepped {move : Move} (stepped : state.receiverStep move = some next) :
    Stepped writer state next := by
  unfold Serve.receiverStep at stepped
  split at stepped <;> try cases stepped
  all_goals split at stepped <;> try cases stepped
  · next receiver =>
      unfold Serve.received
      split
      · exact .of_receiving (.inl receiver) fun _ => rfl
      · exact .of_receiving (.inl receiver) fun _ => rfl
  · next receiver => exact .of_receiving (.inl receiver) fun _ => rfl
  · next receiver => exact .of_receiving (.inl receiver) fun _ => rfl
  · next receiver =>
      split at stepped
      · cases stepped
        exact .of_receiving (.inl receiver) fun _ => rfl
      · cases stepped
  · next requests receiver =>
      cases requests with
      | nil => exact .of_receiving (.inr receiver) fun _ => rfl
      | cons request rest => exact .arrives receiver
  · next receiver => exact .put receiver
  · next receiver =>
      split at stepped
      · cases stepped
      · next silent =>
          cases stepped
          exact .signify receiver (by simpa using silent)

theorem Serve.senderStep_stepped {move : Move}
    (stepped : state.senderStep writer move = some next) : Stepped writer state next := by
  unfold Serve.senderStep at stepped
  split at stepped
  · split at stepped <;> cases stepped
    · next sender elements => exact .waits sender elements
    · next sender elements => exact .gets sender elements
  · split at stepped <;> try cases stepped
    next sender =>
      split at stepped <;> cases stepped
      exact .getDiscarded sender
  · split at stepped <;> cases stepped
    · next sender => exact .breaks sender
    · next sender => exact .begins sender
  · split at stepped <;> try cases stepped
    next reader _ number sender =>
      simp only [Option.bind_eq_bind, Option.bind_eq_some_iff, Option.pure_def,
        Option.some.injEq] at stepped
      obtain ⟨request, requested, response, responded, rfl⟩ := stepped
      refine .responds sender requested responded ?_
      cases reader with
      | false => exact .inl rfl
      | true => exact .inr rfl
  · split at stepped <;> try cases stepped
    next reached _ number sender =>
      split at stepped <;> cases stepped
      next permitted =>
        refine .awaitDiscarded sender permitted.1 ?_
        cases reached with
        | false => exact .inl rfl
        | true => exact .inr rfl
  · split at stepped <;> try cases stepped
    next sender =>
      split at stepped <;> cases stepped
      next asked => exact .transmits sender asked.2
  · split at stepped <;> try cases stepped
    next chunk _ number answer sender =>
      split at stepped <;> cases stepped
      next streams =>
        cases chunk with
        | ready => exact .reads sender streams
        | failed | discarded => exact .fails sender (by rintro ⟨⟩)
  · split at stepped <;> cases stepped
    next sender => exact .fails sender (by rintro ⟨⟩)
  · split at stepped <;> try cases stepped
    next sender =>
      split at stepped <;> cases stepped
      exact .fails sender (by rintro ⟨⟩)
  · split at stepped <;> try cases stepped
    next sender =>
      split at stepped <;> cases stepped
      next streams => exact .sent sender (by simpa using streams)
  · cases stepped

theorem Serve.serveStep_stepped {move : Move} (stepped : state.serveStep move = some next) :
    Stepped writer state next := by
  unfold Serve.serveStep at stepped
  split at stepped
  · split at stepped <;> try cases stepped
    next pending =>
      split at stepped <;> cases stepped
      exact .settle pending
  · split at stepped <;> cases stepped
    next member => exact .delete member
  · split at stepped <;> cases stepped
    next receiver sender drain => exact .awaited receiver sender drain
  · split at stepped <;> cases stepped
    · next drain elements => exact .drainWaits drain elements
    · next drain elements => exact .drainGets drain elements
  · split at stepped <;> cases stepped
    next drain => exact .drained drain
  · split at stepped <;> cases stepped
    exact .completes
  · split at stepped <;> cases stepped
    exact .discard
  · split at stepped <;> cases stepped
    next discard => exact .discardReceiving discard
  · split at stepped <;> cases stepped
    next discard => exact .discardSending discard
  · cases stepped

theorem stepped_of_step {move : Move} (stepped : state.step writer move = some next) :
    Stepped writer state next := by
  simp only [Serve.step, Option.or_eq_some_iff] at stepped
  obtain receiver | ⟨_, sender | ⟨_, other⟩⟩ := stepped
  · exact state.receiverStep_stepped receiver
  · exact state.senderStep_stepped sender
  · exact state.serveStep_stepped other

/-! ## The queue -/

/-- What is known while the queue is drained.  The loop ends with the `None` that `receive` puts
last. -/
def Serve.Draining (state : Serve) : Drain → Prop
  | .iterating => state.signified = true → none ∈ state.elements
  | .getting => state.signified = false ∧ state.elements = []
  | .given (some _) => state.signified = true → none ∈ state.elements
  | .given none => state.queued = []
  | .finished => state.queued = []
  | .waiting => False

/-- The shape of the queue, and who waits for it. -/
structure Queued (state : Serve) : Prop where
  shape : none ∉ state.elements.dropLast
  marked : none ∈ state.elements → state.signified = true
  ends : state.signified = true → state.elements = [] ∨ none ∈ state.elements
  signified : state.signified = true → state.receiver.Finished
  waits : state.sender = .getting → state.elements = []
  breaks : state.sender = .given none → state.elements = [] ∧ state.signified = true
  drains : state.drain = .waiting ∨
    state.receiver.Finished ∧ state.sender.Finished ∧ state.Draining state.drain

namespace Queued

theorem new : Queued .new where
  shape := List.not_mem_nil
  marked member := absurd member List.not_mem_nil
  ends _ := .inl rfl
  signified signified := nomatch signified
  waits _ := rfl
  breaks sender := nomatch sender
  drains := .inl rfl

/-- Nothing is behind `None`. -/
theorem rest_nil {rest : List (Option Nat)}
    (shape : none ∉ (none :: rest : List (Option Nat)).dropLast) : rest = [] := by
  cases rest with
  | nil => rfl
  | cons item rest => exact absurd List.mem_cons_self shape

theorem shape_tail {item : Option Nat} {rest : List (Option Nat)}
    (shape : none ∉ (item :: rest).dropLast) : none ∉ rest.dropLast := by
  cases rest with
  | nil => exact List.not_mem_nil
  | cons other rest =>
      rw [List.dropLast_cons_cons] at shape
      exact fun member => shape (List.mem_cons_of_mem _ member)

/-- The next item is taken from the queue. -/
theorem ends_tail {item : Option Nat} {rest : List (Option Nat)} {signified : Bool}
    (shape : none ∉ (item :: rest).dropLast)
    (ends : signified = true → item :: rest = [] ∨ none ∈ item :: rest) :
    signified = true → rest = [] ∨ none ∈ rest := by
  intro yes
  cases item with
  | none => exact .inl (rest_nil shape)
  | some number =>
      refine .inr ?_
      obtain empty | member := ends yes
      · cases empty
      · exact (List.mem_cons.mp member).resolve_left nofun

variable (queued : Queued state)
include queued

theorem open_of_receiving (receiving : ¬ state.receiver.Finished) :
    state.signified = false ∧ state.drain = .waiting := by
  constructor
  · exact Bool.eq_false_iff.mpr fun signified => receiving (queued.signified signified)
  · exact queued.drains.resolve_right fun drains => receiving drains.1

theorem waiting_of_sending (sending : ¬ state.sender.Finished) : state.drain = .waiting :=
  queued.drains.resolve_right fun drains => sending drains.2.1

theorem of_same (receiver : next.receiver = state.receiver)
    (signified : next.signified = state.signified) (elements : next.elements = state.elements)
    (sender : next.sender = state.sender) (drain : next.drain = state.drain) : Queued next := by
  obtain ⟨shape, marked, ends, finished, waits, breaks, drains⟩ := queued
  have draining : next.Draining = state.Draining := by
    funext drain
    cases drain with
    | given item => cases item <;> simp only [Serve.Draining, Serve.queued, signified, elements]
    | _ => simp only [Serve.Draining, Serve.queued, signified, elements]
  constructor <;> simp only [receiver, signified, elements, sender, drain, draining] <;> assumption

/-- An item may be taken from the queue. -/
theorem taken (signified : next.signified = state.signified)
    (elements : next.elements = state.elements ∨ ∃ item, state.elements = item :: next.elements) :
    none ∉ next.elements.dropLast ∧ (none ∈ next.elements → next.signified = true) ∧
      (next.signified = true → next.elements = [] ∨ none ∈ next.elements) := by
  obtain ⟨shape, marked, ends, -⟩ := queued
  rw [signified]
  obtain same | ⟨item, head⟩ := elements
  · rw [same]
    exact ⟨shape, marked, ends⟩
  · rw [head] at shape marked ends
    exact ⟨shape_tail shape, fun member => marked (List.mem_cons_of_mem _ member),
      ends_tail shape ends⟩

/-- The receiving loop goes on. -/
theorem receives (receiving : ¬ state.receiver.Finished)
    (signified : next.signified = state.signified) (elements : next.elements = state.elements)
    (sender : next.sender = state.sender) (drain : next.drain = state.drain) : Queued next := by
  obtain ⟨silent, waiting⟩ := queued.open_of_receiving receiving
  obtain ⟨shape, marked, ends⟩ := queued.taken signified (.inl elements)
  refine ⟨shape, marked, ends, ?_, ?_, ?_, .inl (drain.trans waiting)⟩
  · rw [signified, silent]
    exact nofun
  · rw [sender, elements]
    exact queued.waits
  · rw [sender, elements, signified]
    exact queued.breaks

/-- The sending loop goes on. -/
theorem sends (sending : ¬ state.sender.Finished) (receiver : next.receiver = state.receiver)
    (signified : next.signified = state.signified) (drain : next.drain = state.drain)
    (elements : next.elements = state.elements ∨ ∃ item, state.elements = item :: next.elements)
    (waits : next.sender = .getting → next.elements = [])
    (breaks : next.sender = .given none → next.elements = [] ∧ next.signified = true) :
    Queued next := by
  have waiting : next.drain = .waiting := drain.trans (queued.waiting_of_sending sending)
  have finished : next.signified = true → next.receiver.Finished := by
    rw [signified, receiver]
    exact queued.signified
  obtain ⟨shape, marked, ends⟩ := queued.taken signified elements
  exact ⟨shape, marked, ends, finished, waits, breaks, .inl waiting⟩

end Queued

theorem Serve.enqueue_cases (state : Serve) (item : Option Nat) :
    state.sender = .getting ∧ state.enqueue item = { state with sender := .given item } ∨
    state.sender ≠ .getting ∧ state.drain = .getting ∧
      state.enqueue item = { state with drain := .given item } ∨
    state.sender ≠ .getting ∧ state.drain ≠ .getting ∧
      state.enqueue item = { state with elements := state.elements ++ [item] } := by
  unfold Serve.enqueue
  split
  · next sender => exact .inl ⟨sender, rfl⟩
  · next drain other => exact .inr (.inl ⟨other, drain, rfl⟩)
  · next other drain => exact .inr (.inr ⟨other, drain, rfl⟩)

theorem Serve.queued_append_none (state : Serve) :
    (state.elements ++ [none]).reduceOption = state.queued := by
  rw [List.reduceOption_append]
  exact List.append_nil _

namespace Queued

section

variable (queued : Queued state)

include queued

theorem enqueue_some (receiving : ¬ state.receiver.Finished)
    (number : Nat) : Queued (state.enqueue (some number)) := by
  obtain ⟨silent, waiting⟩ := queued.open_of_receiving receiving
  obtain ⟨sender, same⟩ | ⟨_, drain, _⟩ | ⟨getting, _, same⟩ := state.enqueue_cases (some number)
  · rw [same]
    have sending := Sender.unfinished sender nofun
    exact queued.sends sending rfl rfl rfl (.inl rfl) nofun nofun
  · cases waiting.symm.trans drain
  · have absent : none ∉ state.elements := by
      intro member
      cases (queued.marked member).symm.trans silent
    rw [same]
    constructor
    · rw [List.dropLast_concat]
      exact absent
    · intro member
      obtain earlier | last := List.mem_append.mp member
      · exact absurd earlier absent
      · cases List.mem_singleton.mp last
    · exact fun signified => nomatch signified.symm.trans silent
    · exact fun signified => nomatch signified.symm.trans silent
    · exact fun sender => absurd sender getting
    · exact fun sender => nomatch (queued.breaks sender).2.symm.trans silent
    · exact .inl waiting

theorem signify {ended : Ended}
    (receiver : state.receiver = .finished ended) (silent : state.signified = false) :
    Queued ({ state with signified := true }.enqueue none) := by
  have absent : none ∉ state.elements := by
    intro member
    cases (queued.marked member).symm.trans silent
  have finished : state.receiver.Finished := ⟨ended, receiver⟩
  obtain ⟨sender, same⟩ | ⟨_, drain, same⟩ | ⟨getting, draining, same⟩ :=
    ({ state with signified := true } : Serve).enqueue_cases none
  · have empty := queued.waits sender
    have waiting := queued.waiting_of_sending (Sender.unfinished sender nofun)
    rw [same]
    refine ⟨queued.shape, fun _ => rfl, fun _ => .inl empty, fun _ => finished, ?_, ?_,
      .inl waiting⟩
    · exact nofun
    · exact fun _ => ⟨empty, rfl⟩
  · obtain waiting | ⟨_, sender, drains⟩ := queued.drains
    · cases drain.symm.trans waiting
    · have empty : state.elements = [] := by
        rw [show state.drain = .getting from drain] at drains
        exact drains.2
      obtain ⟨ending, sender⟩ := sender
      rw [same]
      refine ⟨queued.shape, fun _ => rfl, fun _ => .inl empty, fun _ => finished, ?_, ?_,
        .inr ⟨finished, ⟨ending, sender⟩, ?_⟩⟩
      · exact fun getting => nomatch getting.symm.trans sender
      · exact fun breaks => nomatch breaks.symm.trans sender
      · exact congrArg List.reduceOption empty
  · have last : none ∈ state.elements ++ [none] := List.mem_append_right _ List.mem_cons_self
    rw [same]
    refine ⟨?_, fun _ => rfl, fun _ => .inr last, fun _ => finished, ?_, ?_, ?_⟩
    · rw [List.dropLast_concat]
      exact absent
    · exact fun sender => absurd sender getting
    · exact fun breaks => nomatch (queued.breaks breaks).2.symm.trans silent
    · obtain waiting | ⟨_, sender, drains⟩ := queued.drains
      · exact .inl waiting
      · refine .inr ⟨finished, sender, ?_⟩
        change Serve.Draining _ state.drain
        cases drain : state.drain with
        | waiting =>
            rw [drain] at drains
            exact drains
        | iterating => exact fun _ => last
        | getting => exact absurd drain draining
        | given item =>
            rw [drain] at drains
            cases item with
            | none => exact state.queued_append_none.trans drains
            | some number => exact fun _ => last
        | finished =>
            rw [drain] at drains
            exact state.queued_append_none.trans drains

/-- The queue is drained. -/
theorem drain (receiver : next.receiver = state.receiver)
    (signified : next.signified = state.signified) (sender : next.sender = state.sender)
    (finished : state.receiver.Finished ∧ state.sender.Finished)
    (elements : next.elements = state.elements ∨ ∃ item, state.elements = item :: next.elements)
    (drains : next.Draining next.drain) : Queued next := by
  have draining : next.receiver.Finished ∧ next.sender.Finished ∧ next.Draining next.drain := by
    rw [receiver, sender]
    exact ⟨finished.1, finished.2, drains⟩
  obtain ⟨ending, ended⟩ := finished.2
  have waits : next.sender ≠ .getting := by
    rw [sender, ended]
    exact nofun
  have breaks : next.sender ≠ .given none := by
    rw [sender, ended]
    exact nofun
  obtain ⟨shape, marked, ends⟩ := queued.taken signified elements
  exact ⟨shape, marked, ends, fun _ => draining.1, fun getting => absurd getting waits,
    fun given => absurd given breaks, .inr draining⟩

theorem draining (drain : state.drain ≠ .waiting) :
    (state.receiver.Finished ∧ state.sender.Finished) ∧ state.Draining state.drain := by
  obtain waiting | ⟨receiver, sender, drains⟩ := queued.drains
  · exact absurd waiting drain
  · exact ⟨⟨receiver, sender⟩, drains⟩

theorem stepped (stepped : Stepped writer state next) : Queued next := by
  cases stepped with
  | receives receiving => exact queued.receives receiving rfl rfl rfl rfl
  | arrives receiver =>
      exact queued.receives (Receiver.unfinished receiver nofun) rfl rfl rfl rfl
  | @put rest receiver =>
      have receiving := Receiver.unfinished receiver nofun
      have between : Queued { state with receiver := .handling rest } :=
        queued.receives receiving rfl rfl rfl rfl
      exact between.enqueue_some (by rintro ⟨_, ⟨⟩⟩) _
  | signify receiver silent => exact queued.signify receiver silent
  | waits sender elements =>
      exact queued.sends (Sender.unfinished sender nofun) rfl rfl rfl
        (.inl rfl) (fun _ => elements) nofun
  | @gets item rest sender elements =>
      refine queued.sends (Sender.unfinished sender nofun) rfl rfl rfl
        (.inr ⟨item, elements⟩) nofun ?_
      intro given
      cases given
      have shape := queued.shape
      rw [elements] at shape
      exact ⟨rest_nil shape, queued.marked (elements ▸ List.mem_cons_self)⟩
  | getDiscarded sender | breaks sender | begins sender | responds sender
  | awaitDiscarded sender | transmits sender | reads sender | fails sender =>
      exact queued.sends (Sender.unfinished sender nofun) rfl rfl rfl
        (.inl rfl) nofun nofun
  | sent sender =>
      have sending := Sender.unfinished sender nofun
      unfold Serve.persist
      split
      · exact queued.sends sending rfl rfl rfl (.inl rfl) nofun nofun
      · exact queued.sends sending rfl rfl rfl (.inl rfl) nofun nofun
  | awaited receiver sender waiting =>
      refine queued.drain rfl rfl rfl ⟨⟨_, receiver⟩, ⟨_, sender⟩⟩ (.inl rfl) ?_
      change Serve.Draining _ (if _ then _ else _)
      split
      · next empty => exact congrArg List.reduceOption (List.length_eq_zero_iff.mp empty)
      · next filled =>
          intro signified
          refine (queued.ends signified).resolve_left fun empty => filled ?_
          rw [empty]
          rfl
  | drainWaits drain elements =>
      obtain ⟨finished, drains⟩ := queued.draining (by rw [drain]; exact nofun)
      refine queued.drain rfl rfl rfl finished (.inl rfl) ⟨?_, elements⟩
      rw [drain] at drains
      refine Bool.eq_false_iff.mpr fun signified => ?_
      have member := drains signified
      rw [elements] at member
      cases member
  | @drainGets item rest drain elements =>
      obtain ⟨finished, drains⟩ := queued.draining (by rw [drain]; exact nofun)
      rw [drain] at drains
      refine queued.drain rfl rfl rfl finished (.inr ⟨item, elements⟩) ?_
      cases item with
      | none =>
          have shape := queued.shape
          rw [elements] at shape
          exact congrArg List.reduceOption (rest_nil shape)
      | some number =>
          intro signified
          have member := drains signified
          rw [elements] at member
          exact (List.mem_cons.mp member).resolve_left nofun
  | @drained item drain =>
      obtain ⟨finished, drains⟩ := queued.draining (by rw [drain]; exact nofun)
      rw [drain] at drains
      cases item with
      | none | some number => exact queued.drain rfl rfl rfl finished (.inl rfl) drains
  | settle | delete | completes | discard | discardReceiving | discardSending =>
      exact queued.of_same rfl rfl rfl rfl rfl

end

end Queued

theorem queued_of_reachable (reached : (serve writer).Reachable state) : Queued state := by
  apply reached.invariant Queued
  · rintro _ rfl
    exact .new
  · intro _ _ _ queued _ stepped
    exact queued.stepped (stepped_of_step stepped)

/-! ## What happens to the requests -/

/-- What a step does to the requests that may still be used and to those that are given up. -/
inductive Passes (state next : Serve) : Prop where
  | keeps : next.requests = state.requests → next.line = state.line →
      next.freed.Perm state.freed → Passes state next
  | arrives {request : Request} : next.requests = state.requests ++ [request] →
      next.line = state.line ++ [state.requests.length] → next.freed = state.freed →
      Passes state next
  | releases {number : Nat} : next.requests = state.requests → state.line = number :: next.line →
      next.freed.Perm (state.freed ++ [number]) → Passes state next

namespace Queued

theorem getting (queued : Queued state) (sender : state.sender = .getting) :
    state.drain = .waiting ∧ state.elements = [] := by
  exact ⟨queued.waiting_of_sending (Sender.unfinished sender nofun), queued.waits sender⟩

theorem drainGetting (queued : Queued state) (drain : state.drain = .getting) :
    state.elements = [] := by
  obtain ⟨_, drains⟩ := queued.draining (by rw [drain]; exact nofun)
  rw [drain] at drains
  exact drains.2

end Queued

namespace Serve

/-- An item that is put stays in line. -/
theorem line_enqueue (state : Serve) (item : Option Nat)
    (getting : state.sender = .getting → state.drain = .waiting ∧ state.elements = [])
    (draining : state.drain = .getting → state.elements = []) :
    (state.enqueue item).line =
      state.sender.holding ++ state.drain.holding ++ state.queued ++ item.toList ++
        state.receiver.pending state.requests.length := by
  obtain ⟨sender, same⟩ | ⟨_, drain, same⟩ | ⟨_, _, same⟩ := state.enqueue_cases item
  · obtain ⟨waiting, empty⟩ := getting sender
    simp [same, line, queued, sender, waiting, empty, Sender.holding, Drain.holding]
  · simp [same, line, queued, drain, draining drain, Drain.holding]
  · cases item with
    | none | some number => simp [same, line, queued, List.reduceOption_append]

theorem enqueue_requests (state : Serve) (item : Option Nat) :
    (state.enqueue item).requests = state.requests ∧ (state.enqueue item).freed = state.freed := by
  obtain ⟨_, same⟩ | ⟨_, _, same⟩ | ⟨_, _, same⟩ := state.enqueue_cases item <;> rw [same] <;>
    exact ⟨rfl, rfl⟩

/-- The sending loop gives up its request. -/
theorem releases {number : Nat} (holding : state.sender.holding = [number])
    (empty : next.sender.holding = []) (drain : next.drain = state.drain)
    (elements : next.elements = state.elements) (receiver : next.receiver = state.receiver)
    (requests : next.requests = state.requests)
    (releasing : next.releasing = state.releasing ++ [number])
    (deleted : next.deleted = state.deleted) : Passes state next := by
  have line : state.line = number :: next.line := by
    simp [line, queued, holding, empty, drain, elements, receiver, requests]
  have freed : next.freed.Perm (state.freed ++ [number]) := by
    rw [freed, Serve.freed, releasing, deleted, List.append_assoc, List.append_assoc]
    exact List.perm_append_comm.append_left _
  exact .releases requests line freed

/-- The requests stay where they are, or the first of the queue is taken out. -/
theorem keeps (requests : next.requests = state.requests)
    (pending : next.receiver.pending state.requests.length =
      state.receiver.pending state.requests.length)
    (line : next.sender.holding ++ next.drain.holding ++ next.queued =
      state.sender.holding ++ state.drain.holding ++ state.queued)
    (freed : next.freed.Perm state.freed) : Passes state next := by
  refine .keeps requests ?_ freed
  rw [Serve.line, Serve.line, line, requests, pending]

theorem delete_perm {number : Nat} (member : number ∈ state.releasing) :
    (state.releasing.erase number ++ (state.deleted ++ [number])).Perm state.freed := by
  have front := (List.perm_cons_erase member).append_right state.deleted
  have back : (state.releasing.erase number ++ state.deleted ++ [number]).Perm
      (number :: (state.releasing.erase number ++ state.deleted)) := List.perm_append_comm
  rw [List.append_assoc] at back
  exact back.trans front.symm

end Serve

theorem Stepped.passes (stepped : Stepped writer state next) (queued : Queued state) :
    Passes state next := by
  cases stepped with
  | receives _ before after => exact Serve.keeps rfl ((after _).trans (before _).symm) rfl .rfl
  | arrives receiver =>
      refine .arrives rfl ?_ rfl
      simp [Serve.line, Serve.handle, Serve.queued, receiver, Receiver.pending]
  | @put rest receiver =>
      have same := ({ state with receiver := .handling rest } : Serve).enqueue_requests
        (some (state.requests.length - 1))
      refine .keeps same.1 ?_ (.of_eq same.2)
      refine (Serve.line_enqueue _ _ ?_ ?_).trans ?_
      · exact queued.getting
      · exact queued.drainGetting
      · simp [Serve.line, Serve.queued, receiver, Receiver.pending]
  | signify receiver silent =>
      have same := ({ state with signified := true } : Serve).enqueue_requests none
      refine .keeps same.1 ?_ (.of_eq same.2)
      refine (Serve.line_enqueue _ _ ?_ ?_).trans ?_
      · exact queued.getting
      · exact queued.drainGetting
      · simp [Serve.line, Serve.queued]
  | waits sender | getDiscarded sender | breaks sender | begins sender | responds sender
  | transmits sender | reads sender => exact Serve.keeps rfl rfl (by rw [sender]; rfl) .rfl
  | @gets item rest sender elements =>
      have waiting := queued.waiting_of_sending (Sender.unfinished sender nofun)
      refine Serve.keeps rfl rfl ?_ .rfl
      cases item <;>
        simp [Serve.queued, sender, waiting, elements, Sender.holding, Drain.holding,
          List.reduceOption_cons_of_some, List.reduceOption_cons_of_none]
  | awaitDiscarded sender | fails sender =>
      exact Serve.releases (by rw [sender]; rfl) rfl rfl rfl rfl rfl rfl rfl
  | sent sender =>
      unfold Serve.persist
      split
      · exact Serve.releases (by rw [sender]; rfl) rfl rfl rfl rfl rfl rfl rfl
      · exact Serve.releases (by rw [sender]; rfl) rfl rfl rfl rfl rfl rfl rfl
  | delete member => exact .keeps rfl rfl (Serve.delete_perm member)
  | awaited _ _ waiting =>
      refine Serve.keeps rfl rfl ?_ .rfl
      rw [waiting]
      split <;> rfl
  | drainWaits drain => exact Serve.keeps rfl rfl (by rw [drain]; rfl) .rfl
  | @drainGets item rest drain elements =>
      refine Serve.keeps rfl rfl ?_ .rfl
      cases item <;>
        simp [Serve.queued, drain, elements, Drain.holding,
          List.reduceOption_cons_of_some, List.reduceOption_cons_of_none]
  | @drained item drain =>
      obtain ⟨⟨_, ended, sender⟩, _⟩ := queued.draining (by rw [drain]; exact nofun)
      cases item with
      | none => exact Serve.keeps rfl rfl (by rw [drain]; rfl) .rfl
      | some number =>
          refine .releases rfl ?_ (.of_eq (List.append_assoc _ _ _).symm)
          simp [Serve.line, Serve.queued, Serve.drained, drain, sender, Sender.holding,
            Drain.holding]
  | settle | completes | discard | discardReceiving | discardSending =>
      exact .keeps rfl rfl .rfl

/-! ## Every request is deleted once -/

/-- The requests are given up in the order in which they were received. -/
structure Accounted (state : Serve) : Prop where
  line : List.range state.freed.length ++ state.line = List.range state.requests.length
  freed : state.freed.Perm (List.range state.freed.length)

namespace Accounted

theorem new : Accounted .new := ⟨rfl, .refl _⟩

variable (accounted : Accounted state)
include accounted

/-- The first in line is the next to be given up. -/
theorem first {number : Nat} {rest : List Nat} (line : state.line = number :: rest) :
    number = state.freed.length := by
  have whole := accounted.line
  rw [line] at whole
  have at_number := congrArg (fun numbers => numbers[state.freed.length]?) whole
  simp only [List.length_range, Nat.le_refl, List.getElem?_append_right, Nat.sub_self,
    List.getElem?_cons_zero] at at_number
  exact (List.getElem?_eq_some_iff.mp at_number.symm).2.symm.trans (List.getElem_range _)

theorem awaiting {number : Nat} (sender : state.sender = .awaiting number) :
    number = state.freed.length := by
  have line : state.line = number :: (state.drain.holding ++ state.queued ++
      state.receiver.pending state.requests.length) := by
    simp [Serve.line, sender, Sender.holding]
  exact accounted.first line

theorem passes (passes : Passes state next) : Accounted next := by
  have whole := accounted.line
  cases passes with
  | keeps requests line freed =>
      have length := freed.length_eq
      constructor
      · rw [requests, line, length]
        exact whole
      · rw [length]
        exact freed.trans accounted.freed
  | arrives requests line freed =>
      constructor
      · rw [requests, line, freed, ← List.append_assoc, whole, List.length_append,
          List.length_singleton, List.range_succ]
      · rw [freed]
        exact accounted.freed
  | @releases number requests line freed =>
      have first := accounted.first line
      have length : next.freed.length = state.freed.length + 1 := by
        rw [freed.length_eq, List.length_append, List.length_singleton]
      constructor
      · rw [requests, ← whole, line, length, List.range_succ, List.append_assoc, first]
        rfl
      · rw [length, List.range_succ]
        rw [first] at freed
        exact freed.trans (accounted.freed.append_right _)

theorem not_freed {number : Nat} (member : number ∈ state.line) : number ∉ state.freed := by
  intro freed
  have disjoint := accounted.line ▸ List.nodup_range
  exact (List.nodup_append.mp disjoint).2.2 number (accounted.freed.mem_iff.mp freed) number
    member rfl

theorem freed_lt {number : Nat} (member : number ∈ state.freed) :
    number < state.requests.length := by
  rw [← List.mem_range, ← accounted.line]
  exact List.mem_append_left _ (accounted.freed.mem_iff.mp member)

end Accounted

theorem accounted_of_reachable (reached : (serve writer).Reachable state) : Accounted state := by
  have both : Queued state ∧ Accounted state := by
    apply reached.invariant fun state => Queued state ∧ Accounted state
    · rintro _ rfl
      exact ⟨.new, .new⟩
    · intro _ _ _ sound _ stepped
      have stepped := stepped_of_step stepped
      exact ⟨sound.1.stepped stepped, sound.2.passes (stepped.passes sound.1)⟩
  exact both.2

/-- The steps of `serve` that wait for nothing outside. -/
def Move.owed : Move → Bool
  | .signify | .delete _ | .awaited | .drainGet | .drainBody | .complete => true
  | _ => false

/-- Both loops have finished, and everything that follows on them has been run. -/
structure Quiet (writer : Writer) (state : Serve) : Prop where
  receiver : state.receiver.Finished
  sender : state.sender.Finished
  owed : ∀ move, move.owed = true → state.step writer move = none

namespace Quiet

variable (quiet : Quiet writer state)
include quiet

theorem serveStep (move : Move) (owed : move.owed = true) : state.serveStep move = none := by
  have nothing := quiet.owed move owed
  simp only [Serve.step, Option.or_eq_none_iff] at nothing
  exact nothing.2.2

theorem signified : state.signified = true := by
  obtain ⟨ended, receiver⟩ := quiet.receiver
  have nothing := quiet.owed .signify rfl
  simp only [Serve.step, Option.or_eq_none_iff, Serve.receiverStep, receiver] at nothing
  simpa using nothing.1

theorem releasing : state.releasing = [] := by
  apply List.eq_nil_iff_forall_not_mem.mpr
  intro number member
  have nothing := quiet.serveStep (.delete number) rfl
  simp only [Serve.serveStep, if_pos member] at nothing
  cases nothing

theorem drain : state.drain = .getting ∨ state.drain = .finished := by
  obtain ⟨_, receiver⟩ := quiet.receiver
  obtain ⟨_, sender⟩ := quiet.sender
  have awaited := quiet.serveStep .awaited rfl
  have gets := quiet.serveStep .drainGet rfl
  have body := quiet.serveStep .drainBody rfl
  simp only [Serve.serveStep, receiver, sender] at awaited gets body
  cases drain : state.drain with
  | waiting => simp [drain] at awaited
  | iterating => cases elements : state.elements <;> simp [drain, elements] at gets
  | getting => exact .inl rfl
  | given item => simp [drain] at body
  | finished => exact .inr rfl

theorem result : state.result.isSome = true := by
  obtain ⟨_, receiver⟩ := quiet.receiver
  obtain ⟨_, sender⟩ := quiet.sender
  have complete := quiet.serveStep .complete rfl
  simp only [Serve.serveStep, receiver, sender] at complete
  cases result : state.result with
  | some ended => rfl
  | none => obtain drain | drain := quiet.drain <;> simp [drain, result] at complete

/-- Nobody is left in line. -/
theorem line (queued : Queued state) : state.line = [] := by
  have drain : state.drain = .finished := by
    refine quiet.drain.resolve_left fun drain => ?_
    obtain ⟨_, drains⟩ := queued.draining (by rw [drain]; exact nofun)
    rw [drain] at drains
    cases quiet.signified.symm.trans drains.1
  obtain ⟨⟨⟨_, receiver⟩, _, sender⟩, drains⟩ :=
    queued.draining (by rw [drain]; exact nofun)
  rw [drain] at drains
  have empty : state.queued = [] := drains
  simp [Serve.line, receiver, sender, drain, empty, Sender.holding, Drain.holding,
    Receiver.pending]

/-- All requests are deleted. -/
theorem deleted (reached : (serve writer).Reachable state) :
    state.deleted.Perm (List.range state.requests.length) := by
  have accounted := accounted_of_reachable reached
  have whole := accounted.line
  have freed := accounted.freed
  rw [quiet.line (queued_of_reachable reached), List.append_nil] at whole
  rw [whole, Serve.freed, quiet.releasing] at freed
  exact freed

end Quiet

theorem deleted_nodup (reached : (serve writer).Reachable state) : state.deleted.Nodup := by
  have freed : state.freed.Nodup :=
    (accounted_of_reachable reached).freed.nodup_iff.mpr List.nodup_range
  exact freed.of_append_right

/-- No request is deleted twice, or before its last use.  When everything has been run, all are
deleted and `serve` has completed its future. -/
theorem requests_deleted (reached : (serve writer).Reachable state) :
    state.deleted.Nodup ∧ (∀ number ∈ state.deleted, number < state.requests.length) ∧
      (∀ number ∈ state.line, number ∉ state.deleted) ∧
      (Quiet writer state →
        state.deleted.Perm (List.range state.requests.length) ∧ state.result.isSome = true) := by
  have accounted := accounted_of_reachable reached
  refine ⟨deleted_nodup reached, fun number member => ?_, fun number member deleted => ?_,
    fun quiet => ⟨quiet.deleted reached, quiet.result⟩⟩
  · exact accounted.freed_lt (List.mem_append_right _ member)
  · exact accounted.not_freed member (List.mem_append_right _ deleted)

/-- Two requests are received, and serving is discarded while the first is handled. -/
def discardSchedule : List Move :=
  [.decode [⟨true, []⟩, ⟨false, []⟩] false, .handle, .put, .handle, .put, .handle, .receiveEof,
    .signify, .get, .body, .discard, .discardReceiving, .discardSending, .awaitDiscarded true,
    .delete 0, .awaited, .drainGet, .drainBody, .drainGet, .drainBody, .complete]

def discarded : Serve :=
  { Serve.new with
    receiver := .finished .ready
    signified := true
    requests := [⟨true, []⟩, ⟨false, []⟩]
    sender := .finished .discarded
    drain := .finished
    deleted := [0, 1]
    discard := true
    receivingDiscard := true
    sendingDiscard := true
    discards := [0, 1]
    result := some .discarded }

theorem discarded_reachable : (serve Http.sundayWriter).Reachable discarded :=
  .of_run rfl (show (serve Http.sundayWriter).run .new discardSchedule = some discarded from rfl)

theorem discarded_quiet : Quiet Http.sundayWriter discarded where
  receiver := ⟨_, rfl⟩
  sender := ⟨_, rfl⟩
  owed move owed := by cases move <;> first | rfl | cases owed

theorem requests_deleted_discarded :
    [0, 1].Nodup ∧ [0, 1].Perm (List.range 2) ∧ discarded.result.isSome = true := by
  obtain ⟨nodup, _, _, quiet⟩ := requests_deleted discarded_reachable
  exact ⟨nodup, quiet discarded_quiet⟩

end Libprocess.Serving
