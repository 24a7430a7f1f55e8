import Libprocess.Http.PipeOrder
import Mathlib.Algebra.BigOperators.Group.List.Basic
import Mathlib.Algebra.GroupWithZero.Nat

/-!
# Loops that read a pipe

A loop reads a pipe again and again, and does something with each result until the pipe ends or a
read fails.  The writer of the pipe goes on meanwhile.  Whatever the loop makes of the results, it
is given the chunks that were written, in order, and then the end or the failure.
-/

namespace Libprocess.Http

open Concurrency

/-- What a loop makes of the results of its reads; an empty text is the end of the pipe.  Others can
change what it has made. -/
structure Consumer (Out Event : Type) where
  body : Out → String → Out
  failed : Out → String → Out
  outer : Out → Event → Option Out

inductive LoopStage where
  | reading
  | waiting (number : Nat)
  | ended
  deriving DecidableEq, Repr

/-- The pipe that a loop reads, where the loop is, and what it has made. -/
structure Forwarding (Out : Type) where
  channel : Channel
  stage : LoopStage
  out : Out

inductive ForwardingMove (Event : Type) where
  /-- The writer of the pipe moves. -/
  | pipe (event : PipeEvent)
  | read
  /-- The loop is given the result that it waits for. -/
  | handle
  | outer (event : Event)

/-- The events of a pipe that the reader has no part in. -/
def PipeEvent.ofWriter : PipeEvent → Bool
  | .write _ | .closeWriter | .fail _ | .complete _ => true
  | .read | .closeReader => false

namespace Forwarding

variable {Out Event : Type}

def step (consumer : Consumer Out Event) (loop : Forwarding Out) :
    ForwardingMove Event → Option (Forwarding Out)
  | .pipe event =>
      if event.ofWriter then
        (loop.channel.step event).map fun channel => { loop with channel := channel }
      else none
  | .read =>
      if loop.stage = .reading then
        (loop.channel.step .read).map fun channel =>
          { loop with channel := channel, stage := .waiting loop.channel.results.length }
      else none
  | .handle =>
      match loop.stage with
      | .waiting number =>
          match loop.channel.results[number]? with
          | some (some (.ready text)) =>
              some { loop with
                stage := if text = "" then .ended else .reading
                out := consumer.body loop.out text }
          | some (some (.failed message)) =>
              some { loop with stage := .ended, out := consumer.failed loop.out message }
          | _ => none
      | _ => none
  | .outer event => (consumer.outer loop.out event).map fun out => { loop with out := out }

/-- All interleavings of a loop with the writer of its pipe. -/
def machine (consumer : Consumer Out Event) (start : Out) :
    Automaton (Forwarding Out) (ForwardingMove Event) where
  start loop := loop = ⟨.empty, .reading, start⟩
  step := step consumer

/-- How a pipe ends. -/
inductive Finish where
  | endOfFile
  | failed (message : String)

/-- `rel` tells what the loop has been given. -/
structure Represents (consumer : Consumer Out Event) (start : Out)
    (rel : Out → List String → Option Finish → Prop) : Prop where
  start : rel start [] none
  chunk : ∀ {out given text}, rel out given none → text ≠ "" →
    rel (consumer.body out text) (given ++ [text]) none
  finish : ∀ {out given}, rel out given none → rel (consumer.body out "") given (some .endOfFile)
  failed : ∀ {out given message}, rel out given none →
    rel (consumer.failed out message) given (some (.failed message))
  outer : ∀ {out given finish event next}, rel out given finish →
    consumer.outer out event = some next → rel next given finish

end Forwarding

namespace Channel

variable {channel next : Channel} {event : PipeEvent}

/-- What the writer leaves alone: the read end, the number of reads, and their results. -/
structure Keeps (channel next : Channel) : Prop where
  readEnd : next.pipe.readEnd = channel.pipe.readEnd
  length : next.decided.length = channel.decided.length
  decided : ∀ (number : Nat) (result : ReadResult),
    channel.decided[number]? = some (some result) → next.decided[number]? = some (some result)
  shut : channel.pipe.writeEnd ≠ .opened → next.accepted = channel.accepted ∧
    next.pipe.writeEnd = channel.pipe.writeEnd ∧ next.pipe.failure = channel.pipe.failure

theorem decide_length (decided : List (Option ReadResult)) (call : PipeCall) :
    (decide decided call).length = decided.length := by
  unfold decide
  generalize call.reads = reads
  induction reads generalizing decided with
  | nil => rfl
  | cons first rest ih =>
      rw [List.foldl_cons, ih]
      exact List.length_set

/-- A call of the writer decides reads that wait. -/
theorem keeps_commit (sound : channel.Sound) {outcome : Pipe × Bool × PipeCall}
    (waiting : (numbers outcome.2.2).Sublist channel.pipe.reads) :
    (channel.commit outcome).decided.length = channel.decided.length ∧
      ∀ (number : Nat) (result : ReadResult), channel.decided[number]? = some (some result) →
        (channel.commit outcome).decided[number]? = some (some result) := by
  obtain ⟨taken, tail, sequenced⟩ := sound.sequenced
  refine ⟨decide_length _ _, ?_⟩
  intro number result known
  have undecided (other : Nat) : channel.decided[other]? = some none ↔
      other ∈ channel.pipe.reads :=
    sequenced.undecided_iff
  have outside : number ∉ numbers outcome.2.2 := by
    intro member
    have none := (undecided number).mpr (waiting.subset member)
    rw [known] at none
    cases none
  have valid : ∀ other ∈ numbers outcome.2.2, other < channel.decided.length := by
    intro other member
    have none := (undecided other).mpr (waiting.subset member)
    exact (List.getElem?_eq_some_iff.mp none).1
  exact ((decide_getElem? (waiting.nodup sequenced.reads_nodup) valid number).2 outside).trans known

/-- Completing promises leaves the pipe alone. -/
theorem complete_same {call : PipeCall} (stepped : channel.step (.complete call) = some next) :
    next.pipe = channel.pipe ∧ next.decided = channel.decided ∧ next.accepted = channel.accepted := by
  simp only [Channel.step] at stepped
  split at stepped
  · split at stepped <;>
    · cases stepped
      exact ⟨rfl, rfl, rfl⟩
  · cases stepped

theorem read_writeEnd {pipe after : Pipe} {number : Nat} {result : Option ReadResult}
    (read : pipe.read number = some (after, result)) : after.writeEnd = pipe.writeEnd := by
  simp only [Pipe.read] at read
  split at read <;>
    simp only [Option.some.injEq, Prod.mk.injEq, Option.map_eq_some_iff] at read
  · exact read.1 ▸ rfl
  · exact read.1 ▸ rfl
  · exact read.1 ▸ rfl
  · obtain ⟨_, _, same, _⟩ := read
    exact same ▸ rfl
  · exact read.1 ▸ rfl

theorem keeps_of_writer (sound : channel.Sound) (writer : event.ofWriter = true)
    (stepped : channel.step event = some next) : channel.Keeps next := by
  have sublists := fun text message => numbers_sublist channel.pipe text message
  cases event with
  | read => cases writer
  | closeReader => cases writer
  | write text =>
      cases stepped
      have kept := keeps_commit sound (sublists text "").2.1
      refine ⟨(readEnd_eq channel.pipe text "").1.1, kept.1, kept.2, ?_⟩
      intro shut
      simp [commit, Pipe.write, shut]
  | closeWriter =>
      cases stepped
      have kept := keeps_commit sound (sublists "" "").2.2.1
      refine ⟨(readEnd_eq channel.pipe "" "").2.1.1, kept.1, kept.2, ?_⟩
      intro shut
      simp [commit, Pipe.closeWriter, shut]
  | fail message =>
      cases stepped
      have kept := keeps_commit sound (sublists "" message).2.2.2
      refine ⟨(readEnd_eq channel.pipe "" message).2.2.1, kept.1, kept.2, ?_⟩
      intro shut
      simp [commit, Pipe.fail, shut]
  | complete call =>
      obtain ⟨pipe, decided, accepted⟩ := complete_same stepped
      refine ⟨by rw [pipe], by rw [decided], by simp [decided], ?_⟩
      intro _
      exact ⟨accepted, by rw [pipe], by rw [pipe]⟩

end Channel

namespace Forwarding

variable {Out Event : Type} {consumer : Consumer Out Event} {start : Out}
variable {rel : Out → List String → Option Finish → Prop} {loop next : Forwarding Out}

/-- The results of reads that were given chunks. -/
def readies (given : List String) : List (Option ReadResult) :=
  given.map fun text => some (.ready text)

/-- Where a loop is that has been given chunks. -/
inductive Placed (channel : Channel) (given : List String) : LoopStage → Option Finish → Prop where
  | reading : channel.decided = readies given → Placed channel given .reading none
  | waiting {last : Option ReadResult} : channel.decided = readies given ++ [last] →
      Placed channel given (.waiting given.length) none
  | closed : channel.pipe.writeEnd = .closed → channel.accepted = given →
      Placed channel given .ended (some .endOfFile)
  | failed {message : String} : channel.pipe.writeEnd = .failed →
      channel.pipe.failure = some message → channel.accepted = given →
      Placed channel given .ended (some (.failed message))

structure Sound (rel : Out → List String → Option Finish → Prop) (loop : Forwarding Out) : Prop where
  reachable : Channel.machine.Reachable loop.channel
  opened : loop.channel.pipe.readEnd = .opened
  given : ∃ given finish, (∀ text ∈ given, text ≠ "") ∧ rel loop.out given finish ∧
    Placed loop.channel given loop.stage finish

theorem readies_getElem? {given : List String} {number : Nat} {text : String}
    (found : given[number]? = some text) : (readies given)[number]? = some (some (.ready text)) := by
  rw [readies, List.getElem?_map, found]
  rfl

/-- Results that are kept stay where they are. -/
theorem kept_append {decided : List (Option ReadResult)} {given : List String}
    (rest : List (Option ReadResult)) (length : decided.length = given.length + rest.length)
    (kept : ∀ (number : Nat) (text : String), given[number]? = some text →
      decided[number]? = some (some (.ready text))) :
    ∃ others, others.length = rest.length ∧ decided = readies given ++ others := by
  refine ⟨decided.drop given.length, by rw [List.length_drop]; omega, ?_⟩
  apply List.ext_getElem?
  intro number
  by_cases inside : number < given.length
  · have found : given[number]? = some given[number] := List.getElem?_eq_getElem inside
    rw [List.getElem?_append_left (by simpa [readies] using inside), kept number _ found,
      readies_getElem? found]
  · rw [List.getElem?_append_right (by simpa [readies] using inside), List.getElem?_drop]
    congr 1
    simp only [readies, List.length_map]
    omega

theorem Placed.keeps {channel after : Channel} {given : List String} {stage : LoopStage}
    {finish : Option Finish} (placed : Placed channel given stage finish)
    (keeps : channel.Keeps after) : Placed after given stage finish := by
  have kept : ∀ rest, channel.decided = readies given ++ rest →
      ∀ (number : Nat) (text : String), given[number]? = some text →
        after.decided[number]? = some (some (.ready text)) := by
    intro rest decided number text found
    apply keeps.decided
    have inside := (List.getElem?_eq_some_iff.mp found).1
    rw [decided, List.getElem?_append_left (by simpa [readies] using inside),
      readies_getElem? found]
  cases placed with
  | reading decided =>
      have length := keeps.length
      rw [decided] at length
      obtain ⟨others, none, same⟩ := kept_append [] (by simpa [readies] using length)
        (kept [] (by rw [decided, List.append_nil]))
      rw [List.length_eq_zero_iff.mp none, List.append_nil] at same
      exact .reading same
  | @waiting last decided =>
      have length := keeps.length
      rw [decided] at length
      obtain ⟨others, one, same⟩ := kept_append [last] (by simpa [readies] using length)
        (kept [last] decided)
      obtain ⟨other, rfl⟩ := List.length_eq_one_iff.mp one
      exact .waiting same
  | closed writeEnd accepted =>
      have shut := keeps.shut (by rw [writeEnd]; decide)
      exact .closed (shut.2.1.trans writeEnd) (shut.1.trans accepted)
  | failed writeEnd failure accepted =>
      have shut := keeps.shut (by rw [writeEnd]; decide)
      exact .failed (shut.2.1.trans writeEnd) (shut.2.2.trans failure) (shut.1.trans accepted)

/-- The result that a loop waits for, once it is there. -/
theorem waiting_result {channel : Channel} (sound : channel.Sound) {given : List String}
    {last : Option ReadResult} (decided : channel.decided = readies given ++ [last])
    {result : ReadResult} (found : channel.results[given.length]? = some (some result)) :
    last = some result := by
  have known := sound.published.known _ _ found
  rw [decided, List.getElem?_append_right (by simp [readies])] at known
  simpa [readies] using known

theorem chunks_readies {given : List String} (filled : ∀ text ∈ given, text ≠ "") :
    chunks (readies given) = given :=
  Pipe.chunks_ready filled

/-- A read adds its result to those that are decided. -/
theorem read_step {channel after : Channel} (moved : channel.step .read = some after) :
    after.pipe.readEnd = channel.pipe.readEnd ∧ after.pipe.writeEnd = channel.pipe.writeEnd ∧
      after.accepted = channel.accepted ∧
      ∃ result, after.decided = channel.decided ++ [result] := by
  simp only [Channel.step, Option.bind_eq_bind, Option.bind_eq_some_iff] at moved
  obtain ⟨⟨pipe, result⟩, read, moved⟩ := moved
  cases moved
  exact ⟨Channel.read_readEnd read, Channel.read_writeEnd read, rfl, result, rfl⟩

/-- What a loop that waits makes of the result. -/
theorem handle_waiting (represents : Represents consumer start rel) {channel : Channel} {out : Out}
    {given : List String} {last : Option ReadResult} (reachable : Channel.machine.Reachable channel)
    (opened : channel.pipe.readEnd = .opened) (filled : ∀ text ∈ given, text ≠ "")
    (related : rel out given none) (decided : channel.decided = readies given ++ [last])
    (stepped : Forwarding.step consumer ⟨channel, .waiting given.length, out⟩ .handle = some next) :
    Sound rel next := by
  have pipe := Channel.sound_of_reachable reachable
  have delivers := Channel.pipe_delivers reachable
  have before : chunks (channel.decided.take given.length) = given := by
    rw [decided, List.take_left' (by simp [readies]), chunks_readies filled]
  have here : ∀ result, last = some result → channel.decided[given.length]? = some (some result) := by
    rintro result rfl
    rw [decided, List.getElem?_append_right (by simp [readies])]
    simp [readies]
  simp only [Forwarding.step] at stepped
  split at stepped
  · next text found =>
      have result := waiting_result pipe decided found
      cases stepped
      by_cases empty : text = ""
      · subst empty
        obtain ⟨closed, accepted⟩ := delivers.endOfFile _ (here _ result)
        refine ⟨reachable, opened, given, some .endOfFile, filled, represents.finish related, ?_⟩
        rw [if_pos rfl]
        exact .closed closed (accepted.trans before)
      · refine ⟨reachable, opened, given ++ [text], none, ?_, represents.chunk related empty, ?_⟩
        · intro other member
          cases List.mem_append.mp member with
          | inl earlier => exact filled other earlier
          | inr last =>
              rw [List.mem_singleton.mp last]
              exact empty
        · rw [if_neg empty]
          apply Placed.reading
          rw [decided, result]
          simp [readies]
  · next message found =>
      have result := waiting_result pipe decided found
      cases stepped
      refine ⟨reachable, opened, given, some (.failed message), filled, represents.failed related, ?_⟩
      cases delivers.failed _ _ (here _ result) with
      | inl closed =>
          rw [opened] at closed
          cases closed
      | inr failed => exact .failed failed.1 failed.2.1 (failed.2.2.trans before)
  · cases stepped

/-- The step lemma: the loop has been given the next chunk or the end, or nothing has changed. -/
theorem Sound.step (represents : Represents consumer start rel) (sound : Sound rel loop)
    {move : ForwardingMove Event} (stepped : Forwarding.step consumer loop move = some next) :
    Sound rel next := by
  obtain ⟨reachable, opened, given, finish, filled, related, placed⟩ := sound
  have pipe := Channel.sound_of_reachable reachable
  cases move with
  | pipe event =>
      simp only [Forwarding.step] at stepped
      split at stepped
      · next writer =>
          obtain ⟨channel, moved, rfl⟩ := Option.map_eq_some_iff.mp stepped
          have keeps := Channel.keeps_of_writer pipe writer moved
          exact ⟨.step reachable trivial moved, keeps.readEnd.trans opened, given, finish, filled,
            related, placed.keeps keeps⟩
      · cases stepped
  | read =>
      simp only [Forwarding.step] at stepped
      split at stepped
      · next stage =>
          obtain ⟨channel, moved, rfl⟩ := Option.map_eq_some_iff.mp stepped
          obtain ⟨readEnd, _, _, result, added⟩ := read_step moved
          have taken : Channel.machine.step loop.channel .read = some channel := moved
          rw [stage] at placed
          cases placed with
          | reading decided =>
              have number : loop.channel.results.length = given.length := by
                rw [pipe.published.length_eq, decided, readies, List.length_map]
              refine ⟨.step reachable trivial taken, readEnd.trans opened, given, none, filled,
                related, ?_⟩
              rw [number]
              exact .waiting (added.trans (by rw [decided]))
      · cases stepped
  | handle =>
      obtain ⟨channel, stage, out⟩ := loop
      cases placed with
      | waiting decided =>
          exact handle_waiting represents reachable opened filled related decided stepped
      | reading | closed | failed => cases stepped
  | outer event =>
      obtain ⟨out, changed, rfl⟩ := Option.map_eq_some_iff.mp stepped
      exact ⟨reachable, opened, given, finish, filled, represents.outer related changed, placed⟩

theorem sound_of_reachable (represents : Represents consumer start rel)
    (reached : (machine consumer start).Reachable loop) : Sound rel loop := by
  apply reached.invariant (Sound rel)
  · rintro _ rfl
    exact ⟨.start rfl, rfl, [], none, by simp, represents.start, .reading rfl⟩
  · intro _ _ _ sound _ stepped
    exact sound.step represents stepped

/-! ## Progress -/

/-- The moves of the loop, and of the calls of the writer that have yet to complete their reads. -/
inductive Internal : ForwardingMove Event → Prop where
  | read : Internal .read
  | handle : Internal .handle
  | complete (call : PipeCall) : Internal (.pipe (.complete call))

/-- What the calls have yet to do. -/
def owed (calls : List PipeCall) : Nat :=
  (calls.map fun call => call.reads.length + call.closure.toList.length + 1).sum

/-- What is left to do until the end of the pipe, once the writer is no longer open. -/
def left (loop : Forwarding Out) : Nat :=
  2 * (loop.channel.accepted.length + 1 - loop.channel.results.length) +
    (match loop.stage with
      | .waiting _ => 1
      | .reading | .ended => 0) +
    owed loop.channel.calls

theorem complete_step {channel : Channel} {call : PipeCall} (member : call ∈ channel.calls) :
    ∃ after, channel.step (.complete call) = some after ∧ after.pipe = channel.pipe ∧
      after.accepted = channel.accepted ∧ after.results.length = channel.results.length ∧
      owed after.calls < owed channel.calls := by
  have total : call.reads.length + call.closure.toList.length + 1 +
      owed (channel.calls.erase call) = owed channel.calls :=
    List.sum_map_erase (fun call : PipeCall =>
      call.reads.length + call.closure.toList.length + 1) member
  simp only [Channel.step, if_pos member]
  obtain ⟨reads, closure⟩ := call
  cases reads with
  | nil =>
      cases closure with
      | none =>
          refine ⟨_, rfl, rfl, rfl, rfl, ?_⟩
          simp only [List.length_nil, Option.toList_none] at total
          dsimp only
          omega
      | some closure =>
          refine ⟨_, rfl, rfl, rfl, rfl, ?_⟩
          dsimp only
          omega
  | cons entry reads =>
      refine ⟨_, rfl, rfl, rfl, ?_, ?_⟩
      · simp only [Channel.publish]
        split
        · exact List.length_set
        · rfl
      · simp only [owed, List.map_cons, List.sum_cons, List.length_cons] at total ⊢
        omega

/-- No more is given than was accepted. -/
theorem given_le {channel : Channel} (reachable : Channel.machine.Reachable channel)
    {given : List String} (filled : ∀ text ∈ given, text ≠ "") (rest : List (Option ReadResult))
    (decided : channel.decided = readies given ++ rest) :
    given.length ≤ channel.accepted.length := by
  have fifo := (Channel.pipe_delivers reachable).fifo
  rw [decided, chunks, List.filterMap_append] at fifo
  have own : chunks (readies given) = given := chunks_readies filled
  rw [chunks] at own
  rw [own] at fifo
  exact Nat.le_trans (by simp) fifo.length_le

/-- What a move of the loop leaves: less to do, and the end that the writer has put. -/
structure Advances (loop next : Forwarding Out) : Prop where
  less : left next < left loop
  writeEnd : next.channel.pipe.writeEnd = loop.channel.pipe.writeEnd
  accepted : next.channel.accepted = loop.channel.accepted

theorem read_advances {channel : Channel} {out : Out} {given : List String}
    (reachable : Channel.machine.Reachable channel) (filled : ∀ text ∈ given, text ≠ "")
    (decided : channel.decided = readies given) :
    ∃ next, Forwarding.step consumer ⟨channel, .reading, out⟩ .read = some next ∧
      Advances ⟨channel, .reading, out⟩ next := by
  have sound := Channel.sound_of_reachable reachable
  have bound := given_le reachable filled [] (by rw [decided, List.append_nil])
  have length := sound.published.length_eq
  rw [decided, readies, List.length_map] at length
  obtain ⟨⟨pipe, result⟩, read⟩ := Option.isSome_iff_exists.mp
    ((Channel.pipe_delivers reachable).read_isSome channel.results.length)
  have writeEnd := Channel.read_writeEnd read
  have stepped : Forwarding.step consumer ⟨channel, .reading, out⟩ .read =
      some ⟨{ channel with
        pipe := pipe
        results := channel.results ++ [result]
        decided := channel.decided ++ [result] }, .waiting channel.results.length, out⟩ := by
    simp only [Forwarding.step, Channel.step, read, if_true]
    rfl
  refine ⟨_, stepped, ?_, writeEnd, rfl⟩
  simp only [left, List.length_append, List.length_singleton]
  omega

theorem handle_advances {channel : Channel} {out : Out} {number : Nat} {result : ReadResult}
    (found : channel.results[number]? = some (some result)) :
    ∃ next, Forwarding.step consumer ⟨channel, .waiting number, out⟩ .handle = some next ∧
      Advances ⟨channel, .waiting number, out⟩ next := by
  cases result with
  | failed message =>
      have stepped : Forwarding.step consumer ⟨channel, .waiting number, out⟩ .handle =
          some ⟨channel, .ended, consumer.failed out message⟩ := by
        simp only [Forwarding.step, found]
      refine ⟨_, stepped, ?_, rfl, rfl⟩
      simp only [left]
      omega
  | ready text =>
      have stepped : Forwarding.step consumer ⟨channel, .waiting number, out⟩ .handle =
          some ⟨channel, if text = "" then .ended else .reading, consumer.body out text⟩ := by
        simp only [Forwarding.step, found]
      refine ⟨_, stepped, ?_, rfl, rfl⟩
      by_cases empty : text = ""
      · simp only [left, if_pos empty]
        omega
      · simp only [left, if_neg empty]
        omega

theorem Sound.advances (consumer : Consumer Out Event) (sound : Sound rel loop)
    (shut : loop.channel.pipe.writeEnd ≠ .opened) (running : loop.stage ≠ .ended) :
    ∃ move next, Internal move ∧ Forwarding.step consumer loop move = some next ∧
      Advances loop next := by
  obtain ⟨reachable, opened, given, finish, filled, related, placed⟩ := sound
  have delivers := Channel.pipe_delivers reachable
  obtain ⟨channel, stage, out⟩ := loop
  cases placed with
  | reading decided =>
      obtain ⟨next, stepped, advances⟩ := read_advances reachable filled decided
      exact ⟨_, next, .read, stepped, advances⟩
  | @waiting last decided =>
      have here : channel.decided[given.length]? = some last := by
        rw [decided, List.getElem?_append_right (by simp [readies])]
        simp [readies]
      cases last with
      | none =>
          have waits := (delivers.undecided_iff given.length).mp here
          exact absurd (delivers.waiting (List.ne_nil_of_mem waits)).2.2 shut
      | some result =>
          cases (delivers.decided_iff given.length result).mp here with
          | inl found =>
              obtain ⟨next, stepped, advances⟩ :=
                handle_advances found
              exact ⟨_, next, .handle, stepped, advances⟩
          | inr pending =>
              obtain ⟨call, member, _⟩ := pending
              obtain ⟨after, stepped, pipe, accepted, results, less⟩ := complete_step member
              refine ⟨_, ⟨after, .waiting given.length, out⟩, .complete call, ?_, ?_, ?_, accepted⟩
              · simp [Forwarding.step, PipeEvent.ofWriter, stepped]
              · simp only [left, accepted, results]
                dsimp only at less ⊢
                omega
              · rw [pipe]
  | closed | failed => exact absurd rfl running

/-- Once the writer is no longer open, the loop comes to its end by moves of its own. -/
theorem ends (represents : Represents consumer start rel)
    (reached : (machine consumer start).Reachable loop)
    (shut : loop.channel.pipe.writeEnd ≠ .opened) :
    ∃ moves last, (∀ move ∈ moves, Internal move) ∧
      (machine consumer start).run loop moves = some last ∧ last.stage = .ended ∧
      last.channel.accepted = loop.channel.accepted := by
  induction remaining : left loop using Nat.strongRecOn generalizing loop with
  | _ count ih =>
      by_cases ended : loop.stage = .ended
      · exact ⟨[], loop, by simp, rfl, ended, rfl⟩
      · obtain ⟨move, next, internal, stepped, advances⟩ :=
          (sound_of_reachable represents reached).advances consumer shut ended
        obtain ⟨moves, last, others, ran, done, same⟩ := ih (left next)
          (remaining ▸ advances.less) (.step reached trivial stepped)
          (by rw [advances.writeEnd]; exact shut) rfl
        refine ⟨move :: moves, last, ?_, ?_, done, same.trans advances.accepted⟩
        · intro other member
          cases List.mem_cons.mp member with
          | inl first =>
              rw [first]
              exact internal
          | inr later => exact others other later
        · rw [Automaton.run]
          exact (congrArg (Option.bind · _) stepped).trans ran

/-- Where the loop and the calls have nothing left to do and the writer is no longer open, the loop
has ended. -/
theorem ended_of_settled (represents : Represents consumer start rel)
    (reached : (machine consumer start).Reachable loop)
    (shut : loop.channel.pipe.writeEnd ≠ .opened)
    (settled : ∀ move, Internal move → Forwarding.step consumer loop move = none) :
    loop.stage = .ended := by
  by_contra running
  obtain ⟨move, next, internal, stepped, _⟩ :=
    (sound_of_reachable represents reached).advances consumer shut running
  rw [settled move internal] at stepped
  cases stepped

/-- At the end, the loop has been given all that was accepted, and how the pipe ended. -/
theorem given_of_ended (represents : Represents consumer start rel)
    (reached : (machine consumer start).Reachable loop) (ended : loop.stage = .ended) :
    (∀ text ∈ loop.channel.accepted, text ≠ "") ∧
      (loop.channel.pipe.writeEnd = .closed ∧
          rel loop.out loop.channel.accepted (some .endOfFile) ∨
        ∃ message, loop.channel.pipe.writeEnd = .failed ∧
          loop.channel.pipe.failure = some message ∧
          rel loop.out loop.channel.accepted (some (.failed message))) := by
  obtain ⟨_, _, given, finish, filled, related, placed⟩ := sound_of_reachable represents reached
  rw [ended] at placed
  cases placed with
  | closed writeEnd accepted =>
      rw [accepted]
      exact ⟨filled, .inl ⟨writeEnd, related⟩⟩
  | failed writeEnd failure accepted =>
      rw [accepted]
      exact ⟨filled, .inr ⟨_, writeEnd, failure, related⟩⟩

end Forwarding

end Libprocess.Http
