import Libprocess.Decoder.Streaming
import Libprocess.Http.PipeOrder

/-!
# The pipes of a decoder

A decoder hands out pipes and writes into the last of them.  The writer of a pipe that is
closed or has failed stays so, and a pipe whose writer is open is the one that the decoder
writes into.
-/

namespace Libprocess.Decoder

open Http (Channel PipeEvent WriteEnd)

/-- Every pipe stays with its reads, and with its writer unless that is open. -/
def Extends (before after : List Channel) : Prop :=
  ∀ (pipe : PipeId) (channel : Channel), before[pipe]? = some channel →
    ∃ later : Channel, after[pipe]? = some later ∧
      channel.results.length ≤ later.results.length ∧
      (channel.pipe.writeEnd ≠ .opened → later.pipe.writeEnd = channel.pipe.writeEnd)

theorem Extends.refl (pipes : List Channel) : Extends pipes pipes :=
  fun _ channel found => ⟨channel, found, Nat.le_refl _, fun _ => rfl⟩

theorem Extends.trans {first second third : List Channel} (left : Extends first second)
    (right : Extends second third) : Extends first third := by
  intro pipe channel found
  obtain ⟨later, found', grows, same⟩ := left pipe channel found
  obtain ⟨last, found'', grows', same'⟩ := right pipe later found'
  exact ⟨last, found'', Nat.le_trans grows grows', fun shut =>
    (same' (same shut ▸ shut)).trans (same shut)⟩

/-- Only `close` and `fail` change the writer, and only if it is open. -/
def writeEndAfter (writeEnd : WriteEnd) (event : PipeEvent) : WriteEnd :=
  if writeEnd = .opened then
    match event with
    | .closeWriter => .closed
    | .fail _ => .failed
    | .read | .closeReader | .write _ | .complete _ => .opened
  else writeEnd

theorem step_writeEnd {channel next : Channel} {event : PipeEvent}
    (stepped : channel.step event = some next) :
    next.pipe.writeEnd = writeEndAfter channel.pipe.writeEnd event := by
  unfold writeEndAfter
  cases event with
  | read =>
      simp only [Channel.step, Option.bind_eq_bind, Option.bind_eq_some_iff] at stepped
      obtain ⟨⟨pipe, result⟩, read, stepped⟩ := stepped
      cases stepped
      simp only [Http.Pipe.read] at read
      split at read <;> simp_all
      all_goals grind
  | closeReader =>
      cases stepped
      simp only [Channel.commit, Http.Pipe.closeReader]
      grind
  | write text =>
      cases stepped
      simp only [Channel.commit, Http.Pipe.write]
      grind
  | closeWriter =>
      cases stepped
      simp only [Channel.commit, Http.Pipe.closeWriter]
      grind
  | fail message =>
      cases stepped
      simp only [Channel.commit, Http.Pipe.fail]
      grind
  | complete call =>
      simp only [Channel.step] at stepped
      grind

/-- The pipe of an operation, afterwards. -/
theorem perform_getElem? (pipes : List Channel) (pipe other : PipeId) (event : PipeEvent) :
    (perform pipes pipe event)[other]? =
      if pipe = other then pipes[other]?.map fun channel => (channel.step event).getD channel
      else pipes[other]? := by
  rw [perform, List.getElem?_modify]
  split
  · rfl
  · simp

/-- An operation does nothing if it is not possible. -/
theorem getD_step_writeEnd (channel : Channel) (event : PipeEvent) :
    ((channel.step event).getD channel).pipe.writeEnd =
      writeEndAfter channel.pipe.writeEnd event := by
  cases stepped : channel.step event with
  | some next => exact step_writeEnd stepped
  | none =>
      unfold writeEndAfter
      cases event with
      | closeWriter | fail => cases stepped
      | read | closeReader | write | complete =>
          rw [Option.getD_none]
          grind

/-- Reads are only added. -/
theorem length_results_le (channel : Channel) (event : PipeEvent) :
    channel.results.length ≤ ((channel.step event).getD channel).results.length := by
  cases event with
  | read =>
      simp only [Channel.step, Option.bind_eq_bind]
      cases channel.pipe.read channel.results.length <;> simp
  | closeReader | write | closeWriter | fail => exact Nat.le_refl _
  | complete call =>
      simp only [Channel.step, Channel.publish]
      grind

theorem opened_of_after {writeEnd : WriteEnd} {event : PipeEvent}
    (opened : writeEndAfter writeEnd event = .opened) : writeEnd = .opened := by
  unfold writeEndAfter at opened
  split at opened
  · assumption
  · exact opened

theorem extends_perform (pipes : List Channel) (pipe : PipeId) (event : PipeEvent) :
    Extends pipes (perform pipes pipe event) := by
  intro other channel found
  rw [perform_getElem?, found]
  split
  · exact ⟨_, rfl, length_results_le channel event, fun shut =>
      (getD_step_writeEnd channel event).trans (if_neg shut)⟩
  · exact ⟨channel, rfl, Nat.le_refl _, fun _ => rfl⟩

theorem extends_append (pipes more : List Channel) : Extends pipes (pipes ++ more) := by
  intro pipe channel found
  exact ⟨channel, by rw [List.getElem?_append_left (List.getElem?_eq_some_iff.mp found).1, found],
    Nat.le_refl _, fun _ => rfl⟩

variable {Start Extra : Type} {decoder next last : Streaming Start Extra}

/-- The pipes that a decoder has handed out. -/
structure Piped (decoder : Streaming Start Extra) : Prop where
  sound : ∀ channel ∈ decoder.pipes, channel.Sound
  opened : ∀ (pipe : PipeId) (channel : Channel), decoder.pipes[pipe]? = some channel →
    channel.pipe.writeEnd = .opened → decoder.writer = some pipe

/-- What an operation of a decoder does to its pipes. -/
structure Moves (decoder next : Streaming Start Extra) : Prop where
  extend : Extends decoder.pipes next.pipes
  piped : Piped decoder → Piped next

namespace Moves

theorem trans (left : Moves decoder next) (right : Moves next last) : Moves decoder last :=
  ⟨left.extend.trans right.extend, fun piped => right.piped (left.piped piped)⟩

/-- An operation that concerns neither the pipes nor the writer. -/
theorem of_eq (pipes : next.pipes = decoder.pipes) (writer : next.writer = decoder.writer) :
    Moves decoder next := by
  refine ⟨pipes ▸ .refl _, fun piped => ⟨?_, ?_⟩⟩
  · rw [pipes]
    exact piped.sound
  · rw [pipes, writer]
    exact piped.opened

theorem sound_perform {pipes : List Channel} {pipe : PipeId} {event : PipeEvent}
    (sound : ∀ channel ∈ pipes, channel.Sound) :
    ∀ channel ∈ perform pipes pipe event, channel.Sound := by
  intro channel member
  obtain ⟨other, found⟩ := List.mem_iff_getElem?.mp member
  rw [perform_getElem?] at found
  split at found
  · obtain ⟨before, listed, rfl⟩ := Option.map_eq_some_iff.mp found
    have known := sound before (List.mem_of_getElem? listed)
    cases stepped : before.step event with
    | none => exact known
    | some next => exact known.step stepped
  · exact sound channel (List.mem_of_getElem? found)

/-- An operation on a pipe, after which the decoder has no writer if it ends the writing. -/
theorem of_perform {pipe : PipeId} {event : PipeEvent}
    (pipes : next.pipes = perform decoder.pipes pipe event)
    (writer : next.writer = decoder.writer ∨ decoder.writer = some pipe ∧
      (event = .closeWriter ∨ ∃ message, event = .fail message)) : Moves decoder next := by
  refine ⟨pipes ▸ extends_perform _ _ _, fun piped => ⟨?_, fun other channel found opened => ?_⟩⟩
  · rw [pipes]
    exact sound_perform piped.sound
  · rw [pipes, perform_getElem?] at found
    rcases writer with same | ⟨own, ends⟩
    · rw [same]
      split at found
      · obtain ⟨before, listed, rfl⟩ := Option.map_eq_some_iff.mp found
        rw [getD_step_writeEnd] at opened
        exact piped.opened other before listed (opened_of_after opened)
      · exact piped.opened other channel found opened
    · split at found
      · obtain ⟨before, listed, rfl⟩ := Option.map_eq_some_iff.mp found
        rw [getD_step_writeEnd] at opened
        have before := opened_of_after opened
        rcases ends with rfl | ⟨message, rfl⟩ <;> simp [writeEndAfter, before] at opened
      · rename_i different
        exact absurd (Option.some.inj (own.symm.trans (piped.opened other channel found opened)))
          different

/-- The new pipe is the only one that is open. -/
theorem of_append (silent : decoder.writer = none) (pipes : next.pipes = decoder.pipes ++ [.empty])
    (writer : next.writer = some decoder.pipes.length) : Moves decoder next := by
  refine ⟨pipes ▸ extends_append _ _, fun piped => ⟨fun channel member => ?_, fun pipe channel found
    opened => ?_⟩⟩
  · rw [pipes] at member
    rcases List.mem_append.mp member with known | new
    · exact piped.sound channel known
    · obtain rfl := List.mem_singleton.mp new
      exact Channel.sound_empty
  · rw [pipes, List.getElem?_append] at found
    split at found
    · simp [piped.opened pipe channel found opened] at silent
    · rename_i beyond
      obtain ⟨bound, -⟩ := List.getElem?_eq_some_iff.mp found
      rw [List.length_singleton] at bound
      have newest : decoder.pipes.length = pipe := by omega
      rw [writer, newest]

theorem failWriter (decoder : Streaming Start Extra) (message : String)
    (writer : next.writer = none ∨ next.writer = decoder.writer)
    (pipes : next.pipes = (decoder.failWriter message).pipes) : Moves decoder next := by
  unfold Streaming.failWriter at pipes
  split at pipes
  · rename_i silent
    exact .of_eq pipes (writer.elim (fun none => none.trans silent.symm) id)
  · rename_i pipe own
    exact .of_perform pipes (.inr ⟨own, .inr ⟨message, rfl⟩⟩)

theorem finish (decoder : Streaming Start Extra) (short : Bool) :
    Moves decoder (decoder.finish short).1 := by
  cases short with
  | false => exact .of_eq rfl rfl
  | true => exact .failWriter decoder "failed to decode body" (.inl rfl) rfl

theorem destroy (decoder : Streaming Start Extra) : Moves decoder decoder.destroy := by
  refine .failWriter decoder "Decoder is being deleted" (.inr ?_) rfl
  unfold Streaming.destroy Streaming.failWriter
  split <;> rfl

end Moves

/-- What a callback that returns `code` does to the pipes.  `refuses` tells for which data it fails. -/
inductive Effect (refuses : Streaming Start Extra → Callback → Bool)
    (decoder : Streaming Start Extra) : Callback → Streaming Start Extra → Nat → Prop where
  | quiet {callback : Callback} {next : Streaming Start Extra} : callback ≠ .messageComplete →
      next.pipes = decoder.pipes → next.writer = decoder.writer →
      Effect refuses decoder callback next success
  | hands {head : Head} {next : Streaming Start Extra} : decoder.writer = none →
      next.pipes = decoder.pipes ++ [.empty] → next.writer = some decoder.pipes.length →
      Effect refuses decoder (.headersComplete head) next success
  | writes {data text : String} {pipe : PipeId} {next : Streaming Start Extra} :
      decoder.writer = some pipe → next.pipes = perform decoder.pipes pipe (.write text) →
      next.writer = decoder.writer → Effect refuses decoder (.body data) next success
  | closes {pipe : PipeId} {next : Streaming Start Extra} : decoder.writer = some pipe →
      next.pipes = perform decoder.pipes pipe .closeWriter → next.writer = none →
      Effect refuses decoder .messageComplete next success
  | refuses {callback : Callback} {next : Streaming Start Extra} :
      refuses decoder callback = true → (∀ head, callback ≠ .headersComplete head) →
      callback ≠ .messageComplete → next.pipes = decoder.pipes → next.writer = decoder.writer →
      Effect refuses decoder callback next failureCode
  | rejects {head : Head} {code : Nat} {next : Streaming Start Extra} : code ≠ 0 →
      next.failure = true → next.pipes = decoder.pipes → next.writer = decoder.writer →
      Effect refuses decoder (.headersComplete head) next code
  | unopened : decoder.writer = none → decoder.failure = true →
      Effect refuses decoder .messageComplete decoder failureCode
  | unfinished {pipe : PipeId} {message : String} {next : Streaming Start Extra} :
      decoder.writer = some pipe → next.pipes = perform decoder.pipes pipe (.fail message) →
      next.writer = decoder.writer → next.failure = true →
      Effect refuses decoder .messageComplete next failureCode

namespace Effect

variable {refuses : Streaming Start Extra → Callback → Bool} {callback : Callback} {code : Nat}

theorem moves (effect : Effect refuses decoder callback next code) : Moves decoder next := by
  cases effect with
  | quiet _ pipes writer | refuses _ _ _ pipes writer | rejects _ _ pipes writer =>
      exact .of_eq pipes writer
  | hands silent pipes writer => exact .of_append silent pipes writer
  | writes _ pipes writer | unfinished _ pipes writer _ => exact .of_perform pipes (.inl writer)
  | closes own pipes _ => exact .of_perform pipes (.inr ⟨own, .inl rfl⟩)
  | unopened => exact .of_eq rfl rfl

theorem begin {start : Start} {type : BodyType} {extra : Extra}
    (began : decoder.begin start type extra = some (next, code)) :
    Effect refuses decoder .messageBegin next code := by
  unfold Streaming.begin at began
  split at began <;> cases began
  rename_i permitted
  have silent : decoder.writer = none := by
    simpa using (not_or.mp (not_or.mp permitted).2).2
  exact .quiet nofun rfl silent.symm

theorem headerField {data : String} (told : decoder.onHeaderField data = (next, code))
    (fails : decoder.message = none → refuses decoder (.headerField data) = true) :
    Effect refuses decoder (.headerField data) next code := by
  unfold Streaming.onHeaderField at told
  split at told
  · next missing =>
      cases told
      exact .refuses (fails missing) nofun nofun rfl rfl
  · dsimp only at told
    split at told <;> cases told <;> exact .quiet nofun rfl rfl

theorem headerValue {data : String} (told : decoder.onHeaderValue data = (next, code))
    (fails : decoder.message = none → refuses decoder (.headerValue data) = true) :
    Effect refuses decoder (.headerValue data) next code := by
  unfold Streaming.onHeaderValue at told
  split at told
  · next missing =>
      cases told
      exact .refuses (fails missing) nofun nofun rfl rfl
  · cases told
    exact .quiet nofun rfl rfl

theorem handOut {head : Head} {before : Streaming Start Extra} {message : Message Start}
    (handed : before.handOut message = some (next, code)) (pipes : before.pipes = decoder.pipes)
    (writer : before.writer = decoder.writer) :
    Effect refuses decoder (.headersComplete head) next code := by
  unfold Streaming.handOut at handed
  split at handed <;> cases handed
  rename_i silent
  rw [pipes]
  refine .hands ?_ rfl rfl
  rw [← writer]
  simpa using silent

end Effect

/-- The data for which a callback fails: those of a header behind the headers. -/
def StreamingResponseDecoder.refuses (decoder : StreamingResponseDecoder) : Callback → Bool
  | .headerField _ | .headerValue _ => decoder.message.isNone
  | _ => false

theorem StreamingResponseDecoder.effect {decoder next : StreamingResponseDecoder}
    {callback : Callback} {code : Nat} (invoked : decoder.invoke callback = some (next, code)) :
    Effect refuses decoder callback next code := by
  cases callback with
  | messageBegin => exact .begin invoked
  | url | status | chunkHeader | chunkComplete =>
      cases invoked
      exact .quiet nofun rfl rfl
  | headerField data =>
      exact .headerField (Option.some.inj invoked) fun missing => by simp [refuses, missing]
  | headerValue data =>
      exact .headerValue (Option.some.inj invoked) fun missing => by simp [refuses, missing]
  | headersComplete head =>
      simp only [invoke, onHeadersComplete] at invoked
      split at invoked
      · cases invoked
      · split at invoked
        · split at invoked
          · cases invoked
            exact .rejects Nat.one_ne_zero rfl rfl rfl
          · exact .handOut invoked rfl rfl
        · cases invoked
          exact .rejects Nat.one_ne_zero rfl rfl rfl
  | body data =>
      simp only [invoke, onBody] at invoked
      split at invoked <;> cases invoked
      rename_i pipe own
      exact .writes own rfl rfl
  | messageComplete =>
      simp only [invoke, onMessageComplete] at invoked
      split at invoked
      · rename_i silent
        split at invoked <;> cases invoked
        rename_i failed
        exact .unopened silent failed
      · rename_i pipe own
        cases invoked
        exact .closes own rfl rfl

theorem StreamingResponseDecoder.moves {decoder next : StreamingResponseDecoder}
    {callback : Callback} {code : Nat} (invoked : decoder.invoke callback = some (next, code)) :
    Moves decoder next :=
  (effect invoked).moves

section Requests

variable {libraries : Libraries}

/-- The data for which a callback fails: those behind the headers that belong in front of them, and
those that cannot be decompressed. -/
def StreamingRequestDecoder.refuses (decoder : StreamingRequestDecoder libraries) : Callback → Bool
  | .url _ | .headerField _ | .headerValue _ => decoder.message.isNone
  | .body data => decoder.extra.decompressor.any fun decompressor =>
      (libraries.decompress decompressor data).isNone
  | _ => false

theorem StreamingRequestDecoder.effect {decoder next : StreamingRequestDecoder libraries}
    {callback : Callback} {code : Nat} (invoked : decoder.invoke callback = some (next, code)) :
    Effect refuses decoder callback next code := by
  cases callback with
  | messageBegin => exact .begin invoked
  | url data =>
      simp only [invoke, onUrl, Option.some.injEq] at invoked
      split at invoked <;> cases invoked
      · rename_i missing
        exact .refuses (by simp [refuses, missing]) (by simp) (by simp) rfl rfl
      · exact .quiet (by simp) rfl rfl
  | status | chunkHeader | chunkComplete =>
      cases invoked
      exact .quiet (by simp) rfl rfl
  | headerField data =>
      exact .headerField (Option.some.inj invoked) fun missing => by simp [refuses, missing]
  | headerValue data =>
      exact .headerValue (Option.some.inj invoked) fun missing => by simp [refuses, missing]
  | headersComplete head =>
      simp only [invoke, onHeadersComplete] at invoked
      split at invoked
      · cases invoked
      · split at invoked
        · rename_i invalid
          cases invoked
          exact .rejects invalid rfl rfl rfl
        · split at invoked
          · cases invoked
            exact .rejects Nat.one_ne_zero rfl rfl rfl
          · exact .handOut invoked rfl rfl
  | body data =>
      simp only [invoke, onBody] at invoked
      split at invoked
      · cases invoked
      · rename_i pipe own
        split at invoked
        · cases invoked
          exact .writes own rfl rfl
        · rename_i decompressor present
          split at invoked <;> cases invoked
          · rename_i broken
            exact .refuses (by simp [refuses, present, broken]) (by simp) (by simp) rfl rfl
          · exact .writes own rfl rfl
  | messageComplete =>
      simp only [invoke, onMessageComplete] at invoked
      split at invoked
      · rename_i silent
        split at invoked <;> cases invoked
        rename_i failed
        exact .unopened silent failed
      · rename_i pipe own
        split at invoked <;> cases invoked
        · exact .unfinished own rfl rfl rfl
        · exact .closes own rfl rfl

end Requests

end Libprocess.Decoder
