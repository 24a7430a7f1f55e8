import Libprocess.Concurrency.Automaton
import Libprocess.Decoder.Agreement
import Libprocess.Decoder.Checks
import Libprocess.Decoder.Pipes

/-!
# Failed calls of `decode`

A streaming decoder fails the writer of a body only if `http_parser_execute` has not consumed all
bytes.  A callback that fails for the last bytes of a buffer is not noticed then, and some callbacks
fail without recording it.  Every other failure leaves no pipe open.
-/

namespace Libprocess.Decoder

open Concurrency
open Http (Channel PipeEvent WriteEnd)

/-- The states of the writers of some pipes. -/
def ends (pipes : List Channel) : List WriteEnd := pipes.map fun channel => channel.pipe.writeEnd

theorem ends_perform (pipes : List Channel) (pipe : PipeId) (event : PipeEvent) :
    ends (perform pipes pipe event) =
      (ends pipes).modify pipe fun writeEnd => writeEndAfter writeEnd event := by
  apply List.ext_getElem?
  intro index
  rw [ends, List.getElem?_map, perform_getElem?, List.getElem?_modify, ends, List.getElem?_map]
  by_cases own : pipe = index
  · simp [own, getD_step_writeEnd, Function.comp_def]
  · simp [own]

/-- A write and the operations of a reader do not concern the writer's end. -/
theorem ends_perform_of_kept {event : PipeEvent} (pipes : List Channel) (pipe : PipeId)
    (kept : ∀ writeEnd, writeEndAfter writeEnd event = writeEnd) :
    ends (perform pipes pipe event) = ends pipes := by
  rw [ends_perform, funext kept]
  exact List.modify_id _ _

theorem writeEndAfter_write (writeEnd : WriteEnd) (text : String) :
    writeEndAfter writeEnd (.write text) = writeEnd := by
  cases writeEnd <;> rfl

theorem writeEndAfter_reader {event : PipeEvent} (writeEnd : WriteEnd)
    (reads : event = .read ∨ event = .closeReader ∨ ∃ call, event = .complete call) :
    writeEndAfter writeEnd event = writeEnd := by
  rcases reads with rfl | rfl | ⟨call, rfl⟩ <;> cases writeEnd <;> rfl

/-- No reader waits at a pipe whose writer is not open. -/
theorem reads_of_shut {channel : Channel} (sound : channel.Sound)
    (shut : channel.pipe.writeEnd ≠ .opened) : channel.pipe.reads = [] := by
  obtain ⟨taken, tail, sequenced⟩ := sound.sequenced
  cases sequenced.waiting with
  | inl waiting =>
      obtain ⟨count, _, reads, opened⟩ := waiting
      have none : count = 0 := by
        by_contra some
        exact shut (opened (Nat.pos_of_ne_zero some)).2
      rw [reads, none]
      rfl
  | inr ended => exact ended.1

/-- The writer of an open pipe is the one that the decoder has. -/
theorem shut_of_silent {Start Extra : Type} {decoder : Streaming Start Extra}
    (piped : Piped decoder) (silent : decoder.writer = none) :
    WriteEnd.opened ∉ ends decoder.pipes := by
  intro member
  obtain ⟨channel, inside, opened⟩ := List.mem_map.mp member
  obtain ⟨pipe, found⟩ := List.mem_iff_getElem?.mp inside
  simp [piped.opened pipe channel found opened] at silent

/-- The writer's end is closed by `close` only. -/
theorem closed_perform_fail (pipes : List Channel) (pipe index : PipeId) (message : String) :
    (ends (perform pipes pipe (.fail message)))[index]? = some .closed ↔
      (ends pipes)[index]? = some .closed := by
  rw [ends_perform, List.getElem?_modify]
  cases (ends pipes)[index]? with
  | none => simp
  | some writeEnd =>
      by_cases own : pipe = index
      · cases writeEnd <;> simp [own, writeEndAfter]
      · simp [own]

namespace Effect

variable {Start Extra : Type} {refuses : Streaming Start Extra → Callback → Bool}
  {decoder next : Streaming Start Extra} {callback : Callback} {code : Nat}

theorem ends_write (decoder : Streaming Start Extra) (pipe : PipeId) (text : String) :
    ends (perform decoder.pipes pipe (.write text)) = ends decoder.pipes :=
  ends_perform_of_kept _ _ fun writeEnd => writeEndAfter_write writeEnd text

section

variable (effect : Effect refuses decoder callback next code)

include effect

/-- The only pipe that a callback closes is that of a message which is complete. -/
theorem closed_iff
    (writing : ∀ pipe, decoder.writer = some pipe → (ends decoder.pipes)[pipe]? = some .opened)
    (index : PipeId) :
    (ends next.pipes)[index]? = some .closed ↔ (ends decoder.pipes)[index]? = some .closed ∨
      (callback = .messageComplete ∧ code = success) ∧ decoder.writer = some index := by
  cases effect with
  | quiet other pipes _ => simp [pipes, other]
  | hands _ pipes _ =>
      simp only [pipes, ends, List.map_append, List.map_cons, List.map_nil, List.getElem?_append,
        reduceCtorEq, false_and, or_false]
      split
      · rfl
      · next beyond =>
          rw [List.getElem?_eq_none (Nat.le_of_not_lt beyond)]
          cases index - _ <;> simp [Channel.empty, Http.Pipe.empty]
  | writes _ pipes _ => simp [pipes, ends_write]
  | @closes pipe _ own pipes _ =>
      rw [pipes, ends_perform, List.getElem?_modify, own]
      have opened := writing pipe own
      by_cases same : pipe = index
      · subst same
        simp [opened, writeEndAfter]
      · simp [same]
  | refuses _ _ other pipes _ => simp [pipes, other]
  | rejects nonzero _ pipes _ => simp [pipes]
  | unopened => simp [success, failureCode]
  | unfinished _ pipes _ _ => simp [pipes, closed_perform_fail, success, failureCode]

/-- The pipe that a decoder writes into is open, unless its message could not be completed. -/
theorem writing
    (writing : ∀ pipe, decoder.writer = some pipe → (ends decoder.pipes)[pipe]? = some .opened)
    (completes : callback = .messageComplete → code = success) (pipe : PipeId)
    (own : next.writer = some pipe) : (ends next.pipes)[pipe]? = some .opened := by
  cases effect with
  | quiet _ pipes writer | refuses _ _ _ pipes writer | rejects _ _ pipes writer =>
      exact pipes ▸ writing pipe (writer ▸ own)
  | hands _ pipes writer =>
      rw [writer] at own
      cases own
      simp [pipes, ends, Channel.empty, Http.Pipe.empty]
  | writes _ pipes writer =>
      rw [pipes, ends_write]
      exact writing pipe (writer ▸ own)
  | closes _ _ writer => simp [writer] at own
  | unopened | unfinished => cases completes rfl

/-- A callback that fails for another reason than its data records it and leaves no pipe open. -/
theorem failed (piped : Piped decoder)
    (writing : ∀ pipe, decoder.writer = some pipe → (ends decoder.pipes)[pipe]? = some .opened)
    (silent : ∀ head, callback = .headersComplete head → decoder.writer = none)
    (fails : code ≠ success) (accepts : refuses decoder callback = false) :
    next.failure = true ∧ WriteEnd.opened ∉ ends next.pipes := by
  have kept := effect.moves.piped piped
  cases effect with
  | quiet | hands | writes | closes => exact absurd rfl fails
  | refuses refused => simp [refused] at accepts
  | rejects _ failure _ writer => exact ⟨failure, shut_of_silent kept (writer.trans (silent _ rfl))⟩
  | unopened missing failure => exact ⟨failure, shut_of_silent piped missing⟩
  | @unfinished pipe message _ own pipes writer failure =>
      refine ⟨failure, fun member => ?_⟩
      obtain ⟨index, found⟩ := List.mem_iff_getElem?.mp member
      obtain ⟨channel, listed, opened⟩ := Option.map_eq_some_iff.mp
        ((List.getElem?_map ..).symm.trans found)
      -- The pipe would be the one whose writer has just failed.
      have same : pipe = index := by
        simpa [writer, own] using kept.opened index channel listed opened
      rw [pipes, ends_perform, List.getElem?_modify, ← same, writing pipe own] at found
      simp [writeEndAfter] at found

end

end Effect

theorem Parser.body_of_completes {parser : Parser} (completes : parser.atEof = .completes) :
    parser.errored = false ∧ parser.phase = .body := by
  unfold Parser.atEof at completes
  cases errored : parser.errored <;> cases phase : parser.phase <;>
    simp [errored, phase] at completes ⊢

theorem Parser.unerrored_of_fails {parser : Parser} (fails : parser.atEof = .fails) :
    parser.errored = false := by
  unfold Parser.atEof at fails
  cases errored : parser.errored with
  | false => rfl
  | true => simp [errored] at fails

/-! ## Calls of `decode` -/

inductive FeedEvent where
  /-- `decode` is called with some bytes. -/
  | call
  /-- A callback of the parser; `last` tells that its data are the last bytes of the buffer. -/
  | callback (callback : Callback) (last : Bool)
  /-- The parser records an error of its own, at a byte of the buffer. -/
  | error
  /-- `http_parser_execute` returns. -/
  | returned (short : Bool)
  /-- `decode("", 0)` -/
  | eof
  /-- An operation of a reader, or the completion of a promise of a pipe. -/
  | pipe (pipe : PipeId) (event : PipeEvent)
  deriving DecidableEq, Repr

/-- A streaming decoder with its parser.  `control` tells during a call of `decode` whether an error
was recorded before.  `left` tells that the last callback was not for the last bytes of the buffer,
`refused` that a callback has failed, and `lost` that one has failed for the last bytes of the
buffer because of its data.  `completed` are the pipes of complete messages. -/
structure Feed (Start Extra : Type) where
  decoder : Streaming Start Extra
  parser : Parser
  control : Option Bool
  left : Bool
  lost : Bool
  refused : Bool
  completed : List PipeId

namespace Feed

variable {Start Extra : Type} (invoke : Streaming Start Extra → Callback →
  Option (Streaming Start Extra × Nat)) (refuses : Streaming Start Extra → Callback → Bool)

def init (extra : Extra) : Feed Start Extra :=
  ⟨.init extra, .init, none, false, false, false, []⟩

/-- A callback has returned. -/
def answer (feed : Feed Start Extra) (callback : Callback) (last : Bool)
    (answer : Streaming Start Extra × Nat) : Feed Start Extra :=
  { feed with
    decoder := answer.1
    parser := feed.parser.answered callback answer.2
    left := !last
    lost := last && refuses feed.decoder callback
    refused := feed.refused || answer.2 != success
    completed :=
      if callback = .messageComplete ∧ answer.2 = success then
        feed.completed ++ feed.decoder.writer.toList
      else feed.completed }

/-- What `decode` does once `http_parser_execute` has returned. -/
def finish (feed : Feed Start Extra) (short : Bool) : Feed Start Extra :=
  { feed with
    decoder := (feed.decoder.finish short).1
    parser := { feed.parser with exited := false }
    control := none }

/-- `decode("", 0)` -/
def decodeEof (feed : Feed Start Extra) : Option (Feed Start Extra) :=
  match feed.parser.atEof with
  | .nothing => some (feed.finish false)
  | .completes => (invoke feed.decoder .messageComplete).map fun answer =>
      (feed.answer refuses .messageComplete true answer).finish false
  | .fails =>
      some ({ feed with parser := { feed.parser with errored := true } }.finish true)

def step (feed : Feed Start Extra) : FeedEvent → Option (Feed Start Extra)
  | .call =>
      if feed.control = none then
        some { feed with control := some feed.parser.errored, left := true, lost := false }
      else none
  | .callback callback last =>
      if feed.control.isSome ∧ feed.parser.invokes callback then
        (invoke feed.decoder callback).map (feed.answer refuses callback last)
      else none
  | .error =>
      if feed.control.isSome ∧ feed.parser.errored = false ∧ feed.parser.exited = false then
        some { feed with parser := { feed.parser with errored := true }, left := true }
      else none
  | .returned short =>
      match feed.control with
      | none => none
      | some stale =>
          -- An error of this call leaves the bytes behind the callback that has failed.
          if feed.parser.returns stale short ∧
              (stale = false → feed.parser.errored = true → short = feed.left) then
            some (feed.finish short)
          else none
  | .eof => if feed.control = none then feed.decodeEof invoke refuses else none
  | .pipe pipe event =>
      match event with
      | .read | .closeReader | .complete _ => some { feed with
          decoder := feed.decoder.onWriter pipe event }
      | _ => none

def machine (extra : Extra) : Automaton (Feed Start Extra) FeedEvent where
  start := (· = init extra)
  step := step invoke refuses

/-- `decode` returns though a callback has failed for the last bytes of the buffer because of its
data. -/
def Loses (feed : Feed Start Extra) : FeedEvent → Prop
  | .returned _ => feed.lost = true
  | _ => False

instance (feed : Feed Start Extra) (event : FeedEvent) : Decidable (feed.Loses event) := by
  unfold Loses
  split <;> infer_instance

/-- Behind a call of `decode`, a failure of a callback is known, the writers of all messages that
are not complete have failed, and their readers do not wait. -/
def Sealed (feed : Feed Start Extra) : Prop :=
  feed.control = none → feed.refused = true → feed.decoder.failure = true ∧
    ∀ (pipe : PipeId) (channel : Channel), feed.decoder.pipes[pipe]? = some channel →
      pipe ∈ feed.completed ∨ channel.pipe.writeEnd = .failed ∧ channel.pipe.reads = []

/-- What is known of the callbacks of a streaming decoder. -/
structure Decodes : Prop where
  begins : ∀ {decoder}, decoder.failure = true → invoke decoder .messageBegin = none
  proceeds : ∀ {parser : Parser} {decoder callback}, InStep parser decoder →
    parser.invokes callback = true → Proceeds parser callback (invoke decoder callback)
  effect : ∀ {decoder callback next code}, invoke decoder callback = some (next, code) →
    Effect refuses decoder callback next code
  fails : ∀ {decoder callback next code}, refuses decoder callback = true →
    invoke decoder callback = some (next, code) → code = failureCode ∧
      (∀ head, callback ≠ .headersComplete head) ∧ callback ≠ .messageComplete ∧
      next.pipes = decoder.pipes
  behind : ∀ {parser : Parser} {decoder callback}, InStep parser decoder →
    parser.invokes callback = true → refuses decoder callback = true → parser.phase = .body

/-- The parser begins a new message behind an upgrade though `decode` has failed. -/
structure Dead (feed : Feed Start Extra) : Prop where
  failure : feed.decoder.failure = true
  writer : feed.decoder.writer = none
  phase : feed.parser.phase = .idle
  refused : feed.refused = false

structure Kept (feed : Feed Start Extra) : Prop where
  inStep : InStep feed.parser feed.decoder ∨ feed.Dead
  piped : Piped feed.decoder
  completed : ∀ pipe, (ends feed.decoder.pipes)[pipe]? = some .closed ↔ pipe ∈ feed.completed
  writing : feed.parser.errored = false → ∀ pipe, feed.decoder.writer = some pipe →
    (ends feed.decoder.pipes)[pipe]? = some .opened
  stops : feed.refused = true → feed.parser.errored = true ∨ feed.parser.phase = .skipping
  stale : feed.control = some true → feed.parser.errored = true
  failed : feed.refused = true →
    feed.decoder.failure = true ∧ WriteEnd.opened ∉ ends feed.decoder.pipes ∨
      feed.parser.errored = true ∧ feed.control = some false ∧
        (feed.left = true ∨ feed.lost = true)
  lost : feed.lost = true → feed.refused = true ∧ feed.parser.errored = true ∧
    feed.control = some false ∧ feed.left = false ∧
      WriteEnd.opened ∈ ends feed.decoder.pipes

variable {invoke refuses} {feed next : Feed Start Extra}

theorem kept_init (extra : Extra) : (init extra : Feed Start Extra).Kept where
  inStep := .inl ⟨fun _ => ⟨rfl, rfl⟩, nofun, nofun⟩
  piped := ⟨nofun, nofun⟩
  completed _ := ⟨nofun, nofun⟩
  writing _ _ := nofun
  stops := nofun
  stale := nofun
  failed := nofun
  lost := nofun

theorem Kept.sealed (kept : feed.Kept) : feed.Sealed := by
  intro idle refused
  cases kept.failed refused with
  | inr pending => simp [idle] at pending
  | inl failed =>
      obtain ⟨failure, shut⟩ := failed
      refine ⟨failure, fun pipe channel found => ?_⟩
      have listed : (ends feed.decoder.pipes)[pipe]? = some channel.pipe.writeEnd := by
        simp [ends, found]
      have sound := kept.piped.sound channel (List.mem_of_getElem? found)
      cases ended : channel.pipe.writeEnd with
      | opened =>
          rw [ended] at listed
          exact absurd (List.mem_of_getElem? listed) shut
      | closed => exact .inl ((kept.completed pipe).mp (ended ▸ listed))
      | failed => exact .inr ⟨rfl, reads_of_shut sound (by simp [ended])⟩

theorem closed_finish (decoder : Streaming Start Extra) (short : Bool) (index : PipeId) :
    (ends (decoder.finish short).1.pipes)[index]? = some .closed ↔
      (ends decoder.pipes)[index]? = some .closed := by
  cases short with
  | false => rfl
  | true =>
      simp only [Streaming.finish, if_true, Streaming.failWriter]
      cases decoder.writer with
      | none => rfl
      | some pipe => exact closed_perform_fail _ _ _ _

/-- A call returns, and notices the failure of a callback unless it is recorded. -/
theorem Kept.finish {short : Bool} (kept : feed.Kept)
    (noticed : feed.refused = true → short = true ∨
      feed.decoder.failure = true ∧ WriteEnd.opened ∉ ends feed.decoder.pipes)
    (recorded : short = true → feed.parser.errored = true ∨ feed.parser.exited = true)
    (found : feed.lost = false) : (feed.finish short).Kept := by
  have piped : Piped (feed.decoder.finish short).1 :=
    (Moves.finish feed.decoder short).piped kept.piped
  have silent (early : short = true) : (feed.decoder.finish short).1.writer = none := by
    rw [early]
    rfl
  constructor
  case piped => exact piped
  case completed => exact fun pipe => (closed_finish _ _ _).trans (kept.completed pipe)
  case stale => exact nofun
  case lost =>
    intro lost
    exact absurd (found.symm.trans lost) (by decide)
  case stops => exact kept.stops
  case writing =>
    intro unerrored pipe own
    cases short with
    | false => exact kept.writing unerrored pipe own
    | true => cases own
  case failed =>
    intro refused
    left
    cases short with
    | false =>
        cases noticed refused with
        | inl early => cases early
        | inr failed => exact failed
    | true => exact ⟨rfl, shut_of_silent piped rfl⟩
  case inStep =>
    cases kept.inStep with
    | inr dead =>
        right
        refine ⟨?_, ?_, dead.phase, dead.refused⟩
        · cases short with
          | false => exact dead.failure
          | true => rfl
        · cases short with
          | false => exact dead.writer
          | true => rfl
    | inl inStep =>
        by_cases recovers : short = false ∨ feed.parser.errored = true
        · exact .inl (inStep.finish recovers)
        · simp only [not_or, Bool.not_eq_false, Bool.not_eq_true] at recovers
          obtain ⟨early, unerrored⟩ := recovers
          have idle : feed.parser.phase = .idle := by
            cases recorded early with
            | inl errored => simp [errored] at unerrored
            | inr exited => exact inStep.exited exited
          right
          refine ⟨?_, silent early, idle, ?_⟩
          · rw [early]
            rfl
          · cases refused : feed.refused with
            | false => exact refused
            | true =>
                have stops := kept.stops refused
                simp [unerrored, idle] at stops

/-- A decoder whose parser invokes a callback is in step with it. -/
theorem Kept.invoked (decodes : Decodes invoke refuses) (kept : feed.Kept) {callback : Callback}
    {answer : Streaming Start Extra × Nat} (invokes : feed.parser.invokes callback = true)
    (invoked : invoke feed.decoder callback = some answer) :
    InStep feed.parser feed.decoder := by
  cases kept.inStep with
  | inl inStep => exact inStep
  | inr dead =>
      have first : callback = .messageBegin := by
        simp only [Parser.invokes, dead.phase] at invokes
        cases callback <;> simp at invokes ⊢
      rw [first, decodes.begins dead.failure] at invoked
      cases invoked

theorem answered_of_fails {parser : Parser} {callback : Callback} {code : Nat}
    (other : ∀ head, callback ≠ .headersComplete head) (fails : code ≠ success) :
    (parser.answered callback code).errored = true := by
  cases code with
  | zero => exact absurd rfl fails
  | succ code =>
      cases callback <;> first | rfl | exact absurd rfl (other _)

theorem answered_of_refused {parser : Parser} {callback : Callback} {code : Nat}
    (fails : code ≠ success) : (parser.answered callback code).errored = true ∨
      (parser.answered callback code).phase = .skipping := by
  by_cases other : ∀ head, callback ≠ .headersComplete head
  · exact .inl (answered_of_fails other fails)
  · simp only [not_forall, not_not] at other
    obtain ⟨head, rfl⟩ := other
    match code with
    | 0 => exact absurd rfl fails
    | 1 | 2 => exact .inr rfl
    | code + 3 => exact .inl rfl

/-- After a failure, the end of a message is all that the parser can still report. -/
theorem Kept.skipped (decodes : Decodes invoke refuses) (kept : feed.Kept) {callback : Callback}
    {next : Streaming Start Extra} {code : Nat} (refused : feed.refused = true)
    (invokes : feed.parser.invokes callback = true)
    (invoked : invoke feed.decoder callback = some (next, code)) :
    callback = .messageComplete ∧ code = failureCode ∧ next = feed.decoder := by
  obtain ⟨unerrored, _⟩ := Parser.invokes_cases invokes
  have skipping : feed.parser.phase = .skipping := by
    simpa [unerrored] using kept.stops refused
  have last : callback = .messageComplete := by
    simp only [Parser.invokes, skipping] at invokes
    cases callback <;> simp at invokes ⊢
  have agrees := (kept.invoked decodes invokes invoked).agrees unerrored
  rw [skipping] at agrees
  subst last
  cases decodes.effect invoked with
  | quiet other | refuses _ _ other => exact absurd rfl other
  | closes own | unfinished own => simp [agrees.1] at own
  | unopened => exact ⟨rfl, rfl, rfl⟩

theorem Kept.answer (decodes : Decodes invoke refuses) (kept : feed.Kept) {callback : Callback}
    {last : Bool} {answer : Streaming Start Extra × Nat} (calling : feed.control = some false)
    (invokes : feed.parser.invokes callback = true)
    (invoked : invoke feed.decoder callback = some answer) :
    (feed.answer refuses callback last answer).Kept := by
  obtain ⟨unerrored, exited, _, head, _, complete⟩ := Parser.invokes_cases invokes
  have inStep := kept.invoked decodes invokes invoked
  have agrees := inStep.agrees unerrored
  have writing := kept.writing unerrored
  obtain ⟨next, code⟩ := answer
  have effect := decodes.effect invoked
  obtain ⟨_, _, same, stepped⟩ := decodes.proceeds inStep invokes
  rw [invoked] at same
  cases same
  have silent (told : Head) (isHead : callback = .headersComplete told) :
      feed.decoder.writer = none := by
    rw [head told isHead] at agrees
    exact agrees.2
  constructor
  case inStep => exact .inl stepped
  case piped => exact effect.moves.piped kept.piped
  case completed =>
    intro pipe
    rw [Feed.answer, effect.closed_iff writing, kept.completed]
    split
    · next finishes =>
        obtain ⟨rfl, succeeds⟩ := finishes
        change code = success at succeeds
        simp [succeeds]
    · next goes => simp [goes]
  case writing =>
    intro unerrored
    apply effect.writing writing
    intro completes
    by_contra fails
    rw [Feed.answer, answered_of_fails (by simp [completes]) fails] at unerrored
    cases unerrored
  case stale => exact fun stale => absurd (calling.symm.trans stale) (by decide)
  case lost =>
    intro lost
    obtain ⟨isLast, refused⟩ := Bool.and_eq_true_iff.mp lost
    obtain ⟨rfl, other, _, pipes⟩ := decodes.fails refused invoked
    have fails : failureCode ≠ success := by decide
    refine ⟨Bool.or_true _, answered_of_fails other fails, calling, ?_, ?_⟩
    · simp [Feed.answer, isLast]
    · rw [decodes.behind inStep invokes refused] at agrees
      obtain ⟨pipe, own⟩ := Option.isSome_iff_exists.mp agrees.2
      change WriteEnd.opened ∈ ends next.pipes
      rw [pipes]
      exact List.mem_of_getElem? (writing pipe own)
  case stops =>
    intro refused
    by_cases earlier : feed.refused = true
    · obtain ⟨rfl, rfl, _⟩ := kept.skipped decodes earlier invokes invoked
      exact .inl rfl
    · have fails : code ≠ success := by simpa [Feed.answer, earlier] using refused
      exact answered_of_refused fails
  case failed =>
    intro refused
    by_cases earlier : feed.refused = true
    · obtain ⟨_, _, rfl⟩ := kept.skipped decodes earlier invokes invoked
      cases kept.failed earlier with
      | inl failed => exact .inl failed
      | inr pending => exact absurd (unerrored.symm.trans pending.1) (by decide)
    · have fails : code ≠ success := by simpa [Feed.answer, earlier] using refused
      cases refusal : refuses feed.decoder callback with
      | false => exact .inl (effect.failed kept.piped writing silent fails refusal)
      | true =>
          obtain ⟨_, other, _⟩ := decodes.fails refusal invoked
          refine .inr ⟨answered_of_fails other fails, calling, ?_⟩
          cases last with
          | false => exact .inl rfl
          | true => exact .inr refusal

section

variable (kept : feed.Kept)

include kept

/-- `decode` is called. -/
theorem Kept.call (idle : feed.control = none) (left : Bool) :
    Kept { feed with control := some feed.parser.errored, left := left, lost := false } where
  inStep := kept.inStep.imp id fun dead => ⟨dead.failure, dead.writer, dead.phase, dead.refused⟩
  piped := kept.piped
  completed := kept.completed
  writing := kept.writing
  stops := kept.stops
  stale stale := Option.some.inj stale
  failed refused := by
    cases kept.failed refused with
    | inl failed => exact .inl failed
    | inr pending => simp [idle] at pending
  lost := nofun

/-- The parser records an error of its own. -/
theorem Kept.error (unerrored : feed.parser.errored = false) (left : Bool) :
    Kept { feed with parser := { feed.parser with errored := true }, left := left } where
  inStep := by
    apply Or.inl
    apply InStep.of_errored rfl
    intro exited
    cases kept.inStep with
    | inl inStep => exact inStep.exited exited
    | inr dead => exact dead.phase
  piped := kept.piped
  completed := kept.completed
  writing := nofun
  stops _ := .inl rfl
  stale _ := rfl
  failed refused := by
    cases kept.failed refused with
    | inl failed => exact .inl failed
    | inr pending => simp [unerrored] at pending
  lost lost := by
    have recorded := (kept.lost lost).2.1
    simp [unerrored] at recorded

/-- An operation on a pipe that does not concern the writer's end. -/
theorem Kept.pipe (pipe : PipeId) {event : PipeEvent}
    (neutral : ∀ writeEnd, writeEndAfter writeEnd event = writeEnd) :
    Kept { feed with decoder := feed.decoder.onWriter pipe event } := by
  have same : ends (feed.decoder.onWriter pipe event).pipes = ends feed.decoder.pipes :=
    ends_perform_of_kept _ _ neutral
  constructor
  case inStep =>
    cases kept.inStep with
    | inl inStep => exact .inl (inStep.frame rfl rfl rfl)
    | inr dead => exact .inr ⟨dead.failure, dead.writer, dead.phase, dead.refused⟩
  case piped =>
    have moves : Moves feed.decoder (feed.decoder.onWriter pipe event) := .of_perform rfl (.inl rfl)
    exact moves.piped kept.piped
  case completed => exact same ▸ kept.completed
  case writing => exact same ▸ kept.writing
  case stops => exact kept.stops
  case stale => exact kept.stale
  case failed => exact same ▸ kept.failed
  case lost => exact same ▸ kept.lost

theorem Kept.found (idle : feed.control = none) : feed.lost = false := by
  cases lost : feed.lost with
  | false => rfl
  | true =>
      have calling := (kept.lost lost).2.2.1
      simp [idle] at calling

/-- Between two calls a failure has been noticed. -/
theorem Kept.noticed (idle : feed.control = none) (refused : feed.refused = true) :
    feed.decoder.failure = true ∧ WriteEnd.opened ∉ ends feed.decoder.pipes := by
  cases kept.failed refused with
  | inl failed => exact failed
  | inr pending => simp [idle] at pending

/-- An error that was recorded before keeps the parser from invoking a callback. -/
theorem Kept.fresh (calling : feed.control.isSome = true)
    (unerrored : feed.parser.errored = false) : feed.control = some false := by
  obtain ⟨stale, control⟩ := Option.isSome_iff_exists.mp calling
  cases stale with
  | false => exact control
  | true => simp [kept.stale control] at unerrored

end

theorem Kept.decodeEof (decodes : Decodes invoke refuses) (kept : feed.Kept)
    (idle : feed.control = none) (ended : feed.decodeEof invoke refuses = some next) :
    next.Kept := by
  unfold Feed.decodeEof at ended
  split at ended
  · cases ended
    exact kept.finish (fun refused => .inr (kept.noticed idle refused)) nofun (kept.found idle)
  · next completes =>
      obtain ⟨answer, invoked, rfl⟩ := Option.map_eq_some_iff.mp ended
      obtain ⟨unerrored, body⟩ := Parser.body_of_completes completes
      have unexited : feed.parser.exited = false := by
        by_contra exited
        have phase : feed.parser.phase = .idle := by
          cases kept.inStep with
          | inl inStep => exact inStep.exited (by simpa using exited)
          | inr dead => exact dead.phase
        simp [body] at phase
      have invokes : feed.parser.invokes .messageComplete = true := by
        simp [Parser.invokes, unerrored, unexited, body]
      obtain ⟨called, same⟩ : ∃ called : Feed Start Extra, called =
        { feed with control := some feed.parser.errored, left := true, lost := false } := ⟨_, rfl⟩
      have ready : called.Kept := same ▸ kept.call idle true
      have answered : (called.answer refuses .messageComplete true answer).Kept := by
        apply ready.answer decodes <;> rw [same]
        · exact congrArg some unerrored
        · exact invokes
        · exact invoked
      have accepted : refuses feed.decoder .messageComplete = false := by
        by_contra refused
        exact (decodes.fails (by simpa using refused) invoked).2.2.1 rfl
      have finished : ((called.answer refuses .messageComplete true answer).finish false).Kept := by
        apply answered.finish
        · intro refused
          right
          cases answered.failed refused with
          | inl failed => exact failed
          | inr pending => simp [Feed.answer, same, accepted] at pending
        · exact nofun
        · simp [Feed.answer, same, accepted]
      rw [same] at finished
      exact finished
  · next fails =>
      cases ended
      have unerrored := Parser.unerrored_of_fails fails
      apply (kept.error unerrored feed.left).finish
      · exact fun refused => .inr (kept.noticed idle refused)
      · exact fun _ => .inl rfl
      · exact kept.found idle

/-- A step that does not lose a failure. -/
theorem Kept.step (decodes : Decodes invoke refuses) (kept : feed.Kept) {event : FeedEvent}
    (notices : ¬ feed.Loses event) (stepped : feed.step invoke refuses event = some next) :
    next.Kept := by
  cases event with
  | call =>
      simp only [Feed.step] at stepped
      split at stepped <;> cases stepped
      rename_i idle
      exact kept.call idle true
  | callback callback last =>
      simp only [Feed.step] at stepped
      split at stepped
      · next possible =>
          obtain ⟨calling, invokes⟩ := possible
          obtain ⟨answer, invoked, rfl⟩ := Option.map_eq_some_iff.mp stepped
          exact kept.answer decodes (kept.fresh calling (Parser.invokes_cases invokes).1) invokes
            invoked
      · cases stepped
  | error =>
      simp only [Feed.step] at stepped
      split at stepped <;> cases stepped
      rename_i possible
      exact kept.error possible.2.1 true
  | returned short =>
      simp only [Feed.step] at stepped
      split at stepped
      · cases stepped
      · next stale control =>
          split at stepped <;> cases stepped
          rename_i possible
          obtain ⟨returns, leaves⟩ := possible
          have found : feed.lost = false := by simpa [Loses] using notices
          apply kept.finish _ _ found
          · intro refused
            cases kept.failed refused with
            | inl failed => exact .inr failed
            | inr pending =>
                obtain ⟨errored, calling, left⟩ := pending
                left
                rw [control, Option.some.injEq] at calling
                rw [leaves calling errored]
                simpa [found] using left
          · intro early
            cases stale with
            | true => exact .inl (kept.stale control)
            | false => simpa [Parser.returns, early] using returns
  | eof =>
      simp only [Feed.step] at stepped
      split at stepped
      · next idle => exact kept.decodeEof decodes idle stepped
      · cases stepped
  | pipe pipe event =>
      cases event with
      | read =>
          cases stepped
          exact kept.pipe pipe fun writeEnd => writeEndAfter_reader writeEnd (.inl rfl)
      | closeReader =>
          cases stepped
          exact kept.pipe pipe fun writeEnd => writeEndAfter_reader writeEnd (.inr (.inl rfl))
      | complete call =>
          cases stepped
          exact kept.pipe pipe fun writeEnd => writeEndAfter_reader writeEnd (.inr (.inr ⟨call, rfl⟩))
      | write | closeWriter | fail => cases stepped

/-- A failure that is lost leaves a pipe open behind the call. -/
theorem Kept.breaks (kept : feed.Kept) {event : FeedEvent} (loses : feed.Loses event)
    (stepped : feed.step invoke refuses event = some next) : ¬ next.Sealed := by
  cases event with
  | returned short =>
      obtain ⟨refused, errored, calling, left, member⟩ := kept.lost loses
      simp only [Feed.step, calling] at stepped
      split at stepped <;> cases stepped
      rename_i possible
      have whole : short = false := (possible.2 True.intro errored).trans left
      subst whole
      intro sealed
      obtain ⟨_, shut⟩ := sealed rfl refused
      obtain ⟨pipe, found⟩ := List.mem_iff_getElem?.mp member
      obtain ⟨channel, listed, opened⟩ := Option.map_eq_some_iff.mp
        ((List.getElem?_map ..).symm.trans found)
      cases shut pipe channel listed with
      | inl completed =>
          have closed := (kept.completed pipe).mpr completed
          simp [found] at closed
      | inr failed =>
          have both := opened.symm.trans failed.1
          cases both
  | call | callback | error | eof | pipe => cases loses

/-- A run leaves no failed call of `decode` unnoticed exactly if none of its calls loses a failure. -/
theorem throughout_iff (decodes : Decodes invoke refuses) (extra : Extra) {events : List FeedEvent}
    (ran : (machine invoke refuses extra).run (init extra) events = some feed) :
    (machine invoke refuses extra).Throughout Sealed (init extra) events ↔
      (machine invoke refuses extra).Along (fun feed event => ¬ feed.Loses event) (init extra)
        events := by
  apply Automaton.throughout_iff_along Sealed Kept (kept_init extra)
  · exact fun _ kept => kept.sealed
  · exact fun _ _ _ kept notices stepped => kept.step decodes notices stepped
  · intro feed event next kept loses stepped
    exact kept.breaks (not_not.mp loses) stepped
  · exact ran

end Feed

/-- In front of the end of the headers there is a message. -/
theorem InStep.has_message {Start Extra : Type} {parser : Parser}
    {decoder : Streaming Start Extra} {callback : Callback} (inStep : InStep parser decoder)
    (invokes : parser.invokes callback = true) (missing : decoder.message.isNone = true)
    (inside : parser.phase = .head ∨ parser.phase = .body) : parser.phase = .body := by
  cases inside with
  | inr body => exact body
  | inl head =>
      have agrees := inStep.agrees (Parser.invokes_cases invokes).1
      rw [head] at agrees
      have present := agrees.1
      rw [Option.isNone_iff_eq_none.mp missing] at present
      cases present

/-- Where the parser reads a header. -/
theorem Parser.phase_of_header {parser : Parser} {callback : Callback}
    (header : ∃ data, callback = .headerField data ∨ callback = .headerValue data ∨
      callback = .url data) (invokes : parser.invokes callback = true) :
    parser.phase = .head ∨ parser.phase = .body := by
  obtain ⟨data, rfl | rfl | rfl⟩ := header <;>
    cases phase : parser.phase <;> simp [Parser.invokes, phase] at invokes ⊢

theorem Streaming.onHeaderField_missing {Start Extra : Type} {decoder : Streaming Start Extra}
    (missing : decoder.message.isNone = true) (data : String) :
    decoder.onHeaderField data = (decoder, failureCode) := by
  simp [onHeaderField, Option.isNone_iff_eq_none.mp missing]

theorem Streaming.onHeaderValue_missing {Start Extra : Type} {decoder : Streaming Start Extra}
    (missing : decoder.message.isNone = true) (data : String) :
    decoder.onHeaderValue data = (decoder, failureCode) := by
  simp [onHeaderValue, Option.isNone_iff_eq_none.mp missing]

theorem StreamingRequestDecoder.decodes (libraries : Libraries) :
    Feed.Decodes (@invoke libraries) (@refuses libraries) where
  begins failure := by simp [invoke, onMessageBegin, Streaming.begin, failure]
  proceeds := invoke_proceeds
  effect := effect
  fails := by
    intro decoder callback next code refused invoked
    cases callback with
    | url data =>
        have missing : decoder.message = none := Option.isNone_iff_eq_none.mp refused
        simp only [invoke, onUrl, missing] at invoked
        cases invoked
        exact ⟨rfl, nofun, nofun, rfl⟩
    | headerField data =>
        rw [invoke, Streaming.onHeaderField_missing refused] at invoked
        cases invoked
        exact ⟨rfl, nofun, nofun, rfl⟩
    | headerValue data =>
        rw [invoke, Streaming.onHeaderValue_missing refused] at invoked
        cases invoked
        exact ⟨rfl, nofun, nofun, rfl⟩
    | body data =>
        obtain ⟨decompressor, present, broken⟩ := (Option.any_eq_true _ _).mp refused
        simp only [invoke, onBody, present, Option.isNone_iff_eq_none.mp broken] at invoked
        split at invoked <;> cases invoked
        exact ⟨rfl, nofun, nofun, rfl⟩
    | messageBegin | status | headersComplete | chunkHeader | chunkComplete | messageComplete =>
        cases refused
  behind := by
    intro parser decoder callback inStep invokes refused
    cases callback with
    | url data =>
        exact inStep.has_message invokes refused
          (Parser.phase_of_header ⟨data, .inr (.inr rfl)⟩ invokes)
    | headerField data =>
        exact inStep.has_message invokes refused (Parser.phase_of_header ⟨data, .inl rfl⟩ invokes)
    | headerValue data =>
        exact inStep.has_message invokes refused
          (Parser.phase_of_header ⟨data, .inr (.inl rfl)⟩ invokes)
    | body data => exact (Parser.invokes_cases invokes).2.2.2.2.1 data rfl
    | messageBegin | status | headersComplete | chunkHeader | chunkComplete | messageComplete =>
        cases refused

theorem StreamingResponseDecoder.decodes : Feed.Decodes invoke refuses where
  begins failure := by simp [invoke, onMessageBegin, Streaming.begin, failure]
  proceeds := invoke_proceeds
  effect := effect
  fails := by
    intro decoder callback next code refused invoked
    cases callback with
    | headerField data =>
        rw [invoke, Streaming.onHeaderField_missing refused] at invoked
        cases invoked
        exact ⟨rfl, nofun, nofun, rfl⟩
    | headerValue data =>
        rw [invoke, Streaming.onHeaderValue_missing refused] at invoked
        cases invoked
        exact ⟨rfl, nofun, nofun, rfl⟩
    | messageBegin | url | status | headersComplete | body | chunkHeader | chunkComplete
    | messageComplete => cases refused
  behind := by
    intro parser decoder callback inStep invokes refused
    cases callback with
    | headerField data =>
        exact inStep.has_message invokes refused (Parser.phase_of_header ⟨data, .inl rfl⟩ invokes)
    | headerValue data =>
        exact inStep.has_message invokes refused
          (Parser.phase_of_header ⟨data, .inr (.inl rfl)⟩ invokes)
    | messageBegin | url | status | headersComplete | body | chunkHeader | chunkComplete
    | messageComplete => cases refused

/-- The calls of `decode` of a streaming decoder of requests, and of one of responses. -/
abbrev requestFeed (libraries : Libraries) : Automaton
    (Feed RequestLine (RequestExtra libraries)) FeedEvent :=
  Feed.machine StreamingRequestDecoder.invoke StreamingRequestDecoder.refuses ⟨"", "", none⟩

abbrev responseFeed : Automaton (Feed StatusLine Unit) FeedEvent :=
  Feed.machine StreamingResponseDecoder.invoke StreamingResponseDecoder.refuses ()

/-- Every failure of a callback is noticed by the call of `decode` in which it happens, exactly if
no callback fails because of data that are the last bytes of a buffer. -/
theorem failures_noticed_iff (libraries : Libraries) :
    (∀ events feed, (requestFeed libraries).run (.init ⟨"", "", none⟩) events = some feed →
      ((requestFeed libraries).Throughout Feed.Sealed (.init ⟨"", "", none⟩) events ↔
        (requestFeed libraries).Along (fun feed event => ¬ feed.Loses event)
          (.init ⟨"", "", none⟩) events)) ∧
    ∀ events feed, responseFeed.run (.init ()) events = some feed →
      (responseFeed.Throughout Feed.Sealed (.init ()) events ↔
        responseFeed.Along (fun feed event => ¬ feed.Loses event) (.init ()) events) :=
  ⟨fun _ _ ran => Feed.throughout_iff (StreamingRequestDecoder.decodes libraries) _ ran,
    fun _ _ ran => Feed.throughout_iff StreamingResponseDecoder.decodes () ran⟩

/-- A message with a trailer, which is the last thing in its buffer or not. -/
def trailerEvents (last : Bool) : List FeedEvent :=
  [.call, .callback .messageBegin false, .callback (.url "/") false,
    .callback (.headersComplete ⟨"POST", true, 200, false, false⟩) false,
    .callback (.body "x") false, .callback (.headerField "X") last, .returned (!last)]

theorem failures_noticed_iff_trailer :
    (requestFeed Receiver.plain).Throughout Feed.Sealed (.init ⟨"", "", none⟩)
      (trailerEvents false) := by
  have runs : ((requestFeed Receiver.plain).run (.init ⟨"", "", none⟩)
      (trailerEvents false)).isSome = true := by
    decide +kernel
  obtain ⟨feed, ran⟩ := Option.isSome_iff_exists.mp runs
  apply ((failures_noticed_iff Receiver.plain).1 _ feed ran).mpr
  decide +kernel

/-- A body behind which the decompressor gives up, in one buffer. -/
def gzipEvents : List FeedEvent :=
  [.call, .callback .messageBegin false, .callback (.url "/") false,
    .callback (.headerField "Content-Encoding") false, .callback (.headerValue "gzip") false,
    .callback (.headersComplete ⟨"POST", true, 200, false, false⟩) false,
    .callback (.body "x") true, .returned false]

/-- Libraries whose decompressor accepts nothing. -/
def broken : Libraries := { Receiver.plain with decompress := fun _ _ => none }

/-- The first pipe is open though a callback has failed in an earlier call. -/
def Feed.leaks {Start Extra : Type} (feed : Feed Start Extra) : Bool :=
  feed.control.isNone && feed.refused && feed.completed.isEmpty &&
    decide ((ends feed.decoder.pipes)[0]? = some .opened)

theorem Feed.not_sealed_of_leaks {Start Extra : Type} {feed : Feed Start Extra}
    (leaks : feed.leaks = true) : ¬ feed.Sealed := by
  simp only [Feed.leaks, Bool.and_eq_true, Option.isNone_iff_eq_none, List.isEmpty_iff,
    decide_eq_true_eq] at leaks
  obtain ⟨⟨⟨idle, refused⟩, none⟩, opened⟩ := leaks
  intro sealed
  obtain ⟨channel, listed, same⟩ := Option.map_eq_some_iff.mp
    ((List.getElem?_map ..).symm.trans opened)
  cases (sealed idle refused).2 0 channel listed with
  | inl completed => simp [none] at completed
  | inr failed =>
      have both := same.symm.trans failed.1
      cases both

/-- A trailer at the end of a buffer, and a body that cannot be decompressed at the end of one,
leave the pipe open. -/
theorem not_failures_noticed :
    (∃ feed, responseFeed.run (.init ()) (trailerEvents true) = some feed ∧
      feed.decoder.failure = false ∧ ¬ feed.Sealed) ∧
    (∃ feed, (requestFeed Receiver.plain).run (.init ⟨"", "", none⟩) (trailerEvents true) =
      some feed ∧ feed.decoder.failure = false ∧ ¬ feed.Sealed) ∧
    ∃ feed, (requestFeed broken).run (.init ⟨"", "", none⟩) gzipEvents = some feed ∧
      ¬ feed.Sealed := by
  have response : ∃ feed ∈ responseFeed.run (.init ()) (trailerEvents true),
      feed.leaks = true ∧ feed.decoder.failure = false := by
    decide +kernel
  have request : ∃ feed ∈ (requestFeed Receiver.plain).run (.init ⟨"", "", none⟩)
      (trailerEvents true), feed.leaks = true ∧ feed.decoder.failure = false := by
    decide +kernel
  have gzip : ∃ feed ∈ (requestFeed broken).run (.init ⟨"", "", none⟩) gzipEvents,
      feed.leaks = true := by
    decide +kernel
  refine ⟨?_, ?_, ?_⟩
  · obtain ⟨feed, ran, leaks, silent⟩ := response
    exact ⟨feed, ran, silent, Feed.not_sealed_of_leaks leaks⟩
  · obtain ⟨feed, ran, leaks, silent⟩ := request
    exact ⟨feed, ran, silent, Feed.not_sealed_of_leaks leaks⟩
  · obtain ⟨feed, ran, leaks⟩ := gzip
    exact ⟨feed, ran, Feed.not_sealed_of_leaks leaks⟩

end Libprocess.Decoder
