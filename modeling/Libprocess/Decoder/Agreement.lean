import Libprocess.Decoder.Streaming

/-!
# Parser and decoder in step

The phase of the parser tells which of the message and the writer a decoder has, so the
callbacks pass their checks as long as no message begins after a failure.
-/

namespace Libprocess.Decoder

variable {Start Extra : Type} {libraries : Libraries}

/-- What a decoder has in a phase of the parser. -/
def Agrees (decoder : Streaming Start Extra) : Phase → Prop
  | .idle => decoder.message = none ∧ decoder.writer = none
  | .head => decoder.message.isSome = true ∧ decoder.writer = none
  | .body => decoder.message = none ∧ decoder.writer.isSome = true
  | .skipping => decoder.writer = none ∧ decoder.failure = true

/-- The parser and the decoder move in step. -/
structure InStep (parser : Parser) (decoder : Streaming Start Extra) : Prop where
  agrees : parser.errored = false → Agrees decoder parser.phase
  failing : decoder.failure = true → parser.errored = true ∨ parser.phase = .skipping
  exited : parser.exited = true → parser.phase = .idle

namespace InStep

variable {parser : Parser} {decoder next : Streaming Start Extra}

theorem of_errored (errored : parser.errored = true)
    (exited : parser.exited = true → parser.phase = .idle) : InStep parser decoder :=
  ⟨fun none => by simp [errored] at none, fun _ => .inl errored, exited⟩

/-- What concerns the pipes and the texts only keeps a decoder in step. -/
theorem frame (inStep : InStep parser decoder)
    (message : next.message.isSome = decoder.message.isSome)
    (writer : next.writer = decoder.writer) (failure : next.failure = decoder.failure) :
    InStep parser next := by
  refine ⟨fun unerrored => ?_, failure ▸ inStep.failing, inStep.exited⟩
  have agrees := inStep.agrees unerrored
  revert agrees
  cases parser.phase <;>
    simp only [Agrees, ← Option.isNone_iff_eq_none, ← Option.not_isSome, message, writer, failure,
      imp_self]

theorem unfailing (inStep : InStep parser decoder) (unerrored : parser.errored = false)
    (phase : parser.phase ≠ .skipping) : decoder.failure = false := by
  cases failure : decoder.failure with
  | false => rfl
  | true =>
      rcases inStep.failing failure with errored | skipping
      · simp [errored] at unerrored
      · exact absurd skipping phase

/-- A call of `decode` that returns without a fault, or by a recorded error, keeps the
parser and the decoder in step. -/
theorem finish {short : Bool} (inStep : InStep parser decoder)
    (kept : short = false ∨ parser.errored = true) :
    InStep { parser with exited := false } (decoder.finish short).1 := by
  rcases kept with rfl | errored
  · have same : InStep { parser with exited := false } decoder :=
      ⟨inStep.agrees, inStep.failing, nofun⟩
    exact same.frame rfl rfl rfl
  · exact .of_errored errored nofun

end InStep

/-- A callback passes its checks, and its answer keeps the parser in step. -/
def Proceeds (parser : Parser) (callback : Callback)
    (outcome : Option (Streaming Start Extra × Nat)) : Prop :=
  ∃ next code, outcome = some (next, code) ∧ InStep (parser.answered callback code) next

namespace Proceeds

variable {parser : Parser} {decoder : Streaming Start Extra}

/-- A data callback that fails makes the parser record an error. -/
theorem of_failure {callback : Callback} (exited : parser.exited = false)
    (answered : parser.answered callback failureCode = { parser with errored := true })
    (next : Streaming Start Extra) : Proceeds parser callback (some (next, failureCode)) :=
  ⟨next, failureCode, rfl,
    answered ▸ InStep.of_errored rfl fun leaves => by simp [exited] at leaves⟩

theorem begin (inStep : InStep parser decoder) (unerrored : parser.errored = false)
    (exited : parser.exited = false) (phase : parser.phase = .idle) (start : Start)
    (type : BodyType) (extra : Extra) :
    Proceeds parser .messageBegin (decoder.begin start type extra) := by
  have failure := inStep.unfailing unerrored (by simp [phase])
  have agrees := inStep.agrees unerrored
  rw [phase] at agrees
  obtain ⟨message, writer⟩ := agrees
  refine ⟨_, success, if_neg (by simp [failure, message, writer]), ?_⟩
  exact ⟨fun _ => ⟨rfl, rfl⟩, fun failing => by simp [failure] at failing,
    fun leaves => by simp [Parser.answered, success, exited] at leaves⟩

theorem headerField (inStep : InStep parser decoder) (exited : parser.exited = false)
    (data : String) :
    Proceeds parser (.headerField data) (some (decoder.onHeaderField data)) := by
  unfold Streaming.onHeaderField
  split
  · exact of_failure exited rfl decoder
  · rename_i message has
    refine ⟨_, success, rfl, inStep.frame ?_ ?_ ?_⟩ <;> split <;>
      simp [Streaming.addHeader, has]

theorem headerValue (inStep : InStep parser decoder) (exited : parser.exited = false)
    (data : String) :
    Proceeds parser (.headerValue data) (some (decoder.onHeaderValue data)) := by
  unfold Streaming.onHeaderValue
  split
  · exact of_failure exited rfl decoder
  · exact ⟨_, success, rfl, inStep.frame rfl rfl rfl⟩

/-- A message is handed out with a writer for its body. -/
theorem handOut {head : Head} (exited : parser.exited = false)
    (writer : decoder.writer = none) (failure : decoder.failure = false)
    (message : Message Start) :
    Proceeds parser (.headersComplete head) (decoder.handOut message) := by
  refine ⟨_, success, if_neg (by simp [writer]), ?_⟩
  exact ⟨fun _ => ⟨rfl, rfl⟩, fun failing => by simp [failure] at failing,
    fun leaves => by simp [Parser.answered, success, exited] at leaves⟩

/-- The headers of a message are refused. -/
theorem refused {head : Head} {code : Nat} (exited : parser.exited = false)
    (writer : decoder.writer = none) (failure : decoder.failure = true) (nonzero : code ≠ 0) :
    Proceeds parser (.headersComplete head) (some (decoder, code)) := by
  refine ⟨decoder, code, rfl, ?_⟩
  match code with
  | 1 | 2 =>
      exact ⟨fun _ => ⟨writer, failure⟩, fun _ => .inr rfl,
        fun leaves => by simp [Parser.answered, exited] at leaves⟩
  | code + 3 => exact InStep.of_errored rfl fun leaves => by simp [Parser.answered, exited] at leaves

/-- A message is complete and its writer is closed. -/
theorem completed (inStep : InStep parser decoder) (unerrored : parser.errored = false)
    (phase : parser.phase = .body) (pipe : PipeId) (event : Http.PipeEvent) :
    Proceeds parser .messageComplete
      (some ({ decoder.onWriter pipe event with writer := none }, success)) := by
  have agrees := inStep.agrees unerrored
  rw [phase] at agrees
  exact ⟨_, success, rfl, fun _ => ⟨agrees.1, rfl⟩,
    fun failing => inStep.failing failing |>.imp id fun skipping => by simp [phase] at skipping,
    fun _ => rfl⟩

/-- The end of a message whose headers were refused is refused too. -/
theorem unopened (inStep : InStep parser decoder) (unerrored : parser.errored = false)
    (exited : parser.exited = false) (phase : parser.phase = .skipping) :
    Proceeds parser .messageComplete
      (if decoder.failure then some (decoder, failureCode) else none) := by
  have agrees := inStep.agrees unerrored
  rw [phase] at agrees
  rw [if_pos agrees.2]
  exact of_failure exited rfl decoder

end Proceeds

/-- What the parser is like when it invokes a callback. -/
theorem Parser.invokes_cases {parser : Parser} {callback : Callback}
    (invokes : parser.invokes callback = true) :
    parser.errored = false ∧ parser.exited = false ∧
      (callback = .messageBegin → parser.phase = .idle) ∧
      (∀ head, callback = .headersComplete head → parser.phase = .head) ∧
      (∀ data, callback = .body data → parser.phase = .body) ∧
      (callback = .messageComplete → parser.phase = .body ∨ parser.phase = .skipping) := by
  simp only [Parser.invokes, Bool.and_eq_true, Bool.not_eq_true'] at invokes
  refine ⟨invokes.1.1, invokes.1.2, ?_, ?_, ?_, ?_⟩
  all_goals
    intros
    subst_vars
    cases phase : parser.phase <;> simp [phase] at invokes ⊢

namespace StreamingRequestDecoder

variable {parser : Parser} {decoder : StreamingRequestDecoder libraries}

section

variable (inStep : InStep parser decoder)

include inStep

theorem onHeadersComplete_proceeds
    (unerrored : parser.errored = false) (exited : parser.exited = false)
    (phase : parser.phase = .head) (head : Head) :
    Proceeds parser (.headersComplete head) (decoder.onHeadersComplete head) := by
  have failure := inStep.unfailing unerrored (by simp [phase])
  have agrees := inStep.agrees unerrored
  rw [phase] at agrees
  obtain ⟨message, has⟩ := Option.isSome_iff_exists.mp agrees.1
  simp only [onHeadersComplete, has]
  split
  · rename_i nonzero
    exact .refused exited agrees.2 rfl nonzero
  · split
    · exact .refused exited agrees.2 rfl Nat.one_ne_zero
    · apply Proceeds.handOut exited
      · exact agrees.2
      · exact failure

theorem onBody_proceeds (unerrored : parser.errored = false)
    (exited : parser.exited = false) (phase : parser.phase = .body) (data : String) :
    Proceeds parser (.body data) (decoder.onBody data) := by
  have agrees := inStep.agrees unerrored
  rw [phase] at agrees
  obtain ⟨pipe, has⟩ := Option.isSome_iff_exists.mp agrees.2
  simp only [onBody, has]
  split
  · exact ⟨_, success, rfl, inStep.frame rfl rfl rfl⟩
  · split
    · exact .of_failure exited rfl _
    · exact ⟨_, success, rfl, inStep.frame rfl has.symm rfl⟩

theorem onMessageComplete_proceeds
    (unerrored : parser.errored = false) (exited : parser.exited = false)
    (phase : parser.phase = .body ∨ parser.phase = .skipping) :
    Proceeds parser .messageComplete decoder.onMessageComplete := by
  have agrees := inStep.agrees unerrored
  rcases phase with phase | phase <;> rw [phase] at agrees
  · obtain ⟨pipe, has⟩ := Option.isSome_iff_exists.mp agrees.2
    simp only [onMessageComplete, has]
    split
    · exact .of_failure exited rfl _
    · exact .completed inStep unerrored phase pipe .closeWriter
  · simp only [onMessageComplete, agrees.1]
    exact .unopened inStep unerrored exited phase

theorem onUrl_proceeds (exited : parser.exited = false)
    (data : String) : Proceeds parser (.url data) (some (decoder.onUrl data)) := by
  unfold onUrl
  split
  · exact .of_failure exited rfl decoder
  · exact ⟨_, success, rfl, inStep.frame rfl rfl rfl⟩

end

/-- Every callback that the parser invokes passes its checks. -/
theorem invoke_proceeds {callback : Callback} (inStep : InStep parser decoder)
    (invokes : parser.invokes callback = true) :
    Proceeds parser callback (decoder.invoke callback) := by
  obtain ⟨unerrored, exited, idle, head, body, complete⟩ := Parser.invokes_cases invokes
  cases callback with
  | messageBegin => exact .begin inStep unerrored exited (idle rfl) _ _ _
  | url data => exact onUrl_proceeds inStep exited data
  | headerField data => exact .headerField inStep exited data
  | headerValue data => exact .headerValue inStep exited data
  | headersComplete told =>
      exact onHeadersComplete_proceeds inStep unerrored exited (head told rfl) told
  | body data => exact onBody_proceeds inStep unerrored exited (body data rfl) data
  | status _ | chunkHeader | chunkComplete => exact ⟨decoder, success, rfl, inStep⟩
  | messageComplete => exact onMessageComplete_proceeds inStep unerrored exited (complete rfl)

end StreamingRequestDecoder

namespace StreamingResponseDecoder

variable {parser : Parser} {decoder : StreamingResponseDecoder}

theorem onHeadersComplete_proceeds (inStep : InStep parser decoder)
    (unerrored : parser.errored = false) (exited : parser.exited = false)
    (phase : parser.phase = .head) (head : Head) :
    Proceeds parser (.headersComplete head) (decoder.onHeadersComplete head) := by
  have failure := inStep.unfailing unerrored (by simp [phase])
  have agrees := inStep.agrees unerrored
  rw [phase] at agrees
  obtain ⟨message, has⟩ := Option.isSome_iff_exists.mp agrees.1
  simp only [onHeadersComplete, has]
  split
  · split
    · exact .refused exited agrees.2 rfl Nat.one_ne_zero
    · apply Proceeds.handOut exited
      · exact agrees.2
      · exact failure
  · exact .refused exited agrees.2 rfl Nat.one_ne_zero

theorem onMessageComplete_proceeds (inStep : InStep parser decoder)
    (unerrored : parser.errored = false) (exited : parser.exited = false)
    (phase : parser.phase = .body ∨ parser.phase = .skipping) :
    Proceeds parser .messageComplete decoder.onMessageComplete := by
  have agrees := inStep.agrees unerrored
  rcases phase with phase | phase <;> rw [phase] at agrees
  · obtain ⟨pipe, has⟩ := Option.isSome_iff_exists.mp agrees.2
    simp only [onMessageComplete, has]
    exact .completed inStep unerrored phase pipe .closeWriter
  · simp only [onMessageComplete, agrees.1]
    exact .unopened inStep unerrored exited phase

/-- Every callback that the parser invokes passes its checks. -/
theorem invoke_proceeds {callback : Callback} (inStep : InStep parser decoder)
    (invokes : parser.invokes callback = true) :
    Proceeds parser callback (decoder.invoke callback) := by
  obtain ⟨unerrored, exited, idle, head, body, complete⟩ := Parser.invokes_cases invokes
  cases callback with
  | messageBegin => exact .begin inStep unerrored exited (idle rfl) _ _ _
  | headerField data => exact .headerField inStep exited data
  | headerValue data => exact .headerValue inStep exited data
  | headersComplete told =>
      exact onHeadersComplete_proceeds inStep unerrored exited (head told rfl) told
  | body data =>
      have agrees := inStep.agrees unerrored
      rw [body data rfl] at agrees
      obtain ⟨pipe, has⟩ := Option.isSome_iff_exists.mp agrees.2
      simp only [invoke, onBody, has]
      exact ⟨_, success, rfl, inStep.frame rfl rfl rfl⟩
  | url _ | status _ | chunkHeader | chunkComplete => exact ⟨decoder, success, rfl, inStep⟩
  | messageComplete => exact onMessageComplete_proceeds inStep unerrored exited (complete rfl)

end StreamingResponseDecoder

end Libprocess.Decoder
