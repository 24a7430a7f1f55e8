import Libprocess.Decoder.Agreement
import Libprocess.Decoder.Receiving

/-!
# The checks of the streaming request decoder

A decoder that has failed meets no further message, since the parser has recorded an
error or skips the rest of the message.  The exception is a message that requests an
upgrade: `decode` fails though no error is recorded, and the parser begins a new message
in the next call.
-/

namespace Libprocess.Decoder

open Concurrency

variable {libraries : Libraries}

namespace Receiver

variable {receiver next : Receiver libraries}

/-- `decode` has failed as `http_parser_execute` has stopped behind a message that requests an
upgrade: the parser is between two messages, and has recorded no error. -/
def stoppedAtUpgrade (receiver : Receiver libraries) : Bool :=
  receiver.decoder.failure && !receiver.parser.errored && receiver.parser.phase = .idle

/-- The loop receives more data behind such a message. -/
def decodesBehindUpgrade (receiver : Receiver libraries) : ReceiveEvent → Bool
  | .recv length => length ≠ 0 && receiver.stoppedAtUpgrade
  | _ => false

structure Sound (receiver : Receiver libraries) : Prop where
  unaborted : receiver.control ≠ .aborted
  inStep : receiver.control ≠ .ended → InStep receiver.parser receiver.decoder ∨
    receiver.control = .waiting ∧ receiver.stoppedAtUpgrade = true
  stale : receiver.control = .decoding true → receiver.parser.errored = true

theorem Sound.init : (init : Receiver libraries).Sound :=
  ⟨by simp [Receiver.init], fun _ => .inl ⟨fun _ => ⟨rfl, rfl⟩, nofun, nofun⟩, nofun⟩

theorem Sound.finish (receiver : Receiver libraries) : receiver.finish.Sound :=
  ⟨by simp [Receiver.finish], fun running => absurd rfl running, nofun⟩

theorem Sound.waiting (waits : next.control = .waiting)
    (inStep : InStep next.parser next.decoder ∨ next.stoppedAtUpgrade = true) : next.Sound :=
  ⟨by simp [waits], fun _ => inStep.imp id fun stopped => ⟨waits, stopped⟩,
    fun decoding => by simp [waits] at decoding⟩

theorem Sound.decoding {stale : Bool} (sound : receiver.Sound)
    (decoding : receiver.control = .decoding stale) : InStep receiver.parser receiver.decoder :=
  (sound.inStep (by simp [decoding])).resolve_right (by simp [decoding])

theorem Sound.afterExecute {short peer stale : Bool} (sound : receiver.Sound)
    (decoding : receiver.control = .decoding stale)
    (returns : receiver.parser.returns stale short = true) :
    (receiver.afterExecute short peer).Sound := by
  have inStep := sound.decoding decoding
  simp only [Receiver.afterExecute]
  split
  · exact .finish _
  · split
    · exact .finish _
    · apply Sound.waiting rfl
      cases short with
      | false => exact .inl (inStep.finish (.inl rfl))
      | true =>
          by_cases errored : receiver.parser.errored = true
          · exact .inl (inStep.finish (.inr errored))
          · -- Without an error it is the end of an upgrade.
            have fresh : stale = false :=
              Bool.eq_false_iff.mpr fun isStale => errored (sound.stale (isStale ▸ decoding))
            have exited : receiver.parser.exited = true := by
              simpa [Parser.returns, fresh, errored] using returns
            right
            simp [stoppedAtUpgrade, errored, inStep.exited exited, Streaming.finish,
              Streaming.failWriter]

theorem Sound.step {event : ReceiveEvent} (sound : receiver.Sound)
    (permitted : receiver.decodesBehindUpgrade event = false)
    (stepped : receiver.step event = some next) : next.Sound := by
  cases event with
  | recv length =>
      simp only [Receiver.step] at stepped
      split at stepped
      · rename_i waits
        split at stepped <;> cases stepped
        · exact .finish _
        · rename_i received
          have inStep := (sound.inStep (by simp [waits])).resolve_right fun stopped => by
            simp [decodesBehindUpgrade, received, stopped.2] at permitted
          exact ⟨by simp, fun _ => .inl inStep, fun decoding => by simpa using decoding⟩
      · cases stepped
  | interrupt =>
      simp only [Receiver.step] at stepped
      split at stepped <;> cases stepped
      exact .finish _
  | callback callback =>
      simp only [Receiver.step] at stepped
      split at stepped
      · rename_i stale decoding
        split at stepped
        · rename_i invokes
          have inStep := sound.decoding decoding
          obtain ⟨decoder, code, invoked, kept⟩ :=
            StreamingRequestDecoder.invoke_proceeds inStep invokes
          rw [invoked] at stepped
          cases stepped
          refine ⟨by simp [decoding], fun _ => .inl kept, fun isStale => ?_⟩
          have errored := sound.stale isStale
          simp [Parser.invokes, errored] at invokes
        · cases stepped
      · cases stepped
  | error =>
      simp only [Receiver.step] at stepped
      split at stepped
      · rename_i stale decoding
        split at stepped <;> cases stepped
        have inStep := sound.decoding decoding
        exact ⟨by simp [decoding], fun _ => .inl (.of_errored rfl inStep.exited), fun _ => rfl⟩
      · cases stepped
  | returned short peer =>
      simp only [Receiver.step] at stepped
      split at stepped
      · rename_i stale decoding
        split at stepped <;> cases stepped
        rename_i returns
        exact sound.afterExecute decoding returns
      · cases stepped
  | pipe pipe event =>
      simp only [Receiver.step] at stepped
      split at stepped <;> cases stepped
      all_goals exact ⟨sound.unaborted,
        fun running => (sound.inStep running).imp (·.frame rfl rfl rfl) id, sound.stale⟩

/-- No check of the decoder fails in a run in which no data are received behind a message that
requests an upgrade. -/
theorem checks_hold {receiver : Receiver libraries}
    (reached : (machine libraries).Reaches
      (fun receiver event => receiver.decodesBehindUpgrade event = false) receiver) :
    receiver.control ≠ .aborted := by
  have sound : receiver.Sound := by
    refine reached.invariant Sound ?_ ?_
    · intro receiver started
      cases started
      exact .init
    · intro receiver event next sound permitted stepped
      exact sound.step permitted stepped
  exact sound.unaborted

/-- Libraries for URLs that are a path and bodies that are not compressed. -/
def plain : Libraries where
  tokenize text _ := if text = "" then [] else [text]
  split text _ _ := [text]
  parseUrl text := (0, ⟨some text, none, none⟩)
  Decompressor := Unit
  decompressor := ()
  decompress _ text := some (text, ())
  finished _ := true

/-- A request is returned by a call of `decode` that fails at the request behind it. -/
theorem checks_hold_failed :
    ∃ receiver : Receiver plain, (machine plain).run init
        [.recv 60, .callback .messageBegin, .callback (.url "/"),
          .callback (.headersComplete ⟨"GET", true, 0, false, false⟩), .callback .messageComplete,
          .callback .messageBegin, .error, .returned true true, .recv 9,
          .returned true true] = some receiver ∧
      receiver.handled.length = 1 ∧ receiver.decoder.failure = true ∧
      receiver.control ≠ .aborted := by
  obtain ⟨receiver, ran, known⟩ : ∃ receiver ∈ (machine plain).run init
      [.recv 60, .callback .messageBegin, .callback (.url "/"),
        .callback (.headersComplete ⟨"GET", true, 0, false, false⟩), .callback .messageComplete,
        .callback .messageBegin, .error, .returned true true, .recv 9, .returned true true],
      receiver.handled.length = 1 ∧ receiver.decoder.failure = true := by
    decide +kernel
  exact ⟨receiver, ran, known.1, known.2,
    checks_hold (.of_along (.start rfl) (by decide +kernel) ran)⟩

/-- The peer sends a request that asks for an upgrade with a byte behind it, and then
another request. -/
theorem not_checks_hold :
    ¬ ∀ (libraries : Libraries) (receiver : Receiver libraries),
      (machine libraries).Reachable receiver → receiver.control ≠ .aborted := by
  intro holds
  obtain ⟨receiver, ran, aborted⟩ : ∃ receiver ∈ (machine plain).run init
      [.recv 61, .callback .messageBegin, .callback (.url "/"),
        .callback (.headersComplete ⟨"GET", true, 0, true, false⟩), .callback .messageComplete,
        .returned true true, .recv 60, .callback .messageBegin],
      receiver.control = .aborted := by
    decide +kernel
  exact holds plain receiver (.of_run rfl ran) aborted

end Receiver

end Libprocess.Decoder
