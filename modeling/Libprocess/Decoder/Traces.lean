import Libprocess.Decoder.Collecting
import Mathlib.Data.List.Induction

/-!
# Traces of callbacks

What a peer has sent is known by the callbacks that the parser invokes.  A `Collector` puts the
pieces of complete messages together; it knows nothing about a decoder.  The messages that a decoder
returns from its calls of `decode` are compared with the contents that the collector has seen.

A trace consists of the callbacks that the parser invokes as long as they succeed.  Once a callback
of a decoder has failed, the parser invokes no other one, except that it completes a message whose
headers were refused.
-/

namespace Libprocess.Decoder

open Http (Headers)

/-- What one message says. -/
structure Content where
  url : String
  lines : List (String × String)
  head : Head
  body : String
  deriving DecidableEq, Repr

/-- The header that is being read. -/
inductive Line where
  | none
  | field (name : String)
  | value (name value : String)
  deriving DecidableEq, Repr

/-- The lines that a header at its end adds. -/
def Line.close : Line → Option (List (String × String))
  | .none => some []
  | .field _ => Option.none
  | .value name text => some [(name, text)]

/-- Where a trace stands, with what is known of the current message. -/
inductive Position where
  | between
  | head (url : String) (lines : List (String × String)) (line : Line)
  | body (url : String) (lines : List (String × String)) (head : Head) (data : String)
  deriving DecidableEq, Repr

/-- The messages that a trace has completed, and where it stands. -/
structure Collector where
  contents : List Content
  position : Position
  deriving DecidableEq, Repr

namespace Collector

def init : Collector := ⟨[], .between⟩

/-- The next callback of a trace of complete messages without trailers. -/
def next (collector : Collector) (callback : Callback) : Option Collector :=
  match collector.position, callback with
  | .between, .messageBegin => some { collector with position := .head "" [] .none }
  | .head url lines line, .url data =>
      some { collector with position := .head (url ++ data) lines line }
  | .head _ _ _, .status _ => some collector
  | .head url lines .none, .headerField data =>
      some { collector with position := .head url lines (.field data) }
  | .head url lines (.field name), .headerField data =>
      some { collector with position := .head url lines (.field (name ++ data)) }
  | .head url lines (.value name value), .headerField data =>
      some { collector with position := .head url (lines ++ [(name, value)]) (.field data) }
  | .head url lines (.field name), .headerValue data =>
      some { collector with position := .head url lines (.value name data) }
  | .head url lines (.value name value), .headerValue data =>
      some { collector with position := .head url lines (.value name (value ++ data)) }
  | .head url lines line, .headersComplete head =>
      line.close.map fun last => { collector with position := .body url (lines ++ last) head "" }
  | .body url lines head data, .body more =>
      some { collector with position := .body url lines head (data ++ more) }
  | .body _ _ _ _, .chunkHeader | .body _ _ _ _, .chunkComplete => some collector
  | .body url lines head data, .messageComplete =>
      some ⟨collector.contents ++ [⟨url, lines, head, data⟩], .between⟩
  | _, _ => none

/-- Put the pieces of a trace together. -/
def collect (collector : Collector) (trace : List Callback) : Option Collector :=
  trace.foldlM next collector

end Collector

/-- A trace of complete messages. -/
def Complete (trace : List Callback) (contents : List Content) : Prop :=
  Collector.init.collect trace = some ⟨contents, .between⟩

instance (trace : List Callback) (contents : List Content) : Decidable (Complete trace contents) :=
  inferInstanceAs (Decidable (_ = _))

/-- The callbacks that get data in pieces. -/
inductive Piecewise where
  | url
  | headerField
  | headerValue
  | body
  deriving DecidableEq, Repr

def Piecewise.callback : Piecewise → String → Callback
  | .url, data => .url data
  | .headerField, data => .headerField data
  | .headerValue, data => .headerValue data
  | .body, data => .body data

/-- The second trace has the data of the first one in smaller pieces. -/
inductive Fragments : List Callback → List Callback → Prop where
  | nil : Fragments [] []
  | keep {callback : Callback} {trace pieces : List Callback} : Fragments trace pieces →
      Fragments (callback :: trace) (callback :: pieces)
  | split {kind : Piecewise} {first : String} {others : List String}
      {trace pieces : List Callback} : Fragments trace pieces →
      Fragments (kind.callback (others.foldl (· ++ ·) first) :: trace)
        ((first :: others).map kind.callback ++ pieces)

namespace Collector

variable {collector next : Collector} {kind : Piecewise}

/-- A piece that follows another one continues it. -/
theorem next_continues {first second : String}
    (read : collector.next (kind.callback (first ++ second)) = some next) :
    ∃ middle, collector.next (kind.callback first) = some middle ∧
      middle.next (kind.callback second) = some next := by
  obtain ⟨contents, position⟩ := collector
  cases kind <;> cases position with
  | between => simp [Piecewise.callback, Collector.next] at read
  | head url lines line =>
      cases line <;> simp_all [Piecewise.callback, Collector.next, String.append_assoc]
  | body url lines head data =>
      simp_all [Piecewise.callback, Collector.next, String.append_assoc]

theorem collect_pieces {first : String} {others : List String}
    (read : collector.next (kind.callback (others.foldl (· ++ ·) first)) = some next) :
    collector.collect ((first :: others).map kind.callback) = some next := by
  induction others using List.reverseRecOn generalizing next with
  | nil => simpa [collect] using read
  | append_singleton others last ih =>
      rw [List.foldl_append] at read
      obtain ⟨middle, earlier, final⟩ := next_continues read
      have before := ih earlier
      rw [← List.cons_append, List.map_append, collect, List.foldlM_append]
      change (collector.collect _).bind _ = _
      rw [before]
      simpa using final

/-- The pieces do not matter for what is collected. -/
theorem collect_fragments {trace pieces : List Callback} (fragments : Fragments trace pieces)
    (read : collector.collect trace = some next) : collector.collect pieces = some next := by
  induction fragments generalizing collector with
  | nil => exact read
  | keep _ ih =>
      simp only [collect, List.foldlM_cons, Option.bind_eq_bind, Option.bind_eq_some_iff] at read ⊢
      obtain ⟨middle, first, rest⟩ := read
      exact ⟨middle, first, ih rest⟩
  | @split kind first others trace pieces _ ih =>
      simp only [collect, List.foldlM_cons, Option.bind_eq_bind, Option.bind_eq_some_iff] at read
      obtain ⟨middle, whole, rest⟩ := read
      rw [collect, List.foldlM_append]
      change (collector.collect _).bind _ = _
      rw [collect_pieces whole]
      exact ih rest

end Collector

theorem Complete.fragments {trace pieces : List Callback} {contents : List Content}
    (complete : Complete trace contents) (fragments : Fragments trace pieces) :
    Complete pieces contents :=
  Collector.collect_fragments fragments complete

/-! ## Calls of `decode` -/

/-- What the parser does after a callback has returned. -/
inductive Stage where
  | running
  /-- `on_headers_complete` has asked to skip the body. -/
  | skipping
  /-- An error is recorded. -/
  | stopped
  deriving DecidableEq, Repr

namespace Stage

def invokes : Stage → Callback → Bool
  | .running, _ => true
  | .skipping, .messageComplete => true
  | _, _ => false

/-- The parser after a callback has returned a number. -/
def answered : Callback → Nat → Stage
  | _, 0 => .running
  | .headersComplete _, 1 | .headersComplete _, 2 => .skipping
  | _, _ => .stopped

theorem answered_messageComplete {code : Nat} (fails : code ≠ 0) :
    answered .messageComplete code = .stopped := by
  cases code with
  | zero => exact absurd rfl fails
  | succ code => simp [answered]

theorem answered_headersComplete {head : Head} {code : Nat} (fails : code ≠ 0) :
    answered (.headersComplete head) code = .skipping ∨
      answered (.headersComplete head) code = .stopped := by
  unfold answered
  split
  · exact absurd rfl fails
  · exact .inl rfl
  · exact .inl rfl
  · exact .inr rfl

end Stage

/-- The callbacks of a decoder, and the end of its function `decode`. -/
structure Interface (Decoder Start : Type) where
  invoke : Decoder → Callback → Option (Decoder × Nat)
  finish : Decoder → Bool → Decoder × List (Message Start)

/-- A decoder with its parser, and what the calls of `decode` have returned. -/
structure Session (Decoder Start : Type) where
  stage : Stage
  decoder : Decoder
  returned : List (List (Message Start))

namespace Interface

variable {Decoder Start : Type} (interface : Interface Decoder Start)

/-- The next callback of a trace, if the parser still invokes it. -/
def react (session : Session Decoder Start) (callback : Callback) :
    Option (Session Decoder Start) :=
  if session.stage.invokes callback then
    (interface.invoke session.decoder callback).map fun answer =>
      { session with stage := Stage.answered callback answer.2, decoder := answer.1 }
  else some session

/-- `decode` of a buffer, known by its callbacks.  An error that is recorded at the last byte
(`atEnd`) has consumed all bytes; after an error no byte is consumed. -/
def decode (session : Session Decoder Start) (call : List Callback × Bool) :
    Option (Session Decoder Start) :=
  (call.1.foldlM interface.react session).map fun executed =>
    let short := executed.stage = .stopped ∧ (session.stage = .stopped ∨ call.2 = false)
    let finished := interface.finish executed.decoder short
    { executed with
      decoder := finished.1
      returned := executed.returned ++ [finished.2] }

/-- Several calls of `decode`. -/
def run (decoder : Decoder) (calls : List (List Callback × Bool)) :
    Option (Session Decoder Start) :=
  calls.foldlM interface.decode ⟨.running, decoder, []⟩

end Interface

/-- The calls of `decode` that a trace is given in. -/
def Grouped (trace : List Callback) (calls : List (List Callback × Bool)) : Prop :=
  (calls.map Prod.fst).flatten = trace

end Libprocess.Decoder
