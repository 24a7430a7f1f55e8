import Libprocess.Decoder.Traces

/-!
# What the decoders make of contents

A decoder hands out the messages up to the first one whose start line it refuses.  A relation
between the collector and a session that every callback and every end of a call preserves holds
after all calls of `decode`, however the trace is distributed over them.
-/

namespace Libprocess.Decoder

open Http (Headers)

/-- The headers of the lines that are complete. -/
def added (lines : List (String × String)) : Headers :=
  lines.foldl (fun headers line => headers.set line.1 line.2) []

/-- The headers of a message.  The last header is also added if there is none. -/
def headersOf (lines : List (String × String)) : Headers :=
  if lines = [] then Headers.set [] "" "" else added lines

theorem added_append (lines : List (String × String)) (line : String × String) :
    added (lines ++ [line]) = (added lines).set line.1 line.2 := by
  simp [added]

/-- A message whose body is not compressed. -/
def Plain (lines : List (String × String)) : Prop :=
  (headersOf lines).get "Content-Encoding" ≠ some "gzip"

instance (lines : List (String × String)) : Decidable (Plain lines) :=
  inferInstanceAs (Decidable (_ ≠ _))

/-- The texts of the header that is being read, as a decoder holds them. -/
def Line.Held (line : Line) (held : String × String) (header : HeaderState) : Prop :=
  match line with
  | .none => held = ("", "") ∧ header = .field
  | .field name => held = (name, "") ∧ header = .field
  | .value name text => held = (name, text) ∧ header = .value

theorem Line.Held.last {line : Line} {lines last : List (String × String)} {name text : String}
    {header : HeaderState} (held : line.Held (name, text) header) (closed : line.close = some last)
    (first : line = .none → lines = []) :
    (added lines).set name text = headersOf (lines ++ last) := by
  cases line with
  | none =>
      cases closed
      obtain ⟨same, -⟩ := held
      cases same
      rw [first rfl]
      rfl
  | field => cases closed
  | value =>
      cases closed
      obtain ⟨same, -⟩ := held
      cases same
      simp [headersOf, added_append]

section Handed

variable {Start : Type} (line : String → Head → Option Start)

/-- The contents up to the first refused one, with their start lines. -/
def handed : List Content → List (Content × Start)
  | [] => []
  | content :: rest =>
      match line content.url content.head with
      | none => []
      | some start => (content, start) :: handed rest

/-- No start line is refused. -/
def Accepts (contents : List Content) : Prop :=
  ∀ content ∈ contents, (line content.url content.head).isSome = true

variable {line} {contents : List Content} {content : Content}

theorem Accepts.append (accepts : Accepts line contents) {start : Start}
    (accepted : line content.url content.head = some start) :
    Accepts line (contents ++ [content]) := by
  intro other member
  cases List.mem_append.mp member with
  | inl earlier => exact accepts other earlier
  | inr last =>
      rw [List.mem_singleton.mp last, accepted]
      rfl

theorem Accepts.of_append {more : List Content} (accepts : Accepts line (contents ++ more)) :
    Accepts line contents :=
  fun other member => accepts other (List.mem_append_left _ member)

theorem not_accepts_append (refused : line content.url content.head = none) :
    ¬ Accepts line (contents ++ [content]) := by
  intro accepts
  have accepted := accepts content (by simp)
  rw [refused] at accepted
  cases accepted

theorem handed_append (accepts : Accepts line contents) (more : List Content) :
    handed line (contents ++ more) = handed line contents ++ handed line more := by
  induction contents with
  | nil => rfl
  | cons first rest ih =>
      have accepted := accepts first List.mem_cons_self
      obtain ⟨start, found⟩ := Option.isSome_iff_exists.mp accepted
      have remaining := ih fun other member => accepts other (List.mem_cons_of_mem _ member)
      simp [handed, found, remaining]

theorem handed_append_of_not (refuses : ¬ Accepts line contents) (more : List Content) :
    handed line (contents ++ more) = handed line contents := by
  induction contents with
  | nil =>
      exfalso
      apply refuses
      intro content member
      cases member
  | cons first rest ih =>
      cases found : line first.url first.head with
      | none => simp [handed, found]
      | some start =>
          have later : ¬ Accepts line rest := by
            intro accepts
            apply refuses
            intro content member
            cases List.mem_cons.mp member with
            | inl same => rw [same, found]; rfl
            | inr other => exact accepts content other
          simp [handed, found, ih later]

theorem handed_singleton_some {start : Start} (accepted : line content.url content.head = some start) :
    handed line [content] = [(content, start)] := by
  simp [handed, accepted]

theorem handed_singleton_none (refused : line content.url content.head = none) :
    handed line [content] = [] := by
  simp [handed, refused]

theorem handed_append_refused (refuses : ¬ Accepts line (contents ++ [content])) :
    handed line (contents ++ [content]) = handed line contents := by
  by_cases accepts : Accepts line contents
  · cases found : line content.url content.head with
    | some start => exact absurd (accepts.append found) refuses
    | none => rw [handed_append accepts, handed_singleton_none found, List.append_nil]
  · exact handed_append_of_not accepts _

theorem handed_length (accepts : Accepts line contents) :
    (handed line contents).length = contents.length := by
  induction contents with
  | nil => rfl
  | cons first rest ih =>
      have accepted := accepts first List.mem_cons_self
      obtain ⟨start, found⟩ := Option.isSome_iff_exists.mp accepted
      have remaining := ih fun other member => accepts other (List.mem_cons_of_mem _ member)
      simp [handed, found, remaining]

end Handed

namespace Collector

variable {collector next final : Collector} {callback : Callback}

/-- The message whose body is being read. -/
def current (collector : Collector) : List Content :=
  match collector.position with
  | .body url lines head data => [⟨url, lines, head, data⟩]
  | _ => []

/-- No body that has begun is compressed. -/
def AllPlain (collector : Collector) : Prop :=
  ∀ content ∈ collector.contents ++ collector.current, Plain content.lines

theorem AllPlain.of_next (plain : next.AllPlain) (read : collector.next callback = some next) :
    collector.AllPlain := by
  obtain ⟨contents, position⟩ := collector
  cases position with
  | between =>
      cases callback <;> simp only [Collector.next, reduceCtorEq] at read
      cases read
      exact plain
  | head url lines line =>
      have same : next.contents = contents := by
        cases line <;> cases callback <;>
          simp only [Collector.next, reduceCtorEq, Option.map_eq_some_iff, Option.some.injEq]
            at read <;> grind
      intro content member
      simp only [current, List.append_nil] at member
      apply plain
      rw [same]
      exact List.mem_append_left _ member
  | body url lines head data =>
      cases callback <;> simp only [Collector.next, reduceCtorEq, Option.some.injEq] at read <;>
        subst read
      case body more =>
        intro content member
        cases List.mem_append.mp member with
        | inl earlier => exact plain content (List.mem_append_left _ earlier)
        | inr last =>
            rw [List.mem_singleton.mp last]
            exact plain ⟨url, lines, head, data ++ more⟩ (by simp [current])
      case messageComplete => simpa [AllPlain, current] using plain
      all_goals exact plain

/-- A callback completes one message at most. -/
theorem contents_next (read : collector.next callback = some next) :
    next.contents = collector.contents ∨
      callback = .messageComplete ∧ next.contents = collector.contents ++ collector.current := by
  obtain ⟨contents, position⟩ := collector
  cases position with
  | between =>
      left
      cases callback <;> simp only [Collector.next, reduceCtorEq] at read
      cases read
      rfl
  | head url lines line =>
      left
      cases line <;> cases callback <;>
        simp only [Collector.next, reduceCtorEq, Option.map_eq_some_iff, Option.some.injEq]
          at read <;> grind
  | body url lines head data =>
      cases callback <;> simp only [Collector.next, reduceCtorEq, Option.some.injEq] at read <;>
        subst read <;> simp [current]

/-- A message stays current until it is complete. -/
theorem current_next {content : Content} (begun : content ∈ collector.current)
    (read : collector.next callback = some next) :
    callback = .messageComplete ∧ next = ⟨collector.contents ++ [content], .between⟩ ∨
      callback ≠ .messageComplete ∧ next.contents = collector.contents ∧
        ∃ data, next.current = [{ content with body := data }] := by
  obtain ⟨contents, position⟩ := collector
  cases position with
  | between | head => simp [current] at begun
  | body url lines head data =>
      rw [current, List.mem_singleton] at begun
      subst begun
      cases callback <;> simp only [Collector.next, reduceCtorEq, Option.some.injEq] at read <;>
        subst read <;> simp [current]

/-- A message that is refused stays so. -/
theorem accepts_of_next {Start : Type} {line : String → Head → Option Start}
    (accepts : Accepts line (next.contents ++ next.current))
    (read : collector.next callback = some next) :
    Accepts line (collector.contents ++ collector.current) := by
  intro content member
  cases List.mem_append.mp member with
  | inl earlier =>
      apply accepts content
      cases contents_next read with
      | inl same => exact List.mem_append_left _ (by rw [same]; exact earlier)
      | inr completed =>
          rw [completed.2]
          exact List.mem_append_left _ (List.mem_append_left _ earlier)
  | inr begun =>
      cases current_next begun read with
      | inl completed =>
          apply accepts content
          rw [completed.2]
          simp
      | inr continues =>
          obtain ⟨-, -, data, same⟩ := continues
          exact accepts { content with body := data } (by simp [same])

end Collector

/-! ## Whole runs -/

namespace Interface

variable {Decoder Start : Type} {interface : Interface Decoder Start}

theorem react_running {session : Session Decoder Start} {callback : Callback} {after : Decoder}
    {code : Nat} (running : session.stage = .running)
    (invoked : interface.invoke session.decoder callback = some (after, code)) :
    interface.react session callback =
      some { session with stage := Stage.answered callback code, decoder := after } := by
  simp [react, running, Stage.invokes, invoked]

theorem react_stopped {session : Session Decoder Start} (callback : Callback)
    (stopped : session.stage = .stopped) :
    interface.react session callback = some session := by
  simp [react, stopped, Stage.invokes]

/-- A relation that holds along every trace of complete messages. -/
structure Simulates (interface : Interface Decoder Start) (decoder : Decoder)
    (tracks : Collector → Session Decoder Start → Prop) : Prop where
  init : tracks .init ⟨.running, decoder, []⟩
  react : ∀ {collector next session callback}, tracks collector session →
    collector.next callback = some next → next.AllPlain →
    ∃ after, interface.react session callback = some after ∧ tracks next after
  finish : ∀ {collector session short}, tracks collector session →
    (short = true → session.stage = .stopped) →
    tracks collector { session with
      decoder := (interface.finish session.decoder short).1
      returned := session.returned ++ [(interface.finish session.decoder short).2] }

variable {decoder : Decoder} {tracks : Collector → Session Decoder Start → Prop}
  {collector final : Collector} {session : Session Decoder Start}

/-- A relation that holds along every trace of complete messages, also where a check fails. -/
structure Follows (interface : Interface Decoder Start) (decoder : Decoder)
    (tracks : Collector → Option (Session Decoder Start) → Prop) : Prop where
  init : tracks .init (some ⟨.running, decoder, []⟩)
  react : ∀ {collector next session callback}, tracks collector (some session) →
    collector.next callback = some next → tracks next (interface.react session callback)
  aborted : ∀ {collector next callback}, tracks collector none →
    collector.next callback = some next → tracks next none
  finish : ∀ {collector session short}, tracks collector (some session) →
    (short = true → session.stage = .stopped) →
    tracks collector (some { session with
      decoder := (interface.finish session.decoder short).1
      returned := session.returned ++ [(interface.finish session.decoder short).2] })

variable {keeps : Collector → Option (Session Decoder Start) → Prop}

section

variable (follows : interface.Follows decoder keeps)

include follows

theorem Follows.execute_none {trace : List Callback} (followed : keeps collector none)
    (read : collector.collect trace = some final) : keeps final none := by
  induction trace generalizing collector with
  | nil =>
      cases read
      exact followed
  | cons callback rest ih =>
      simp only [Collector.collect, List.foldlM_cons, Option.bind_eq_bind,
        Option.bind_eq_some_iff] at read
      obtain ⟨middle, first, later⟩ := read
      exact ih (follows.aborted followed first) later

theorem Follows.execute {trace : List Callback} (followed : keeps collector (some session))
    (read : collector.collect trace = some final) :
    keeps final (trace.foldlM interface.react session) := by
  induction trace generalizing collector session with
  | nil =>
      cases read
      exact followed
  | cons callback rest ih =>
      simp only [Collector.collect, List.foldlM_cons, Option.bind_eq_bind,
        Option.bind_eq_some_iff] at read
      obtain ⟨middle, first, later⟩ := read
      have next := follows.react followed first
      rw [List.foldlM_cons]
      cases reacted : interface.react session callback with
      | none =>
          rw [reacted] at next
          exact follows.execute_none next later
      | some after =>
          rw [reacted] at next
          exact ih next later

/-- A call of `decode` keeps the relation. -/
theorem Follows.decode {call : List Callback × Bool} (followed : keeps collector (some session))
    (read : collector.collect call.1 = some final) :
    keeps final (interface.decode session call) := by
  have executed := follows.execute followed read
  unfold Interface.decode
  cases reacted : call.1.foldlM interface.react session with
  | none =>
      rw [reacted] at executed
      exact executed
  | some after =>
      rw [reacted] at executed
      exact follows.finish executed fun early => (of_decide_eq_true early).1

theorem Follows.calls
    {calls : List (List Callback × Bool)} (followed : keeps collector (some session))
    (read : collector.collect (calls.map Prod.fst).flatten = some final) :
    keeps final (calls.foldlM interface.decode session) := by
  induction calls generalizing collector session with
  | nil =>
      cases read
      exact followed
  | cons call rest ih =>
      simp only [List.map_cons, List.flatten_cons, Collector.collect, List.foldlM_append,
        Option.bind_eq_bind, Option.bind_eq_some_iff] at read
      obtain ⟨middle, first, later⟩ := read
      have next := follows.decode followed first
      rw [List.foldlM_cons]
      cases decoded : interface.decode session call with
      | none =>
          rw [decoded] at next
          exact follows.execute_none next later
      | some after =>
          rw [decoded] at next
          exact ih next later

theorem Follows.run
    {trace : List Callback} {contents : List Content} {calls : List (List Callback × Bool)}
    (complete : Complete trace contents) (grouped : Grouped trace calls) :
    keeps ⟨contents, .between⟩ (interface.run decoder calls) := by
  apply follows.calls follows.init
  rw [grouped]
  exact complete

end

/-- As long as no body is compressed, no check fails. -/
theorem Simulates.follows (simulates : interface.Simulates decoder tracks) :
    interface.Follows decoder fun collector outcome =>
      collector.AllPlain → ∃ session, outcome = some session ∧ tracks collector session := by
  constructor
  · exact fun _ => ⟨_, rfl, simulates.init⟩
  · intro collector next session callback tracked read plain
    obtain ⟨_, same, tracked⟩ := tracked (plain.of_next read)
    cases same
    exact simulates.react tracked read plain
  · intro collector next callback tracked read plain
    obtain ⟨_, impossible, _⟩ := tracked (plain.of_next read)
    cases impossible
  · intro collector session short tracked stops plain
    obtain ⟨_, same, tracked⟩ := tracked plain
    cases same
    exact ⟨_, rfl, simulates.finish tracked stops⟩

theorem Simulates.run (simulates : interface.Simulates decoder tracks) {trace : List Callback}
    {contents : List Content} {calls : List (List Callback × Bool)}
    (complete : Complete trace contents) (plain : ∀ content ∈ contents, Plain content.lines)
    (grouped : Grouped trace calls) :
    ∃ after, interface.run decoder calls = some after ∧ tracks ⟨contents, .between⟩ after := by
  apply simulates.follows.run complete grouped
  intro content member
  exact plain content (by simpa [Collector.current] using member)

/-- Every call ends in the same way. -/
theorem run_finished {calls : List (List Callback × Bool)}
    (ran : interface.run decoder calls = some session) :
    session.decoder = decoder ∨
      ∃ executed short, session.decoder = (interface.finish executed short).1 := by
  rcases List.eq_nil_or_concat calls with rfl | ⟨earlier, last, rfl⟩
  · cases ran
    exact .inl rfl
  · simp only [run, List.concat_eq_append, List.foldlM_append, Option.bind_eq_bind,
      Option.bind_eq_some_iff, List.foldlM_cons, List.foldlM_nil, Option.pure_def] at ran
    obtain ⟨before, -, after, decoded, final⟩ := ran
    cases final
    obtain ⟨executed, -, rfl⟩ := Option.map_eq_some_iff.mp decoded
    exact .inr ⟨_, _, rfl⟩

end Interface

end Libprocess.Decoder
