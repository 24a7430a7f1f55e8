import Libprocess.Decoder.Collected

/-!
# What becomes of contents

At its end a message is handed out, it is refused, or a check fails because its decompressed body is
too long.  This tells all that the calls of `decode` return for a trace of complete messages, with
compressed bodies or without.
-/

namespace Libprocess.Decoder

open Http (Headers)

/-- What becomes of a message at its end. -/
inductive Verdict (Start : Type) where
  | aborts
  | refuses
  | hands (message : Message Start)

/-- The messages that are handed out up to the first refused one, and whether there is one.  Nothing
is returned if a check fails. -/
def outcome {Start : Type} (verdict : Content → Verdict Start) :
    List Content → Option (List (Message Start) × Bool)
  | [] => some ([], false)
  | content :: rest =>
      match verdict content with
      | .aborts => none
      | .refuses => some ([], true)
      | .hands message => (outcome verdict rest).map fun result => (message :: result.1, result.2)

section Outcome

variable {Start : Type} {verdict : Content → Verdict Start} {contents : List Content}
  {messages : List (Message Start)}

theorem outcome_append_none (aborted : outcome verdict contents = none) (more : List Content) :
    outcome verdict (contents ++ more) = none := by
  induction contents with
  | nil => cases aborted
  | cons first rest ih =>
      cases found : verdict first with
      | aborts => simp [outcome, found]
      | refuses => simp [outcome, found] at aborted
      | hands message =>
          simp only [outcome, found, Option.map_eq_none_iff] at aborted
          simp [outcome, found, ih aborted]

theorem outcome_append_failed (failed : outcome verdict contents = some (messages, true))
    (more : List Content) : outcome verdict (contents ++ more) = some (messages, true) := by
  induction contents generalizing messages with
  | nil => cases failed
  | cons first rest ih =>
      cases found : verdict first with
      | aborts => simp [outcome, found] at failed
      | refuses => simpa [outcome, found] using failed
      | hands message =>
          simp only [outcome, found, Option.map_eq_some_iff] at failed
          obtain ⟨⟨later, refused⟩, remaining, same⟩ := failed
          cases same
          simp [outcome, found, ih remaining]

theorem outcome_append (proceeds : outcome verdict contents = some (messages, false))
    (more : List Content) : outcome verdict (contents ++ more) =
      (outcome verdict more).map fun result => (messages ++ result.1, result.2) := by
  induction contents generalizing messages with
  | nil =>
      cases proceeds
      simp
  | cons first rest ih =>
      cases found : verdict first with
      | aborts | refuses => simp [outcome, found] at proceeds
      | hands message =>
          simp only [outcome, found, Option.map_eq_some_iff] at proceeds
          obtain ⟨⟨later, refused⟩, remaining, same⟩ := proceeds
          cases same
          simp [outcome, found, ih remaining, Function.comp_def]

end Outcome

namespace Collects

variable {Start Extra : Type} {interface : Interface (Collecting Start Extra) Start}

/-- What becomes of a message: the length of a decompressed body has to fit into a `char`. -/
def verdict (collects : Collects interface) (decompress : String → Option String)
    (content : Content) : Verdict Start :=
  match collects.line content.url content.head with
  | none => .refuses
  | some start =>
      if Plain content.lines then .hands (message (content, start))
      else
        match decompress content.body with
        | none => .refuses
        | some body =>
            if body.length > 127 then .aborts
            else .hands { message (content, start) with
              body := body
              headers := (headersOf content.lines).set "Content-Length"
                (String.singleton (Char.ofNat body.length)) }

/-- A message whose start line is accepted is handed out by `Collecting.handOut`. -/
def HandsOut (collects : Collects interface) (decompress : String → Option String) : Prop :=
  ∀ decoder message text head start, decoder.message = some message →
    message.start = collects.opened head → decoder.extra = collects.known text head →
    collects.line text head = some start → ∃ extra,
    interface.invoke decoder .messageComplete = Collecting.handOut decompress
      { decoder with extra := extra } { message with start := start }

/-- A decoder and its outcome, as long as no check has failed. -/
inductive Keeps (collects : Collects interface) (decompress : String → Option String)
    (collector : Collector) : Option (Session (Collecting Start Extra) Start) → Prop where
  | aborted : outcome (collects.verdict decompress) collector.contents = none →
      Keeps collects decompress collector none
  | proceeds {session : Session (Collecting Start Extra) Start} :
      outcome (collects.verdict decompress) collector.contents =
        some (session.returned.flatten ++ session.decoder.messages, false) →
      session.stage = .running → session.decoder.failure = false →
      collects.Represents collector.position session.decoder →
      Keeps collects decompress collector (some session)
  | failed {session : Session (Collecting Start Extra) Start} :
      outcome (collects.verdict decompress) collector.contents =
        some (session.returned.flatten ++ session.decoder.messages, true) →
      session.stage = .stopped → session.decoder.failure = true →
      Keeps collects decompress collector (some session)

variable {collects : Collects interface} {decompress : String → Option String}
  {collector next : Collector} {session : Session (Collecting Start Extra) Start}
  {callback : Callback}

/-- The end of a message that fails. -/
theorem Keeps.refuse {after : Collecting Start Extra} {code : Nat} {content : Content}
    (told : outcome (collects.verdict decompress) collector.contents =
      some (session.returned.flatten ++ session.decoder.messages, false))
    (running : session.stage = .running)
    (refuses : collects.verdict decompress content = .refuses)
    (invoked : interface.invoke session.decoder .messageComplete = some (after, code))
    (fails : code ≠ 0) (failure : after.failure = true)
    (messages : after.messages = session.decoder.messages) :
    Keeps collects decompress ⟨collector.contents ++ [content], .between⟩
      (interface.react session .messageComplete) := by
  rw [Interface.react_running running invoked]
  apply Keeps.failed _ (Stage.answered_messageComplete fails) failure
  rw [outcome_append told]
  simp [outcome, refuses, messages]

/-- The end of a message that is handed out. -/
theorem Keeps.hand {after : Collecting Start Extra} {content : Content} {message : Message Start}
    (told : outcome (collects.verdict decompress) collector.contents =
      some (session.returned.flatten ++ session.decoder.messages, false))
    (running : session.stage = .running)
    (hands : collects.verdict decompress content = .hands message)
    (invoked : interface.invoke session.decoder .messageComplete = some (after, success))
    (failure : after.failure = false) (silent : after.message = none)
    (messages : after.messages = session.decoder.messages ++ [message]) :
    Keeps collects decompress ⟨collector.contents ++ [content], .between⟩
      (interface.react session .messageComplete) := by
  rw [Interface.react_running running invoked]
  apply Keeps.proceeds _ rfl failure (.between silent)
  rw [outcome_append told]
  simp [outcome, hands, messages]

theorem Keeps.complete (handsOut : collects.HandsOut decompress)
    (told : outcome (collects.verdict decompress) collector.contents =
      some (session.returned.flatten ++ session.decoder.messages, false))
    (running : session.stage = .running) (failure : session.decoder.failure = false)
    {content : Content} (message : session.decoder.message =
      some ⟨collects.opened content.head, headersOf content.lines, .body, content.body, none⟩)
    (extra : session.decoder.extra = collects.known content.url content.head) :
    Keeps collects decompress ⟨collector.contents ++ [content], .between⟩
      (interface.react session .messageComplete) := by
  cases found : collects.line content.url content.head with
  | none =>
      obtain ⟨after, code, invoked, fails, failed, messages⟩ :=
        collects.refused _ _ _ _ message rfl extra found
      exact .refuse told running (by simp [verdict, found]) invoked fails failed messages
  | some start =>
      obtain ⟨kept, invoked⟩ := handsOut _ _ _ _ start message rfl extra found
      by_cases plain : Plain content.lines
      · rw [Collecting.handOut, if_neg plain] at invoked
        exact .hand told running (by simp [verdict, found, plain, Collects.message]) invoked failure
          rfl rfl
      · have compressed : (headersOf content.lines).get "Content-Encoding" = some "gzip" :=
          Decidable.not_not.mp plain
        rw [Collecting.handOut, if_pos compressed] at invoked
        cases decompressed : decompress content.body with
        | none =>
            simp only [decompressed] at invoked
            exact .refuse told running (by simp [verdict, found, plain, decompressed]) invoked
              (by decide) rfl rfl
        | some body =>
            simp only [decompressed] at invoked
            by_cases long : body.length > 127
            · rw [if_pos long] at invoked
              have aborts : interface.react session .messageComplete = none := by
                simp [Interface.react, running, Stage.invokes, invoked]
              rw [aborts]
              apply Keeps.aborted
              rw [outcome_append told]
              simp [outcome, verdict, found, plain, decompressed, long]
            · rw [if_neg long] at invoked
              exact .hand told running
                (by simp [verdict, found, plain, decompressed, long, Collects.message]) invoked
                failure rfl rfl

theorem Keeps.react (handsOut : collects.HandsOut decompress)
    (keeps : Keeps collects decompress collector (some session))
    (read : collector.next callback = some next) :
    Keeps collects decompress next (interface.react session callback) := by
  cases keeps with
  | failed told stopped failure =>
      rw [Interface.react_stopped callback stopped]
      apply Keeps.failed _ stopped failure
      cases Collector.contents_next read with
      | inl same => rw [same, told]
      | inr completed => rw [completed.2, outcome_append_failed told]
  | proceeds told running failure represents =>
      by_cases completes : callback = .messageComplete
      · subst completes
        obtain ⟨content, rfl, message, extra⟩ := represents.completes read
        exact Keeps.complete handsOut told running failure message extra
      · obtain ⟨after, invoked, same, messages, contents, represents⟩ :=
          represents.react failure read completes
        rw [Interface.react_running running invoked]
        apply Keeps.proceeds _ rfl (same.trans failure) represents
        rw [contents, messages, told]

theorem keeps (handsOut : collects.HandsOut decompress) (extra : Extra) :
    interface.Follows (.init extra) (Keeps collects decompress) := by
  constructor
  · exact .proceeds rfl rfl rfl (.between rfl)
  · intro collector next session callback keeps read
    exact keeps.react handsOut read
  · intro collector next callback keeps read
    cases keeps with
    | aborted aborted =>
        apply Keeps.aborted
        cases Collector.contents_next read with
        | inl same => rw [same, aborted]
        | inr completed => rw [completed.2, outcome_append_none aborted]
  · intro collector session short keeps stops
    rw [collects.finish]
    cases keeps with
    | failed told stopped failure =>
        exact .failed (by simpa [Collecting.finish] using told) stopped
          (by simp [Collecting.finish, failure])
    | proceeds told running failure represents =>
        have complete : short = false := by
          cases short with
          | false => rfl
          | true => exact absurd (running.symm.trans (stops rfl)) (by decide)
        refine .proceeds (by simpa [Collecting.finish] using told) running
          (by simp [Collecting.finish, failure, complete]) ?_
        generalize collector.position = position at represents ⊢
        cases represents with
        | between message => exact .between message
        | head message extra held first => exact .head message extra held first
        | body message extra => exact .body message extra

/-- What a session has returned, and whether its decoder has failed. -/
def observe (session : Session (Collecting Start Extra) Start) : List (Message Start) × Bool :=
  (session.returned.flatten, session.decoder.failure)

/-- Behind a call of `decode` all messages are returned. -/
theorem Keeps.observe {contents : List Content} {position : Position}
    {ran : Option (Session (Collecting Start Extra) Start)}
    (keeps : Keeps collects decompress ⟨contents, position⟩ ran)
    (drained : ∀ session, ran = some session → session.decoder.messages = []) :
    ran.map Collects.observe = outcome (collects.verdict decompress) contents := by
  cases keeps with
  | aborted aborted => exact aborted.symm
  | proceeds told running failure | failed told stopped failure =>
      rw [drained _ rfl, List.append_nil] at told
      simp [Collects.observe, told, failure]

end Collects

namespace DataDecoder

theorem handsOut (libraries : Libraries) (decompress : String → Option String) :
    (collects libraries decompress).HandsOut decompress := by
  intro decoder message text head start known opened extra found
  simp only [collects, requestLine] at found opened extra
  simp only [interface, invoke, onMessageComplete, known, extra]
  split at found
  · cases found
  · next valid =>
      rw [if_neg valid]
      generalize Http.Query.decode _ _ = decoded at found ⊢
      cases decoded with
      | error _ => cases found
      | ok query =>
          cases found
          simp only [opened, Option.or_none]
          exact ⟨_, rfl⟩

end DataDecoder

namespace ResponseDecoder

theorem handsOut (decompress : String → Option String) :
    (collects decompress).HandsOut decompress := by
  intro decoder message text head start known opened extra found
  simp only [collects, statusLine] at found extra
  split at found
  · next valid =>
      cases found
      simp only [interface, invoke, onMessageComplete, known, extra, valid, if_true]
      exact ⟨_, rfl⟩
  · cases found

end ResponseDecoder

end Libprocess.Decoder
