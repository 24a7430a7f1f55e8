import Libprocess.Decoder.Independence
import Libprocess.Decoder.Outcomes
import Libprocess.Http.Headers

/-!
# Compressed bodies

`DataDecoder` and `ResponseDecoder` are to hand out a compressed message with its decompressed body
and the length of this body.  They make a single character of the length, and abort if it does not
fit.  So they do what they are to do only as long as no body is decompressed.
-/

namespace Libprocess.Decoder

open Http (Headers)

section Intended

variable {Start : Type} (line : String → Head → Option Start) (decompress : String → Option String)

/-- What the calls of `decode` are to return, and whether the decoder has failed then. -/
def intended : List Content → List (Message Start) × Bool
  | [] => ([], false)
  | content :: rest =>
      match line content.url content.head with
      | none => ([], true)
      | some start =>
          if Plain content.lines then
            (Collects.message (content, start) :: (intended rest).1, (intended rest).2)
          else
            match decompress content.body with
            | none => ([], true)
            | some body =>
                ({ Collects.message (content, start) with
                  body := body
                  headers := (headersOf content.lines).set "Content-Length"
                    (toString body.length) } :: (intended rest).1, (intended rest).2)

/-- No compressed body is decompressed, up to the first message that is refused. -/
def Spared : List Content → Prop
  | [] => True
  | content :: rest =>
      match line content.url content.head with
      | none => True
      | some _ => if Plain content.lines then Spared rest else decompress content.body = none

end Intended

/-- A character is not the numeral of its own code. -/
theorem singleton_ne_numeral (length : Nat) :
    String.singleton (Char.ofNat length) ≠ toString length := by
  intro same
  have text : [Char.ofNat length] = Nat.toDigits 10 length := by
    rw [← Nat.toList_repr, ← Nat.toString_eq_repr, ← same, String.toList_singleton]
  have digit : (Char.ofNat length).isDigit = true :=
    Nat.isDigit_of_mem_toDigits (by decide) (by decide) (text ▸ List.mem_singleton_self _)
  have value : Nat.ofDigitChars 10 [Char.ofNat length] 0 = length := by
    rw [text, Nat.ofDigitChars_ten_toDigits]
  rw [Nat.ofDigitChars_cons, Nat.ofDigitChars_nil] at value
  simp only [Char.isDigit, Bool.and_eq_true, decide_eq_true_eq, UInt32.le_iff_toNat_le] at digit
  -- An invalid code is that of the first character, which is no digit either.
  have code : (Char.ofNat length).toNat = length ∨ (Char.ofNat length).toNat = 0 := by
    by_cases valid : length.isValidChar
    · exact .inl (congrArg Char.toNat (dif_pos valid : Char.ofNat length = _))
    · exact .inr (congrArg Char.toNat (dif_neg valid : Char.ofNat length = _))
  change 48 ≤ (Char.ofNat length).toNat ∧ (Char.ofNat length).toNat ≤ 57 at digit
  change 10 * 0 + ((Char.ofNat length).toNat - 48) = length at value
  omega

namespace Collects

variable {Start Extra : Type} {interface : Interface (Collecting Start Extra) Start}
  {collects : Collects interface} {decompress : String → Option String}

theorem outcome_eq_intended_iff (contents : List Content) :
    outcome (collects.verdict decompress) contents =
      some (intended collects.line decompress contents) ↔
    Spared collects.line decompress contents := by
  induction contents with
  | nil => simp [outcome, intended, Spared]
  | cons content rest ih =>
      cases found : collects.line content.url content.head with
      | none => simp [outcome, verdict, intended, Spared, found]
      | some start =>
          by_cases plain : Plain content.lines
          · simp only [outcome, verdict, intended, Spared, found, plain, if_true]
            rw [← ih]
            cases outcome (collects.verdict decompress) rest with
            | none => simp
            | some result => simp [Prod.ext_iff]
          · cases decompressed : decompress content.body with
            | none => simp [outcome, verdict, intended, Spared, found, plain, decompressed]
            | some body =>
                simp only [outcome, verdict, intended, Spared, found, plain, decompressed, if_false,
                  reduceCtorEq, iff_false]
                intro same
                by_cases long : body.length > 127
                · rw [if_pos long] at same
                  cases same
                · rw [if_neg long] at same
                  simp only [Option.map_eq_some_iff, Prod.mk.injEq, List.cons.injEq,
                    Message.mk.injEq] at same
                  obtain ⟨result, _, ⟨⟨_, headers, _⟩, _⟩, _⟩ := same
                  have told := congrArg (Headers.get · "Content-Length") headers
                  simp only [Headers.get_set_self, Option.some.injEq] at told
                  exact singleton_ne_numeral _ told

/-- The calls of `decode` return what they are to return. -/
def Gunzips (collects : Collects interface) (decompress : String → Option String) (extra : Extra)
    (contents : List Content) (calls : List (List Callback × Bool)) : Prop :=
  (interface.run (.init extra) calls).map observe =
    some (intended collects.line decompress contents)

theorem gunzips_iff_spared (handsOut : collects.HandsOut decompress) (extra : Extra)
    {trace : List Callback} {contents : List Content} {calls : List (List Callback × Bool)}
    (complete : Complete trace contents) (grouped : Grouped trace calls) :
    collects.Gunzips decompress extra contents calls ↔
      Spared collects.line decompress contents := by
  have observed := ((keeps handsOut extra).run complete grouped).observe
    fun session ran => collects.drained ran
  rw [Gunzips, observed, outcome_eq_intended_iff]

end Collects

/-! ## Texts with responses -/

/-- The callbacks at the end of the connection. -/
def Parser.AtEof.callbacks : Parser.AtEof → List Callback
  | .completes => [.messageComplete]
  | .nothing | .fails => []

namespace ResponseDecoder

variable (decompress : String → Option String)

/-- `decode("", 0)` -/
def decodeEof (session : Session ResponseDecoder StatusLine) (atEof : Parser.AtEof) :
    Option (Session ResponseDecoder StatusLine) :=
  (atEof.callbacks.foldlM (interface decompress).react session).map fun executed =>
    let short := atEof = .fails ∧ session.stage = .running
    let finished := executed.decoder.finish short
    { executed with
      stage := if short then .stopped else executed.stage
      decoder := finished.1
      returned := executed.returned ++ [finished.2] }

/-- What `http::decodeResponses` returns at its end. -/
def answer (result : List Response × Bool) : Except String (List Response) :=
  if result.2 then .error "Decoding failed"
  else if result.1.isEmpty then .error "No response decoded"
  else .ok result.1

/-- `http::decodeResponses` of a text, known by its callbacks. -/
def decodeResponses (call : List Callback × Bool) (atEof : Parser.AtEof) :
    Option (Except String (List Response)) :=
  ((interface decompress).decode ⟨.running, init, []⟩ call).bind fun session =>
    (decodeEof decompress session atEof).map fun session => answer (Collects.observe session)

variable {decompress} {collector final : Collector} {session : Session ResponseDecoder StatusLine}
  {atEof : Parser.AtEof}

/-- The end of the connection keeps what is known of a session. -/
theorem decodeEof_keeps
    (keeps : Collects.Keeps (collects decompress) decompress collector (some session))
    (read : collector.collect atEof.callbacks = some final) (parses : atEof ≠ .fails) :
    Collects.Keeps (collects decompress) decompress final (decodeEof decompress session atEof) := by
  have follows := Collects.keeps (handsOut decompress) 0
  have executed := follows.execute keeps read
  unfold decodeEof
  cases reacted : atEof.callbacks.foldlM (interface decompress).react session with
  | none =>
      rw [reacted] at executed
      exact executed
  | some after =>
      rw [reacted] at executed
      have finished (short : Bool) (stops : short = true → after.stage = .stopped) :=
        follows.finish executed stops
      simpa [parses, interface] using finished false nofun

/-- Behind the end of the connection all messages are returned. -/
theorem decodeEof_drained {after : Session ResponseDecoder StatusLine}
    (decoded : decodeEof decompress session atEof = some after) : after.decoder.messages = [] := by
  obtain ⟨executed, -, rfl⟩ := Option.map_eq_some_iff.mp decoded
  rfl

/-- What `http::decodeResponses` makes of the messages of a text. -/
theorem decodeResponses_eq {call : List Callback × Bool} {contents : List Content}
    (complete : Complete (call.1 ++ atEof.callbacks) contents) (parses : atEof ≠ .fails) :
    decodeResponses decompress call atEof =
      (outcome ((collects decompress).verdict decompress) contents).map answer := by
  have follows := Collects.keeps (handsOut decompress) 0
  simp only [Complete, Collector.collect, List.foldlM_append, Option.bind_eq_bind,
    Option.bind_eq_some_iff] at complete
  obtain ⟨middle, first, later⟩ := complete
  have decoded := follows.decode follows.init first
  unfold decodeResponses
  cases ran : (interface decompress).decode ⟨.running, init, []⟩ call with
  | none =>
      have aborted := follows.execute_none (ran ▸ decoded) later
      cases aborted with
      | aborted aborted => simp [aborted]
  | some session =>
      have ended := decodeEof_keeps (ran ▸ decoded) later parses
      have observed := ended.observe fun _ => decodeEof_drained
      rw [← observed, Option.map_map]
      rfl

end ResponseDecoder

/-- Both decoders do what they are to do with compressed bodies exactly if none is decompressed.
`http::decodeResponses` follows the decoder of responses. -/
theorem gunzips_iff (libraries : Libraries) (decompress : String → Option String)
    {trace : List Callback} {contents : List Content} (complete : Complete trace contents)
    {calls : List (List Callback × Bool)} (grouped : Grouped trace calls)
    {call : List Callback × Bool} {atEof : Parser.AtEof} (ends : call.1 ++ atEof.callbacks = trace)
    (parses : atEof ≠ .fails) :
    ((DataDecoder.collects libraries decompress).Gunzips decompress ⟨"", ""⟩ contents calls ↔
      Spared (requestLine libraries) decompress contents) ∧
    ((ResponseDecoder.collects decompress).Gunzips decompress 0 contents calls ∧
        ResponseDecoder.decodeResponses decompress call atEof =
          some (ResponseDecoder.answer (intended (fun _ => statusLine) decompress contents)) ↔
      Spared (fun _ => statusLine) decompress contents) := by
  constructor
  · exact Collects.gunzips_iff_spared (DataDecoder.handsOut libraries decompress) _ complete grouped
  · have gunzips := Collects.gunzips_iff_spared (ResponseDecoder.handsOut decompress) 0 complete
      grouped
    have same : (ResponseDecoder.collects decompress).line = fun _ => statusLine := rfl
    rw [same] at gunzips
    constructor
    · intro both
      exact gunzips.mp both.1
    · intro spared
      have told : outcome ((ResponseDecoder.collects decompress).verdict decompress) contents =
          some (intended (fun _ => statusLine) decompress contents) :=
        (Collects.outcome_eq_intended_iff contents).mpr spared
      rw [ResponseDecoder.decodeResponses_eq (ends ▸ complete) parses, told]
      exact ⟨gunzips.mpr spared, rfl⟩

/-- A message with a compressed body. -/
def gzipTrace (body : String) : List Callback :=
  [.messageBegin, .url "/", .headerField "Content-Encoding", .headerValue "gzip",
    .headersComplete ⟨"GET", true, 200, false, false⟩, .body body, .messageComplete]

def gzipContent (body : String) : Content :=
  ⟨"/", [("Content-Encoding", "gzip")], ⟨"GET", true, 200, false, false⟩, body⟩

theorem gunzips_iff_broken :
    (DataDecoder.collects Receiver.plain fun _ => none).Gunzips (fun _ => none) ⟨"", ""⟩
      [gzipContent "x"] [(gzipTrace "x", true)] := by
  have complete : Complete (gzipTrace "x") [gzipContent "x"] := by decide +kernel
  have grouped : Grouped (gzipTrace "x") [(gzipTrace "x", true)] := rfl
  have ends : ((gzipTrace "x", true) : List Callback × Bool).1 ++ Parser.AtEof.nothing.callbacks =
      gzipTrace "x" := rfl
  apply (gunzips_iff Receiver.plain (fun _ => none) complete grouped ends nofun).1.mpr
  have compressed : ¬ Plain (gzipContent "x").lines := by decide +kernel
  change if Plain (gzipContent "x").lines then True else (none : Option String) = none
  rw [if_neg compressed]

/-- A body of one byte is handed out with the wrong length, and one of 128 bytes aborts. -/
theorem not_gunzips :
    ¬ (ResponseDecoder.collects some).Gunzips some 0 [gzipContent "x"] [(gzipTrace "x", true)] ∧
    ¬ (DataDecoder.collects Receiver.plain some).Gunzips some ⟨"", ""⟩ [gzipContent "x"]
      [(gzipTrace "x", true)] ∧
    ResponseDecoder.decodeResponses some
      (gzipTrace (String.ofList (List.replicate 128 'x')), true) .nothing = none := by
  refine ⟨?_, ?_, ?_⟩
  · unfold Collects.Gunzips
    decide +kernel
  · unfold Collects.Gunzips
    decide +kernel
  · rw [← Option.isNone_iff_eq_none]
    decide +kernel

end Libprocess.Decoder
