import Libprocess.Http.Encoding
import Mathlib.Data.List.TakeWhile

/-!
# Requests as text

The text of an HTTP/1.1 request with a body in one chunk or without a body, and what is relied on of
the parser: it delivers the path and the values of the headers verbatim, and the body without its
framing.
-/

namespace Libprocess.Messages

open Http (Headers hexDigit)

/-- What is read of a `Request`; its body is what is read from its pipe. -/
structure Request where
  path : String
  headers : Headers
  body : String
  deriving DecidableEq, Repr

/-- One line of a header. -/
def headerLine (header : String × String) : String := header.1 ++ ": " ++ header.2 ++ "\r\n"

/-- A request up to the empty line behind its headers. -/
def requestHead (path : String) (headers : Headers) : String :=
  "POST " ++ path ++ " HTTP/1.1\r\n" ++ String.join (headers.map headerLine) ++ "\r\n"

/-- A body in one chunk. -/
def chunked (body : String) : String :=
  String.ofList (Nat.toDigits 16 body.length) ++ "\r\n" ++ body ++ "\r\n0\r\n\r\n"

/-- The characters that stand unescaped in a segment of a path. -/
def legal (character : Char) : Bool :=
  character.isAlphanum || "-._~!$&'()*+,;=:@".toList.contains character

structure LegalPath (path : String) : Prop where
  start : path.toList.head? = some '/'
  characters : ∀ character ∈ path.toList, legal character = true ∨ character = '/'

structure LegalHeader (header : String × String) : Prop where
  name : header.1 ≠ ""
  token : ∀ character ∈ header.1.toList, character.isAlphanum = true ∨ character = '-'
  /-- A value begins with no space, -/
  start : ∀ character, header.2.toList.head? = some character → character ≠ ' '
  /-- and is one line. -/
  line : ∀ character ∈ header.2.toList, character ≠ '\r' ∧ character ≠ '\n'

/-- The headers of a request that the parser delivers as they are. -/
structure LegalHeaders (headers : Headers) : Prop where
  each : ∀ header ∈ headers, LegalHeader header
  distinct : headers.Pairwise fun left right => Headers.sameKey left.1 right.1 = false

/-- What the parser does with a well-formed request. -/
structure Delivers (parser : String → Option Request) : Prop where
  unframed : ∀ path headers, LegalPath path → LegalHeaders headers →
    headers.get "Transfer-Encoding" = none → headers.get "Content-Length" = none →
    parser (requestHead path headers) = some ⟨path, headers, ""⟩
  chunked : ∀ path headers body, LegalPath path → LegalHeaders headers →
    headers.get "Transfer-Encoding" = some "chunked" → body ≠ "" →
    parser (requestHead path headers ++ chunked body) = some ⟨path, headers, body⟩

/-! ## A parser -/

/-- The text before the next end of a line, and the text behind it. -/
def cutLine : List Char → Option (List Char × List Char)
  | [] => none
  | '\r' :: '\n' :: rest => some ([], rest)
  | character :: rest => (cutLine rest).map fun cut => (character :: cut.1, cut.2)

/-- The text before a character, and the text behind it. -/
def cutAt (stop : Char) : List Char → Option (List Char × List Char)
  | [] => none
  | character :: rest =>
      if character = stop then some ([], rest)
      else (cutAt stop rest).map fun cut => (character :: cut.1, cut.2)

/-- The headers up to the empty line, and the text behind it. -/
def parseHeaders : Nat → List Char → Option (Headers × List Char)
  | 0, _ => none
  | fuel + 1, text =>
      (cutLine text).bind fun cut =>
        if cut.1 = [] then some ([], cut.2)
        else (cutAt ':' cut.1).bind fun header =>
          (parseHeaders fuel cut.2).map fun parsed =>
            ((String.ofList header.1, String.ofList (header.2.dropWhile (· = ' '))) :: parsed.1,
              parsed.2)

/-- A number in hexadecimal digits. -/
def parseHex (text : List Char) : Option Nat :=
  text.foldlM (fun value character => (hexDigit character).map (16 * value + ·)) 0

/-- The body of a request that has one chunk. -/
def parseChunk (text : List Char) : Option (List Char) :=
  (cutLine text).bind fun cut =>
    (parseHex cut.1).bind fun size =>
      if cut.2.drop size = "\r\n0\r\n\r\n".toList then some (cut.2.take size) else none

/-- A parser of the requests that are sent. -/
def parseRequest (text : String) : Option Request :=
  (cutLine text.toList).bind fun cut =>
    (cutAt ' ' cut.1).bind fun method =>
      (cutAt ' ' method.2).bind fun target =>
        (parseHeaders cut.2.length cut.2).bind fun parsed =>
          match parsed.1.get "Transfer-Encoding" with
          | some "chunked" => (parseChunk parsed.2).map fun body =>
              ⟨String.ofList target.1, parsed.1, String.ofList body⟩
          | _ => some ⟨String.ofList target.1, parsed.1, ""⟩

section Parser

variable {line rest text : List Char} {stop : Char}

theorem cutLine_append (single : ∀ character ∈ line, character ≠ '\r') :
    cutLine (line ++ '\r' :: '\n' :: rest) = some (line, rest) := by
  induction line with
  | nil => rfl
  | cons first others ih =>
      have proper : first ≠ '\r' := single first List.mem_cons_self
      have tail := ih fun character member => single character (List.mem_cons_of_mem _ member)
      simp [cutLine, proper, tail]

theorem cutAt_append (absent : stop ∉ line) :
    cutAt stop (line ++ stop :: rest) = some (line, rest) := by
  induction line with
  | nil => simp [cutAt]
  | cons first others ih =>
      simp only [List.mem_cons, not_or] at absent
      simp [cutAt, Ne.symm absent.1, ih absent.2]

theorem parseHex_append (left right : List Char) : parseHex (left ++ right) =
    (parseHex left).bind fun value =>
      right.foldlM (fun value character => (hexDigit character).map (16 * value + ·)) value := by
  simp [parseHex, List.foldlM_append]

theorem hexDigit_digitChar {digit : Nat} (small : digit < 16) :
    hexDigit digit.digitChar = some digit := by
  revert digit
  decide

theorem parseHex_toDigits (number : Nat) : parseHex (Nat.toDigits 16 number) = some number := by
  induction number using Nat.strong_induction_on with
  | _ number ih =>
      rw [Nat.toDigits_eq_if (by decide)]
      split
      · rename_i small
        simp [parseHex, hexDigit_digitChar small]
      · rename_i large
        have smaller : number / 16 < number := Nat.div_lt_self (by omega) (by decide)
        rw [parseHex_append, ih _ smaller]
        simp [hexDigit_digitChar (Nat.mod_lt number (by decide : 0 < 16)), Nat.div_add_mod]

theorem isSome_hexDigit_of_mem_toDigits {number : Nat} {character : Char}
    (member : character ∈ Nat.toDigits 16 number) : (hexDigit character).isSome = true := by
  induction number using Nat.strong_induction_on with
  | _ number ih =>
      rw [Nat.toDigits_eq_if (by decide)] at member
      split at member
      · rename_i small
        rw [List.mem_singleton.mp member, hexDigit_digitChar small]
        rfl
      · rename_i large
        have smaller : number / 16 < number := Nat.div_lt_self (by omega) (by decide)
        cases List.mem_append.mp member with
        | inl earlier => exact ih _ smaller earlier
        | inr last =>
            rw [List.mem_singleton.mp last,
              hexDigit_digitChar (Nat.mod_lt number (by decide : 0 < 16))]
            rfl

theorem headerLine_toList (header : String × String) : (headerLine header).toList =
    header.1.toList ++ ':' :: ' ' :: header.2.toList ++ ['\r', '\n'] := by
  simp [headerLine]

/-- A header that can be read: its line is cut at the first colon. -/
structure ReadableLine (header : String × String) : Prop where
  name : ∀ character ∈ header.1.toList, character ≠ '\r' ∧ character ≠ ':'
  value : '\r' ∉ header.2.toList

/-- A header without the spaces in front of its value. -/
def trimmed (header : String × String) : String × String :=
  (header.1, String.ofList (header.2.toList.dropWhile (· = ' ')))

theorem ReadableLine.single {header : String × String} (readable : ReadableLine header) :
    ∀ character ∈ header.1.toList ++ ':' :: ' ' :: header.2.toList, character ≠ '\r' := by
  intro character member
  simp only [List.mem_append, List.mem_cons] at member
  obtain name | rfl | rfl | value := member
  · exact (readable.name character name).1
  · decide
  · decide
  · rintro rfl
    exact readable.value value

theorem ReadableLine.unsplit {header : String × String} (readable : ReadableLine header) :
    ':' ∉ header.1.toList :=
  fun member => (readable.name _ member).2 rfl

theorem parseHeaders_readable {headers : Headers} {fuel : Nat}
    (readable : ∀ header ∈ headers, ReadableLine header) (enough : headers.length < fuel) :
    parseHeaders fuel ((headers.flatMap fun header => (headerLine header).toList) ++
      '\r' :: '\n' :: rest) = some (headers.map trimmed, rest) := by
  induction headers generalizing fuel with
  | nil =>
      cases fuel with
      | zero => cases enough
      | succ fuel => rfl
  | cons header others ih =>
      cases fuel with
      | zero => cases enough
      | succ fuel =>
          have proper := readable header List.mem_cons_self
          have remaining := @ih fuel
            (fun other member => readable other (List.mem_cons_of_mem _ member))
            (Nat.lt_of_succ_lt_succ enough)
          have filled : header.1.toList ++ ':' :: ' ' :: header.2.toList ≠ [] := by simp
          have first : ∀ tail, cutLine ((headerLine header).toList ++ tail) =
              some (header.1.toList ++ ':' :: ' ' :: header.2.toList, tail) := by
            intro tail
            rw [headerLine_toList, List.append_assoc]
            exact cutLine_append proper.single
          rw [List.flatMap_cons, List.append_assoc, parseHeaders, first, Option.bind_some,
            if_neg filled, cutAt_append proper.unsplit, Option.bind_some, remaining]
          simp [trimmed]

theorem LegalHeader.readable {header : String × String} (legal : LegalHeader header) :
    ReadableLine header := by
  constructor
  · intro character member
    constructor
    · rintro rfl
      obtain token | hyphen := legal.token _ member
      · cases token
      · cases hyphen
    · rintro rfl
      obtain token | hyphen := legal.token _ member
      · cases token
      · cases hyphen
  · intro member
    exact (legal.line _ member).1 rfl

theorem LegalHeader.trimmed {header : String × String} (legal : LegalHeader header) :
    trimmed header = header := by
  have value : header.2.toList.dropWhile (fun character => decide (character = ' ')) =
      header.2.toList := by
    have start := legal.start
    cases value : header.2.toList with
    | nil => rfl
    | cons first rest =>
        rw [value] at start
        simp [start first rfl]
  rw [Messages.trimmed, value, String.ofList_toList]

theorem parseHeaders_append {headers : Headers} {fuel : Nat}
    (legal : ∀ header ∈ headers, LegalHeader header) (enough : headers.length < fuel) :
    parseHeaders fuel ((headers.flatMap fun header => (headerLine header).toList) ++
      '\r' :: '\n' :: rest) = some (headers, rest) := by
  have kept : headers.map trimmed = headers := by
    conv_rhs => rw [← List.map_id headers]
    exact List.map_congr_left fun header member => (legal header member).trimmed
  rw [parseHeaders_readable (fun header member => (legal header member).readable) enough, kept]

theorem requestHead_toList (path : String) (headers : Headers) :
    (requestHead path headers).toList = ("POST ".toList ++ path.toList ++ " HTTP/1.1".toList) ++
      '\r' :: '\n' :: ((headers.flatMap fun header => (headerLine header).toList) ++
        ['\r', '\n']) := by
  simp [requestHead, List.flatMap_map]

theorem parseChunk_chunked (body : String) :
    parseChunk (chunked body).toList = some body.toList := by
  have digits : ∀ character ∈ Nat.toDigits 16 body.length, character ≠ '\r' := by
    rintro character member rfl
    have digit := isSome_hexDigit_of_mem_toDigits member
    cases digit
  have split : (chunked body).toList = Nat.toDigits 16 body.length ++ '\r' :: '\n' ::
      (body.toList ++ "\r\n0\r\n\r\n".toList) := by
    simp [chunked]
  have taken : (body.toList ++ "\r\n0\r\n\r\n".toList).take body.length = body.toList := by
    rw [← String.length_toList, List.take_left]
  have left : (body.toList ++ "\r\n0\r\n\r\n".toList).drop body.length =
      "\r\n0\r\n\r\n".toList := by
    rw [← String.length_toList, List.drop_left]
  rw [split, parseChunk, cutLine_append digits, Option.bind_some, parseHex_toDigits,
    Option.bind_some, if_pos left, taken]

theorem LegalPath.ne {path : String} {character other : Char} (legal : LegalPath path)
    (escaped : Messages.legal other = false) (segment : other ≠ '/')
    (member : character ∈ path.toList) : character ≠ other := by
  rintro rfl
  obtain unescaped | separator := legal.characters _ member
  · exact absurd (escaped.symm.trans unescaped) Bool.false_ne_true
  · exact segment separator

theorem length_le_flatMap (headers : Headers) :
    headers.length ≤ (headers.flatMap fun header => (headerLine header).toList).length := by
  induction headers with
  | nil => exact Nat.le_refl 0
  | cons header others ih =>
      have filled : (headerLine header).toList ≠ [] := by simp [headerLine_toList]
      have positive := List.length_pos_of_ne_nil filled
      rw [List.flatMap_cons, List.length_append, List.length_cons]
      omega

/-- The parser delivers what is sent. -/
theorem parseRequest_delivers : Delivers parseRequest := by
  have head : ∀ path headers rest, LegalPath path → LegalHeaders headers →
      parseRequest (requestHead path headers ++ rest) =
        match headers.get "Transfer-Encoding" with
        | some "chunked" => (parseChunk rest.toList).map fun body =>
            ⟨path, headers, String.ofList body⟩
        | _ => some ⟨path, headers, ""⟩ := by
    intro path headers rest legal proper
    have text : (requestHead path headers ++ rest).toList =
        ("POST".toList ++ ' ' :: (path.toList ++ ' ' :: "HTTP/1.1".toList)) ++ '\r' :: '\n' ::
          ((headers.flatMap fun header => (headerLine header).toList) ++
            '\r' :: '\n' :: rest.toList) := by
      simp [requestHead_toList]
    have single : ∀ character ∈ "POST".toList ++ ' ' :: (path.toList ++ ' ' :: "HTTP/1.1".toList),
        character ≠ '\r' := by
      intro character member
      rw [List.mem_append, List.mem_cons, List.mem_append] at member
      obtain method | rfl | target | version := member
      · revert character
        exact Http.forall_mem_of_all (by decide)
      · decide
      · exact legal.ne (by decide) (by decide) target
      · revert character
        exact Http.forall_mem_of_all (by decide)
    have method : cutAt ' ' ("POST".toList ++ ' ' :: (path.toList ++ ' ' :: "HTTP/1.1".toList)) =
        some ("POST".toList, path.toList ++ ' ' :: "HTTP/1.1".toList) :=
      cutAt_append (by decide)
    have target : cutAt ' ' (path.toList ++ ' ' :: "HTTP/1.1".toList) =
        some (path.toList, "HTTP/1.1".toList) :=
      cutAt_append fun member => legal.ne (by decide) (by decide) member rfl
    have enough : headers.length <
        ((headers.flatMap fun header => (headerLine header).toList) ++
          '\r' :: '\n' :: rest.toList).length := by
      have lines := length_le_flatMap headers
      simp only [List.length_append, List.length_cons]
      omega
    rw [parseRequest, text, cutLine_append single]
    simp only [Option.bind_some, method, target, parseHeaders_append proper.each enough,
      String.ofList_toList]
  constructor
  · intro path headers legal proper unframed _
    have parsed := head path headers "" legal proper
    rwa [String.append_empty, unframed] at parsed
  · intro path headers body legal proper framed _
    rw [head path headers _ legal proper, framed, parseChunk_chunked]
    simp

end Parser

end Libprocess.Messages
