import Libprocess.Http.Headers
import Libprocess.Http.Proxy
import Libprocess.Messages.Requests
import Mathlib.Algebra.Group.Nat.Defs

/-!
# The text of a response

`HttpResponseEncoder::encode` writes the status, the headers and, for a response with a body, the
body.  The length of the content is computed, or it is told by a header that was supplied, which is
left as it is.  Bodies are compressed by another library.
-/

namespace Libprocess.Http

open Messages (headerLine cutLine parseHeaders ReadableLine trimmed)

/-- The functions of `strings`, `gzip` and `numify` that are used on responses. -/
structure EncoderLibraries where
  tokenize : (text delimiters : String) → List String
  /-- `strings::remove` -/
  remove : (text part : String) → String
  lower : String → String
  /-- `strings::pairs` -/
  pairs : (text first second : String) → List (String × List String)
  /-- Whether `numify<double>` gives a number above zero. -/
  positive : String → Bool
  /-- `numify<uint32_t>` -/
  numify : String → Option Nat
  /-- `gzip::compress` -/
  compress : String → Option String

/-- A decimal numeral. -/
structure Decimal (text : List Char) (number : Nat) : Prop where
  filled : text ≠ []
  digits : ∀ character ∈ text, character.isDigit = true
  value : Nat.ofDigitChars 10 text 0 = number

/-- A numeral that fits is read as its number, and one that does not is rejected. -/
def EncoderLibraries.Documented (libraries : EncoderLibraries) : Prop :=
  ∀ text number, Decimal text.toList number →
    libraries.numify text = if number < 2 ^ 32 then some number else none

theorem decimal_toString (number : Nat) : Decimal (toString number).toList number where
  filled := by simp [Nat.toString_eq_repr]
  digits := by
    intro character member
    rw [Nat.toString_eq_repr, Nat.toList_repr] at member
    exact Nat.isDigit_of_mem_toDigits (by decide) (by decide) member
  value := by
    rw [Nat.toString_eq_repr, Nat.toList_repr, Nat.ofDigitChars_ten_toDigits]

/-- No space stands in front of a numeral. -/
theorem Decimal.dropWhile {text : List Char} {number : Nat} (decimal : Decimal text number) :
    text.dropWhile (fun character => decide (character = ' ')) = text := by
  cases text with
  | nil => rfl
  | cons first rest =>
      have digit := decimal.digits first List.mem_cons_self
      have proper : first ≠ ' ' := by
        rintro rfl
        cases digit
      simp [proper]

namespace HttpResponseEncoder

variable (libraries : EncoderLibraries)

/-- `GZIP_MINIMUM_BODY_LENGTH` -/
def minimumBodyLength : Nat := 1024

/-- What a round of the inner loop in `Request::acceptsEncoding` returns, if it returns. -/
def acceptsCandidate (candidate encoding : String) : Option Bool :=
  match libraries.tokenize encoding ";" with
  | [] => none
  | first :: _ =>
      if libraries.lower first = libraries.lower candidate then
        match (libraries.pairs encoding ";" "=").lookup "q" with
        | some [quality] => some (libraries.positive quality)
        | _ => some true
      else none

/-- `Request::acceptsEncoding` -/
def acceptsEncoding (request : Headers) (encoding : String) : Bool :=
  match request.get "Accept-Encoding" with
  | none => false
  | some accept =>
      if accept = "" then false
      else
        let accept := libraries.remove (libraries.remove (libraries.remove accept " ") "\t") "\n"
        let encodings := libraries.tokenize accept ","
        ([encoding, "*"].findSome? fun candidate =>
          encodings.findSome? (acceptsCandidate libraries candidate)).getD false

/-- The compressed body, if the body is compressed. -/
def compressed (response : Response) (request : Headers) (headers : Headers) : Option String :=
  if response.type = .body ∧ minimumBodyLength ≤ response.body.length ∧
      (headers.get "Content-Encoding").isNone ∧ acceptsEncoding libraries request "gzip" then
    libraries.compress response.body
  else none

/-- The headers that are written, and the body. -/
def prepare (date : String) (response : Response) (request : Headers) : Headers × String :=
  let headers := Headers.set response.headers "Date" date
  match compressed libraries response request headers with
  | none => (headers, response.body)
  | some body =>
      ((headers.set "Content-Length" (toString body.length)).set "Content-Encoding" "gzip", body)

/-- The `Content-Length` that is written behind the headers. -/
def lengthHeader (response : Response) (headers : Headers) (body : String) : Headers :=
  if response.type = .none ∧ (headers.get "Content-Length").isNone then [("Content-Length", "0")]
  else if response.type = .body ∧ (headers.get "Content-Length").isNone then
    [("Content-Length", toString body.length)]
  else []

/-- What is written of the body. -/
def content (response : Response) (headers : Headers) (body : String) : List Char :=
  if response.type = .body then
    match (headers.get "Content-Length").bind libraries.numify with
    | some length => if length ≤ body.length then body.toList.take length else body.toList
    | none => body.toList
  else []

/-- `HttpResponseEncoder::encode`.  The status and the time are arguments. -/
def encode (date status : String) (response : Response) (request : Headers) : String :=
  let prepared := prepare libraries date response request
  "HTTP/1.1 " ++ status ++ "\r\n" ++
    String.join ((prepared.1 ++ lengthHeader response prepared.1 prepared.2).map headerLine) ++
    "\r\n" ++ String.ofList (content libraries response prepared.1 prepared.2)

/-- What a client reads: the headers, without the spaces in front of their values, and the bytes
behind the blank line. -/
def read (text : List Char) : Option (Headers × List Char) :=
  (cutLine text).bind fun cut => parseHeaders (cut.2.length + 1) cut.2

/-- Texts that can be written into a line. -/
structure Writable (date status : String) (headers : Headers) : Prop where
  date : '\r' ∉ date.toList
  status : '\r' ∉ status.toList
  names : ∀ header ∈ headers, '\r' ∉ header.1.toList ∧ ':' ∉ header.1.toList
  values : ∀ header ∈ headers, '\r' ∉ header.2.toList
  distinct : Headers.Distinct headers

section Encoding

variable {libraries} {date status : String} {response : Response} {request : Headers}

theorem prepare_cases (libraries : EncoderLibraries) (date : String) (response : Response)
    (request : Headers) :
    (∃ body, compressed libraries response request (Headers.set response.headers "Date" date) =
        some body ∧
      prepare libraries date response request =
        (((Headers.set response.headers "Date" date).set "Content-Length"
          (toString body.length)).set "Content-Encoding" "gzip", body)) ∨
    compressed libraries response request (Headers.set response.headers "Date" date) = none ∧
      prepare libraries date response request =
        (Headers.set response.headers "Date" date, response.body) := by
  unfold prepare
  cases found : compressed libraries response request (Headers.set response.headers "Date" date) with
  | none => exact .inr ⟨rfl, by simp only [found]⟩
  | some body => exact .inl ⟨body, rfl, by simp only [found]⟩

theorem readable_set {headers : Headers} {key value : String}
    (readable : ∀ header ∈ headers, ReadableLine header) (entry : ReadableLine (key, value)) :
    ∀ header ∈ headers.set key value, ReadableLine header := by
  intro header member
  obtain old | rfl | ⟨old, inside, _, rfl⟩ := Headers.mem_set member
  · exact readable header old
  · exact entry
  · exact ⟨(readable old inside).name, entry.value⟩

theorem readable_decimal {key : String}
    (name : ∀ character ∈ key.toList, character ≠ '\r' ∧ character ≠ ':') (number : Nat) :
    ReadableLine (key, toString number) where
  name := name
  value := by
    intro member
    cases (decimal_toString number).digits _ member

theorem readable_contentLength (number : Nat) :
    ReadableLine ("Content-Length", toString number) :=
  readable_decimal (Http.forall_mem_of_all (by decide)) number

theorem Writable.readable (writable : Writable date status response.headers) :
    ∀ header ∈ Headers.set response.headers "Date" date, ReadableLine header := by
  apply readable_set
  · intro header member
    constructor
    · intro character inside
      constructor
      · rintro rfl
        exact (writable.names header member).1 inside
      · rintro rfl
        exact (writable.names header member).2 inside
    · exact writable.values header member
  · have name : ∀ character ∈ "Date".toList, character ≠ '\r' ∧ character ≠ ':' :=
      Http.forall_mem_of_all (by decide)
    exact ⟨name, writable.date⟩

theorem Writable.prepared (writable : Writable date status response.headers) :
    (∀ header ∈ (prepare libraries date response request).1, ReadableLine header) ∧
      (prepare libraries date response request).1.Distinct := by
  have dated : (Headers.set response.headers "Date" date).Distinct :=
    Headers.distinct_set writable.distinct
  obtain ⟨body, _, prepared⟩ | ⟨_, prepared⟩ := prepare_cases libraries date response request
  · rw [prepared]
    constructor
    · apply readable_set (readable_set writable.readable (readable_contentLength _))
      exact ⟨Http.forall_mem_of_all (by decide), by decide⟩
    · exact Headers.distinct_set (Headers.distinct_set dated)
  · rw [prepared]
    exact ⟨writable.readable, dated⟩

/-- What is told of a content, and the content.  `packed` is the compressed body. -/
structure Framed (libraries : EncoderLibraries) (response : Response) (packed : Option String)
    (value content : List Char) : Prop where
  /-- A length that is not supplied, or replaced by that of a compressed body, is right. -/
  computed : Headers.get response.headers "Content-Length" = none ∨ packed.isSome →
    Decimal value content.length
  /-- A supplied length is left as it is. -/
  supplied : ∀ text, Headers.get response.headers "Content-Length" = some text → packed = none →
    value = text.toList.dropWhile (· = ' ')
  /-- A supplied length within the body is right, -/
  within : ∀ text number, Headers.get response.headers "Content-Length" = some text →
    packed = none → response.type = .body → Decimal text.toList number → number < 2 ^ 32 →
    number ≤ response.body.length →
      Decimal value content.length ∧ content = response.body.toList.take number
  /-- and with any other the body is written whole. -/
  whole : ∀ text, Headers.get response.headers "Content-Length" = some text → packed = none →
    response.type = .body →
    (∀ number, libraries.numify text = some number → response.body.length < number) →
      content = response.body.toList
  /-- Without a body, nothing is written. -/
  empty : response.type = .none → content = []

end Encoding

/-- Functions that behave as documented for a client that accepts no encoding. -/
def identityLibraries : EncoderLibraries where
  tokenize text _ := [text]
  remove text _ := text
  lower text := text
  pairs _ _ _ := []
  positive _ := true
  numify text :=
    if text.toList ≠ [] ∧ text.toList.all Char.isDigit ∧
        Nat.ofDigitChars 10 text.toList 0 < 2 ^ 32 then
      some (Nat.ofDigitChars 10 text.toList 0)
    else none
  compress _ := none

/-- The date of the tests. -/
def sunday : String := "Sun, 06 Nov 1994 08:49:37 GMT"

/-- A response with a body of two bytes. -/
def short (headers : Headers) : Response := ⟨200, headers, "ab", .body⟩

end HttpResponseEncoder

end Libprocess.Http
