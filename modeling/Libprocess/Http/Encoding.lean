import Mathlib.Data.List.Basic

/-!
# Status lines, headers and queries

Texts are byte strings; a byte is a character below 256.  Headers and queries are hash
maps, given as association lists with at most one entry for a key.  The functions of
`strings` that are used are parameters.
-/

namespace Libprocess.Http

/-- A property of the characters of a fixed text is evaluated on one character after the other. -/
theorem forall_mem_of_all {holds : Char → Prop} [DecidablePred holds] {text : List Char}
    (all : text.all (fun character => decide (holds character)) = true) :
    ∀ character ∈ text, holds character := by
  simpa using all

/-- `strings::tokenize` and `strings::split`. -/
structure Strings where
  tokenize : (text delimiters : String) → List String
  split : (text delimiter : String) → (maximum : Nat) → List String

/-- `statuses` -/
def statuses : List (Nat × String) := [
  (100, "100 Continue"),
  (101, "101 Switching Protocols"),
  (200, "200 OK"),
  (201, "201 Created"),
  (202, "202 Accepted"),
  (203, "203 Non-Authoritative Information"),
  (204, "204 No Content"),
  (205, "205 Reset Content"),
  (206, "206 Partial Content"),
  (300, "300 Multiple Choices"),
  (301, "301 Moved Permanently"),
  (302, "302 Found"),
  (303, "303 See Other"),
  (304, "304 Not Modified"),
  (305, "305 Use Proxy"),
  (307, "307 Temporary Redirect"),
  (400, "400 Bad Request"),
  (401, "401 Unauthorized"),
  (402, "402 Payment Required"),
  (403, "403 Forbidden"),
  (404, "404 Not Found"),
  (405, "405 Method Not Allowed"),
  (406, "406 Not Acceptable"),
  (407, "407 Proxy Authentication Required"),
  (408, "408 Request Time-out"),
  (409, "409 Conflict"),
  (410, "410 Gone"),
  (411, "411 Length Required"),
  (412, "412 Precondition Failed"),
  (413, "413 Request Entity Too Large"),
  (414, "414 Request-URI Too Large"),
  (415, "415 Unsupported Media Type"),
  (416, "416 Requested range not satisfiable"),
  (417, "417 Expectation Failed"),
  (500, "500 Internal Server Error"),
  (501, "501 Not Implemented"),
  (502, "502 Bad Gateway"),
  (503, "503 Service Unavailable"),
  (504, "504 Gateway Time-out"),
  (505, "505 HTTP Version not supported")]

/-- `Status::string` -/
def statusString (code : Nat) : String :=
  (statuses.lookup code).getD (toString code)

def isValidStatus (code : Nat) : Bool :=
  (statuses.lookup code).isSome

/-- `http::Headers` -/
abbrev Headers := List (String × String)

namespace Headers

/-- `CaseInsensitiveEqual` -/
def sameKey (left right : String) : Bool :=
  left.toList.map Char.toLower == right.toList.map Char.toLower

def get (headers : Headers) (key : String) : Option String :=
  (headers.find? fun header => sameKey header.1 key).map Prod.snd

/-- `headers[key] = value`, which keeps the key that is already in the map. -/
def set (headers : Headers) (key value : String) : Headers :=
  if headers.any fun header => sameKey header.1 key then
    headers.map fun header => if sameKey header.1 key then (header.1, value) else header
  else headers ++ [(key, value)]

end Headers

/-- The value of a character that `isxdigit` accepts. -/
def hexDigit (character : Char) : Option Nat :=
  if '0' ≤ character ∧ character ≤ '9' then some (character.toNat - '0'.toNat)
  else if 'a' ≤ character ∧ character ≤ 'f' then some (character.toNat - 'a'.toNat + 10)
  else if 'A' ≤ character ∧ character ≤ 'F' then some (character.toNat - 'A'.toNat + 10)
  else none

/-- The loop of `http::decode`; the error has the text from the malformed escape on. -/
def decodeCharacters : List Char → Except (List Char) (List Char)
  | [] => .ok []
  | '%' :: high :: low :: rest =>
      match hexDigit high, hexDigit low with
      | some upper, some lower =>
          (decodeCharacters rest).map (Char.ofNat (16 * upper + lower) :: ·)
      | _, _ => .error ('%' :: high :: low :: rest)
  | '%' :: rest => .error ('%' :: rest)
  | character :: rest =>
      (decodeCharacters rest).map ((if character = '+' then ' ' else character) :: ·)

/-- `http::decode` -/
def decode (text : String) : Except String String :=
  match decodeCharacters text.toList with
  | .ok characters => .ok (String.ofList characters)
  | .error rest =>
      .error s!"Malformed % escape in '{text}': '{String.ofList (rest.take 3)}'"

namespace Query

/-- `result[key] = value` -/
def set (query : List (String × String)) (key value : String) : List (String × String) :=
  (key, value) :: query.filter fun entry => entry.1 ≠ key

/-- One round of the loop in `query::decode`. -/
def decodeToken (strings : Strings) (result : List (String × String)) (token : String) :
    Except String (List (String × String)) :=
  match strings.split token "=" 2 with
  | [] => .ok result
  | [key] => do
      let key ← Http.decode key
      return set result key ""
  | [key, value] => do
      let key ← Http.decode key
      let value ← Http.decode value
      return set result key value
  | key :: _ => do
      let _ ← Http.decode key
      return result

/-- `query::decode` -/
def decode (strings : Strings) (query : String) : Except String (List (String × String)) :=
  (strings.tokenize query ";&").foldlM (decodeToken strings) []

end Query

end Libprocess.Http
