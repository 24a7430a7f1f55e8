import Mathlib.Data.List.Basic

/-!
# JSON web tokens

A token is created from a payload, with a signature or without one, is written as three components
with a dot between them, and is parsed from such a text.  JSON, base64, HMAC and RSA are the work of
other libraries.  Texts are byte strings; a byte is a character below 256.
-/

namespace Libprocess.Jwt

/-- The functions that are used of the other libraries. -/
structure Libraries where
  /-- `JSON::Value` -/
  Value : Type
  /-- `JSON::Number` -/
  Number : Type
  /-- `JSON::String` as a value -/
  string : String → Value
  asString : Value → Option String
  asNumber : Value → Option Number
  /-- `JSON::Number::as<int64_t>` -/
  asInt64 : Number → Int64
  /-- `JSON::parse<JSON::Object>`; an object is given by its `values`, in their order. -/
  parseObject : String → Except String (List (String × Value))
  stringify : List (String × Value) → String
  /-- `JSON::Object::find<JSON::Value>` -/
  find : List (String × Value) → String → Except String (Option Value)
  /-- `base64::encode_url_safe` without padding -/
  encode_url_safe : String → String
  decode_url_safe : String → Except String String
  /-- `strings::split` -/
  split : (text delimiter : String) → List String
  generate_hmac_sha256 : (message key : String) → Except String String
  /-- `RSA`, with a private key -/
  PrivateKey : Type
  /-- `RSA`, with a public key -/
  PublicKey : Type
  sign_rsa_sha256 : String → PrivateKey → Except String String
  verify_rsa_sha256 : (message signature : String) → PublicKey → Except String Unit

/-- `JWT::Alg` -/
inductive Alg where
  | none
  | hs256
  | rs256
  deriving DecidableEq, Repr

/-- `stringify` of an `Alg` -/
def Alg.stringify : Alg → String
  | .none => "none"
  | .hs256 => "HS256"
  | .rs256 => "RS256"

/-- `JWT::Header` -/
structure Header where
  alg : Alg
  typ : Option String
  deriving DecidableEq, Repr

/-- `JWTError::Type` -/
inductive ErrorType where
  | invalidToken
  | unknown
  deriving DecidableEq, Repr

/-- `JWTError` -/
structure JWTError where
  message : String
  type : ErrorType
  deriving DecidableEq, Repr

variable (libraries : Libraries)

/-- `JSON::Object` -/
abbrev Libraries.Object := List (String × libraries.Value)

structure JWT where
  header : Header
  payload : libraries.Object
  signature : Option String

/-- The object that is written for a header. -/
def Header.json (header : Header) : libraries.Object :=
  match header.typ with
  | none => [("alg", libraries.string header.alg.stringify)]
  | some typ => [("alg", libraries.string header.alg.stringify), ("typ", libraries.string typ)]

/-- `stringify` of a `Header` -/
def Header.stringify (header : Header) : String :=
  libraries.stringify (header.json libraries)

/-- `base64::encode_url_safe(stringify(header), false) + "." +
base64::encode_url_safe(stringify(payload), false)` -/
def message (header : Header) (payload : libraries.Object) : String :=
  libraries.encode_url_safe (header.stringify libraries) ++ "." ++
    libraries.encode_url_safe (libraries.stringify payload)

/-- `operator<<` -/
def JWT.print (jwt : JWT libraries) : String :=
  message libraries jwt.header jwt.payload ++ "." ++ jwt.signature.getD ""

/-! ## Parsing -/

def decode (component : String) : Except String libraries.Object :=
  match libraries.decode_url_safe component with
  | .error error => .error ("Failed to base64url-decode: " ++ error)
  | .ok decoded =>
      match libraries.parseObject decoded with
      | .error error => .error ("Failed to parse into JSON: " ++ error)
      | .ok json => .ok json

/-- The validation of `typ` in `parse_header`. -/
def parseTyp (header : libraries.Object) : Except String (Option String) :=
  match libraries.find header "typ" with
  | .ok (some json) =>
      match libraries.asString json with
      | none => .error "Token 'typ' is not a string"
      | some typ => .ok (some typ)
  | _ => .ok none

/-- The validation of `alg` in `parse_header`. -/
def parseAlg (header : libraries.Object) : Except String Alg :=
  match libraries.find header "alg" with
  | .ok none => .error "Failed to locate 'alg' in token JSON header"
  | .error error =>
      .error ("Error when extracting 'alg' field from token JSON header: " ++ error)
  | .ok (some json) =>
      match libraries.asString json with
      | none => .error "Token 'alg' field is not a string"
      | some value =>
          if value = "none" then .ok .none
          else if value = "HS256" then .ok .hs256
          else if value = "RS256" then .ok .rs256
          else .error ("Unsupported token algorithm: " ++ value)

def parse_header (component : String) : Except String Header :=
  match decode libraries component with
  | .error error => .error ("Failed to decode token header: " ++ error)
  | .ok header => do
      let typ ← parseTyp libraries header
      let alg ← parseAlg libraries header
      match libraries.find header "crit" with
      | .ok (some _) => .error "Token 'crit' field is unsupported"
      | _ => .ok ⟨alg, typ⟩

/-- `parse_payload` at a time in seconds -/
def parse_payload (now : Int64) (component : String) : Except String libraries.Object :=
  match decode libraries component with
  | .error error => .error ("Failed to decode token payload: " ++ error)
  | .ok payload =>
      match libraries.find payload "exp" with
      | .error error =>
          .error ("Error when extracting 'exp' field from token JSON payload: " ++ error)
      | .ok none => .ok payload
      | .ok (some json) =>
          match libraries.asNumber json with
          | none => .error "JSON payload 'exp' field is not a number"
          | some number =>
              let exp := libraries.asInt64 number
              if exp < now then
                .error ("Token has expired: exp(" ++ toString exp ++ ") < now(" ++ toString now ++
                  ")")
              else .ok payload

/-- `constantTimeEquals` -/
def constantTimeEquals (left right : String) : Bool :=
  if left.length ≠ right.length then false
  else (left.toList.zip right.toList).foldl
    (fun valid pair => valid ||| (pair.1.val ^^^ pair.2.val)) 0 == 0

def invalid (message : String) : JWTError := ⟨message, .invalidToken⟩

/-- What the functions named `parse` have in common: the components of the token, its header, which
has to name the algorithm, and its payload. -/
def parseComponents (alg : Alg) (now : Int64) (token : String) :
    Except JWTError ((String × String × String) × Header × libraries.Object) :=
  let components := libraries.split token "."
  match components with
  | [first, second, third] => do
      let header ← (parse_header libraries first).mapError invalid
      if header.alg ≠ alg then
        .error (invalid ("Token 'alg' value \"" ++ header.alg.stringify ++
          "\" does not match, expected \"" ++ alg.stringify ++ "\""))
      else
        let payload ← (parse_payload libraries now second).mapError invalid
        .ok ((first, second, third), header, payload)
  | _ => .error (invalid ("Expected 3 components in token, got " ++ toString components.length))

/-- The decoding of a signature in the functions named `parse`. -/
def decodeSignature (component : String) : Except JWTError String :=
  match libraries.decode_url_safe component with
  | .error error => .error (invalid ("Failed to base64url-decode token signature: " ++ error))
  | .ok signature => .ok signature

/-- `JWT::parse` of an unsecured token -/
def parse (now : Int64) (token : String) : Except JWTError (JWT libraries) := do
  let ((_, _, third), header, payload) ← parseComponents libraries .none now token
  if third ≠ "" then .error (invalid "Unsecured JWT contains a signature")
  else .ok ⟨header, payload, none⟩

/-- `JWT::parse` with a secret -/
def parseSecret (now : Int64) (token secret : String) : Except JWTError (JWT libraries) := do
  let ((first, second, third), header, payload) ← parseComponents libraries .hs256 now token
  let signature ← decodeSignature libraries third
  match libraries.generate_hmac_sha256 (first ++ "." ++ second) secret with
  | .error error => .error ⟨"Failed to generate HMAC signature: " ++ error, .unknown⟩
  | .ok hmac =>
      if constantTimeEquals hmac signature then .ok ⟨header, payload, some signature⟩
      else .error (invalid "Token signature does not match")

/-- `JWT::parse` with a public key -/
def parsePublic (now : Int64) (token : String) (publicKey : libraries.PublicKey) :
    Except JWTError (JWT libraries) := do
  let ((first, second, third), header, payload) ← parseComponents libraries .rs256 now token
  let signature ← decodeSignature libraries third
  match libraries.verify_rsa_sha256 (first ++ "." ++ second) signature publicKey with
  | .error error => .error (invalid ("Failed to verify token: " ++ error))
  | .ok _ => .ok ⟨header, payload, some signature⟩

/-! ## Creation -/

/-- `JWT::create` of an unsecured token -/
def create (payload : libraries.Object) : Except JWTError (JWT libraries) :=
  .ok ⟨⟨.none, some "JWT"⟩, payload, none⟩

/-- `JWT::create` with a secret -/
def createSecret (payload : libraries.Object) (secret : String) :
    Except JWTError (JWT libraries) :=
  let header := ⟨.hs256, some "JWT"⟩
  match libraries.generate_hmac_sha256 (message libraries header payload) secret with
  | .error error => .error ⟨"Failed to generate HMAC signature: " ++ error, .unknown⟩
  | .ok hmac => .ok ⟨header, payload, some (libraries.encode_url_safe hmac)⟩

/-- `JWT::create` with a private key -/
def createPrivate (payload : libraries.Object) (privateKey : libraries.PrivateKey) :
    Except JWTError (JWT libraries) :=
  let header := ⟨.rs256, some "JWT"⟩
  match libraries.sign_rsa_sha256 (message libraries header payload) privateKey with
  | .error error => .error ⟨"Failed to generate RSA signature: " ++ error, .unknown⟩
  | .ok signature => .ok ⟨header, payload, some (libraries.encode_url_safe signature)⟩

/-! ## Keys -/

/-- What a token is created and parsed with. -/
inductive Key where
  | unsecured
  | secret (secret : String)
  | pair (privateKey : libraries.PrivateKey) (publicKey : libraries.PublicKey)

variable {libraries}

namespace Key

def alg : Key libraries → Alg
  | .unsecured => .none
  | .secret _ => .hs256
  | .pair _ _ => .rs256

/-- The function named `create` for the key. -/
def create : Key libraries → libraries.Object → Except JWTError (JWT libraries)
  | .unsecured, payload => Jwt.create libraries payload
  | .secret text, payload => createSecret libraries payload text
  | .pair privateKey _, payload => createPrivate libraries payload privateKey

/-- The function named `parse` for the key. -/
def parse : Key libraries → Int64 → String → Except JWTError (JWT libraries)
  | .unsecured, now, token => Jwt.parse libraries now token
  | .secret text, now, token => parseSecret libraries now token text
  | .pair _ publicKey, now, token => parsePublic libraries now token publicKey

/-- The signature that a key makes for a message. -/
def sign : Key libraries → String → Option (Except String String)
  | .unsecured, _ => none
  | .secret text, message => some (libraries.generate_hmac_sha256 message text)
  | .pair privateKey _, message => some (libraries.sign_rsa_sha256 message privateKey)

end Key

end Libprocess.Jwt
