import Libprocess.Jwt.Token

/-!
# Tokens as text

A token that was created is read back from its text.  A token that was parsed has the signature
itself in the place of its encoding, so that its text is not a token any more.
-/

namespace Libprocess.Jwt

variable {libraries : Libraries}

/-- What is known of `strings` and of the accessors of JSON. -/
structure Libraries.Documented (libraries : Libraries) : Prop where
  split : ∀ text, libraries.split text "." = (text.toList.splitOn '.').map String.ofList
  asString : ∀ text, libraries.asString (libraries.string text) = some text
  find : ∀ object, ∀ name ∈ ["typ", "alg", "crit", "exp"],
    libraries.find object name = .ok (object.lookup name)

/-- The text of an object is carried by its encoding and parsed as the object. -/
structure Libraries.Carries (libraries : Libraries) (text : String) : Prop where
  decoded : libraries.decode_url_safe (libraries.encode_url_safe text) = .ok text
  undotted : '.' ∉ (libraries.encode_url_safe text).toList

/-- JSON, base64 and RSA do as they are expected to on the texts of a token. -/
structure Supports (key : Key libraries) (payload : libraries.Object) : Prop where
  parsesHeader : ∀ alg, libraries.parseObject ((⟨alg, some "JWT"⟩ : Header).stringify libraries) =
    .ok ((⟨alg, some "JWT"⟩ : Header).json libraries)
  carriesHeader : ∀ alg, libraries.Carries ((⟨alg, some "JWT"⟩ : Header).stringify libraries)
  parsesPayload : libraries.parseObject (libraries.stringify payload) = .ok payload
  carriesPayload : libraries.Carries (libraries.stringify payload)
  carriesSignature : ∀ message signature, key.sign message = some (.ok signature) →
    libraries.Carries signature
  /-- What the private key signs, the public key verifies. -/
  verifies : ∀ privateKey publicKey, key = .pair privateKey publicKey → ∀ message signature,
    libraries.sign_rsa_sha256 message privateKey = .ok signature →
      libraries.verify_rsa_sha256 message signature publicKey = .ok ()

/-- Without `exp` or with a number that has not passed. -/
def Unexpired (now : Int64) (payload : libraries.Object) : Prop :=
  ∀ value, payload.lookup "exp" = some value →
    ∃ number, libraries.asNumber value = some number ∧ ¬ libraries.asInt64 number < now

section Signatures

theorem foldl_or_eq_zero {pairs : List (Char × Char)} {valid : UInt32} :
    pairs.foldl (fun valid pair => valid ||| (pair.1.val ^^^ pair.2.val)) valid = 0 ↔
      valid = 0 ∧ ∀ pair ∈ pairs, pair.1 = pair.2 := by
  induction pairs generalizing valid with
  | nil => simp
  | cons pair rest ih =>
      rw [List.foldl_cons, ih, UInt32.or_eq_zero_iff, UInt32.xor_eq_zero_iff, ← Char.ext_iff,
        List.forall_mem_cons, and_assoc]

theorem eq_of_mem_zip_self {text : List Char} {pair : Char × Char}
    (member : pair ∈ text.zip text) : pair.1 = pair.2 := by
  induction text with
  | nil => cases member
  | cons first rest ih =>
      rw [List.zip_cons_cons, List.mem_cons] at member
      cases member with
      | inl head => rw [head]
      | inr tail => exact ih tail

theorem constantTimeEquals_self (text : String) : constantTimeEquals text text = true := by
  rw [constantTimeEquals, if_neg (by simp), beq_iff_eq]
  exact foldl_or_eq_zero.mpr ⟨rfl, fun _ => eq_of_mem_zip_self⟩

theorem length_of_constantTimeEquals {left right : String}
    (equal : constantTimeEquals left right = true) : left.length = right.length := by
  unfold constantTimeEquals at equal
  split at equal
  · cases equal
  · rename_i same
    simpa using same

end Signatures

section Components

variable {key : Key libraries} {payload : libraries.Object} {now : Int64}

theorem splitOn_components {first second third : List Char} (left : '.' ∉ first)
    (middle : '.' ∉ second) :
    (first ++ '.' :: (second ++ '.' :: third)).splitOn '.' =
      first :: second :: third.splitOn '.' := by
  rw [List.splitOn_append_cons_self_of_not_mem left, List.splitOn_append_cons_self_of_not_mem middle]

theorem toList_print (jwt : JWT libraries) : (jwt.print libraries).toList =
    (libraries.encode_url_safe (jwt.header.stringify libraries)).toList ++ '.' ::
      ((libraries.encode_url_safe (libraries.stringify jwt.payload)).toList ++ '.' ::
        (jwt.signature.getD "").toList) := by
  simp [JWT.print, message]

theorem decode_header (supports : Supports key payload) (alg : Alg) :
    decode libraries
      (libraries.encode_url_safe ((⟨alg, some "JWT"⟩ : Header).stringify libraries)) =
      .ok ((⟨alg, some "JWT"⟩ : Header).json libraries) := by
  rw [decode, (supports.carriesHeader alg).decoded]
  simp only [supports.parsesHeader alg]

theorem decode_payload (supports : Supports key payload) :
    decode libraries (libraries.encode_url_safe (libraries.stringify payload)) = .ok payload := by
  rw [decode, supports.carriesPayload.decoded]
  simp only [supports.parsesPayload]

theorem parse_header_encoded (documented : libraries.Documented)
    (supports : Supports key payload) (alg : Alg) :
    parse_header libraries
      (libraries.encode_url_safe ((⟨alg, some "JWT"⟩ : Header).stringify libraries)) =
      .ok ⟨alg, some "JWT"⟩ := by
  have algorithm : parseAlg libraries ((⟨alg, some "JWT"⟩ : Header).json libraries) = .ok alg := by
    rw [parseAlg, documented.find _ _ (by simp)]
    simp only [Header.json, List.lookup_cons_self, documented.asString]
    cases alg <;> rfl
  have type : parseTyp libraries ((⟨alg, some "JWT"⟩ : Header).json libraries) =
      .ok (some "JWT") := by
    rw [parseTyp, documented.find _ _ (by simp)]
    simp [Header.json, List.lookup_cons, documented.asString]
  rw [parse_header, decode_header supports alg]
  simp only [type, algorithm, documented.find _ "crit" (by simp)]
  simp [Header.json, List.lookup_cons, bind, Except.bind]

theorem parse_payload_encoded (documented : libraries.Documented)
    (supports : Supports key payload) (unexpired : Unexpired now payload) :
    parse_payload libraries now (libraries.encode_url_safe (libraries.stringify payload)) =
      .ok payload := by
  rw [parse_payload, decode_payload supports]
  simp only [documented.find _ "exp" (by simp)]
  cases found : payload.lookup "exp" with
  | none => rfl
  | some value =>
      obtain ⟨number, numeric, later⟩ := unexpired value found
      simp [numeric, later]

theorem parseComponents_print (documented : libraries.Documented)
    (supports : Supports key payload) (unexpired : Unexpired now payload) {alg : Alg}
    (signature : Option String) (undotted : '.' ∉ (signature.getD "").toList) :
    parseComponents libraries alg now
      (JWT.print libraries ⟨⟨alg, some "JWT"⟩, payload, signature⟩) =
      .ok ((libraries.encode_url_safe ((⟨alg, some "JWT"⟩ : Header).stringify libraries),
        libraries.encode_url_safe (libraries.stringify payload), signature.getD ""),
        ⟨alg, some "JWT"⟩, payload) := by
  have split : libraries.split (JWT.print libraries ⟨⟨alg, some "JWT"⟩, payload, signature⟩) "." =
      [libraries.encode_url_safe ((⟨alg, some "JWT"⟩ : Header).stringify libraries),
        libraries.encode_url_safe (libraries.stringify payload), signature.getD ""] := by
    rw [documented.split, toList_print,
      splitOn_components (supports.carriesHeader alg).undotted supports.carriesPayload.undotted,
      List.splitOn_eq_singleton undotted]
    simp
  rw [parseComponents, split]
  simp only [parse_header_encoded documented supports alg,
    parse_payload_encoded documented supports unexpired]
  simp [Except.mapError, bind, Except.bind]

/-- A token that was created is parsed from its text, with the same algorithm and an equal
payload. -/
theorem create_parse {token : JWT libraries} (documented : libraries.Documented)
    (supports : Supports key payload) (unexpired : Unexpired now payload)
    (created : key.create payload = .ok token) :
    ∃ parsed, key.parse now (token.print libraries) = .ok parsed ∧
      parsed.header.alg = token.header.alg ∧ token.header.alg = key.alg ∧
      parsed.header.typ = some "JWT" ∧ parsed.payload = payload := by
  cases key with
  | unsecured =>
      cases created
      refine ⟨⟨⟨.none, some "JWT"⟩, payload, none⟩, ?_, rfl, rfl, rfl, rfl⟩
      simp only [Key.parse, parse]
      rw [parseComponents_print documented supports unexpired none (by simp)]
      rfl
  | secret text =>
      simp only [Key.create, createSecret] at created
      split at created
      · cases created
      · rename_i hmac signed
        cases created
        have carries := supports.carriesSignature _ _ (congrArg some signed)
        refine ⟨⟨⟨.hs256, some "JWT"⟩, payload, some hmac⟩, ?_, rfl, rfl, rfl, rfl⟩
        simp only [Key.parse, parseSecret]
        rw [parseComponents_print documented supports unexpired (some _) carries.undotted]
        simp only [message] at signed
        simp [decodeSignature, carries.decoded, signed, constantTimeEquals_self, bind, Except.bind]
  | pair privateKey publicKey =>
      simp only [Key.create, createPrivate] at created
      split at created
      · cases created
      · rename_i signature signed
        cases created
        have carries := supports.carriesSignature _ _ (congrArg some signed)
        have verified := supports.verifies _ _ rfl _ _ signed
        refine ⟨⟨⟨.rs256, some "JWT"⟩, payload, some signature⟩, ?_, rfl, rfl, rfl, rfl⟩
        simp only [Key.parse, parsePublic]
        rw [parseComponents_print documented supports unexpired (some _) carries.undotted]
        simp only [message] at verified
        simp [decodeSignature, carries.decoded, verified, bind, Except.bind]

end Components

/-! ## Tokens that were parsed -/

/-- Every text is shorter when it is decoded, an HMAC has 32 bytes, and a public key verifies
signatures of one size. -/
structure Libraries.Sized (libraries : Libraries) (size : libraries.PublicKey → Nat) : Prop where
  shorter : ∀ text decoded, libraries.decode_url_safe text = .ok decoded → text ≠ "" →
    decoded.length < text.length
  digest : ∀ message key hmac, libraries.generate_hmac_sha256 message key = .ok hmac →
    hmac.length = 32
  filled : ∀ key, 0 < size key
  verified : ∀ message signature key, libraries.verify_rsa_sha256 message signature key = .ok () →
    signature.length = size key

/-- The size of the signatures that a key accepts. -/
def Key.size (size : libraries.PublicKey → Nat) : Key libraries → Nat
  | .unsecured => 0
  | .secret _ => 32
  | .pair _ publicKey => size publicKey

section Parsed

variable {size : libraries.PublicKey → Nat} {key : Key libraries} {payload : libraries.Object}
  {now later : Int64} {text : String} {jwt : JWT libraries}

theorem Key.size_pos (sized : libraries.Sized size) (secured : key ≠ .unsecured) :
    0 < key.size size := by
  cases key with
  | unsecured => exact absurd rfl secured
  | secret text => exact Nat.succ_pos 31
  | pair privateKey publicKey => exact sized.filled publicKey

/-- What the functions named `parse` accept with a signature. -/
inductive Accepted (key : Key libraries) (size : libraries.PublicKey → Nat) (now : Int64)
    (text : String) (jwt : JWT libraries) : Prop where
  | intro {first second third signature : String} :
      parseComponents libraries key.alg now text =
        .ok ((first, second, third), jwt.header, jwt.payload) →
      libraries.decode_url_safe third = .ok signature → signature.length = key.size size →
      jwt.signature = some signature → Accepted key size now text jwt

theorem decodeSignature_ok {component signature : String}
    (decoded : decodeSignature libraries component = .ok signature) :
    libraries.decode_url_safe component = .ok signature := by
  unfold decodeSignature at decoded
  split at decoded
  · cases decoded
  · rename_i found
    cases decoded
    exact found

theorem bind_ok {ε α β : Type} {source : Except ε α} {next : α → Except ε β} {result : β}
    (ok : source.bind next = .ok result) : ∃ value, source = .ok value ∧ next value = .ok result := by
  cases source with
  | error error => cases ok
  | ok value => exact ⟨value, rfl, ok⟩

/-- The signature of what is accepted is decoded and has the size that the key asks for. -/
theorem accepted_of_parse (sized : libraries.Sized size) (secured : key ≠ .unsecured)
    (parsed : key.parse now text = .ok jwt) : Accepted key size now text jwt := by
  cases key with
  | unsecured => exact absurd rfl secured
  | secret secret =>
      obtain ⟨⟨⟨first, second, third⟩, header, payload⟩, components, rest⟩ := bind_ok parsed
      obtain ⟨signature, decoded, rest⟩ := bind_ok rest
      split at rest
      · cases rest
      · rename_i hmac generated
        split at rest
        · rename_i equal
          cases rest
          have length := length_of_constantTimeEquals equal
          rw [sized.digest _ _ _ generated] at length
          exact .intro components (decodeSignature_ok decoded) length.symm rfl
        · cases rest
  | pair privateKey publicKey =>
      obtain ⟨⟨⟨first, second, third⟩, header, payload⟩, components, rest⟩ := bind_ok parsed
      obtain ⟨signature, decoded, rest⟩ := bind_ok rest
      split at rest
      · cases rest
      · rename_i verified
        cases rest
        exact .intro components (decodeSignature_ok decoded) (sized.verified _ _ _ verified) rfl

/-- A text with two dots at least has its first two components and what stands behind them. -/
theorem of_parseComponents (documented : libraries.Documented) {alg : Alg}
    {first second third : String} {components : String × String × String}
    {header : Header} {payload : libraries.Object} (left : '.' ∉ first.toList)
    (middle : '.' ∉ second.toList)
    (whole : text.toList = first.toList ++ '.' :: (second.toList ++ '.' :: third.toList))
    (parsed : parseComponents libraries alg now text = .ok (components, header, payload)) :
    components = (first, second, third) ∧ parse_header libraries first = .ok header ∧
      parse_payload libraries now second = .ok payload := by
  have split : libraries.split text "." =
      first :: second :: (third.toList.splitOn '.').map String.ofList := by
    rw [documented.split, whole, splitOn_components left middle]
    simp
  have joined : List.intercalate ['.'] (third.toList.splitOn '.') = third.toList :=
    List.intercalate_splitOn '.'
  rw [parseComponents, split] at parsed
  generalize third.toList.splitOn '.' = pieces at parsed joined
  match pieces with
  | [piece] =>
      rw [List.intercalate_singleton] at joined
      obtain ⟨read, start, parsed⟩ := bind_ok parsed
      split at parsed
      · cases parsed
      · obtain ⟨body, next, parsed⟩ := bind_ok parsed
        cases parsed
        rw [joined, String.ofList_toList]
        refine ⟨rfl, ?_, ?_⟩
        · cases found : parse_header libraries first with
          | error error =>
              rw [found] at start
              cases start
          | ok value =>
              rw [found] at start
              cases start
              rfl
        · cases found : parse_payload libraries now second with
          | error error =>
              rw [found] at next
              cases next
          | ok value =>
              rw [found] at next
              cases next
              rfl
  | [] => cases parsed
  | _ :: _ :: _ => cases parsed

theorem parse_payload_eq {component : String} {read : libraries.Object}
    (supports : Supports key payload)
    (parsed : parse_payload libraries now component = .ok read)
    (encoded : component = libraries.encode_url_safe (libraries.stringify payload)) :
    read = payload := by
  rw [parse_payload, encoded, decode_payload supports] at parsed
  simp only at parsed
  split at parsed
  · cases parsed
  · cases parsed
    rfl
  · split at parsed
    · cases parsed
    · split at parsed
      · cases parsed
      · cases parsed
        rfl

theorem of_create {token : JWT libraries} (created : key.create payload = .ok token) :
    token.header = ⟨key.alg, some "JWT"⟩ ∧ token.payload = payload := by
  cases key with
  | unsecured =>
      cases created
      exact ⟨rfl, rfl⟩
  | secret text =>
      simp only [Key.create, createSecret] at created
      split at created
      · cases created
      · cases created
        exact ⟨rfl, rfl⟩
  | pair privateKey publicKey =>
      simp only [Key.create, createPrivate] at created
      split at created
      · cases created
      · cases created
        exact ⟨rfl, rfl⟩

/-- What is parsed of a created token, written again, is parsed by no key: its signature stands in
the place of an encoded one. -/
theorem reparse_rejected {token : JWT libraries} (documented : libraries.Documented)
    (sized : libraries.Sized size) (secured : key ≠ .unsecured) (supports : Supports key payload)
    (created : key.create payload = .ok token)
    (parsed : key.parse now (token.print libraries) = .ok jwt) :
    ¬ ∃ again, key.parse later (jwt.print libraries) = .ok again ∧
      again.header = jwt.header ∧ again.payload = jwt.payload := by
  have header := supports.carriesHeader key.alg
  rintro ⟨again, repeated, _, _⟩
  cases accepted_of_parse sized secured parsed with
  | @intro first second third signature components decoded length signed =>
  obtain ⟨type, body⟩ := of_create created
  have whole := toList_print token
  rw [type, body] at whole
  obtain ⟨_, start, next⟩ := of_parseComponents documented header.undotted
    supports.carriesPayload.undotted whole components
  have sameHeader : jwt.header = ⟨key.alg, some "JWT"⟩ := by
    rw [parse_header_encoded documented supports] at start
    exact (Except.ok.inj start).symm
  have samePayload : jwt.payload = payload := parse_payload_eq supports next rfl
  cases accepted_of_parse sized secured repeated with
  | @intro one two three other components decoded size _ =>
  have whole := toList_print jwt
  rw [sameHeader, samePayload, signed, Option.getD_some] at whole
  -- The third component is the signature, which has the size of what it would be decoded as.
  obtain ⟨same, _, _⟩ := of_parseComponents documented header.undotted
    supports.carriesPayload.undotted whole components
  cases same
  have filled := key.size_pos sized secured
  have shorter := sized.shorter _ _ decoded (by
    rintro rfl
    rw [String.length_empty] at length
    omega)
  omega

end Parsed

/-! ## A token -/

/-- The payload with the subject `foo` and an expiration time. -/
def fooPayload : List (String × (String ⊕ Int64)) :=
  [("exp", .inr 9999999999), ("sub", .inl "foo")]

/-- Objects of texts without escapes and of numbers, as JSON. -/
def jsonText (object : List (String × (String ⊕ Int64))) : String :=
  "\x7b" ++ ",".intercalate (object.map fun entry => "\"" ++ entry.1 ++ "\":" ++
    match entry.2 with
    | .inl text => "\"" ++ text ++ "\""
    | .inr number => toString number) ++ "\x7d"

def headerObject (alg : Alg) : List (String × (String ⊕ Int64)) :=
  [("alg", .inl alg.stringify), ("typ", .inl "JWT")]

/-- The HMAC of the message of `fooPayload` with the key `secret`. -/
def fooHmac : String :=
  "\u00ed\u00dc\x12+Y\u0088D\u00aa\u0089L\u00f4\x13\u00f3\u00e0\x06\u009c\u008f\u00ab\u00f2y\u00de" ++
    "\x7f\x0d\u00a1\u0085\u00a8\u00b7\u0092\x00\x60\u00ed\u00bb"

/-- The texts of the token with their encodings. -/
def encodings : List (String × String) := [
  (jsonText (headerObject .none), "eyJhbGciOiJub25lIiwidHlwIjoiSldUIn0"),
  (jsonText (headerObject .hs256), "eyJhbGciOiJIUzI1NiIsInR5cCI6IkpXVCJ9"),
  (jsonText (headerObject .rs256), "eyJhbGciOiJSUzI1NiIsInR5cCI6IkpXVCJ9"),
  (jsonText fooPayload, "eyJleHAiOjk5OTk5OTk5OTksInN1YiI6ImZvbyJ9"),
  (fooHmac, "7dwSK1mIRKqJTPQT8-AGnI-r8nnefw2hhai3kgBg7bs")]

/-- The libraries on the texts of the token. -/
def fooLibraries : Libraries where
  Value := String ⊕ Int64
  Number := Int64
  string := .inl
  asString value := value.getLeft?
  asNumber value := value.getRight?
  asInt64 number := number
  parseObject text :=
    match [headerObject .none, headerObject .hs256, headerObject .rs256, fooPayload].find?
        (jsonText · = text) with
    | some object => .ok object
    | none => .error "syntax error"
  stringify := jsonText
  find object name := .ok (object.lookup name)
  encode_url_safe text := (encodings.lookup text).getD ""
  decode_url_safe text :=
    match encodings.find? (·.2 = text) with
    | some entry => .ok entry.1
    | none => .error "invalid character"
  split text delimiter := (text.toList.splitOnP (· ∈ delimiter.toList)).map String.ofList
  generate_hmac_sha256 message key :=
    if message = "eyJhbGciOiJIUzI1NiIsInR5cCI6IkpXVCJ9.eyJleHAiOjk5OTk5OTk5OTksInN1YiI6ImZvbyJ9" ∧
        key = "secret" then .ok fooHmac
    else .error "HMAC failed"
  PrivateKey := Unit
  PublicKey := Unit
  sign_rsa_sha256 _ _ := .error "Failed to sign the message"
  verify_rsa_sha256 _ _ _ := .error "Failed to verify message signature"

theorem fooLibraries_documented : fooLibraries.Documented := by
  constructor
  · intro text
    simp only [fooLibraries, List.splitOn_eq_splitOnP]
    congr 2
    funext character
    simp [Bool.beq_eq_decide_eq]
  · intro text
    rfl
  · intro object name _
    rfl

theorem fooLibraries_sized : fooLibraries.Sized fun _ => 256 := by
  constructor
  · intro text decoded found _
    simp only [fooLibraries] at found
    split at found
    · rename_i entry member
      cases found
      have each : ∀ entry ∈ encodings, entry.1.length < entry.2.length := by decide +kernel
      have same : entry.2 = text := by simpa using List.find?_some member
      rw [← same]
      exact each entry (List.mem_of_find?_eq_some member)
    · cases found
  · intro message key hmac generated
    simp only [fooLibraries] at generated
    split at generated
    · cases generated
      decide
    · cases generated
  · intro key
    exact Nat.succ_pos 255
  · intro message signature key verified
    cases verified

/-- The token of `fooPayload` for the key `secret`. -/
def fooToken : JWT fooLibraries :=
  ⟨⟨.hs256, some "JWT"⟩, fooPayload, some "7dwSK1mIRKqJTPQT8-AGnI-r8nnefw2hhai3kgBg7bs"⟩

theorem foo_created : (Key.secret "secret" : Key fooLibraries).create fooPayload =
    .ok fooToken := by
  rfl

theorem foo_supports : Supports (Key.secret "secret" : Key fooLibraries) fooPayload where
  parsesHeader alg := by cases alg <;> rfl
  carriesHeader alg := by
    cases alg
    · exact ⟨rfl, by decide +kernel⟩
    · exact ⟨rfl, by decide +kernel⟩
    · exact ⟨rfl, by decide +kernel⟩
  parsesPayload := rfl
  carriesPayload := ⟨rfl, by decide +kernel⟩
  carriesSignature message signature signed := by
    simp only [Key.sign, fooLibraries, Option.some.injEq] at signed
    split at signed
    · cases signed
      exact ⟨rfl, by decide +kernel⟩
    · cases signed
  verifies privateKey publicKey same := by cases same

theorem create_parse_foo :
    ∃ parsed, (Key.secret "secret" : Key fooLibraries).parse 1600000000
        (fooToken.print fooLibraries) = .ok parsed ∧
      parsed.header.alg = fooToken.header.alg ∧ fooToken.header.alg = .hs256 ∧
      parsed.header.typ = some "JWT" ∧ parsed.payload = fooPayload := by
  have unexpired : @Unexpired fooLibraries 1600000000 fooPayload := by
    intro value found
    cases found
    exact ⟨_, rfl, by decide⟩
  exact create_parse fooLibraries_documented foo_supports unexpired foo_created

/-- What is parsed of the token. -/
def fooParsed : JWT fooLibraries := ⟨⟨.hs256, some "JWT"⟩, fooPayload, some fooHmac⟩

set_option maxRecDepth 4000 in
theorem foo_parsed : (Key.secret "secret" : Key fooLibraries).parse 1600000000
    (fooToken.print fooLibraries) = .ok fooParsed := by
  rfl

theorem reparse_rejected_foo :
    ¬ ∃ again, (Key.secret "secret" : Key fooLibraries).parse 1600000000
        (fooParsed.print fooLibraries) = .ok again ∧
      again.header = fooParsed.header ∧ again.payload = fooParsed.payload :=
  reparse_rejected fooLibraries_documented fooLibraries_sized (fun same => by cases same)
    foo_supports foo_created foo_parsed

set_option maxRecDepth 4000 in
/-- The token is parsed, and what is parsed of it, written again, is not. -/
theorem not_reparsed_foo :
    (Key.secret "secret" : Key fooLibraries).create fooPayload = .ok fooToken ∧
      (Key.secret "secret" : Key fooLibraries).parse 1600000000 (fooToken.print fooLibraries) =
        .ok fooParsed ∧
      ∃ error, (Key.secret "secret" : Key fooLibraries).parse 1600000000
        (fooParsed.print fooLibraries) = .error error :=
  ⟨foo_created, foo_parsed, _, rfl⟩

end Libprocess.Jwt
