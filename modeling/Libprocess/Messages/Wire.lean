import Libprocess.Messages.Identifiers
import Libprocess.Messages.Requests

/-!
# Messages on the wire

A message is sent as a request to the path that is made of the identifier of its receiver and of its
name.  The receiver decodes the identifier as `http::encode` would have encoded it.  The sender
writes it as it is, so that it arrives as another one if decoding changes it.
-/

namespace Libprocess.Messages

open Http (Headers)

variable {stout : Stout}

/-- `Message` -/
structure Message (stout : Stout) where
  name : String
  /-- `from` -/
  sender : UPID stout
  /-- `to` -/
  receiver : UPID stout
  body : String

namespace MessageEncoder

/-- `MessageEncoder::encode` -/
def encode (message : Message stout) : String :=
  "POST " ++ (if message.receiver.id ≠ "" then "/" ++ message.receiver.id else "") ++
    "/" ++ message.name ++ " HTTP/1.1\r\n" ++
    "User-Agent: libprocess/" ++ message.sender.print ++ "\r\n" ++
    "Libprocess-From: " ++ message.sender.print ++ "\r\n" ++
    "Connection: Keep-Alive\r\n" ++
    "Host: \r\n" ++
    (if message.body.length > 0 then
      "Transfer-Encoding: chunked\r\n\r\n" ++
        String.ofList (Nat.toDigits 16 message.body.length) ++ "\r\n" ++ message.body ++
        "\r\n" ++ "0\r\n" ++ "\r\n"
    else "\r\n")

end MessageEncoder

/-- What `parse` returns: a message, or a failure. -/
abbrev Parsed (stout : Stout) := Except String (Message stout)

/-- The sender of a message.  A request without any of the headers aborts the program. -/
def parseSender (headers : Headers) : Option (Option (UPID stout)) :=
  match headers.get "Libprocess-From" with
  | some value => some (some (UPID.read (stout.trim value)))
  | none =>
      (headers.get "User-Agent").map fun agent =>
        let identifier := "libprocess/".toList
        match (List.range (agent.toList.length + 1)).find? fun index =>
          identifier.isPrefixOf (agent.toList.drop index) with
        | none => none
        | some index =>
            some (UPID.read (String.ofList (substr agent.toList (index + identifier.length) none)))

/-- `parse`; `address` is the one of the receiver (`__address__`). -/
def parse (address : stout.IP × UInt16) (request : Request) : Option (Parsed stout) :=
  (parseSender request.headers).map fun sender =>
    match sender with
    | none => .error "Failed to determine sender from request headers"
    | some sender =>
        let path := request.path.toList
        if find path '/' 0 ≠ some 0 then .error "Request URL path must start with '/'"
        else
          let index := (find path '/' 1).map (· - 1)
          match Http.decode (String.ofList (substr path 1 index)) with
          | .error message => .error ("Failed to decode URL path: " ++ message)
          | .ok id =>
              let start := match index with
                | some index => index + 2
                | none => path.length
              .ok ⟨String.ofList (substr path start none), sender, ⟨id, none, address.1, address.2⟩,
                request.body⟩

/-- The messages that are sent from one process to another one. -/
structure Sendable (message : Message stout) : Prop where
  addressed : message.receiver.id ≠ ""
  id : ∀ character ∈ message.receiver.id.toList, legal character = true
  name : ∀ character ∈ message.name.toList, legal character = true ∨ character = '/'
  sender : message.sender.Readable

/-- A message arrived as it was sent. -/
structure Arrived (message received : Message stout) : Prop where
  name : received.name = message.name
  sender : received.sender.Same message.sender
  receiver : received.receiver.id = message.receiver.id
  body : received.body = message.body

/-! ## The request -/

/-- The path of a message. -/
def path (message : Message stout) : String := "/" ++ message.receiver.id ++ "/" ++ message.name

/-- The headers of a message. -/
def headers (message : Message stout) : Headers :=
  [("User-Agent", "libprocess/" ++ message.sender.print),
    ("Libprocess-From", message.sender.print),
    ("Connection", "Keep-Alive"),
    ("Host", "")] ++
  if message.body.length > 0 then [("Transfer-Encoding", "chunked")] else []

variable {message : Message stout}

/-- The encoder writes a request with the path and the headers of the message. -/
theorem encode_eq (sendable : Sendable message) : MessageEncoder.encode message =
    requestHead (path message) (headers message) ++
      if message.body.length > 0 then chunked message.body else "" := by
  have segment : (if message.receiver.id ≠ "" then "/" ++ message.receiver.id else "") =
      "/" ++ message.receiver.id := if_pos sendable.addressed
  apply String.toList_inj.mp
  unfold MessageEncoder.encode
  by_cases filled : message.body.length > 0
  · simp only [segment, headers, chunked, path, filled, if_true, String.toList_append,
      requestHead_toList,
      List.cons_append, List.nil_append, List.flatMap_cons, List.flatMap_nil, headerLine_toList]
    simp
  · simp only [segment, headers, path, filled, if_false, String.toList_append, requestHead_toList,
      List.append_nil, List.flatMap_cons, List.flatMap_nil, headerLine_toList]
    simp

theorem path_toList (message : Message stout) : (path message).toList =
    '/' :: (message.receiver.id.toList ++ '/' :: message.name.toList) := by
  simp [path]

theorem legalPath (sendable : Sendable message) : LegalPath (path message) := by
  constructor
  · rw [path_toList]
    rfl
  · intro character member
    rw [path_toList] at member
    simp only [List.mem_cons, List.mem_append] at member
    obtain rfl | id | rfl | name := member
    · exact .inr rfl
    · exact .inl (sendable.id character id)
    · exact .inr rfl
    · exact sendable.name character name

/-- A word is a legal value of a header. -/
theorem legalHeader_of_word {name value : String} (named : name ≠ "")
    (token : ∀ character ∈ name.toList, character.isAlphanum = true ∨ character = '-')
    (word : ∀ character ∈ value.toList, isSpace character = false) : LegalHeader (name, value) := by
  have visible : ∀ space, isSpace space = true → ∀ character ∈ value.toList,
      character ≠ space := by
    rintro space blank character member rfl
    exact absurd ((word _ member).symm.trans blank) Bool.false_ne_true
  refine ⟨named, token, ?_, ?_⟩
  · intro character first
    exact visible ' ' rfl character (List.mem_of_mem_head? first)
  · intro character member
    exact ⟨visible '\r' rfl character member, visible '\n' rfl character member⟩

theorem legalHeaders (documented : stout.Documented) (sendable : Sendable message) :
    LegalHeaders (headers message) := by
  have word := UPID.print_word documented sendable.sender.unspaced
  have agent : ∀ character ∈ ("libprocess/" ++ message.sender.print).toList,
      isSpace character = false := by
    intro character member
    rw [String.toList_append, List.mem_append] at member
    cases member with
    | inl fixed =>
        revert character
        exact Http.forall_mem_of_all (by decide)
    | inr printed => exact word character printed
  have framing : LegalHeader ("Transfer-Encoding", "chunked") :=
    legalHeader_of_word (by decide) (Http.forall_mem_of_all (by decide))
      (Http.forall_mem_of_all (by decide))
  constructor
  · intro header member
    simp only [headers, List.mem_append, List.mem_cons, List.not_mem_nil, or_false] at member
    obtain (rfl | rfl | rfl | rfl) | last := member
    · exact legalHeader_of_word (by decide) (Http.forall_mem_of_all (by decide)) agent
    · exact legalHeader_of_word (by decide) (Http.forall_mem_of_all (by decide)) word
    · exact legalHeader_of_word (by decide) (Http.forall_mem_of_all (by decide))
        (Http.forall_mem_of_all (by decide))
    · exact legalHeader_of_word (by decide) (Http.forall_mem_of_all (by decide))
        (Http.forall_mem_of_all (by decide))
    · split at last
      · rw [List.mem_singleton.mp last]
        exact framing
      · cases last
  · have names : ((headers message).map Prod.fst).Pairwise fun left right =>
        Headers.sameKey left right = false := by
      unfold headers
      split
      · simp only [List.map_append, List.map_cons, List.map_nil]
        decide
      · simp only [List.append_nil, List.map_cons, List.map_nil]
        decide
    exact List.pairwise_map.mp names

theorem headers_get {key value : String} {rest : Headers} {other : String} :
    Headers.get ((other, value) :: rest) key =
      if Headers.sameKey other key then some value else rest.get key := by
  simp only [Headers.get, List.find?_cons]
  cases Headers.sameKey other key <;> rfl

/-- The headers that every message has say nothing about the body. -/
theorem headers_get_framing {key : String} (agent : Headers.sameKey "User-Agent" key = false)
    (sender : Headers.sameKey "Libprocess-From" key = false)
    (connection : Headers.sameKey "Connection" key = false)
    (host : Headers.sameKey "Host" key = false) : (headers message).get key = Headers.get
      (if message.body.length > 0 then [("Transfer-Encoding", "chunked")] else []) key := by
  simp only [headers, List.cons_append, List.nil_append, headers_get, agent, sender, connection,
    host, Bool.false_eq_true, if_false]

/-- The parser delivers the message. -/
theorem delivered {parser : String → Option Request} (delivers : Delivers parser)
    (documented : stout.Documented) (sendable : Sendable message) :
    parser (MessageEncoder.encode message) =
      some ⟨path message, headers message, message.body⟩ := by
  rw [encode_eq sendable]
  have proper := legalHeaders documented sendable
  have encoding : (headers message).get "Transfer-Encoding" = _ :=
    headers_get_framing (by decide) (by decide) (by decide) (by decide)
  have length : (headers message).get "Content-Length" = _ :=
    headers_get_framing (by decide) (by decide) (by decide) (by decide)
  by_cases filled : message.body.length > 0
  · rw [if_pos filled] at encoding ⊢
    have body : message.body ≠ "" := by
      intro empty
      rw [empty] at filled
      cases filled
    exact delivers.chunked _ _ _ (legalPath sendable) proper encoding body
  · rw [if_neg filled] at encoding length ⊢
    have body : message.body = "" := by
      apply String.length_eq_zero_iff.mp
      omega
    rw [String.append_empty, body]
    exact delivers.unframed _ _ (legalPath sendable) proper encoding length

/-! ## What arrives -/

/-- What `http::decode` makes of a character that starts no escape. -/
def plusDecoded (character : Char) : Char := if character = '+' then ' ' else character

theorem decodeCharacters_unescaped {text : List Char} (unescaped : '%' ∉ text) :
    Http.decodeCharacters text = .ok (text.map plusDecoded) := by
  induction text with
  | nil => rfl
  | cons first rest ih =>
      simp only [List.mem_cons, not_or] at unescaped
      rw [Http.decodeCharacters]
      · rw [ih unescaped.2]
        rfl
      · rintro high low others rfl
        exact absurd rfl unescaped.1
      · rintro rfl
        exact absurd rfl unescaped.1

theorem map_plusDecoded_iff {text : List Char} : text.map plusDecoded = text ↔ '+' ∉ text := by
  induction text with
  | nil => simp
  | cons first rest ih =>
      by_cases plus : first = '+'
      · simp [plusDecoded, plus]
      · simp [plusDecoded, plus, Ne.symm plus, ih]

/-- What is parsed from the text of a message. -/
theorem parse_encode {parser : String → Option Request} (delivers : Delivers parser)
    (documented : stout.Documented) (sendable : Sendable message) (address : stout.IP × UInt16) :
    (parser (MessageEncoder.encode message)).bind (parse address) =
      some (.ok ⟨message.name,
        ⟨message.sender.id, none, message.sender.ip, message.sender.port⟩,
        ⟨String.ofList (message.receiver.id.toList.map plusDecoded), none, address.1, address.2⟩,
        message.body⟩) := by
  have sender : parseSender (headers message) =
      some (some (⟨message.sender.id, none, message.sender.ip, message.sender.port⟩ :
        UPID stout)) := by
    have found : (headers message).get "Libprocess-From" = some message.sender.print := by
      have agent : Headers.sameKey "User-Agent" "Libprocess-From" = false := by decide
      have own : Headers.sameKey "Libprocess-From" "Libprocess-From" = true := by decide
      simp only [headers, List.cons_append, headers_get, agent, own, Bool.false_eq_true, if_false,
        if_true]
    have word := UPID.print_word documented sendable.sender.unspaced
    rw [parseSender, found]
    simp only [documented.trim _ word, UPID.read_print documented sendable.sender]
  have unescaped : '%' ∉ message.receiver.id.toList := by
    intro member
    exact absurd (sendable.id _ member) (by decide)
  have single : '/' ∉ message.receiver.id.toList := by
    intro member
    exact absurd (sendable.id _ member) (by decide)
  have start : find (path message).toList '/' 0 = some 0 := by
    simp [path_toList, find, List.findIdx?_cons]
  have separator : find (path message).toList '/' 1 =
      some (message.receiver.id.toList.length + 1) := by
    have behind := @find_append _ message.name.toList _ single
    simp only [find, List.drop_zero, Option.map_eq_some_iff] at behind
    obtain ⟨index, found, same⟩ := behind
    simp only [find, path_toList, List.drop_succ_cons, List.drop_zero, found, Option.map_some]
    rw [← same]
  have id : substr (path message).toList 1 (some message.receiver.id.toList.length) =
      message.receiver.id.toList := by
    simp [substr, path_toList]
  have name : substr (path message).toList (message.receiver.id.toList.length + 2) none =
      message.name.toList := by
    simp [substr, path_toList, List.drop_append]
  simp only [delivered delivers documented sendable, Option.bind_some, parse, sender,
    Option.map_some, start, separator, Nat.add_sub_cancel, id, Http.decode,
    decodeCharacters_unescaped unescaped, name, String.ofList_toList]
  rfl

/-- A message arrives as it was sent exactly if decoding leaves the identifier of its receiver
alone. -/
theorem arrives_iff {parser : String → Option Request} (delivers : Delivers parser)
    (documented : stout.Documented) (sendable : Sendable message) (address : stout.IP × UInt16) :
    (∃ received, (parser (MessageEncoder.encode message)).bind (parse address) =
        some (.ok received) ∧ Arrived message received) ↔
      '+' ∉ message.receiver.id.toList := by
  rw [parse_encode delivers documented sendable]
  constructor
  · rintro ⟨received, parsed, arrived⟩ member
    cases parsed
    have same := congrArg String.toList arrived.receiver
    rw [String.toList_ofList] at same
    exact map_plusDecoded_iff.mp same member
  · intro absent
    refine ⟨_, rfl, ⟨rfl, ⟨rfl, rfl, rfl⟩, ?_, rfl⟩⟩
    apply String.toList_inj.mp
    rw [String.toList_ofList]
    exact map_plusDecoded_iff.mpr absent

/-- Addresses of the loopback interface, and trimming. -/
def loopback : Stout where
  IP := Bool
  any := false
  print ip := if ip then "127.0.0.1" else "0.0.0.0"
  parse text :=
    if text = "127.0.0.1" then some true else if text = "0.0.0.0" then some false else none
  getIP _ := none
  trim text := String.ofList ((text.toList.dropWhile isSpace).reverse.dropWhile isSpace).reverse

theorem loopback_documented : loopback.Documented := by
  have unspaced : ∀ text : List Char, (∀ character ∈ text, isSpace character = false) →
      text.dropWhile isSpace = text := by
    intro text word
    cases text with
    | nil => rfl
    | cons first rest => simp [word first List.mem_cons_self]
  constructor
  · intro ip
    cases ip <;> exact Http.forall_mem_of_all (by decide)
  · intro ip
    cases ip <;> rfl
  · intro text word
    simp only [loopback, unspaced text.toList word]
    rw [unspaced text.toList.reverse (by simpa using word), List.reverse_reverse,
      String.ofList_toList]

/-- A message to a process, with a body. -/
def messageTo (id : String) : Message loopback where
  name := "ping"
  sender := ⟨"client(1)", none, true, 5050⟩
  receiver := ⟨id, none, true, 5051⟩
  body := "hello"

theorem messageTo_sendable {id : String} (addressed : id ≠ "")
    (characters : ∀ character ∈ id.toList, legal character = true) :
    Sendable (messageTo id) := by
  refine ⟨addressed, characters, ?_, ?_, ?_⟩
  · have name : ∀ character ∈ "ping".toList, legal character = true ∨ character = '/' :=
      Http.forall_mem_of_all (by decide)
    exact name
  · exact (by decide : "client(1)" ≠ "")
  · have sender : ∀ character ∈ "client(1)".toList,
        isSpace character = false ∧ character ≠ '@' := Http.forall_mem_of_all (by decide)
    exact sender

theorem arrives_iff_plain : '+' ∉ "server(1)".toList ∧ ∃ received : Message loopback,
    (parseRequest (MessageEncoder.encode (messageTo "server(1)"))).bind (parse (true, 5051)) =
        some (.ok received) ∧ Arrived (messageTo "server(1)") received := by
  have sendable : Sendable (messageTo "server(1)") := messageTo_sendable (by decide)
    (Http.forall_mem_of_all (by decide))
  have plain : '+' ∉ "server(1)".toList := by decide
  exact ⟨plain, (arrives_iff parseRequest_delivers loopback_documented sendable (true, 5051)).mpr
    plain⟩

/-- The identifier `a+b` arrives as `a b`. -/
theorem not_arrives_plus : Sendable (messageTo "a+b") ∧ ∃ received : Message loopback,
    (parseRequest (MessageEncoder.encode (messageTo "a+b"))).bind (parse (true, 5051)) =
        some (.ok received) ∧ received.receiver.id = "a b" ∧
      ¬ Arrived (messageTo "a+b") received := by
  have sendable : Sendable (messageTo "a+b") := messageTo_sendable (by decide)
    (Http.forall_mem_of_all (by decide))
  refine ⟨sendable, _, parse_encode parseRequest_delivers loopback_documented sendable _, rfl, ?_⟩
  intro arrived
  have same : "a b" = "a+b" := arrived.receiver
  exact absurd same (by decide)

end Libprocess.Messages
