import Libprocess.Http.Queries
import Libprocess.Messages.Identifiers

/-!
# URLs

`URL::parse` reads an absolute URL without a query and a fragment, and `operator<<` prints one.  The
host is checked before it is divided at the colons, and the first of the pieces is then taken as the
domain.
-/

namespace Libprocess.Http

open Messages (find substr)

/-- The functions of `strings`, of `net::IP` and `numify` that are used on URLs. -/
structure UrlStrings extends QueryStrings where
  IP : Type
  /-- `operator<<` -/
  printIP : IP → String
  /-- `strings::lower` -/
  lower : String → String
  /-- `strings::remove` with `PREFIX` -/
  removePrefix : (text initial : String) → String
  /-- `numify<uint16_t>` -/
  numify : String → Except String UInt16

/-- What is known of these functions. -/
structure UrlStrings.Documented (strings : UrlStrings) : Prop where
  tokenize : ∀ text delimiters, strings.tokenize text delimiters =
    (Query.tokens delimiters.toList text.toList).map String.ofList
  lower : ∀ text, strings.lower text = String.ofList (text.toList.map Char.toLower)
  removePrefix : ∀ text initial, strings.removePrefix (initial ++ text) initial = text
  /-- A decimal numeral is read as its number. -/
  numify : ∀ port : UInt16, strings.numify (toString port.toNat) = .ok port

/-- `std::string::find` of a text. -/
def findText (pattern : List Char) : List Char → Option Nat
  | [] => if pattern = [] then some 0 else none
  | character :: rest =>
      if pattern.isPrefixOf (character :: rest) then some 0
      else (findText pattern rest).map (· + 1)

/-- `URL` -/
structure URL (strings : UrlStrings) where
  scheme : Option String
  domain : Option String
  ip : Option strings.IP
  port : Option UInt16
  path : String
  query : List (String × String)
  fragment : Option String

namespace URL

variable {strings : UrlStrings} {url : String} {text scheme host path : List Char}

/-- `defaultPort` -/
def defaultPort (scheme : String) : Option UInt16 :=
  if scheme = "http" then some 80
  else if scheme = "https" then some 443
  else none

/-- The first part of `URL::parse`: the scheme, the host and the path. -/
def divide (text : List Char) : Except String (List Char × List Char × List Char) :=
  match findText "://".toList text with
  | none => .error "Missing scheme in url string"
  | some schemePos =>
      let urlPath := substr text (schemePos + 3) none
      let pathPos := find urlPath '/' 0
      if pathPos = some 0 then .error "Host not found in url"
      else
        let host := substr urlPath 0 pathPos
        let path := match pathPos with
          | none => ['/']
          | some pathPos => substr urlPath pathPos none
        if host = [] then .error "Host not found in url"
        else .ok (substr text 0 (some schemePos), host, path)

/-- The second part of `URL::parse`.  There is no result where the first token is taken from an
empty vector. -/
def resolve (strings : UrlStrings) (scheme host path : String) :
    Option (Except String (URL strings)) :=
  match strings.tokenize host ":" with
  | [] => none
  | first :: others =>
      if first = "" then some (.error "Host not found in url")
      else
        let made port : URL strings := ⟨some scheme, some first, none, some port, path, [], none⟩
        match others with
        | _ :: _ :: _ => some (.error "Found multiple ports in url")
        | [token] =>
            match strings.numify token with
            | .error error => some (.error ("Failed to parse port: " ++ error))
            | .ok port => some (.ok (made port))
        | [] =>
            match defaultPort scheme with
            | none => some (.error "Unable to determine port from url")
            | some port => some (.ok (made port))

/-- `URL::parse` -/
def parse (strings : UrlStrings) (urlString : String) : Option (Except String (URL strings)) :=
  match divide urlString.toList with
  | .error error => some (.error error)
  | .ok (scheme, host, path) =>
      resolve strings (strings.lower (String.ofList scheme)) (String.ofList host) (String.ofList path)

/-- `operator<<` -/
def print (url : URL strings) : String :=
  (match url.scheme with
    | some scheme => scheme ++ "://"
    | none => "") ++
  (match url.domain, url.ip with
    | some domain, _ => domain
    | none, some ip => strings.printIP ip
    | none, none => "") ++
  (match url.port with
    | some port => ":" ++ toString port.toNat
    | none => "") ++
  ("/" ++ strings.removePrefix url.path "/") ++
  (if url.query ≠ [] then "?" ++ Query.encode strings.toQueryStrings url.query else "") ++
  (match url.fragment with
    | some fragment => "#" ++ fragment
    | none => "")

/-! ## The parts of a text -/

/-- The scheme ends at the first `://`, and the host at the first `/` behind it. -/
structure Parts (text scheme host path : List Char) : Prop where
  whole : text = scheme ++ ("://".toList ++ (host ++ path))
  first : findText "://".toList text = some scheme.length
  host : '/' ∉ host
  path : path = [] ∨ path.head? = some '/'

section Find

variable {pattern left right other : List Char} {position : Nat}

theorem findText_prefix (found : findText pattern text = some position) :
    pattern <+: text.drop position := by
  induction text generalizing position with
  | nil =>
      unfold findText at found
      split at found
      · next empty =>
          rw [empty]
          exact List.nil_prefix
      · cases found
  | cons character rest ih =>
      unfold findText at found
      split at found
      · next start =>
          cases found
          exact List.isPrefixOf_iff_prefix.mp start
      · obtain ⟨before, earlier, rfl⟩ := Option.map_eq_some_iff.mp found
        exact ih earlier

theorem findText_eq (start : pattern <+: text.drop position)
    (first : ∀ earlier < position, ¬ pattern <+: text.drop earlier) :
    findText pattern text = some position := by
  induction text generalizing position with
  | nil =>
      have empty : pattern = [] := by simpa using start
      have zero : position = 0 := by
        apply Nat.eq_zero_of_not_pos
        intro positive
        exact first 0 positive (by simp [empty])
      simp [findText, empty, zero]
  | cons character rest ih =>
      cases position with
      | zero =>
          have here : pattern.isPrefixOf (character :: rest) = true :=
            List.isPrefixOf_iff_prefix.mpr start
          simp [findText, here]
      | succ position =>
          have absent : ¬ pattern.isPrefixOf (character :: rest) = true := by
            rw [List.isPrefixOf_iff_prefix]
            exact first 0 (Nat.succ_pos position)
          have later := ih start fun earlier before => first (earlier + 1) (Nat.succ_lt_succ before)
          simp [findText, absent, later]

theorem findText_minimal (found : findText pattern text = some position) :
    ∀ earlier < position, ¬ pattern <+: text.drop earlier := by
  induction text generalizing position with
  | nil =>
      unfold findText at found
      split at found
      · cases found
        simp
      · cases found
  | cons character rest ih =>
      unfold findText at found
      split at found
      · cases found
        simp
      · next absent =>
          obtain ⟨before, earlier, rfl⟩ := Option.map_eq_some_iff.mp found
          intro place smaller
          cases place with
          | zero => simpa [List.isPrefixOf_iff_prefix] using absent
          | succ place => exact ih earlier place (Nat.lt_of_succ_lt_succ smaller)

/-- An occurrence before the pattern does not reach behind it. -/
theorem prefix_drop_append (right : List Char) {earlier : Nat} (before : earlier < left.length) :
    pattern <+: (left ++ (pattern ++ right)).drop earlier ↔
      pattern <+: (left ++ pattern).drop earlier := by
  have room : earlier ≤ (left ++ pattern).length := by
    rw [List.length_append]
    omega
  have split : (left ++ (pattern ++ right)).drop earlier =
      (left ++ pattern).drop earlier ++ right := by
    rw [← List.append_assoc, List.drop_append_of_le_length room]
  rw [split]
  constructor
  · intro start
    apply List.prefix_of_prefix_length_le start (List.prefix_append _ _)
    rw [List.length_drop, List.length_append]
    omega
  · intro start
    exact start.trans (List.prefix_append _ _)

/-- Whether the pattern occurs earlier does not depend on what follows it. -/
theorem findText_append (found : findText pattern (left ++ (pattern ++ right)) = some left.length) :
    findText pattern (left ++ (pattern ++ other)) = some left.length := by
  apply findText_eq
  · rw [List.drop_left]
    exact List.prefix_append _ _
  · intro earlier before
    rw [prefix_drop_append other before, ← prefix_drop_append right before]
    exact findText_minimal found earlier before

/-- A pattern that a function of characters leaves alone. -/
theorem prefix_map {change : Char → Char} (kept : ∀ character ∈ pattern, ∀ other,
    change other = character ↔ other = character) :
    pattern <+: text.map change ↔ pattern <+: text := by
  induction pattern generalizing text with
  | nil => simp
  | cons first pattern ih =>
      have others := @ih
      cases text with
      | nil => simp
      | cons character text =>
          have same := kept first List.mem_cons_self character
          rw [List.map_cons, List.cons_prefix_cons, List.cons_prefix_cons, eq_comm, same,
            ih fun other member => kept other (List.mem_cons_of_mem _ member), eq_comm]

end Find

/-- Only letters change, into letters. -/
theorem toLower_cases (character : Char) : character.toLower = character ∨
    65 ≤ character.toNat ∧ character.toNat ≤ 90 ∧
      character.toLower.toNat = character.toNat + 32 := by
  by_cases letter : 'A'.val ≤ character.val ∧ character.val ≤ 'Z'.val
  · have lower : 65 ≤ character.toNat := UInt32.le_iff_toNat_le.mp letter.1
    have upper : character.toNat ≤ 90 := UInt32.le_iff_toNat_le.mp letter.2
    apply Or.inr
    refine ⟨lower, upper, ?_⟩
    have raised : character.toLower.val = character.val + 32 :=
      congrArg Char.val (dif_pos letter : character.toLower = _)
    have sum := congrArg UInt32.toNat raised
    rw [UInt32.toNat_add] at sum
    simp only [Char.toNat_val, UInt32.reduceToNat] at sum
    omega
  · exact .inl (dif_neg letter)

theorem toLower_toLower (character : Char) : character.toLower.toLower = character.toLower := by
  cases toLower_cases character with
  | inl same => rw [same, same]
  | inr letter =>
      cases toLower_cases character.toLower with
      | inl same => exact same
      | inr again => omega

/-- Characters in front of the letters stay as they are. -/
theorem toLower_eq_iff {character : Char} (small : character.toNat < 65) (other : Char) :
    other.toLower = character ↔ other = character := by
  cases toLower_cases other with
  | inl same => rw [same]
  | inr letter =>
      constructor
      · rintro rfl
        omega
      · rintro rfl
        omega

theorem toLower_separator {character : Char} (separator : character ∈ "://".toList) (other : Char) :
    other.toLower = character ↔ other = character := by
  have each : ∀ character ∈ "://".toList, character.toNat < 65 := forall_mem_of_all (by decide)
  exact toLower_eq_iff (each character separator) other

theorem find_eq_none {character : Char} (absent : character ∉ text) :
    find text character 0 = none := by
  rw [find, Option.map_eq_none_iff, List.drop_zero, List.findIdx?_eq_none_iff]
  intro other member
  rw [beq_eq_false_iff_ne]
  rintro rfl
  exact absent member

/-- A text without a scheme has no parts. -/
theorem Parts.divide (parts : Parts text scheme host path) :
    divide text = if host = [] then .error "Host not found in url"
      else .ok (scheme, host, if path = [] then ['/'] else path) := by
  have found := parts.first
  have behind : substr text (scheme.length + 3) none = host ++ path := by
    rw [parts.whole]
    simp [substr, List.drop_append]
  have before : substr text 0 (some scheme.length) = scheme := by
    rw [parts.whole, Messages.substr_left]
  rw [URL.divide]
  simp only [found, behind, before]
  cases parts.path with
  | inl bare =>
      rw [bare, List.append_nil, find_eq_none parts.host]
      simp [substr]
  | inr slash =>
      obtain ⟨rest, rfl⟩ := List.head?_eq_some_iff.mp slash
      rw [Messages.find_append parts.host]
      by_cases empty : host = []
      · simp [empty]
      · simp [empty, substr]

theorem divide_missing (missing : findText "://".toList text = none) :
    divide text = .error "Missing scheme in url string" := by
  simp only [URL.divide, missing]

/-- Every text with a scheme has parts. -/
theorem exists_parts {position : Nat} (found : findText "://".toList text = some position) :
    ∃ scheme host path, Parts text scheme host path := by
  obtain ⟨rest, start⟩ := findText_prefix found
  have room : position ≤ text.length := by
    apply Nat.le_of_not_lt
    intro beyond
    rw [List.drop_eq_nil_of_le (Nat.le_of_lt beyond)] at start
    simp at start
  refine ⟨text.take position, rest.takeWhile (· ≠ '/'), rest.dropWhile (· ≠ '/'), ?_, ?_, ?_, ?_⟩
  · rw [List.takeWhile_append_dropWhile, start, List.take_append_drop]
  · rw [found, List.length_take_of_le room]
  · intro member
    simpa using List.mem_takeWhile_imp member
  · cases remaining : rest.dropWhile (· ≠ '/') with
    | nil => exact .inl rfl
    | cons first others =>
        have stopped := List.head?_dropWhile_not (· ≠ '/') rest
        rw [remaining] at stopped
        simpa using stopped

theorem parse_of_parts {url : String} (parts : Parts url.toList scheme host path)
    (filled : host ≠ []) :
    parse strings url = resolve strings (strings.lower (String.ofList scheme)) (String.ofList host)
      (String.ofList (if path = [] then ['/'] else path)) := by
  simp [parse, parts.divide, filled]

/-! ## The tokens of a host -/

section Tokens

variable {delimiters : List Char}

theorem mem_splitOnP {piece : List Char} (member : piece ∈ text.splitOnP (· ∈ delimiters)) :
    ∀ character ∈ piece, character ∈ text ∧ character ∉ delimiters := by
  induction text generalizing piece with
  | nil =>
      rw [List.splitOnP_nil, List.mem_singleton] at member
      simp [member]
  | cons first rest ih =>
      rw [List.splitOnP_cons_eq_if_modifyHead] at member
      intro character inside
      split at member
      · cases List.mem_cons.mp member with
        | inl empty => simp [empty] at inside
        | inr later =>
            have kept := ih later character inside
            exact ⟨List.mem_cons_of_mem _ kept.1, kept.2⟩
      · next kept =>
          cases divided : rest.splitOnP (· ∈ delimiters) with
          | nil => simp [divided] at member
          | cons head others =>
              rw [divided, List.modifyHead_cons, List.mem_cons] at member
              cases member with
              | inl same =>
                  rw [same, List.mem_cons] at inside
                  cases inside with
                  | inl equal =>
                      rw [equal]
                      exact ⟨List.mem_cons_self, by simpa using kept⟩
                  | inr tail =>
                      have old := ih (divided ▸ List.mem_cons_self) character tail
                      exact ⟨List.mem_cons_of_mem _ old.1, old.2⟩
              | inr later =>
                  have old := ih (divided ▸ List.mem_cons_of_mem _ later) character inside
                  exact ⟨List.mem_cons_of_mem _ old.1, old.2⟩

theorem tokens_eq_nil : Query.tokens delimiters text = [] ↔
    ∀ character ∈ text, character ∈ delimiters := by
  induction text with
  | nil => simp
  | cons first rest ih =>
      unfold Query.tokens at ih ⊢
      rw [List.splitOnP_cons_eq_if_modifyHead]
      by_cases separates : first ∈ delimiters
      · simp only [separates, decide_true, if_true, List.mem_cons, forall_eq_or_imp, true_and]
        rw [List.filter_cons_of_neg (by simp), ih]
      · simp only [separates, decide_false, List.mem_cons, forall_eq_or_imp, false_and, iff_false]
        cases divided : rest.splitOnP (· ∈ delimiters) with
        | nil => exact absurd divided (List.splitOnP_ne_nil _ _)
        | cons head others => simp

end Tokens

/-! ## Parsing is defined -/

/-- The host has a character, but no other than `:`. -/
def ColonHost (url : String) : Prop :=
  ∃ scheme host path, Parts url.toList scheme host path ∧ host ≠ [] ∧
    ∀ character ∈ host, character = ':'

/-- `URL::parse` returns, and returns an error if the host has no character but `:`. -/
structure Defined (strings : UrlStrings) (url : String) : Prop where
  returns : (parse strings url).isSome
  rejects : ∀ scheme host path, Parts url.toList scheme host path →
    (∀ character ∈ host, character = ':') → ∃ error, parse strings url = some (.error error)

section Resolve

variable {strings : UrlStrings} {scheme host path first : String} {parsed : URL strings}
variable {port : UInt16}

theorem resolve_isSome (filled : strings.tokenize host ":" ≠ []) :
    (resolve strings scheme host path).isSome := by
  unfold resolve
  split
  · next empty => exact absurd empty filled
  · split
    · rfl
    · split
      · rfl
      · split <;> rfl
      · split <;> rfl

theorem resolve_eq_none (empty : strings.tokenize host ":" = []) :
    resolve strings scheme host path = none := by
  simp only [resolve, empty]

/-- A URL is made of the first token, whatever the port is taken from. -/
theorem resolve_ok (resolved : resolve strings scheme host path = some (.ok parsed)) :
    ∃ first ∈ strings.tokenize host ":", ∃ port,
      first ≠ "" ∧ parsed = ⟨some scheme, some first, none, some port, path, [], none⟩ := by
  unfold resolve at resolved
  split at resolved
  · cases resolved
  · next first others divided =>
      split at resolved
      · cases resolved
      · next filled =>
          refine ⟨first, divided ▸ List.mem_cons_self, ?_⟩
          split at resolved
          · cases resolved
          · split at resolved
            · cases resolved
            · next port _ =>
                cases resolved
                exact ⟨port, filled, rfl⟩
          · split at resolved
            · cases resolved
            · next port _ =>
                cases resolved
                exact ⟨port, filled, rfl⟩

theorem resolve_explicit (filled : first ≠ "")
    (divided : strings.tokenize host ":" = [first, toString port.toNat])
    (numeral : strings.numify (toString port.toNat) = .ok port) :
    resolve strings scheme host path =
      some (.ok ⟨some scheme, some first, none, some port, path, [], none⟩) := by
  simp only [resolve, divided, if_neg filled, numeral]

end Resolve

theorem tokenize_host (documented : strings.Documented) (host : List Char) :
    strings.tokenize (String.ofList host) ":" = (Query.tokens [':'] host).map String.ofList := by
  rw [documented.tokenize]
  simp

/-- `URL::parse` takes the first of no tokens exactly where the host consists of colons. -/
theorem defined_iff (documented : strings.Documented) (url : String) :
    Defined strings url ↔ ¬ ColonHost url := by
  constructor
  · rintro defined ⟨scheme, host, path, parts, filled, colons⟩
    have none : Query.tokens [':'] host = [] :=
      tokens_eq_nil.mpr fun character member => by simp [colons character member]
    have returned := defined.returns
    rw [parse_of_parts parts filled, resolve_eq_none] at returned
    · cases returned
    · rw [tokenize_host documented, none, List.map_nil]
  · intro clean
    constructor
    · cases found : findText "://".toList url.toList with
      | none => simp only [parse, divide_missing found, Option.isSome_some]
      | some position =>
          obtain ⟨scheme, host, path, parts⟩ := exists_parts found
          by_cases filled : host = []
          · simp only [parse, parts.divide, if_pos filled, Option.isSome_some]
          · rw [parse_of_parts parts filled]
            apply resolve_isSome
            rw [tokenize_host documented, ne_eq, List.map_eq_nil_iff, tokens_eq_nil]
            intro colons
            exact clean ⟨scheme, host, path, parts, filled,
              fun character member => List.mem_singleton.mp (colons character member)⟩
    · intro scheme host path parts colons
      have empty : host = [] := by
        by_contra filled
        exact clean ⟨scheme, host, path, parts, filled, colons⟩
      exact ⟨"Host not found in url", by simp only [parse, parts.divide, if_pos empty]⟩

/-! ## Printing -/

/-- What an accepted text is made of. -/
theorem parse_ok {parsed : URL strings} (accepted : parse strings url = some (.ok parsed)) :
    ∃ scheme host path, Parts url.toList scheme host path ∧
      resolve strings (strings.lower (String.ofList scheme)) (String.ofList host)
        (String.ofList (if path = [] then ['/'] else path)) = some (.ok parsed) := by
  cases found : findText "://".toList url.toList with
  | none =>
      simp only [parse, divide_missing found] at accepted
      cases accepted
  | some position =>
      obtain ⟨scheme, host, path, parts⟩ := exists_parts found
      by_cases filled : host = []
      · simp only [parse, parts.divide, if_pos filled] at accepted
        cases accepted
      · rw [parse_of_parts parts filled] at accepted
        exact ⟨scheme, host, path, parts, accepted⟩

/-- The path of the parts begins with a slash, or one is put there. -/
theorem Parts.slash (parts : Parts text scheme host path) :
    ∃ rest, (if path = [] then ['/'] else path) = '/' :: rest := by
  cases parts.path with
  | inl empty => exact ⟨[], if_pos empty⟩
  | inr slash =>
      obtain ⟨rest, rfl⟩ := List.head?_eq_some_iff.mp slash
      exact ⟨rest, rfl⟩

/-- The scheme in lower case ends at the same place. -/
theorem Parts.lower (parts : Parts text scheme host path) (others : List Char) :
    findText "://".toList (scheme.map Char.toLower ++ ("://".toList ++ others)) =
      some scheme.length := by
  have found := parts.first
  rw [parts.whole] at found
  have replaced : findText "://".toList (scheme ++ ("://".toList ++ others)) = some scheme.length :=
    findText_append found
  apply findText_eq
  · rw [List.drop_append_of_le_length (by simp), List.drop_eq_nil_of_le (by simp), List.nil_append]
    exact List.prefix_append _ _
  · intro earlier before
    have absent := findText_minimal replaced earlier before
    rw [prefix_drop_append _ before] at absent
    rw [prefix_drop_append _ (by simpa using before)]
    have mapped : (scheme.map Char.toLower ++ "://".toList) =
        (scheme ++ "://".toList).map Char.toLower := by
      rw [List.map_append]
      rfl
    rw [mapped, ← List.map_drop, prefix_map fun _ => toLower_separator]
    exact absent

/-- What is printed of a parsed URL. -/
theorem print_toList (documented : strings.Documented) (scheme domain : List Char)
    {digits rest : List Char} {port : UInt16} (numeral : (toString port.toNat).toList = digits)
    (slash : path = '/' :: rest) :
    (print (⟨some (strings.lower (String.ofList scheme)), some (String.ofList domain), none,
      some port, String.ofList path, [], none⟩ : URL strings)).toList =
      scheme.map Char.toLower ++ ("://".toList ++ ((domain ++ ':' :: digits) ++ path)) := by
  have whole : String.ofList ('/' :: rest) = "/" ++ String.ofList rest := by
    apply String.toList_inj.mp
    simp
  have removed : strings.removePrefix (String.ofList ('/' :: rest)) "/" = String.ofList rest := by
    rw [whole, documented.removePrefix]
  simp only [print, documented.lower, slash, removed]
  simp [← numeral]

/-- The parts of a printed URL. -/
theorem Parts.printed (parts : Parts text scheme host path) {printed domain digits rest : List Char}
    (written : printed =
      scheme.map Char.toLower ++ ("://".toList ++ ((domain ++ ':' :: digits) ++ '/' :: rest)))
    (unslashed : '/' ∉ domain) (numeral : ∀ character ∈ digits, character.isDigit = true) :
    Parts printed (scheme.map Char.toLower) (domain ++ ':' :: digits) ('/' :: rest) := by
  refine ⟨written, ?_, ?_, .inr rfl⟩
  · rw [written, List.length_map]
    exact parts.lower _
  · rw [List.mem_append, List.mem_cons]
    rintro (first | equal | last)
    · exact unslashed first
    · cases equal
    · cases numeral _ last

theorem tokens_port {domain digits : List Char} (nonempty : domain ≠ []) (written : digits ≠ [])
    (undivided : ':' ∉ domain) (numeral : ∀ character ∈ digits, character.isDigit = true) :
    Query.tokens [':'] (domain ++ ':' :: digits) = [domain, digits] := by
  have left : ∀ character ∈ domain, character ∉ [':'] := by
    intro character member
    rw [List.mem_singleton]
    rintro rfl
    exact undivided member
  have right : ∀ character ∈ digits, character ∉ [':'] := by
    intro character member
    rw [List.mem_singleton]
    rintro rfl
    cases numeral _ member
  rw [Query.tokens_delimited (List.mem_singleton_self _), Query.tokens_single left,
    Query.tokens_single right, if_neg nonempty, if_neg written]
  rfl

/-- The text of a parsed URL is parsed as the same URL. -/
theorem parse_print (documented : strings.Documented) {parsed : URL strings}
    (accepted : parse strings url = some (.ok parsed)) :
    parse strings parsed.print = some (.ok parsed) := by
  obtain ⟨scheme, host, path, parts, resolved⟩ := parse_ok accepted
  obtain ⟨first, token, port, filled, rfl⟩ := resolve_ok resolved
  obtain ⟨rest, slash⟩ := parts.slash
  rw [tokenize_host documented] at token
  obtain ⟨domain, inside, rfl⟩ := List.mem_map.mp token
  have within := mem_splitOnP (List.mem_filter.mp inside).1
  have nonempty : domain ≠ [] := by simpa using (List.mem_filter.mp inside).2
  have numeral : ∀ character ∈ Nat.toDigits 10 port.toNat, character.isDigit = true :=
    fun _ => Nat.isDigit_of_mem_toDigits (by decide) (by decide)
  have written : (toString port.toNat).toList = Nat.toDigits 10 port.toNat := by
    simp [Nat.toString_eq_repr]
  have text := print_toList documented scheme domain written slash
  rw [slash] at text
  have reparts := parts.printed text (fun member => parts.host (within _ member).1) numeral
  have divided : strings.tokenize (String.ofList (domain ++ ':' :: Nat.toDigits 10 port.toNat)) ":" =
      [String.ofList domain, toString port.toNat] := by
    have undivided : ':' ∉ domain := fun member => (within _ member).2 (List.mem_singleton_self _)
    rw [tokenize_host documented, tokens_port nonempty Nat.toDigits_ne_nil undivided numeral,
      List.map_cons, List.map_cons, List.map_nil, ← written, String.ofList_toList]
  have lowered : strings.lower (String.ofList (scheme.map Char.toLower)) =
      strings.lower (String.ofList scheme) := by
    rw [documented.lower, documented.lower, String.toList_ofList, String.toList_ofList,
      List.map_map]
    exact congrArg String.ofList (List.map_congr_left fun character _ => toLower_toLower character)
  rw [slash, parse_of_parts reparts (by simp), lowered, if_neg (List.cons_ne_nil _ _),
    resolve_explicit filled divided (documented.numify port)]

/-! ## The functions of the libraries -/

/-- Functions that behave as documented, without addresses; a numeral that does not fit is rejected. -/
def urlStrings : UrlStrings where
  toQueryStrings := Query.queryStrings
  IP := Empty
  printIP := nofun
  lower text := String.ofList (text.toList.map Char.toLower)
  removePrefix text initial :=
    if initial.toList.isPrefixOf text.toList then
      String.ofList (text.toList.drop initial.toList.length)
    else text
  numify text :=
    if text.toList ≠ [] ∧ text.toList.all Char.isDigit ∧ Nat.ofDigitChars 10 text.toList 0 < 65536 then
      .ok (.ofNat (Nat.ofDigitChars 10 text.toList 0))
    else .error "Failed to convert"

theorem urlStrings_documented : urlStrings.Documented := by
  constructor
  · intro text delimiters
    rfl
  · intro text
    rfl
  · intro text initial
    simp [urlStrings]
  · intro port
    have numeral := Messages.numeral_toDigits port
    have small : Nat.ofDigitChars 10 (Nat.toDigits 10 port.toNat) 0 < 65536 :=
      Nat.lt_succ_of_le numeral.small
    have digits : (Nat.toDigits 10 port.toNat).all Char.isDigit = true :=
      List.all_eq_true.mpr numeral.digits
    have written : (toString port.toNat).toList = Nat.toDigits 10 port.toNat := by
      simp [Nat.toString_eq_repr]
    simp only [urlStrings, written]
    rw [if_pos ⟨numeral.filled, digits, small⟩, Nat.ofDigitChars_ten_toDigits, UInt16.ofNat_toNat]

/-- An upper case scheme, and a path with the separators. -/
theorem parse_print_separators :
    parse urlStrings (print (⟨some "http", some "docker.com", none, some 80, "//a://b:c", [],
      none⟩ : URL urlStrings)) =
      some (.ok ⟨some "http", some "docker.com", none, some 80, "//a://b:c", [], none⟩) :=
  parse_print urlStrings_documented
    (by rfl : parse urlStrings "HTTP://docker.com//a://b:c" = some (.ok _))

theorem defined_iff_docker :
    Defined urlStrings "http://docker.com:" ↔ ¬ ColonHost "http://docker.com:" :=
  defined_iff urlStrings_documented "http://docker.com:"

/-- The host of this text passes the check for an empty host, but has no token. -/
theorem not_defined_colon : ¬ Defined urlStrings "http://:" := by
  intro defined
  have returned := defined.returns
  revert returned
  decide

end URL

end Libprocess.Http
