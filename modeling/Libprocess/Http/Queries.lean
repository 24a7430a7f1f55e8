import Libprocess.Http.Percent

/-!
# Query strings

Two functions write the query of a URL: `query::encode`, which leaves out the `=` of an empty value
and removes the last `&`, and the encoding of a request, which joins all entries.  `query::decode`
reads both.
-/

namespace Libprocess.Http

/-- The functions of `strings` that are used on queries. -/
structure QueryStrings extends Strings where
  /-- `strings::remove` with `SUFFIX` -/
  removeSuffix : (text suffix : String) → String
  join : (separator : String) → List String → String

/-- What is known of these functions. -/
structure QueryStrings.Documented (strings : QueryStrings) : Prop where
  /-- The tokens are what stands between delimiters, unless it is empty. -/
  tokenize : ∀ text delimiters, strings.tokenize text delimiters =
    ((text.toList.splitOnP (· ∈ delimiters.toList)).filter (· ≠ [])).map String.ofList
  /-- A text is split at the first delimiter, -/
  split_first : ∀ key value : String, '=' ∉ key.toList →
    strings.split (key ++ "=" ++ value) "=" 2 = [key, value]
  /-- or not at all. -/
  split_none : ∀ token : String, '=' ∉ token.toList → strings.split token "=" 2 = [token]
  removeSuffix_append : ∀ text suffix, strings.removeSuffix (text ++ suffix) suffix = text
  removeSuffix_none : ∀ text suffix, ¬ suffix.toList <:+ text.toList →
    strings.removeSuffix text suffix = text
  join : ∀ separator pieces, strings.join separator pieces = separator.intercalate pieces

namespace Query

/-- What `query::encode` writes for one entry, up to the `&`. -/
def encodeEntry (entry : String × String) : String :=
  if entry.2 ≠ "" then Http.encode entry.1 ++ ("=" ++ Http.encode entry.2)
  else Http.encode entry.1

/-- `query::encode` -/
def encode (strings : QueryStrings) (query : List (String × String)) : String :=
  strings.removeSuffix (query.foldl (fun output entry => output ++ encodeEntry entry ++ "&") "") "&"

/-- What `internal::encode` writes for one entry of the query of a request. -/
def requestEntry (entry : String × String) : String :=
  Http.encode entry.1 ++ "=" ++ Http.encode entry.2

/-- The text that `internal::encode` writes behind a `?` for the query of a request. -/
def requestQuery (strings : QueryStrings) (query : List (String × String)) : Option String :=
  if query ≠ [] then some (strings.join "&" (query.map requestEntry)) else none

/-- A map from byte strings to byte strings, in an order of iteration. -/
structure Hashmap (query : List (String × String)) : Prop where
  distinct : (query.map Prod.fst).Nodup
  bytes : ∀ entry ∈ query, Bytes entry.1.toList ∧ Bytes entry.2.toList

section Tokens

/-- The tokens of a text. -/
def tokens (delimiters text : List Char) : List (List Char) :=
  (text.splitOnP (· ∈ delimiters)).filter (· ≠ [])

variable {delimiters left right : List Char} {delimiter : Char}

theorem tokens_delimited (separates : delimiter ∈ delimiters) :
    tokens delimiters (left ++ delimiter :: right) =
      tokens delimiters left ++ tokens delimiters right := by
  unfold tokens
  rw [List.splitOnP_append_cons left right (by simpa using separates), List.filter_append]

@[simp] theorem tokens_nil : tokens delimiters [] = [] := by
  simp [tokens]

theorem tokens_single (undivided : ∀ character ∈ left, character ∉ delimiters) :
    tokens delimiters left = if left = [] then [] else [left] := by
  have whole : left.splitOnP (· ∈ delimiters) = [left] := by
    rw [List.splitOnP_eq_singleton]
    simpa using undivided
  by_cases empty : left = []
  · simp [tokens, empty]
  · simp [tokens, whole, empty]

/-- Delimiters in front of a text make no difference. -/
theorem tokens_skip (separates : ∀ character ∈ left, character ∈ delimiters) :
    tokens delimiters (left ++ right) = tokens delimiters right := by
  induction left with
  | nil => rfl
  | cons character left ih =>
      have cut : tokens delimiters ([] ++ character :: (left ++ right)) =
          tokens delimiters [] ++ tokens delimiters (left ++ right) :=
        tokens_delimited (separates character List.mem_cons_self)
      rw [tokens_nil, List.nil_append, List.nil_append] at cut
      rw [List.cons_append, cut]
      exact ih fun other member => separates other (List.mem_cons_of_mem _ member)

/-- A token ends before a delimiter. -/
theorem tokens_append (filled : left ≠ []) (undivided : ∀ character ∈ left, character ∉ delimiters)
    (ends : ∀ character, right.head? = some character → character ∈ delimiters) :
    tokens delimiters (left ++ right) = left :: tokens delimiters right := by
  cases right with
  | nil => rw [List.append_nil, tokens_single undivided, if_neg filled, tokens_nil]
  | cons character right =>
      have separates := ends character List.head?_cons
      have skipped : tokens delimiters ([character] ++ right) = tokens delimiters right :=
        tokens_skip fun other member => List.mem_singleton.mp member ▸ separates
      rw [tokens_delimited separates, tokens_single undivided, if_neg filled,
        List.singleton_append, ← skipped, List.singleton_append]

/-- The last delimiter makes no difference. -/
theorem tokens_flatMap {pieces : List (List Char)} (separates : delimiter ∈ delimiters)
    (undivided : ∀ piece ∈ pieces, ∀ character ∈ piece, character ∉ delimiters) :
    tokens delimiters (pieces.flatMap (· ++ [delimiter])) = pieces.filter (· ≠ []) := by
  induction pieces with
  | nil => simp
  | cons piece rest ih =>
      have first := undivided piece List.mem_cons_self
      have others := ih fun other member => undivided other (List.mem_cons_of_mem _ member)
      rw [List.flatMap_cons, List.append_assoc, List.singleton_append, tokens_delimited separates,
        others, tokens_single first]
      by_cases empty : piece = []
      · simp [empty]
      · simp [empty]

theorem intercalate_append_delimiter {pieces : List (List Char)} (filled : pieces ≠ []) :
    List.intercalate [delimiter] pieces ++ [delimiter] = pieces.flatMap (· ++ [delimiter]) := by
  induction pieces with
  | nil => exact absurd rfl filled
  | cons piece rest ih =>
      cases rest with
      | nil => simp [List.intercalate]
      | cons next others =>
          have tail := ih (by simp)
          rw [List.flatMap_cons, ← tail]
          simp [List.intercalate, List.intersperse]

end Tokens

section Entries

variable {strings : QueryStrings} {entry : String × String} {text : String} {character : Char}

theorem not_mem_encode (bytes : Bytes text.toList) (listed : character ∈ special)
    (percent : character ≠ '%') : character ∉ (Http.encode text).toList :=
  (escaped_encode bytes "").not_mem listed percent

theorem encode_eq_empty : Http.encode text = "" ↔ text = "" := by
  constructor
  · intro empty
    have nothing : text.toList.flatMap (encodeCharacter []) = [] := by
      simpa [Http.encode, encodeCharacters] using congrArg String.toList empty
    rw [List.flatMap_eq_nil_iff] at nothing
    apply String.toList_inj.mp
    apply List.eq_nil_iff_forall_not_mem.mpr
    intro character member
    have written := nothing character member
    cases encodeCharacter_cases [] character with
    | inl escaped => simp [escaped, escape] at written
    | inr kept => simp [kept.1] at written
  · rintro rfl
    rfl

theorem encodeEntry_eq_empty : encodeEntry entry = "" ↔ entry = ("", "") := by
  obtain ⟨key, value⟩ := entry
  by_cases empty : value = ""
  · simp [encodeEntry, empty, encode_eq_empty]
  · simp [encodeEntry, empty, encode_eq_empty]

theorem requestEntry_ne_empty : requestEntry entry ≠ "" := by
  simp [requestEntry]

/-- A token that `internal::encode` writes is read as the entry. -/
theorem decodeToken_requestEntry (documented : strings.Documented)
    (result : List (String × String)) (key : Bytes entry.1.toList)
    (value : Bytes entry.2.toList) :
    decodeToken strings.toStrings result (requestEntry entry) =
      .ok (set result entry.1 entry.2) := by
  have undivided : '=' ∉ (Http.encode entry.1).toList :=
    not_mem_encode key (by decide) (by decide)
  rw [requestEntry, decodeToken, documented.split_first _ _ undivided]
  simp only [decode_encode key, decode_encode value]
  rfl

theorem decodeToken_encodeEntry (documented : strings.Documented)
    (result : List (String × String)) (key : Bytes entry.1.toList)
    (value : Bytes entry.2.toList) :
    decodeToken strings.toStrings result (encodeEntry entry) =
      .ok (set result entry.1 entry.2) := by
  unfold encodeEntry
  split
  · rw [← String.append_assoc]
    exact decodeToken_requestEntry documented result key value
  · rename_i empty
    have undivided : '=' ∉ (Http.encode entry.1).toList :=
      not_mem_encode key (by decide) (by decide)
    simp only [ne_eq, Decidable.not_not] at empty
    rw [decodeToken, documented.split_none _ undivided]
    simp only [decode_encode key, empty]
    rfl

theorem separators : ∀ character ∈ ";&".toList,
    character ∈ special ∧ character ≠ '%' ∧ character ≠ '=' :=
  forall_mem_of_all (by decide)

theorem undivided_requestEntry (key : Bytes entry.1.toList) (value : Bytes entry.2.toList) :
    ∀ character ∈ (requestEntry entry).toList, character ∉ ";&".toList := by
  intro character member divides
  obtain ⟨listed, percent, equals⟩ := separators character divides
  simp only [requestEntry, String.toList_append, List.mem_append] at member
  obtain (inside | between) | inside := member
  · exact not_mem_encode key listed percent inside
  · exact equals (by simpa using between)
  · exact not_mem_encode value listed percent inside

theorem undivided_encodeEntry (key : Bytes entry.1.toList) (value : Bytes entry.2.toList) :
    ∀ character ∈ (encodeEntry entry).toList, character ∉ ";&".toList := by
  intro character member divides
  unfold encodeEntry at member
  split at member
  · rw [← String.append_assoc] at member
    exact undivided_requestEntry key value character member divides
  · obtain ⟨listed, percent, _⟩ := separators character divides
    exact not_mem_encode key listed percent member

end Entries

section Maps

variable {strings : QueryStrings} {query result : List (String × String)}

theorem set_fresh {key value : String} (fresh : key ∉ result.map Prod.fst) :
    set result key value = (key, value) :: result := by
  have kept : result.filter (fun entry => entry.1 ≠ key) = result := by
    rw [List.filter_eq_self]
    intro entry member
    simp only [decide_eq_true_eq]
    rintro rfl
    exact fresh (List.mem_map_of_mem member)
  rw [set, kept]

/-- One token for each entry: the last entry comes first in the result. -/
theorem foldlM_decodeToken {write : String × String → String}
    (reads : ∀ entry ∈ query, ∀ result,
      decodeToken strings.toStrings result (write entry) = .ok (set result entry.1 entry.2))
    (distinct : (query.map Prod.fst).Nodup)
    (fresh : ∀ entry ∈ query, entry.1 ∉ result.map Prod.fst) :
    (query.map write).foldlM (decodeToken strings.toStrings) result =
      .ok (query.reverse ++ result) := by
  induction query generalizing result with
  | nil => rfl
  | cons entry rest ih =>
      obtain ⟨single, others⟩ := List.nodup_cons.mp distinct
      have first := reads entry List.mem_cons_self result
      rw [set_fresh (fresh entry List.mem_cons_self)] at first
      have apart : ∀ other ∈ rest, other.1 ∉ ((entry.1, entry.2) :: result).map Prod.fst := by
        intro other member
        simp only [List.map_cons, List.mem_cons, not_or]
        constructor
        · intro same
          apply single
          rw [← same]
          exact List.mem_map_of_mem member
        · exact fresh other (List.mem_cons_of_mem _ member)
      have tail := ih (fun other member => reads other (List.mem_cons_of_mem _ member)) others apart
      simp only [List.map_cons, List.foldlM_cons, first]
      rw [List.reverse_cons, List.append_assoc, List.singleton_append]
      exact tail

/-- A text whose tokens are those of some entries is read as these entries. -/
theorem decode_of_tokens {write : String × String → String} {text : String}
    (documented : strings.Documented)
    (cut : tokens ";&".toList text.toList = query.map fun entry => (write entry).toList)
    (reads : ∀ entry ∈ query, ∀ result,
      decodeToken strings.toStrings result (write entry) = .ok (set result entry.1 entry.2))
    (distinct : (query.map Prod.fst).Nodup) :
    decode strings.toStrings text = .ok query.reverse := by
  have pieces : strings.tokenize text ";&" = query.map write := by
    rw [documented.tokenize]
    change (tokens ";&".toList text.toList).map String.ofList = _
    rw [cut, List.map_map]
    apply List.map_congr_left
    intro entry _
    simp
  rw [decode, pieces, foldlM_decodeToken reads distinct (by simp), List.append_nil]

theorem toList_output (query : List (String × String)) (output : String) :
    (query.foldl (fun output entry => output ++ encodeEntry entry ++ "&") output).toList =
      output.toList ++
        (query.map fun entry => (encodeEntry entry).toList).flatMap (· ++ ['&']) := by
  induction query generalizing output with
  | nil => simp
  | cons entry rest ih => simp [ih]

theorem tokens_removeSuffix (documented : strings.Documented) (text : String) :
    tokens ";&".toList (strings.removeSuffix text "&").toList =
      tokens ";&".toList text.toList := by
  by_cases suffix : "&".toList <:+ text.toList
  · obtain ⟨start, whole⟩ := suffix
    have written : text = String.ofList start ++ "&" := by
      apply String.toList_inj.mp
      rw [← whole]
      simp
    rw [written, documented.removeSuffix_append, String.toList_append,
      show "&".toList = '&' :: [] from rfl, tokens_delimited (by decide), tokens_nil,
      List.append_nil]
  · rw [documented.removeSuffix_none _ _ suffix]

theorem tokens_encode (documented : strings.Documented) (map : Hashmap query) :
    tokens ";&".toList (encode strings query).toList =
      (query.filter (· ≠ ("", ""))).map fun entry => (encodeEntry entry).toList := by
  have undivided : ∀ piece ∈ query.map fun entry => (encodeEntry entry).toList,
      ∀ character ∈ piece, character ∉ ";&".toList := by
    intro piece member
    obtain ⟨entry, inside, rfl⟩ := List.mem_map.mp member
    exact undivided_encodeEntry (map.bytes entry inside).1 (map.bytes entry inside).2
  rw [encode, tokens_removeSuffix documented, toList_output, String.toList_empty, List.nil_append,
    tokens_flatMap (by decide) undivided, List.filter_map]
  congr 1
  apply List.filter_congr
  intro entry _
  simp [encodeEntry_eq_empty]

theorem tokens_requestQuery (documented : strings.Documented) (map : Hashmap query) :
    tokens ";&".toList ((requestQuery strings query).getD "").toList =
      query.map fun entry => (requestEntry entry).toList := by
  by_cases empty : query = []
  · simp [requestQuery, empty]
  · have undivided : ∀ piece ∈ query.map fun entry => (requestEntry entry).toList,
        ∀ character ∈ piece, character ∉ ";&".toList := by
      intro piece member
      obtain ⟨entry, inside, rfl⟩ := List.mem_map.mp member
      exact undivided_requestEntry (map.bytes entry inside).1 (map.bytes entry inside).2
    have filled : query.map (fun entry => (requestEntry entry).toList) ≠ [] := by
      simpa using empty
    have separates : '&' ∈ ";&".toList := by decide
    have whole := tokens_flatMap separates undivided
    rw [← intercalate_append_delimiter filled, tokens_delimited (by decide), tokens_nil,
      List.append_nil] at whole
    have text : ((requestQuery strings query).getD "").toList =
        List.intercalate ['&'] (query.map fun entry => (requestEntry entry).toList) := by
      simp [requestQuery, empty, documented.join, Function.comp_def]
    rw [text, whole, List.filter_eq_self]
    intro piece member
    obtain ⟨entry, _, rfl⟩ := List.mem_map.mp member
    simp [requestEntry_ne_empty]

/-- In any order of iteration, a map is read back from `query::encode` without an entry whose key
and value are empty, and from the query of a request as it is. -/
theorem queries_roundTrip (documented : strings.Documented) (map : Hashmap query) :
    (∃ decoded, decode strings.toStrings (encode strings query) = .ok decoded ∧
      decoded.Perm (query.filter (· ≠ ("", "")))) ∧
    ∃ decoded, decode strings.toStrings ((requestQuery strings query).getD "") = .ok decoded ∧
      decoded.Perm query := by
  constructor
  · refine ⟨_, decode_of_tokens documented (tokens_encode documented map) ?_ ?_,
      List.reverse_perm _⟩
    · intro entry member result
      have bytes := map.bytes entry (List.mem_of_mem_filter member)
      exact decodeToken_encodeEntry documented result bytes.1 bytes.2
    · exact map.distinct.sublist (List.filter_sublist.map Prod.fst)
  · refine ⟨_, decode_of_tokens documented (tokens_requestQuery documented map) ?_ map.distinct,
      List.reverse_perm _⟩
    intro entry member result
    have bytes := map.bytes entry member
    exact decodeToken_requestEntry documented result bytes.1 bytes.2

end Maps

/-! ## The functions of `strings` -/

/-- Functions that behave as documented; a text is split into two parts at most. -/
def queryStrings : QueryStrings where
  tokenize text delimiters :=
    ((text.toList.splitOnP (· ∈ delimiters.toList)).filter (· ≠ [])).map String.ofList
  split text delimiter _ :=
    if text.toList.all (· ∉ delimiter.toList) then [text]
    else
      [String.ofList (text.toList.takeWhile (· ∉ delimiter.toList)),
        String.ofList ((text.toList.dropWhile (· ∉ delimiter.toList)).drop 1)]
  removeSuffix text suffix :=
    if suffix.toList <:+ text.toList then
      String.ofList (text.toList.take (text.toList.length - suffix.toList.length))
    else text
  join separator pieces := separator.intercalate pieces

theorem queryStrings_documented : queryStrings.Documented := by
  constructor
  · intro text delimiters
    rfl
  · intro key value absent
    have kept : ∀ character ∈ key.toList, decide (character ∉ "=".toList) = true := by
      intro character member
      simp only [String.reduceToList, List.mem_singleton, decide_eq_true_eq]
      rintro rfl
      exact absent member
    simp only [queryStrings, String.toList_append, List.append_assoc]
    rw [if_neg (by simp), List.takeWhile_append_of_pos kept, List.dropWhile_append_of_pos kept]
    simp
  · intro token absent
    have undivided : token.toList.all (· ∉ "=".toList) = true := by
      rw [List.all_eq_true]
      intro character member
      simp only [String.reduceToList, List.mem_singleton, decide_eq_true_eq]
      rintro rfl
      exact absent member
    simp only [queryStrings, undivided, if_true]
  · intro text suffix
    simp [queryStrings]
  · intro text suffix other
    simp [queryStrings, other]
  · intro separator pieces
    rfl

/-- A key with a separator, an entry of empty texts, and an empty key. -/
theorem queries_roundTrip_empty :
    (∃ decoded, decode queryStrings.toStrings
        (encode queryStrings [("a&b", ""), ("", ""), ("c", "d=")]) = .ok decoded ∧
      decoded.Perm [("a&b", ""), ("c", "d=")]) ∧
    ∃ decoded, decode queryStrings.toStrings
        ((requestQuery queryStrings [("a&b", ""), ("", ""), ("c", "d=")]).getD "") = .ok decoded ∧
      decoded.Perm [("a&b", ""), ("", ""), ("c", "d=")] :=
  queries_roundTrip queryStrings_documented ⟨by decide, by decide⟩

end Query

end Libprocess.Http
