import Libprocess.Http.ResponseEncoder
import Libprocess.Http.Url

/-!
# Content negotiation

A request says which encodings and which media types it accepts, in a list of entries.  The first
piece of an entry is a coding or a media range; the others are parameters.  Codings are compared
without regard to case, and the entries are looked up in the order of the candidates.
-/

namespace Libprocess.Http.Negotiation

open HttpResponseEncoder (acceptsCandidate acceptsEncoding)
open Query (tokens)

/-- `Request::_acceptsMediaType` -/
def acceptsMediaType (libraries : EncoderLibraries) (name : Option String) (mediaType : String) :
    Bool :=
  match libraries.tokenize mediaType "/" with
  | [type, _] =>
      match name with
      | none => true
      | some accept =>
          let accept := libraries.remove (libraries.remove (libraries.remove accept " ") "\t") "\n"
          let types := libraries.tokenize accept ","
          ([mediaType, type ++ "/*", "*/*"].findSome? fun candidate =>
            types.findSome? (acceptsCandidate libraries candidate)).getD false
  | _ => false

/-! ## Entries -/

/-- An entry, with its coding in lower case. -/
structure Entry where
  coding : List Char
  parameters : List (List Char)
  deriving DecidableEq, Repr

/-- The values that `strings::pairs` files under a key. -/
def pairValues (key : List Char) (pieces : List (List Char)) : List (List Char) :=
  pieces.filterMap fun piece =>
    match tokens ['='] piece with
    | [name, value] => if name = key then some value else none
    | _ => none

/-- The text without spaces, tabs and line feeds. -/
def strip (text : List Char) : List Char := text.filter (· ∉ [' ', '\t', '\n'])

/-- The entry between two commas, unless there are only semicolons. -/
def entry (piece : List Char) : Option Entry :=
  match tokens [';'] piece with
  | [] => none
  | coding :: parameters => some ⟨coding.map Char.toLower, parameters⟩

/-- The entries of a header. -/
def entries (text : List Char) : List Entry := (tokens [','] (strip text)).filterMap entry

/-- What an entry decides: acceptance, unless it has exactly one q parameter, which is not above
zero. -/
def Entry.accepts (entry : Entry) (positive : String → Bool) : Bool :=
  match pairValues ['q'] entry.parameters with
  | [quality] => positive (String.ofList quality)
  | _ => true

/-- The entry is one for a candidate. -/
def Entry.Matches (entry : Entry) (candidate : List Char) : Prop :=
  entry.coding = candidate.map Char.toLower

/-- The entry for the first candidate that there is one for decides; if there is none, the result is
false. -/
def Decides (positive : String → Bool) (entries : List Entry) : List (List Char) → Bool → Prop
  | [], result => result = false
  | candidate :: others, result =>
      (∀ entry ∈ entries, entry.Matches candidate → result = entry.accepts positive) ∧
        ((∀ entry ∈ entries, ¬ entry.Matches candidate) → Decides positive entries others result)

/-- The coding is not itself a q parameter. -/
def Entry.Proper (entry : Entry) : Prop := ∀ quality, tokens ['='] entry.coding ≠ [['q'], quality]

/-- The codings are distinct, and those of the entries for the candidates are proper. -/
structure Negotiable (text : List Char) (candidates : List (List Char)) : Prop where
  distinct : ((entries text).map Entry.coding).Nodup
  proper : ∀ entry ∈ entries text, ∀ candidate ∈ candidates,
    entry.Matches candidate → entry.Proper

/-- What a media type is matched with, the most specific first. -/
def mediaRanges (mediaType : List Char) : List (List Char) :=
  match tokens ['/'] mediaType with
  | [type, _] => [mediaType, type ++ ['/', '*'], ['*', '/', '*']]
  | _ => []

/-- The letters of the first piece of an entry are written in another case. -/
structure Recased (piece changed : List Char) : Prop where
  single : ',' ∉ piece
  parts : ∃ front coding other rest, piece = front ++ coding ++ rest ∧
    changed = front ++ other ++ rest ∧ (∀ character ∈ front, character ∈ [';', ' ', '\t']) ∧
    ';' ∉ coding ∧ (rest = [] ∨ rest.head? = some ';') ∧
    coding.map Char.toLower = other.map Char.toLower

/-- The entries are put in another order, codings are written in another case, and spaces and tabs
are inserted or removed. -/
inductive Rewritten : List Char → List Char → Prop where
  | blanks {text changed : List Char} :
      text.filter (· ∉ [' ', '\t']) = changed.filter (· ∉ [' ', '\t']) → Rewritten text changed
  | permute {pieces changed : List (List Char)} : pieces.Perm changed →
      Rewritten ([','].intercalate pieces) ([','].intercalate changed)
  | recase {before after : List (List Char)} {piece changed : List Char} : Recased piece changed →
      Rewritten ([','].intercalate (before ++ piece :: after))
        ([','].intercalate (before ++ changed :: after))
  | trans {text between changed : List Char} : Rewritten text between →
      Rewritten between changed → Rewritten text changed

/-- What is known of the functions of `strings`. -/
structure Documented (libraries : EncoderLibraries) : Prop where
  tokenize : ∀ text delimiters, libraries.tokenize text delimiters =
    (tokens delimiters.toList text.toList).map String.ofList
  remove : ∀ text character, libraries.remove text (String.ofList [character]) =
    String.ofList (text.toList.filter (· ≠ character))
  lower : ∀ text, libraries.lower text = String.ofList (text.toList.map Char.toLower)
  /-- Two tokens are a pair; what is not a pair is discarded. -/
  pairs : ∀ text first key, (libraries.pairs text first "=").lookup key =
    match pairValues key.toList (tokens first.toList text.toList) with
    | [] => none
    | value :: values => some ((value :: values).map String.ofList)

section Texts

variable {text changed piece : List Char} {pieces : List (List Char)}

theorem toLower_mem_iff {separators : List Char} (small : ∀ other ∈ separators, other.toNat < 65)
    (character : Char) : character.toLower ∈ separators ↔ character ∈ separators := by
  constructor
  · intro member
    exact (URL.toLower_eq_iff (small _ member) character).mp rfl ▸ member
  · intro member
    exact ((URL.toLower_eq_iff (small _ member) character).mpr rfl).symm ▸ member

theorem strip_map_toLower : strip (text.map Char.toLower) = (strip text).map Char.toLower := by
  rw [strip, strip, List.filter_map]
  congr 1
  apply List.filter_congr
  intro character _
  have same := toLower_mem_iff (forall_mem_of_all (by decide) : ∀ other ∈ [' ', '\t', '\n'],
    other.toNat < 65) character
  exact decide_eq_decide.mpr (not_congr same)

theorem tokens_map_toLower {delimiters : List Char}
    (small : ∀ other ∈ delimiters, other.toNat < 65) :
    tokens delimiters (text.map Char.toLower) =
      (tokens delimiters text).map (List.map Char.toLower) := by
  have split : (text.map Char.toLower).splitOnP (· ∈ delimiters) =
      (text.splitOnP (· ∈ delimiters)).map (List.map Char.toLower) := by
    induction text with
    | nil => rfl
    | cons character rest ih =>
        rw [List.map_cons, List.splitOnP_cons_eq_if_modifyHead, List.splitOnP_cons_eq_if_modifyHead,
          ih]
        simp only [toLower_mem_iff small]
        split
        · rfl
        · cases rest.splitOnP (· ∈ delimiters) <;> rfl
  rw [tokens, tokens, split, List.filter_map]
  congr 1
  apply List.filter_congr
  intro piece _
  simp

theorem strip_append (left right : List Char) : strip (left ++ right) = strip left ++ strip right :=
  List.filter_append left right

theorem entries_comma (left right : List Char) :
    entries (left ++ ',' :: right) = entries left ++ entries right := by
  have cut : strip (left ++ ',' :: right) = strip left ++ ',' :: strip right := by
    rw [strip_append]
    rfl
  rw [entries, cut, Query.tokens_delimited (List.mem_singleton_self ','), List.filterMap_append]
  rfl

/-- The entries of a header are those of its pieces. -/
theorem entries_intercalate (pieces : List (List Char)) :
    entries ([','].intercalate pieces) = pieces.flatMap entries := by
  induction pieces with
  | nil => rfl
  | cons piece rest ih =>
      cases rest with
      | nil => simp [List.intercalate]
      | cons second others =>
          have whole : [','].intercalate (piece :: second :: others) =
              piece ++ ',' :: [','].intercalate (second :: others) := by
            simp [List.intercalate]
          rw [whole, entries_comma, ih, List.flatMap_cons, List.flatMap_cons, List.flatMap_cons]

theorem entries_single (single : ',' ∉ piece) : entries piece = (entry (strip piece)).toList := by
  have undivided : ∀ character ∈ strip piece, character ∉ [','] := by
    intro character member comma
    exact single (List.mem_singleton.mp comma ▸ List.mem_of_mem_filter member)
  rw [entries, Query.tokens_single undivided]
  split
  · rename_i empty
    rw [empty]
    rfl
  · cases found : entry (strip piece) with
    | none => simp [found]
    | some entry => simp [found]

/-- Texts that differ in the case of their letters have the same separators. -/
theorem mem_of_map_toLower {other : List Char} {separator : Char} (small : separator.toNat < 65)
    (same : text.map Char.toLower = other.map Char.toLower) (member : separator ∈ other) :
    separator ∈ text := by
  have lower : separator ∈ text.map Char.toLower := by
    rw [same, ← (URL.toLower_eq_iff small separator).mpr rfl]
    exact List.mem_map_of_mem member
  obtain ⟨character, inside, equal⟩ := List.mem_map.mp lower
  exact (URL.toLower_eq_iff small character).mp equal ▸ inside

/-- The entry of a piece that begins with a coding. -/
theorem entry_coding {coding rest : List Char} (filled : coding ≠ []) (undivided : ';' ∉ coding)
    (ends : rest = [] ∨ rest.head? = some ';') :
    entry (coding ++ rest) = some ⟨coding.map Char.toLower, tokens [';'] rest⟩ := by
  have cut : tokens [';'] (coding ++ rest) = coding :: tokens [';'] rest := by
    refine Query.tokens_append filled (fun character member separates => ?_)
      fun character next => ?_
    · exact undivided (List.mem_singleton.mp separates ▸ member)
    · rcases ends with rfl | semicolon
      · cases next
      · exact Option.some.inj (next.symm.trans semicolon) ▸ List.mem_singleton_self ';'
  rw [entry, cut]

theorem entry_skip {front rest : List Char} (skipped : ∀ character ∈ front, character = ';') :
    entry (front ++ rest) = entry rest := by
  rw [entry, entry, Query.tokens_skip fun character member =>
    List.mem_singleton.mpr (skipped character member)]

/-- The first piece of an entry is looked at in lower case only. -/
theorem Recased.entries_eq (recased : Recased piece changed) : entries piece = entries changed := by
  obtain ⟨front, coding, other, rest, rfl, rfl, skipped, undivided, ends, same⟩ := recased.parts
  have single := recased.single
  have single' : ',' ∉ front ++ other ++ rest := by
    simp only [List.mem_append, not_or] at single ⊢
    exact ⟨⟨single.1.1, fun comma => single.1.2 (mem_of_map_toLower (by decide) same comma)⟩,
      single.2⟩
  have semicolons : ∀ character ∈ strip front, character = ';' := by
    intro character member
    obtain ⟨inside, kept⟩ := List.mem_filter.mp member
    have known := skipped character inside
    simp_all
  have stripped : (strip coding).map Char.toLower = (strip other).map Char.toLower := by
    rw [← strip_map_toLower, same, strip_map_toLower]
  have ends' : strip rest = [] ∨ (strip rest).head? = some ';' := by
    rcases ends with rfl | semicolon
    · exact .inl rfl
    · obtain ⟨others, rfl⟩ := List.head?_eq_some_iff.mp semicolon
      exact .inr rfl
  rw [entries_single single, entries_single single', strip_append, strip_append, strip_append,
    strip_append, List.append_assoc, List.append_assoc, entry_skip semicolons,
    entry_skip semicolons]
  congr 1
  by_cases empty : strip coding = []
  · have also : strip other = [] := by
      rw [empty, List.map_nil] at stripped
      simpa using stripped.symm
    rw [empty, also]
  · have also : strip other ≠ [] := by
      intro nothing
      rw [nothing, List.map_nil, List.map_eq_nil_iff] at stripped
      exact empty stripped
    have first : ';' ∉ strip coding := fun member => undivided (List.mem_of_mem_filter member)
    have second : ';' ∉ strip other := fun member =>
      first (mem_of_map_toLower (by decide) stripped member)
    rw [entry_coding empty first ends', entry_coding also second ends', stripped]

/-- A rewritten header has the same entries, in some order. -/
theorem Rewritten.entries_perm (rewritten : Rewritten text changed) :
    (entries text).Perm (entries changed) := by
  induction rewritten with
  | @blanks text changed same =>
      have stripped : ∀ text : List Char, strip text =
          (text.filter (· ∉ [' ', '\t'])).filter (· ≠ '\n') := by
        intro text
        rw [strip, List.filter_filter]
        apply List.filter_congr
        intro character _
        rw [Bool.eq_iff_iff]
        simp only [decide_eq_true_eq, Bool.and_eq_true]
        simp
        tauto
      rw [entries, entries, stripped, stripped, same]
  | permute order =>
      rw [entries_intercalate, entries_intercalate]
      exact order.flatMap_right entries
  | recase recased =>
      rw [entries_intercalate, entries_intercalate, List.flatMap_append, List.flatMap_append,
        List.flatMap_cons, List.flatMap_cons, recased.entries_eq]
  | trans _ _ first second => exact first.trans second

end Texts

section Decisions

variable {positive : String → Bool} {offered other : List Entry} {candidates : List (List Char)}

instance (entry : Entry) (candidate : List Char) : Decidable (entry.Matches candidate) :=
  inferInstanceAs (Decidable (_ = _))

/-- The loops over candidates and entries. -/
def choose (positive : String → Bool) (offered : List Entry) (candidates : List (List Char)) :
    Bool :=
  (candidates.findSome? fun candidate =>
    offered.findSome? fun entry =>
      if entry.Matches candidate then some (entry.accepts positive) else none).getD false

theorem choose_cons (candidate : List Char) (others : List (List Char)) :
    choose positive offered (candidate :: others) =
      ((offered.findSome? fun entry =>
        if entry.Matches candidate then some (entry.accepts positive) else none).getD
          (choose positive offered others)) := by
  rw [choose, List.findSome?_cons]
  split
  · rename_i found
    simp [found]
  · rename_i missing
    simp [missing, choose]

/-- Among entries with distinct codings, the first one for a candidate is the only one. -/
theorem findSome?_matches (distinct : (offered.map Entry.coding).Nodup) {entry : Entry}
    (member : entry ∈ offered) {candidate : List Char} (matched : entry.Matches candidate) :
    (offered.findSome? fun entry =>
      if entry.Matches candidate then some (entry.accepts positive) else none) =
        some (entry.accepts positive) := by
  induction offered with
  | nil => cases member
  | cons first rest ih =>
      rw [List.map_cons, List.nodup_cons] at distinct
      rw [List.findSome?_cons]
      by_cases found : first.Matches candidate
      · have same : first = entry := by
          rcases List.mem_cons.mp member with same | later
          · exact same.symm
          · have coding : first.coding = entry.coding := found.trans matched.symm
            exact absurd (coding ▸ List.mem_map_of_mem later) distinct.1
        rw [if_pos found, same]
      · rw [if_neg found]
        refine ih distinct.2 ((List.mem_cons.mp member).resolve_left ?_)
        rintro rfl
        exact found matched

/-- The loops decide as they should. -/
theorem decides_choose (distinct : (offered.map Entry.coding).Nodup)
    (candidates : List (List Char)) :
    Decides positive offered candidates (choose positive offered candidates) := by
  induction candidates with
  | nil => rfl
  | cons candidate others ih =>
      rw [choose_cons]
      constructor
      · intro entry member matched
        rw [findSome?_matches distinct member matched, Option.getD_some]
      · intro unmatched
        have missing : (offered.findSome? fun entry =>
            if entry.Matches candidate then some (entry.accepts positive) else none) = none :=
          List.findSome?_eq_none_iff.mpr fun entry member => if_neg (unmatched entry member)
        rw [missing, Option.getD_none]
        exact ih

/-- The order of the entries does not matter. -/
theorem Decides.unique {result result' : Bool}
    (decides : Decides positive offered candidates result)
    (decides' : Decides positive other candidates result') (order : offered.Perm other) :
    result = result' := by
  induction candidates with
  | nil => exact decides.trans decides'.symm
  | cons candidate others ih =>
      by_cases found : ∃ entry ∈ offered, entry.Matches candidate
      · obtain ⟨entry, member, matched⟩ := found
        rw [decides.1 entry member matched, decides'.1 entry (order.mem_iff.mp member) matched]
      · have unmatched : ∀ entry ∈ offered, ¬ entry.Matches candidate :=
          fun entry member matched => found ⟨entry, member, matched⟩
        exact ih (decides.2 unmatched)
          (decides'.2 fun entry member => unmatched entry (order.mem_iff.mpr member))

theorem Negotiable.rewritten {text changed : List Char} (negotiable : Negotiable text candidates)
    (rewritten : Rewritten text changed) : Negotiable changed candidates := by
  have order := rewritten.entries_perm
  constructor
  · exact (order.map Entry.coding).nodup_iff.mp negotiable.distinct
  · exact fun entry member => negotiable.proper entry (order.mem_iff.mpr member)

end Decisions

section Loops

variable {libraries : EncoderLibraries} (documented : Documented libraries)

include documented

theorem lower_eq_iff (left right : String) : libraries.lower left = libraries.lower right ↔
    left.toList.map Char.toLower = right.toList.map Char.toLower := by
  rw [documented.lower, documented.lower]
  exact String.ofList_inj

omit documented in
/-- A coding is no q parameter, if it is none in lower case. -/
theorem Entry.Proper.pairValues_coding {coding : List Char} {parameters : List (List Char)}
    (proper : Entry.Proper ⟨coding.map Char.toLower, parameters⟩) :
    pairValues ['q'] (coding :: parameters) = pairValues ['q'] parameters := by
  rw [Entry.Proper, tokens_map_toLower (by simp)] at proper
  rw [pairValues, List.filterMap_cons_none]
  · rfl
  · split
    · rename_i name value cut
      apply if_neg
      rintro rfl
      exact proper (value.map Char.toLower) (by rw [cut]; rfl)
    · rfl

/-- One round of the inner loop looks at one entry. -/
theorem acceptsCandidate_eq {piece : List Char} (candidate : String)
    (proper : ∀ found, entry piece = some found → found.Matches candidate.toList → found.Proper) :
    acceptsCandidate libraries candidate (String.ofList piece) =
      (entry piece).bind fun found =>
        if found.Matches candidate.toList then some (found.accepts libraries.positive)
        else none := by
  have pieces : libraries.tokenize (String.ofList piece) ";" =
      (tokens [';'] piece).map String.ofList := by
    simp [documented.tokenize]
  rw [acceptsCandidate, pieces]
  cases cut : tokens [';'] piece with
  | nil => simp [entry, cut]
  | cons coding parameters =>
      have found : entry piece = some ⟨coding.map Char.toLower, parameters⟩ := by
        rw [entry, cut]
      have same : libraries.lower (String.ofList coding) = libraries.lower candidate ↔
          Entry.Matches ⟨coding.map Char.toLower, parameters⟩ candidate.toList := by
        rw [lower_eq_iff documented, String.toList_ofList]
        exact Iff.rfl
      rw [found, Option.bind_some, List.map_cons]
      by_cases matched : Entry.Matches ⟨coding.map Char.toLower, parameters⟩ candidate.toList
      · have values : (libraries.pairs (String.ofList piece) ";" "=").lookup "q" =
            match pairValues ['q'] parameters with
            | [] => none
            | value :: values => some ((value :: values).map String.ofList) := by
          rw [← (proper _ found matched).pairValues_coding, ← cut]
          simp [documented.pairs]
        rw [if_pos matched]
        simp only [same.mpr matched, if_true, values, Entry.accepts]
        cases pairValues ['q'] parameters with
        | nil => rfl
        | cons value others =>
            cases others with
            | nil => rfl
            | cons _ _ => rfl
      · rw [if_neg matched]
        exact if_neg (mt same.mp matched)

/-- The inner loop over the tokens of a header. -/
theorem findSome?_pieces (candidate : String) {pieces : List (List Char)}
    (proper : ∀ found ∈ pieces.filterMap entry, found.Matches candidate.toList → found.Proper) :
    (pieces.map String.ofList).findSome? (acceptsCandidate libraries candidate) =
      (pieces.filterMap entry).findSome? fun found =>
        if found.Matches candidate.toList then some (found.accepts libraries.positive)
        else none := by
  induction pieces with
  | nil => rfl
  | cons piece rest ih =>
      have first : ∀ found, entry piece = some found → found.Matches candidate.toList →
          found.Proper :=
        fun found same => proper found (List.mem_filterMap.mpr ⟨piece, List.mem_cons_self, same⟩)
      have others := ih fun found member => proper found (by
        obtain ⟨other, inside, same⟩ := List.mem_filterMap.mp member
        exact List.mem_filterMap.mpr ⟨other, List.mem_cons_of_mem _ inside, same⟩)
      rw [List.map_cons, List.findSome?_cons, acceptsCandidate_eq documented candidate first,
        others]
      cases found : entry piece with
      | none => simp [found]
      | some _ => simp [found, List.findSome?_cons]

/-- The loops over the tokens of a header. -/
theorem findSome?_tokens {text : List Char} (candidates : List String)
    (negotiable : Negotiable text (candidates.map String.toList)) :
    (candidates.findSome? fun candidate =>
      ((tokens [','] (strip text)).map String.ofList).findSome?
        (acceptsCandidate libraries candidate)).getD false =
      choose libraries.positive (entries text) (candidates.map String.toList) := by
  have proper := negotiable.proper
  clear negotiable
  induction candidates with
  | nil => rfl
  | cons candidate others ih =>
      have round := findSome?_pieces documented candidate fun found member =>
        proper found member candidate.toList List.mem_cons_self
      have rest := ih fun found member other inside =>
        proper found member other (List.mem_cons_of_mem _ inside)
      rw [List.map_cons, choose_cons, ← rest, List.findSome?_cons, round, ← entries]
      cases (entries text).findSome? fun found =>
        if found.Matches candidate.toList then some (found.accepts libraries.positive)
        else none <;> rfl

theorem remove_blanks (text : String) :
    libraries.remove (libraries.remove (libraries.remove text " ") "\t") "\n" =
      String.ofList (strip text.toList) := by
  have space : libraries.remove text " " = String.ofList (text.toList.filter (· ≠ ' ')) :=
    documented.remove text ' '
  have tab : ∀ text, libraries.remove text "\t" = String.ofList (text.toList.filter (· ≠ '\t')) :=
    fun text => documented.remove text '\t'
  have feed : ∀ text, libraries.remove text "\n" = String.ofList (text.toList.filter (· ≠ '\n')) :=
    fun text => documented.remove text '\n'
  rw [space, tab, feed, String.toList_ofList, String.toList_ofList, List.filter_filter,
    List.filter_filter, strip]
  congr 1
  apply List.filter_congr
  intro character _
  rw [Bool.eq_iff_iff]
  simp
  tauto

theorem acceptsEncoding_eq {request : Headers} {value encoding : String}
    (sent : request.get "Accept-Encoding" = some value)
    (negotiable : Negotiable value.toList [encoding.toList, ['*']]) :
    acceptsEncoding libraries request encoding =
      choose libraries.positive (entries value.toList) [encoding.toList, ['*']] := by
  rw [acceptsEncoding, sent]
  by_cases empty : value = ""
  · subst empty
    rfl
  · have cut : libraries.tokenize (String.ofList (strip value.toList)) "," =
        (tokens [','] (strip value.toList)).map String.ofList := by
      simp [documented.tokenize]
    simp only [if_neg empty, remove_blanks documented, cut]
    exact findSome?_tokens documented [encoding, "*"] negotiable

theorem acceptsMediaType_eq {value mediaType : String}
    (negotiable : Negotiable value.toList (mediaRanges mediaType.toList)) :
    acceptsMediaType libraries (some value) mediaType =
      choose libraries.positive (entries value.toList) (mediaRanges mediaType.toList) := by
  have pieces : libraries.tokenize mediaType "/" =
      (tokens ['/'] mediaType.toList).map String.ofList := by
    simp [documented.tokenize]
  have cut : libraries.tokenize (String.ofList (strip value.toList)) "," =
      (tokens [','] (strip value.toList)).map String.ofList := by
    simp [documented.tokenize]
  rw [mediaRanges] at negotiable ⊢
  rw [acceptsMediaType, pieces]
  generalize tokens ['/'] mediaType.toList = parts at negotiable ⊢
  cases parts with
  | nil => rfl
  | cons type rest =>
      cases rest with
      | nil => rfl
      | cons subtype others =>
          cases others with
          | nil =>
              simp only [List.map_cons, List.map_nil, remove_blanks documented, cut]
              rw [findSome?_tokens documented _ (by simpa using negotiable)]
              simp
          | cons _ _ => rfl

end Loops

/-- A part of a media type. -/
structure Part (text : List Char) : Prop where
  filled : text ≠ []
  undivided : '/' ∉ text

theorem tokens_mediaType {type subtype : List Char} (first : Part type) (second : Part subtype) :
    tokens ['/'] (type ++ '/' :: subtype) = [type, subtype] := by
  have single : ∀ {part : List Char}, Part part → tokens ['/'] part = [part] := by
    intro part known
    rw [Query.tokens_single, if_neg known.filled]
    intro character member slash
    exact known.undivided (List.mem_singleton.mp slash ▸ member)
  rw [Query.tokens_delimited (List.mem_singleton_self '/'), single first, single second]
  rfl

/-- If the codings of a header are distinct and none for an encoding is itself a q parameter, then
the entry for the encoding decides, or else the one for `*`; for a media type, the most specific
entry decides.  Neither depends on the order of the entries, the case of the codings, and spaces and
tabs. -/
theorem negotiates {libraries : EncoderLibraries} (documented : Documented libraries)
    (value : String) :
    (∀ (request : Headers) (encoding : String), request.get "Accept-Encoding" = some value →
      Negotiable value.toList [encoding.toList, ['*']] →
      Decides libraries.positive (entries value.toList) [encoding.toList, ['*']]
        (acceptsEncoding libraries request encoding) ∧
      ∀ (changed : String) (other : Headers), Rewritten value.toList changed.toList →
        other.get "Accept-Encoding" = some changed →
          acceptsEncoding libraries other encoding = acceptsEncoding libraries request encoding) ∧
    (∀ mediaType : String, Negotiable value.toList (mediaRanges mediaType.toList) →
      Decides libraries.positive (entries value.toList) (mediaRanges mediaType.toList)
        (acceptsMediaType libraries (some value) mediaType) ∧
      ∀ changed : String, Rewritten value.toList changed.toList →
        acceptsMediaType libraries (some changed) mediaType =
          acceptsMediaType libraries (some value) mediaType) ∧
    ∀ type subtype : List Char, Part type → Part subtype →
      mediaRanges (type ++ '/' :: subtype) =
        [type ++ '/' :: subtype, type ++ ['/', '*'], ['*', '/', '*']] := by
  have same {changed : String} (rewritten : Rewritten value.toList changed.toList)
      {candidates : List (List Char)} (negotiable : Negotiable value.toList candidates) :
      choose libraries.positive (entries changed.toList) candidates =
        choose libraries.positive (entries value.toList) candidates :=
    (decides_choose (negotiable.rewritten rewritten).distinct candidates).unique
      (decides_choose negotiable.distinct candidates) rewritten.entries_perm.symm
  refine ⟨fun request encoding sent negotiable => ?_, fun mediaType negotiable => ?_,
    fun type subtype first second => ?_⟩
  · rw [acceptsEncoding_eq documented sent negotiable]
    refine ⟨decides_choose negotiable.distinct _, fun changed other rewritten resent => ?_⟩
    rw [acceptsEncoding_eq documented resent (negotiable.rewritten rewritten),
      same rewritten negotiable]
  · rw [acceptsMediaType_eq documented negotiable]
    refine ⟨decides_choose negotiable.distinct _, fun changed rewritten => ?_⟩
    rw [acceptsMediaType_eq documented (negotiable.rewritten rewritten),
      same rewritten negotiable]
  · rw [mediaRanges, tokens_mediaType first second]

/-! ## Functions that behave as documented -/

/-- The pairs of a text. -/
def pairs (first second text : List Char) : List (List Char × List Char) :=
  (tokens first text).filterMap fun piece =>
    match tokens second piece with
    | [name, value] => some (name, value)
    | _ => none

/-- The functions of `strings`; of the numbers above zero, only those without an exponent are
read. -/
def stringLibraries : EncoderLibraries where
  tokenize text delimiters := (tokens delimiters.toList text.toList).map String.ofList
  remove text part := String.ofList (text.toList.filter (· ∉ part.toList))
  lower text := String.ofList (text.toList.map Char.toLower)
  pairs text first second :=
    let found := pairs first.toList second.toList text.toList
    found.map fun pair => (String.ofList pair.1,
      (found.filter fun other => other.1 = pair.1).map fun other => String.ofList other.2)
  positive text := text.toList.all (fun character => character.isDigit || character = '.') &&
    text.toList.any fun character => character.isDigit && character ≠ '0'
  numify _ := none
  compress _ := none

theorem pairValues_eq (key first text : List Char) :
    pairValues key (tokens first text) =
      ((pairs first ['='] text).filter fun other => other.1 = key).map Prod.snd := by
  rw [pairValues, pairs]
  induction tokens first text with
  | nil => rfl
  | cons piece rest ih =>
      rw [List.filterMap_cons, List.filterMap_cons, ih]
      split
      · rename_i unread
        split
        · rfl
        · rename_i pair read
          split at read
          · rename_i name value cut
            cases read
            have other : ¬ name = key := by simpa [cut] using unread
            simp [other]
          · cases read
      · rename_i value read
        split at read
        · rename_i name value cut
          obtain ⟨rfl, same⟩ := Option.ite_none_right_eq_some.mp read
          cases same
          simp
        · cases read

theorem lookup_map (key : List Char) (found : List (List Char × List Char))
    (values : List Char → List String) :
    (found.map fun pair => (String.ofList pair.1, values pair.1)).lookup (String.ofList key) =
      if (found.filter fun other => other.1 = key) = [] then none else some (values key) := by
  induction found with
  | nil => rfl
  | cons pair rest ih =>
      by_cases same : pair.1 = key
      · simp [same]
      · have other : ¬ String.ofList key = String.ofList pair.1 :=
          fun equal => same (String.ofList_inj.mp equal).symm
        have unequal : (String.ofList key == String.ofList pair.1) = false := by simpa using other
        rw [List.map_cons, List.lookup_cons, unequal, List.filter_cons_of_neg (by simpa using same)]
        exact ih

theorem stringLibraries_documented : Documented stringLibraries where
  tokenize _ _ := rfl
  remove text character := by
    simp [stringLibraries]
  lower _ := rfl
  pairs text first key := by
    have found := lookup_map key.toList (pairs first.toList ['='] text.toList) fun name =>
      ((pairs first.toList ['='] text.toList).filter fun other => other.1 = name).map fun other =>
        String.ofList other.2
    rw [String.ofList_toList] at found
    rw [pairValues_eq]
    refine found.trans ?_
    cases (pairs first.toList ['='] text.toList).filter fun other => other.1 = key.toList with
    | nil => rfl
    | cons pair others => simp

/-- A client that prefers gzip. -/
def preferred : String := "gzip;q=0.5, *;q=0"

/-- The same, written in another way. -/
def reordered : String := "*;q=0,GZIP;q=0.5"

theorem rewritten_preferred : Rewritten preferred.toList reordered.toList := by
  have blanks : Rewritten preferred.toList "gzip;q=0.5,*;q=0".toList := .blanks (by decide)
  have order : Rewritten "gzip;q=0.5,*;q=0".toList "*;q=0,gzip;q=0.5".toList :=
    .permute (List.Perm.swap "*;q=0".toList "gzip;q=0.5".toList [])
  have upper : Recased "gzip;q=0.5".toList "GZIP;q=0.5".toList :=
    ⟨by decide, [], "gzip".toList, "GZIP".toList, ";q=0.5".toList, by decide, by decide, by simp,
      by decide, by decide, by decide⟩
  exact (blanks.trans order).trans (@Rewritten.recase ["*;q=0".toList] [] _ _ upper)

theorem negotiable_preferred (candidates : List (List Char)) :
    Negotiable preferred.toList candidates := by
  have undivided : ∀ entry ∈ entries preferred.toList, (tokens ['='] entry.coding).length = 1 := by
    decide +kernel
  refine ⟨by decide +kernel, fun entry member candidate _ _ quality same => ?_⟩
  have single := undivided entry member
  rw [same] at single
  cases single

theorem negotiates_reordered :
    acceptsEncoding stringLibraries [("accept-encoding", reordered)] "gzip" =
      acceptsEncoding stringLibraries [("Accept-Encoding", preferred)] "gzip" ∧
    Decides stringLibraries.positive (entries preferred.toList) ["deflate".toList, ['*']]
      (acceptsEncoding stringLibraries [("Accept-Encoding", preferred)] "deflate") ∧
    acceptsMediaType stringLibraries (some reordered) "text/html" =
      acceptsMediaType stringLibraries (some preferred) "text/html" := by
  obtain ⟨encodings, mediaTypes, -⟩ := negotiates stringLibraries_documented preferred
  have decided := encodings [("Accept-Encoding", preferred)]
  exact ⟨(decided "gzip" (by decide) (negotiable_preferred _)).2 reordered _ rewritten_preferred
      (by decide),
    (decided "deflate" (by decide) (negotiable_preferred _)).1,
    (mediaTypes "text/html" (negotiable_preferred _)).2 reordered rewritten_preferred⟩

/-- A coding that is itself a q parameter decides against itself, unless it is written in upper
case. -/
theorem not_negotiates : ((entries "q=0".toList).map Entry.coding).Nodup ∧
    ¬ Decides stringLibraries.positive (entries "q=0".toList) ["q=0".toList, ['*']]
      (acceptsEncoding stringLibraries [("Accept-Encoding", "q=0")] "q=0") ∧
    Rewritten "q=0".toList "Q=0".toList ∧
    acceptsEncoding stringLibraries [("Accept-Encoding", "q=0")] "q=0" = false ∧
    acceptsEncoding stringLibraries [("Accept-Encoding", "Q=0")] "q=0" = true := by
  have lower : acceptsEncoding stringLibraries [("Accept-Encoding", "q=0")] "q=0" = false := by
    decide +kernel
  have upper : Recased "q=0".toList "Q=0".toList :=
    ⟨by decide, [], "q=0".toList, "Q=0".toList, [], by decide, by decide, by simp, by decide,
      by decide, by decide⟩
  have listed : entries "q=0".toList = [⟨"q=0".toList, []⟩] := by decide +kernel
  refine ⟨by decide +kernel, ?_, @Rewritten.recase [] [] _ _ upper, lower, by decide +kernel⟩
  rintro ⟨decided, _⟩
  rw [lower, listed] at decided
  have accepted := decided _ (List.mem_singleton_self _) (by decide)
  exact absurd accepted (by decide +kernel)

end Libprocess.Http.Negotiation
