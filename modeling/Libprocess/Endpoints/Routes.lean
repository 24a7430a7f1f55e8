import Libprocess.Endpoints.Requests

/-!
# The endpoint of a path

The loop of `consume` shortens the name, which it takes from the text of the path.  It finds the
longest prefix of the segments that is registered, if the text between the segments is plain.
-/

namespace Libprocess.Requests

open Paths

universe u

variable {Endpoint : Type u} {http : List Char → Option Endpoint}
  {pieces : List (List Char)} {piece path first name : List Char}
  {choice : Option (List Char × Endpoint)} {libraries : PathLibraries}

/-- The endpoint for the longest prefix of some segments that there is one for.  The prefix may be
empty if there are no segments. -/
def Longest (http : List Char → Option Endpoint) (pieces : List (List Char)) :
    Option (List Char × Endpoint) → Prop
  | some (name, endpoint) =>
      http name = some endpoint ∧ ∃ size ≤ pieces.length, (pieces ≠ [] → 0 < size) ∧
        name = join (pieces.take size) ∧
        ∀ larger, size < larger → larger ≤ pieces.length → http (join (pieces.take larger)) = none
  | none => ∀ size ≤ pieces.length, (pieces ≠ [] → 0 < size) → http (join (pieces.take size)) = none

/-- The request is consumed, and its endpoint is the one for the longest prefix of the segments. -/
def Selects (libraries : PathLibraries) (process : ProcessBase Endpoint) (path : List Char)
    (pieces : List (List Char)) : Prop :=
  ∃ bound choice, Longest process.http pieces choice ∧ ∀ fuel ≥ bound,
    (process.consume libraries fuel path).map Answer.selected = some choice

/-- A slash may be repeated behind the first segment and behind the last one only. -/
def Plain (first : List Char) (pieces : List (List Char)) (path : List Char) : Prop :=
  ∃ behind after, Slashes behind ∧ Slashes after ∧
    path = '/' :: first ++ (behind ++ join pieces ++ after)

theorem longest_whole {endpoint : Endpoint} (found : http (join pieces) = some endpoint) :
    Longest http pieces (some (join pieces, endpoint)) := by
  refine ⟨found, pieces.length, Nat.le_refl _, List.length_pos_iff.mpr, ?_, ?_⟩
  · rw [List.take_length]
  · intro larger longer bound
    omega

/-- The longest prefix is shorter. -/
theorem Longest.concat (longest : Longest http pieces choice) (filled : pieces ≠ [])
    (missing : http (join (pieces ++ [piece])) = none) :
    Longest http (pieces ++ [piece]) choice := by
  have whole : ∀ size ≤ (pieces ++ [piece]).length, pieces.length < size →
      http (join ((pieces ++ [piece]).take size)) = none := by
    intro size bound longer
    rwa [List.take_of_length_le (by simp at bound ⊢; omega)]
  have shorter : ∀ size ≤ pieces.length, (pieces ++ [piece]).take size = pieces.take size :=
    fun size bound => List.take_append_of_le_length bound
  cases choice with
  | none =>
      intro size bound positive
      rcases Nat.lt_or_ge pieces.length size with longer | within
      · exact whole size bound longer
      · rw [shorter size within]
        exact longest size within fun _ => positive (by simp)
  | some found =>
      obtain ⟨registered, size, bound, positive, same, others⟩ := longest
      refine ⟨registered, size, ?_, fun _ => positive filled, ?_, ?_⟩
      · rw [List.length_append]
        omega
      · rw [same, shorter size bound]
      · intro larger longer within
        rcases Nat.lt_or_ge pieces.length larger with beyond | inside
        · exact whole larger within beyond
        · rw [shorter larger inside]
          exact others larger longer inside

theorem longest_single_none (missing : http piece = none) : Longest http [piece] none := by
  intro size bound positive
  obtain rfl : size = 1 := by
    have := positive (by simp)
    simp at bound
    omega
  simpa [join] using missing

/-! ## The loop -/

section Loop

variable (posix : libraries.Posix)

open ProcessBase (search)

include posix in
/-- The loop ends at a dot. -/
theorem search_dot {fuel : Nat} : search libraries http (fuel + 1) ['.'] = some none := by
  rw [search, if_pos (posix.single _ (by simp))]

theorem search_found {endpoint : Endpoint} {fuel : Nat} (moves : libraries.dirname name ≠ name)
    (found : http name = some endpoint) :
    search libraries http (fuel + 1) name = some (some (name, endpoint)) := by
  rw [search, if_neg moves, found]

theorem search_missing {fuel : Nat} (moves : libraries.dirname name ≠ name)
    (missing : http name = none) : search libraries http (fuel + 1) name =
      search libraries http fuel (libraries.dirname name) := by
  rw [search, if_neg moves, missing]

include posix in
theorem dirname_concat (filled : pieces ≠ []) (each : ∀ other ∈ pieces, Segment other)
    (last : Segment piece) :
    libraries.dirname (join (pieces ++ [piece])) = join pieces := by
  have cut : join (pieces ++ [piece]) = join pieces ++ ['/'] ++ piece := by
    rw [join_concat filled, List.append_assoc, List.singleton_append]
  rw [cut]
  exact posix.nested _ _ _ (trimmed_join each) (join_ne_nil filled each) (by simp [Slashes])
    (by simp) last

include posix in
/-- From the joined segments, the loop finds the longest prefix. -/
theorem search_join (http : List Char → Option Endpoint) (each : ∀ other ∈ pieces, Segment other)
    (proper : ['.'] ∉ pieces) :
    ∃ choice, Longest http pieces choice ∧ ∀ fuel ≥ pieces.length + 2,
      search libraries http fuel (join pieces) = some choice := by
  induction pieces using List.reverseRecOn with
  | nil =>
      have moves : libraries.dirname (join []) ≠ join [] := by
        rw [posix.single _ (by simp [join])]
        simp [join]
      cases found : http (join []) with
      | some endpoint =>
          refine ⟨_, longest_whole found, fun fuel enough => ?_⟩
          obtain ⟨fuel, rfl⟩ := Nat.exists_eq_add_of_le' enough
          exact search_found moves found
      | none =>
          refine ⟨none, fun size _ _ => by simpa using found, fun fuel enough => ?_⟩
          obtain ⟨fuel, rfl⟩ := Nat.exists_eq_add_of_le' enough
          rw [List.length_nil, search_missing moves found, posix.single _ (by simp [join])]
          exact search_dot posix
  | append_singleton pieces piece ih =>
      have last := each piece (by simp)
      have before : ∀ other ∈ pieces, Segment other :=
        fun other member => each other (List.mem_append_left _ member)
      have moves : libraries.dirname (join (pieces ++ [piece])) ≠ join (pieces ++ [piece]) := by
        by_cases empty : pieces = []
        · subst empty
          rw [posix.single _ (by simpa [join] using last.undivided)]
          rintro same
          exact proper (by simpa [join] using same)
        · rw [dirname_concat posix empty before last, join_concat empty]
          simp
      cases found : http (join (pieces ++ [piece])) with
      | some endpoint =>
          refine ⟨_, longest_whole found, fun fuel enough => ?_⟩
          obtain ⟨fuel, rfl⟩ := Nat.exists_eq_add_of_le' enough
          exact search_found moves found
      | none =>
          by_cases empty : pieces = []
          · subst empty
            refine ⟨none, longest_single_none (by simpa [join] using found), fun fuel enough => ?_⟩
            obtain ⟨fuel, rfl⟩ := Nat.exists_eq_add_of_le' enough
            rw [List.nil_append, List.length_singleton] at *
            rw [search_missing moves found, posix.single _ (by simpa [join] using last.undivided)]
            exact search_dot posix
          · obtain ⟨choice, longest, finds⟩ :=
              ih before fun member => proper (List.mem_append_left _ member)
            refine ⟨choice, longest.concat empty found, fun fuel enough => ?_⟩
            obtain ⟨fuel, rfl⟩ := Nat.exists_eq_add_of_le' enough
            rw [show fuel + ((pieces ++ [piece]).length + 2) = fuel + (pieces.length + 2) + 1 by
                simp; omega,
              search_missing moves found, dirname_concat posix empty before last]
            exact finds _ (by omega)

include posix in
/-- Without a slash at its ends, a name that is shortened is a dot or shorter. -/
theorem dirname_shorter (trimmed : Trimmed name) : libraries.dirname name = ['.'] ∨
    Trimmed (libraries.dirname name) ∧ libraries.dirname name ≠ [] ∧
      (libraries.dirname name).length < name.length := by
  by_cases divided : '/' ∈ name
  · obtain ⟨directory, slashes, piece, rfl, proper, filled, slash, between, segment⟩ :=
      exists_directory trimmed divided
    rw [posix.nested directory slashes piece proper filled slash between segment]
    have positive := List.length_pos_iff.mpr between
    exact .inr ⟨proper, filled, by simp; omega⟩
  · exact .inl (posix.single name divided)

include posix in
/-- The loop ends.  If only the empty name has an endpoint, it is found from the empty name only. -/
theorem search_terminates (http : List Char → Option Endpoint) (trimmed : Trimmed name) :
    ∃ choice, (∀ fuel ≥ name.length + 2, search libraries http fuel name = some choice) ∧
      (name ≠ [] → (∀ other, other ≠ [] → http other = none) → choice = none) := by
  induction size : name.length using Nat.strongRecOn generalizing name with
  | ind size ih =>
      subst size
      by_cases moves : libraries.dirname name = name
      · refine ⟨none, fun fuel enough => ?_, fun _ _ => rfl⟩
        obtain ⟨fuel, rfl⟩ := Nat.exists_eq_add_of_le' enough
        rw [← Nat.add_assoc, search, if_pos moves]
      · cases found : http name with
        | some endpoint =>
            refine ⟨some (name, endpoint), fun fuel enough => ?_, fun filled only => ?_⟩
            · obtain ⟨fuel, rfl⟩ := Nat.exists_eq_add_of_le' enough
              exact search_found moves found
            · simp [only name filled] at found
        | none =>
            rcases dirname_shorter posix trimmed with dot | ⟨proper, filled, shorter⟩
            · refine ⟨none, fun fuel enough => ?_, fun _ _ => rfl⟩
              obtain ⟨fuel, rfl⟩ := Nat.exists_eq_add_of_le' enough
              rw [← Nat.add_assoc, search_missing moves found, dot]
              exact search_dot posix
            · obtain ⟨choice, finds, only⟩ := ih _ shorter proper rfl
              refine ⟨choice, fun fuel enough => ?_, fun _ => only filled⟩
              obtain ⟨fuel, rfl⟩ := Nat.exists_eq_add_of_le' enough
              rw [← Nat.add_assoc, search_missing moves found]
              exact finds _ (by omega)

end Loop

/-- A name that is not a prefix of the segments misleads the loop when it is registered, if it has a
slash. -/
theorem Longest.segments_name {endpoint : Endpoint} {fuel : Nat} (posix : libraries.Posix)
    (longest : Longest http pieces choice) (each : ∀ other ∈ pieces, Segment other)
    (trimmed : Trimmed name) (divided : '/' ∈ name) (registered : http name = some endpoint)
    (finds : ProcessBase.search libraries http (fuel + 1) name = some choice) :
    ∃ size, name = join (pieces.take size) ∧ segments name = pieces.take size := by
  have moves : libraries.dirname name ≠ name := by
    intro same
    rcases dirname_shorter posix trimmed with dot | ⟨_, _, shorter⟩
    · rw [← same, dot] at divided
      simp at divided
    · rw [same] at shorter
      exact absurd shorter (Nat.lt_irrefl _)
  rw [search_found moves registered] at finds
  cases finds
  obtain ⟨_, size, _, _, joined, _⟩ := longest
  refine ⟨size, joined, ?_⟩
  rw [joined, segments_join fun other member => each other (List.mem_of_mem_take member)]

/-! ## The name of a request -/

theorem routeName_eq (documented : libraries.Documented) :
    ProcessBase.routeName libraries path first =
      trim (libraries.removePrefix path ('/' :: first)) := by
  rw [ProcessBase.routeName, documented.trimPrefix, documented.trimSuffix, trim]

/-- The first segment is removed from behind a single slash only. -/
theorem routeName_cases (documented : libraries.Documented) (begins : path.head? = some '/')
    (cut : segments path = first :: pieces) :
    (∃ rest, path = '/' :: first ++ rest ∧ segments rest = pieces ∧
      ProcessBase.routeName libraries path first = trim rest) ∨
    (¬ '/' :: first <+: path ∧ ProcessBase.routeName libraries path first = trim path) := by
  have segment : Segment first := segment_of_mem (cut ▸ List.mem_cons_self)
  rw [routeName_eq documented]
  by_cases start : '/' :: first <+: path
  · left
    obtain ⟨rest, rfl⟩ := start
    rw [documented.removePrefix_append]
    refine ⟨rest, rfl, ?_, rfl⟩
    rw [List.cons_append, segments_cons_slash] at cut
    have filled : first ++ rest ≠ [] := by simp [segment.filled]
    have front : (first ++ rest).head? ≠ some '/' := by
      rw [List.head?_append_of_ne_nil _ segment.filled]
      exact segment.trimmed.first
    obtain ⟨piece, others, whole, piece_segment, ends⟩ := exists_segment filled front
    rw [whole, segments_append piece_segment ends, List.cons.injEq] at cut
    obtain ⟨rfl, same⟩ := cut
    rw [List.append_cancel_left whole, same]
  · right
    exact ⟨start, by rw [documented.removePrefix_none _ _ start]⟩

theorem consumeAsset_selected {process : ProcessBase Endpoint} {tokens : List (List Char)} :
    (process.consumeAsset libraries tokens).selected = none := by
  rw [ProcessBase.consumeAsset]
  split <;> rfl

/-- A request that passes the checks is answered by what the loop finds. -/
theorem consume_selected (documented : libraries.Documented) {process : ProcessBase Endpoint}
    (begins : path.head? = some '/') (cut : segments path = first :: pieces)
    (decoded : Http.decodeCharacters first = .ok process.id) (fuel : Nat) :
    (process.consume libraries fuel path).map Answer.selected =
      ProcessBase.search libraries process.http fuel
        (ProcessBase.routeName libraries path first) := by
  have tokens : libraries.tokenize path ['/'] = first :: pieces := by
    rw [documented.tokenize]
    exact cut
  rw [ProcessBase.consume]
  simp only [begins, tokens, decoded, if_true, Option.map_map]
  cases ProcessBase.search libraries process.http fuel
      (ProcessBase.routeName libraries path first) with
  | none => rfl
  | some found =>
      cases found with
      | some found => rfl
      | none => exact congrArg some consumeAsset_selected

/-- A plain path is one whose name is the joined segments. -/
theorem plain_of_routeName {rest : List Char} (whole : path = '/' :: first ++ rest)
    (joined : trim rest = join pieces) : Plain first pieces path := by
  obtain ⟨behind, after, split, slashes, others⟩ := exists_trim rest
  exact ⟨behind, after, slashes, others, by rw [whole, ← joined, ← split]⟩

theorem Plain.routeName (plain : Plain first pieces path) (documented : libraries.Documented)
    (each : ∀ piece ∈ pieces, Segment piece) :
    ProcessBase.routeName libraries path first = join pieces := by
  obtain ⟨behind, after, slashes, others, rfl⟩ := plain
  rw [routeName_eq documented, documented.removePrefix_append]
  exact trim_slashes slashes others (trimmed_join each)

/-- A process with one route. -/
theorem routes_single {id : List Char} {assets : List Char → Option Asset} (endpoint : Endpoint)
    (trimmed : Trimmed name) :
    (ProcessBase.new id assets).routes [('/' :: name, endpoint)] =
      some ⟨id, Function.update (fun _ => none) name (some endpoint), assets⟩ := by
  have admitted : ('/' :: name).length = 1 ∨ ('/' :: name).getLast? ≠ some '/' := by
    by_cases empty : name = []
    · exact .inl (by simp [empty])
    · right
      rw [← List.singleton_append, List.getLast?_append_of_ne_nil _ empty]
      exact trimmed.last
  rw [ProcessBase.routes, List.foldlM_cons, ProcessBase.route, if_pos ⟨rfl, admitted⟩]
  rfl

theorem routes_id {process after : ProcessBase Endpoint} {named : List (List Char × Endpoint)}
    (routed : process.routes named = some after) : after.id = process.id := by
  induction named generalizing process with
  | nil =>
      cases routed
      rfl
  | cons entry rest ih =>
      rw [ProcessBase.routes, List.foldlM_cons, Option.bind_eq_bind,
        Option.bind_eq_some_iff] at routed
      obtain ⟨next, admitted, others⟩ := routed
      have same : next.id = process.id := by
        rw [ProcessBase.route, Option.ite_none_right_eq_some] at admitted
        rw [← Option.some.inj admitted.2]
      exact (ih others).trans same

section Selection

variable {id : List Char} {assets : List Char → Option Asset}
  (documented : libraries.Documented) (posix : libraries.Posix) (begins : path.head? = some '/')
  (cut : segments path = first :: pieces) (decoded : Http.decodeCharacters first = .ok id)

include documented posix begins cut decoded

/-- The loop ends for every path. -/
theorem consume_terminates {process : ProcessBase Endpoint} (named : process.id = id) :
    ∃ bound choice, ∀ fuel ≥ bound,
      (process.consume libraries fuel path).map Answer.selected = some choice := by
  have trimmed : Trimmed (ProcessBase.routeName libraries path first) := by
    rw [routeName_eq documented]
    exact trimmed_trim _
  obtain ⟨choice, finds, _⟩ := search_terminates posix process.http trimmed
  refine ⟨(ProcessBase.routeName libraries path first).length + 2, choice, fun fuel enough => ?_⟩
  rw [consume_selected documented begins cut (named ▸ decoded)]
  exact finds fuel enough

theorem selects_of_plain (plain : Plain first pieces path) (proper : ['.'] ∉ pieces)
    {process : ProcessBase Endpoint} (named : process.id = id) :
    Selects libraries process path pieces := by
  have each : ∀ piece ∈ pieces, Segment piece :=
    fun piece member => segment_of_mem (cut ▸ List.mem_cons_of_mem _ member)
  obtain ⟨choice, longest, finds⟩ := search_join posix process.http each proper
  refine ⟨pieces.length + 2, choice, longest, fun fuel enough => ?_⟩
  rw [consume_selected documented begins cut (named ▸ decoded), plain.routeName documented each]
  exact finds fuel enough

/-- Without segments behind the first one, the loop does not come to the empty name from another
one. -/
theorem plain_of_selects_nil {endpoint : Endpoint} (nothing : pieces = [])
    (selects : Selects libraries
      ⟨id, Function.update (fun _ => none) [] (some endpoint), assets⟩ path pieces) :
    Plain first pieces path := by
  subst nothing
  rcases routeName_cases documented begins cut with ⟨rest, whole, others, _⟩ | ⟨_, same⟩
  · refine plain_of_routeName whole (Classical.byContradiction fun filled => ?_)
    have nonempty : trim rest ≠ [] := by simpa [join] using filled
    obtain ⟨piece, after, split, segment, ends⟩ :=
      exists_segment nonempty (trimmed_trim rest).first
    have cut := segments_trim rest
    rw [split, segments_append segment ends, others] at cut
    cases cut
  · exfalso
    obtain ⟨bound, choice, longest, finds⟩ := selects
    have filled : trim path ≠ [] := by
      intro empty
      have trimmed := segments_trim path
      rw [empty, cut] at trimmed
      simp [segments] at trimmed
    obtain ⟨found, ends, only⟩ := search_terminates posix
      (Function.update (fun _ => none) [] (some endpoint)) (trimmed_trim path)
    obtain rfl := only filled fun other different => Function.update_of_ne different _ _
    have selected := finds (bound + ((trim path).length + 2)) (Nat.le_add_right _ _)
    rw [consume_selected documented begins cut decoded, same,
      ends _ (Nat.le_add_left _ _)] at selected
    cases selected
    have missing := longest 0 (Nat.zero_le _) fun filled => absurd rfl filled
    simp [join] at missing

/-- With more segments, the loop begins with a name that is not a prefix of the segments unless the
path is plain. -/
theorem plain_of_selects_cons {endpoint : Endpoint} (more : pieces ≠ [])
    (selects : Selects libraries
      ⟨id, Function.update (fun _ => none) (ProcessBase.routeName libraries path first)
        (some endpoint), assets⟩ path pieces) :
    Plain first pieces path := by
  obtain ⟨bound, choice, longest, finds⟩ := selects
  have each : ∀ piece ∈ pieces, Segment piece :=
    fun piece member => segment_of_mem (cut ▸ List.mem_cons_of_mem _ member)
  have selected := finds (bound + 1) (Nat.le_add_right _ _)
  rw [consume_selected documented begins cut decoded] at selected
  have registered : Function.update (fun _ => none) (ProcessBase.routeName libraries path first)
      (some endpoint) (ProcessBase.routeName libraries path first) = some endpoint := by
    simp
  have misleads : Trimmed (ProcessBase.routeName libraries path first) →
      '/' ∈ ProcessBase.routeName libraries path first → ∃ size,
        ProcessBase.routeName libraries path first = join (pieces.take size) ∧
          segments (ProcessBase.routeName libraries path first) = pieces.take size :=
    fun trimmed divided => longest.segments_name posix each trimmed divided registered selected
  have undivided : '/' ∉ ProcessBase.routeName libraries path first →
      segments (ProcessBase.routeName libraries path first) =
        if ProcessBase.routeName libraries path first = [] then []
        else [ProcessBase.routeName libraries path first] := by
    intro single
    split
    · rename_i empty
      simp [empty, segments]
    · rename_i filled
      exact segments_single ⟨filled, single⟩
  rcases routeName_cases documented begins cut with ⟨rest, whole, others, same⟩ | ⟨_, same⟩
  · rw [same, segments_trim, others] at misleads undivided
    refine plain_of_routeName whole ?_
    by_cases divided : '/' ∈ trim rest
    · obtain ⟨size, joined, all⟩ := misleads (trimmed_trim rest) divided
      rw [joined, ← all]
    · have single := undivided divided
      split at single
      · exact absurd single more
      · rw [single]
        simp [join]
  · exfalso
    rw [same, segments_trim, cut] at misleads undivided
    by_cases divided : '/' ∈ trim path
    · obtain ⟨size, _, all⟩ := misleads (trimmed_trim path) divided
      have lengths := congrArg List.length all
      simp at lengths
      omega
    · have single := undivided divided
      split at single
      · cases single
      · exact more (List.cons.inj single).2

end Selection

/-- A request is always consumed.  In every process with its id, its endpoint is the one for the
longest prefix of its segments, exactly if the path is plain. -/
theorem selects_iff_plain [Nonempty Endpoint] {id : List Char} {assets : List Char → Option Asset}
    (documented : libraries.Documented) (posix : libraries.Posix) (begins : path.head? = some '/')
    (cut : segments path = first :: pieces) (decoded : Http.decodeCharacters first = .ok id)
    (proper : ['.'] ∉ pieces) :
    (∀ process : ProcessBase Endpoint, process.id = id → ∃ bound choice, ∀ fuel ≥ bound,
      (process.consume libraries fuel path).map Answer.selected = some choice) ∧
    ((∀ (named : List (List Char × Endpoint)) (process : ProcessBase Endpoint),
      (ProcessBase.new id assets).routes named = some process →
        Selects libraries process path pieces) ↔ Plain first pieces path) := by
  constructor
  · intro process named
    exact consume_terminates documented posix begins cut decoded named
  · constructor
    · intro selects
      obtain ⟨endpoint⟩ := ‹Nonempty Endpoint›
      by_cases nothing : pieces = []
      · have trimmed : Trimmed [] := ⟨by simp, by simp⟩
        exact plain_of_selects_nil documented posix begins cut decoded nothing
          (selects _ _ (routes_single endpoint trimmed))
      · have trimmed : Trimmed (ProcessBase.routeName libraries path first) := by
          rw [routeName_eq documented]
          exact trimmed_trim _
        exact plain_of_selects_cons documented posix begins cut decoded nothing
          (selects _ _ (routes_single endpoint trimmed))
    · intro plain named process routed
      exact selects_of_plain documented posix begins cut decoded plain proper (routes_id routed)

/-- A process with the endpoint `/a/b`. -/
def nested : ProcessBase Nat :=
  ⟨['p'], Function.update (fun _ => none) "a/b".toList (some 0), fun _ => none⟩

theorem selects_iff_plain_trailing :
    Selects pathLibraries nested "/p//a/b/".toList [['a'], ['b']] :=
  (selects_iff_plain pathLibraries_documented pathLibraries_posix (by decide)
    (by decide : segments "/p//a/b/".toList = [['p'], ['a'], ['b']]) (by rfl) (by decide)).2.mpr
    ⟨"//".toList, "/".toList, by simp [Slashes], by simp [Slashes], by decide⟩
    [("/a/b".toList, 0)] nested (by rfl)

/-- The endpoint is found neither behind two slashes nor with two slashes inside. -/
theorem not_selects :
    (ProcessBase.new ['p'] fun _ => none).routes [("/a/b".toList, 0)] = some nested ∧
    segments "//p/a/b".toList = [['p'], ['a'], ['b']] ∧
    segments "/p/a//b".toList = [['p'], ['a'], ['b']] ∧
    ¬ Selects pathLibraries nested "//p/a/b".toList [['a'], ['b']] ∧
    ¬ Selects pathLibraries nested "/p/a//b".toList [['a'], ['b']] := by
  have refutes : ∀ path : List Char, (∀ fuel ≥ 9,
      (nested.consume pathLibraries fuel path).map Answer.selected = some none) →
      ¬ Selects pathLibraries nested path [['a'], ['b']] := by
    rintro path missed ⟨bound, choice, longest, finds⟩
    have selected := finds (bound + 9) (by omega)
    rw [missed (bound + 9) (by omega)] at selected
    cases selected
    have missing := longest 2 (by decide) (by decide)
    simp [nested, join, List.intercalate] at missing
  refine ⟨by rfl, by decide, by decide, refutes _ fun fuel enough => ?_,
    refutes _ fun fuel enough => ?_⟩
  · obtain ⟨fuel, rfl⟩ := Nat.exists_eq_add_of_le' enough
    rfl
  · obtain ⟨fuel, rfl⟩ := Nat.exists_eq_add_of_le' enough
    rfl

end Libprocess.Requests
