import Libprocess.Http.Url
import Mathlib.Data.List.DropRight

/-!
# Segments of a path

A text is cut at its slashes, and what is not empty is a segment.  A text that neither begins nor
ends with a slash, and has single slashes between its segments, is its segments joined.
-/

namespace Libprocess.Paths

open Http.Query (tokens tokens_delimited tokens_nil tokens_skip tokens_append)
open Http.URL (mem_splitOnP tokens_eq_nil)

/-- The segments of a text. -/
abbrev segments (text : List Char) : List (List Char) := tokens ['/'] text

/-- Segments with single slashes between them. -/
def join (pieces : List (List Char)) : List Char := ['/'].intercalate pieces

/-- What a segment is. -/
structure Segment (piece : List Char) : Prop where
  filled : piece ≠ []
  undivided : '/' ∉ piece

/-- No slash at either end. -/
structure Trimmed (text : List Char) : Prop where
  first : text.head? ≠ some '/'
  last : text.getLast? ≠ some '/'

/-- A text of slashes. -/
def Slashes (text : List Char) : Prop := ∀ character ∈ text, character = '/'

variable {text rest piece : List Char} {pieces : List (List Char)}

/-! ## Segments -/

theorem segment_of_mem (member : piece ∈ segments text) : Segment piece := by
  obtain ⟨cut, filled⟩ := List.mem_filter.mp member
  refine ⟨by simpa using filled, fun divided => ?_⟩
  exact (mem_splitOnP cut '/' divided).2 (List.mem_singleton_self '/')

@[simp] theorem segments_cons_slash : segments ('/' :: text) = segments text := by
  have cut : segments ([] ++ '/' :: text) = segments [] ++ segments text :=
    tokens_delimited (List.mem_singleton_self '/')
  simpa [segments] using cut

theorem segments_eq_nil : segments text = [] ↔ Slashes text := by
  rw [segments, tokens_eq_nil]
  simp [Slashes]

theorem segments_slashes_append (slashes : Slashes text) :
    segments (text ++ rest) = segments rest :=
  tokens_skip fun character member => List.mem_singleton.mpr (slashes character member)

/-- Slashes behind a text make no difference. -/
theorem segments_append_slashes (slashes : Slashes rest) :
    segments (text ++ rest) = segments text := by
  cases rest with
  | nil => rw [List.append_nil]
  | cons character rest =>
      obtain rfl := slashes character List.mem_cons_self
      have nothing : segments rest = [] :=
        segments_eq_nil.mpr fun other member => slashes other (List.mem_cons_of_mem _ member)
      calc segments (text ++ '/' :: rest)
          = segments text ++ segments rest := tokens_delimited (List.mem_singleton_self '/')
        _ = segments text := by rw [nothing, List.append_nil]

/-- A segment ends before a slash. -/
theorem segments_append (segment : Segment piece) (ends : rest = [] ∨ rest.head? = some '/') :
    segments (piece ++ rest) = piece :: segments rest := by
  refine tokens_append segment.filled (fun character member separates => ?_)
    fun character next => ?_
  · obtain rfl := List.mem_singleton.mp separates
    exact segment.undivided member
  · rcases ends with rfl | slash
    · cases next
    · rw [Option.some.inj (next.symm.trans slash)]
      exact List.mem_singleton_self '/'

theorem segments_single (segment : Segment piece) : segments piece = [piece] := by
  have whole : segments (piece ++ []) = piece :: segments [] := segments_append segment (.inl rfl)
  simpa [segments] using whole

/-- What does not begin with a slash begins with a segment. -/
theorem exists_segment (filled : text ≠ []) (first : text.head? ≠ some '/') :
    ∃ piece rest, text = piece ++ rest ∧ Segment piece ∧ (rest = [] ∨ rest.head? = some '/') := by
  refine ⟨text.takeWhile (· ≠ '/'), text.dropWhile (· ≠ '/'), by simp, ⟨?_, ?_⟩, ?_⟩
  · cases text with
    | nil => exact absurd rfl filled
    | cons character rest =>
        have kept : character ≠ '/' := by simpa using first
        simp [kept]
  · intro member
    simpa using List.mem_takeWhile_imp member
  · cases remaining : text.dropWhile (· ≠ '/') with
    | nil => exact .inl rfl
    | cons character rest =>
        right
        have stopped := List.head?_dropWhile_not (· ≠ '/') text
        rw [remaining] at stopped
        simpa using stopped

/-- A segment stands at the begin of a text or behind a slash. -/
theorem infix_of_mem (member : piece ∈ segments text) (first : text.head? = some '/') :
    '/' :: piece <:+: text := by
  induction size : text.length using Nat.strongRecOn generalizing text with
  | ind size ih =>
      subst size
      obtain ⟨rest, rfl⟩ := List.head?_eq_some_iff.mp first
      rw [segments_cons_slash] at member
      by_cases filled : rest = []
      · simp [filled, segments] at member
      · by_cases slash : rest.head? = some '/'
        · exact (ih rest.length (by simp) member slash rfl).trans (List.suffix_cons _ _).isInfix
        · obtain ⟨initial, others, rfl, segment, ends⟩ := exists_segment filled slash
          rw [segments_append segment ends, List.mem_cons] at member
          rcases member with rfl | later
          · exact ⟨[], others, by simp⟩
          · have next : others.head? = some '/' := by
              refine ends.resolve_left ?_
              rintro rfl
              simp [segments] at later
            have shorter : others.length < ('/' :: (initial ++ others)).length := by
              rw [List.length_cons, List.length_append]
              omega
            have inside := ih others.length shorter later next rfl
            exact inside.trans ⟨'/' :: initial, [], by simp⟩

/-! ## Joined segments -/

theorem join_concat (filled : pieces ≠ []) :
    join (pieces ++ [piece]) = join pieces ++ '/' :: piece := by
  induction pieces with
  | nil => exact absurd rfl filled
  | cons first others ih =>
      cases others with
      | nil => simp [join, List.intercalate]
      | cons second others =>
          have tail := ih (by simp)
          simp only [join, List.intercalate, List.cons_append, List.intersperse,
            List.flatten_cons] at tail ⊢
          simp [tail]

theorem segments_join (each : ∀ piece ∈ pieces, Segment piece) :
    segments (join pieces) = pieces := by
  induction pieces using List.reverseRecOn with
  | nil => simp [join, segments]
  | append_singleton pieces piece ih =>
      have last := each piece (by simp)
      rcases List.eq_nil_or_concat pieces with rfl | filled
      · simpa [join] using segments_single last
      · have nonempty : pieces ≠ [] := by
          obtain ⟨_, _, rfl⟩ := filled
          simp
        have cut : segments (join pieces ++ '/' :: piece) =
            segments (join pieces) ++ segments piece :=
          tokens_delimited (List.mem_singleton_self '/')
        rw [join_concat nonempty, cut, segments_single last,
          ih fun other member => each other (List.mem_append_left _ member)]

theorem Segment.trimmed (segment : Segment piece) : Trimmed piece where
  first found := segment.undivided (List.mem_of_head? found)
  last found := segment.undivided (List.mem_of_getLast? found)

theorem join_ne_nil (filled : pieces ≠ []) (each : ∀ piece ∈ pieces, Segment piece) :
    join pieces ≠ [] := by
  intro empty
  have cut := segments_join each
  rw [empty] at cut
  exact filled (cut.symm.trans (by simp [segments]))

theorem trimmed_join (each : ∀ piece ∈ pieces, Segment piece) : Trimmed (join pieces) := by
  induction pieces using List.reverseRecOn with
  | nil => exact ⟨by simp [join], by simp [join]⟩
  | append_singleton pieces piece ih =>
      have last := each piece (by simp)
      have before : ∀ other ∈ pieces, Segment other :=
        fun other member => each other (List.mem_append_left _ member)
      by_cases empty : pieces = []
      · subst empty
        simpa [join] using last.trimmed
      · have filled := join_ne_nil empty before
        rw [join_concat empty]
        constructor
        · rw [List.head?_append_of_ne_nil _ filled]
          exact (ih before).first
        · rw [List.append_cons, List.getLast?_append_of_ne_nil _ last.filled]
          exact last.trimmed.last

/-! ## Trimming -/

/-- `strings::trim(strings::trim(text, strings::PREFIX, "/"), strings::SUFFIX, "/")` -/
def trim (text : List Char) : List Char := (text.dropWhile (· ∈ ['/'])).rdropWhile (· ∈ ['/'])

/-- A text begins like a prefix of it. -/
theorem head?_of_start {initial : List Char} (start : initial <+: text) (filled : initial ≠ []) :
    initial.head? = text.head? := by
  obtain ⟨rest, rfl⟩ := start
  exact (List.head?_append_of_ne_nil initial filled).symm

theorem of_getLast?_rdropWhile {drops : Char → Bool} {character : Char}
    (found : (text.rdropWhile drops).getLast? = some character) : drops character = false := by
  have filled : text.rdropWhile drops ≠ [] := by
    intro empty
    simp [empty] at found
  rw [List.getLast?_eq_getLast_of_ne_nil filled] at found
  have stopped := List.rdropWhile_last_not drops text filled
  rw [Option.some.inj found] at stopped
  simpa using stopped

theorem trimmed_trim (text : List Char) : Trimmed (trim text) := by
  constructor
  · by_cases filled : trim text = []
    · simp [filled]
    · have start : trim text <+: text.dropWhile (· ∈ ['/']) := List.rdropWhile_prefix _ _
      rw [head?_of_start start filled]
      intro found
      have stopped := List.head?_dropWhile_not (· ∈ ['/']) text
      rw [found] at stopped
      simp at stopped
  · intro found
    simpa using of_getLast?_rdropWhile found

/-- What is trimmed are slashes. -/
theorem exists_trim (text : List Char) :
    ∃ before after, text = before ++ trim text ++ after ∧ Slashes before ∧ Slashes after := by
  refine ⟨text.takeWhile (· ∈ ['/']), (text.dropWhile (· ∈ ['/'])).rtakeWhile (· ∈ ['/']), ?_, ?_,
    ?_⟩
  · rw [List.append_assoc, trim, List.rdropWhile_append_rtakeWhile, List.takeWhile_append_dropWhile]
  · intro character member
    simpa using List.mem_takeWhile_imp member
  · intro character member
    simpa using List.mem_rtakeWhile_imp member

theorem segments_trim (text : List Char) : segments (trim text) = segments text := by
  obtain ⟨before, after, whole, first, last⟩ := exists_trim text
  conv_rhs => rw [whole, segments_append_slashes last, segments_slashes_append first]

theorem dropWhile_slash (first : text.head? ≠ some '/') : text.dropWhile (· ∈ ['/']) = text := by
  cases text with
  | nil => rfl
  | cons character rest =>
      have kept : character ≠ '/' := by simpa using first
      simp [kept]

theorem trim_slashes {before after : List Char} (first : Slashes before) (last : Slashes after)
    (trimmed : Trimmed text) : trim (before ++ text ++ after) = text := by
  have skipped : ∀ {slashes : List Char}, Slashes slashes → ∀ character ∈ slashes,
      decide (character ∈ ['/']) = true := by
    intro slashes all character member
    simp [all character member]
  rw [trim, List.append_assoc, List.dropWhile_append_of_pos (skipped first)]
  by_cases empty : text = []
  · subst empty
    have nothing : after.dropWhile (· ∈ ['/']) = [] := List.dropWhile_eq_nil_iff.mpr (skipped last)
    rw [List.nil_append, nothing, List.rdropWhile_nil]
  · have front : (text ++ after).head? ≠ some '/' := by
      rw [List.head?_append_of_ne_nil _ empty]
      exact trimmed.first
    have back : text.reverse.head? ≠ some '/' := by
      rw [List.head?_reverse]
      exact trimmed.last
    have reversed : Slashes after.reverse := fun character member =>
      last character (List.mem_reverse.mp member)
    rw [dropWhile_slash front, List.rdropWhile, List.reverse_append,
      List.dropWhile_append_of_pos (skipped reversed), dropWhile_slash back, List.reverse_reverse]

/-- A text with a slash inside ends with a segment behind slashes. -/
theorem exists_directory (trimmed : Trimmed text) (divided : '/' ∈ text) :
    ∃ directory slashes piece, text = directory ++ slashes ++ piece ∧ Trimmed directory ∧
      directory ≠ [] ∧ Slashes slashes ∧ slashes ≠ [] ∧ Segment piece := by
  obtain ⟨front, piece, rfl, undivided⟩ : ∃ front piece, text = front ++ '/' :: piece ∧
      '/' ∉ piece := by
    obtain ⟨before, after, whole, apart⟩ :=
      List.eq_append_cons_of_mem (List.mem_reverse.mpr divided)
    refine ⟨after.reverse, before.reverse, ?_, by simpa using apart⟩
    simpa using congrArg List.reverse whole
  have behind : piece ≠ [] := by
    rintro rfl
    exact trimmed.last (by simp)
  have slashes : Slashes (front.rtakeWhile (· = '/')) := by
    intro character member
    simpa using List.mem_rtakeWhile_imp member
  have proper : front.rdropWhile (· = '/') ≠ [] := by
    intro all
    have whole : front.rdropWhile (· = '/') ++ front.rtakeWhile (· = '/') = front :=
      List.rdropWhile_append_rtakeWhile
    rw [all, List.nil_append] at whole
    cases front with
    | nil => exact trimmed.first rfl
    | cons character rest =>
        rw [whole] at slashes
        have slash := slashes character List.mem_cons_self
        exact trimmed.first (by simp [slash])
  refine ⟨front.rdropWhile (· = '/'), front.rtakeWhile (· = '/') ++ ['/'], piece, ?_, ⟨?_, ?_⟩,
    proper, ?_, by simp, ⟨behind, undivided⟩⟩
  · rw [← List.append_assoc, List.rdropWhile_append_rtakeWhile, ← List.append_cons]
  · have start : front.rdropWhile (· = '/') <+: front ++ '/' :: piece :=
      (List.rdropWhile_prefix _ _).trans (List.prefix_append _ _)
    rw [head?_of_start start proper]
    exact trimmed.first
  · intro found
    simpa using of_getLast?_rdropWhile found
  · intro character member
    rcases List.mem_append.mp member with inside | last
    · exact slashes character inside
    · exact List.mem_singleton.mp last

end Libprocess.Paths
