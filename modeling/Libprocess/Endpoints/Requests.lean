import Libprocess.Endpoints.Paths
import Mathlib.Data.List.Infix
import Mathlib.Logic.Function.Basic

/-!
# Requests for endpoints and assets

`ProcessManager::handle` looks for the process that a request is for, which the first segment of the
path names; if there is none, another process may be delegated to.  `ProcessBase::consume` looks for
the endpoint with the longest prefix of the path, then for an asset.
-/

namespace Libprocess.Requests

open Paths
open Http (decodeCharacters)

universe u

/-- The functions of `strings` and `Path` that are used on paths. -/
structure PathLibraries where
  tokenize : (text delimiters : List Char) → List (List Char)
  /-- `strings::remove` with `PREFIX` -/
  removePrefix : (text initial : List Char) → List Char
  /-- `strings::trim` with `PREFIX` -/
  trimPrefix : (text characters : List Char) → List Char
  /-- `strings::trim` with `SUFFIX` -/
  trimSuffix : (text characters : List Char) → List Char
  dirname : List Char → List Char
  extension : List Char → Option (List Char)

/-- What is known of `strings`. -/
structure PathLibraries.Documented (libraries : PathLibraries) : Prop where
  tokenize : ∀ text delimiters,
    libraries.tokenize text delimiters = Http.Query.tokens delimiters text
  removePrefix_append : ∀ text initial, libraries.removePrefix (initial ++ text) initial = text
  removePrefix_none : ∀ text initial, ¬ initial <+: text →
    libraries.removePrefix text initial = text
  trimPrefix : ∀ text characters,
    libraries.trimPrefix text characters = text.dropWhile (· ∈ characters)
  trimSuffix : ∀ text characters,
    libraries.trimSuffix text characters = text.rdropWhile (· ∈ characters)

/-- What POSIX says of `dirname` for a text without a slash at either end. -/
structure PathLibraries.Posix (libraries : PathLibraries) : Prop where
  single : ∀ text, '/' ∉ text → libraries.dirname text = ['.']
  nested : ∀ directory slashes piece, Trimmed directory → directory ≠ [] → Slashes slashes →
    slashes ≠ [] → Segment piece → libraries.dirname (directory ++ slashes ++ piece) = directory

/-- `ProcessBase::Asset` -/
structure Asset where
  path : List Char
  types : List (List Char × List Char)
  deriving DecidableEq, Repr

variable {Endpoint : Type u}

/-- What a process reads of itself when it consumes a request. -/
structure ProcessBase (Endpoint : Type u) where
  id : List Char
  /-- `handlers.http` -/
  http : List Char → Option Endpoint
  assets : List Char → Option Asset

/-- How a request is answered: by an endpoint, found under its name, or with a response. -/
inductive Answer (Endpoint : Type u) where
  | endpoint (name : List Char) (endpoint : Endpoint)
  | path (path : List Char) (contentType : Option (List Char))
  | notFound
  deriving DecidableEq, Repr

/-- The endpoint that was selected. -/
def Answer.selected : Answer Endpoint → Option (List Char × Endpoint)
  | .endpoint name found => some (name, found)
  | .path _ _ => none
  | .notFound => none

namespace ProcessBase

/-- A process without routes. -/
def new (id : List Char) (assets : List Char → Option Asset) : ProcessBase Endpoint :=
  ⟨id, fun _ => none, assets⟩

/-- `ProcessBase::route`.  There is no result where a check fails. -/
def route (process : ProcessBase Endpoint) (name : List Char) (endpoint : Endpoint) :
    Option (ProcessBase Endpoint) :=
  if name.head? = some '/' ∧ (name.length = 1 ∨ name.getLast? ≠ some '/') then
    some { process with http := Function.update process.http (name.drop 1) (some endpoint) }
  else none

/-- `route` for one name after the other. -/
def routes (process : ProcessBase Endpoint) (named : List (List Char × Endpoint)) :
    Option (ProcessBase Endpoint) :=
  named.foldlM (fun process entry => process.route entry.1 entry.2) process

variable (libraries : PathLibraries)

/-- The loop of `consume` over the name, with as many rounds as there is fuel.  The outer option is
none if the fuel does not suffice. -/
def search (http : List Char → Option Endpoint) :
    Nat → List Char → Option (Option (List Char × Endpoint))
  | 0, _ => none
  | fuel + 1, name =>
      if libraries.dirname name = name then some none
      else
        match http name with
        | some endpoint => some (some (name, endpoint))
        | none => search http fuel (libraries.dirname name)

/-- The name that `consume` begins with. -/
def routeName (path first : List Char) : List Char :=
  let name := libraries.removePrefix path ('/' :: first)
  libraries.trimSuffix (libraries.trimPrefix name ['/']) ['/']

/-- The response with an asset. -/
def serve (asset : Asset) (tokens : List (List Char)) : Answer Endpoint :=
  let path := (tokens.drop 2).foldl (fun path token => path ++ '/' :: token) asset.path
  .path path ((libraries.extension path).bind fun extension => asset.types.lookup extension)

/-- The last part of `consume`: the second token names an asset. -/
def consumeAsset (process : ProcessBase Endpoint) (tokens : List (List Char)) : Answer Endpoint :=
  match process.assets (tokens[1]?.getD []) with
  | some asset => serve libraries asset tokens
  | none => .notFound

/-- `ProcessBase::consume(HttpEvent)`.  There is no result where a check fails. -/
def consume (fuel : Nat) (process : ProcessBase Endpoint) (path : List Char) :
    Option (Answer Endpoint) :=
  let tokens := libraries.tokenize path ['/']
  match path.head?, tokens with
  | some '/', first :: _ =>
      match decodeCharacters first with
      | .ok id =>
          if id = process.id then
            (search libraries process.http fuel (routeName libraries path first)).map fun found =>
              match found with
              | some (name, endpoint) => .endpoint name endpoint
              | none => consumeAsset libraries process tokens
          else none
      | .error _ => none
  | _, _ => none

end ProcessBase

/-- `handle` tries to determine a receiver. -/
def findReceiver (libraries : PathLibraries) (delegate : Option (List Char)) (path : List Char) :
    List Char × Option (List Char) :=
  match libraries.tokenize path ['/'], delegate with
  | [], some delegate => ('/' :: delegate, some delegate)
  | [], none => (path, none)
  | first :: _, _ =>
      match decodeCharacters first with
      | .ok id => (path, some id)
      | .error _ => (path, none)

/-- Otherwise it tries to delegate. -/
def delegateRequest (delegate : Option (List Char)) (used : List Char → Bool)
    (found : List Char × Option (List Char)) : List Char × Option (List Char) :=
  match delegate with
  | some delegate =>
      if found.2.any used then found else ('/' :: delegate ++ found.1, some delegate)
  | none => found

/-- The receiver in `ProcessManager::handle`, and the path that it gets.  `used` and `usedThen` are
the ids that `use` knows when the receiver is looked up and when the request is delivered; the rules
of the firewall are passed. -/
def handle (libraries : PathLibraries) (delegate : Option (List Char))
    (used usedThen : List Char → Bool) (path : List Char) : Option (List Char × List Char) :=
  if path.head? ≠ some '/' ∨ ['/', '.', '.'] <:+: path then none
  else
    let forwarded := delegateRequest delegate used (findReceiver libraries delegate path)
    forwarded.2.bind fun receiver =>
      if usedThen receiver then some (receiver, forwarded.1) else none

/-! ## Functions that behave as documented -/

/-- `dirname` of POSIX. -/
def dirname (text : List Char) : List Char :=
  let name := text.rdropWhile (· = '/')
  if name = [] then if text = [] then ['.'] else ['/']
  else if '/' ∉ name then ['.']
  else
    let directory := (name.rdropWhile (· ≠ '/')).rdropWhile (· = '/')
    if directory = [] then ['/'] else directory

def pathLibraries : PathLibraries where
  tokenize text delimiters := Http.Query.tokens delimiters text
  removePrefix text initial := if initial <+: text then text.drop initial.length else text
  trimPrefix text characters := text.dropWhile (· ∈ characters)
  trimSuffix text characters := text.rdropWhile (· ∈ characters)
  dirname := dirname
  extension text :=
    let base := text.rtakeWhile (· ≠ '/')
    if '.' ∈ base then some ('.' :: base.rtakeWhile (· ≠ '.')) else none

theorem pathLibraries_documented : pathLibraries.Documented where
  tokenize _ _ := rfl
  removePrefix_append text initial := by
    simp [pathLibraries]
  removePrefix_none text initial other := if_neg other
  trimPrefix _ _ := rfl
  trimSuffix _ _ := rfl

/-- What is dropped at the end of a text. -/
theorem rdropWhile_append {drops : Char → Bool} {kept dropped : List Char}
    (last : ∀ character, kept.getLast? = some character → drops character = false)
    (others : ∀ character ∈ dropped, drops character = true) :
    (kept ++ dropped).rdropWhile drops = kept := by
  have skipped : ∀ character ∈ dropped.reverse, drops character = true :=
    fun character member => others character (List.mem_reverse.mp member)
  rw [List.rdropWhile, List.reverse_append, List.dropWhile_append_of_pos skipped,
    List.reverse_eq_iff]
  cases reversed : kept.reverse with
  | nil => rfl
  | cons character rest =>
      have stops := last character (by rw [← List.head?_reverse, reversed]; rfl)
      rw [List.dropWhile_cons_of_neg (by simp [stops])]

theorem rdropWhile_slashes {text slashes : List Char} (last : text.getLast? ≠ some '/')
    (slash : Slashes slashes) : (text ++ slashes).rdropWhile (· = '/') = text := by
  refine rdropWhile_append (fun character found => ?_) fun character member => ?_
  · apply decide_eq_false
    rintro rfl
    exact last found
  · exact decide_eq_true (slash character member)

theorem rdropWhile_slash {text : List Char} (last : text.getLast? ≠ some '/') :
    text.rdropWhile (· = '/') = text := by
  have none : Slashes [] := by simp [Slashes]
  have whole := rdropWhile_slashes last none
  rwa [List.append_nil] at whole

theorem pathLibraries_posix : pathLibraries.Posix where
  single text undivided := by
    have last : text.getLast? ≠ some '/' := fun found => undivided (List.mem_of_getLast? found)
    simp only [pathLibraries, dirname, rdropWhile_slash last, undivided]
    by_cases empty : text = []
    · simp [empty]
    · simp [empty]
  nested directory slashes piece trimmed filled slash between segment := by
    have last : (directory ++ slashes ++ piece).getLast? ≠ some '/' := by
      rw [List.getLast?_append_of_ne_nil _ segment.filled]
      exact segment.trimmed.last
    have divided : '/' ∈ directory ++ slashes ++ piece := by
      cases slashes with
      | nil => exact absurd rfl between
      | cons character rest =>
          obtain rfl := slash character List.mem_cons_self
          simp
    have front : (directory ++ slashes ++ piece).rdropWhile (· ≠ '/') = directory ++ slashes := by
      refine rdropWhile_append (fun character found => ?_) fun character member => ?_
      · rw [List.getLast?_append_of_ne_nil _ between] at found
        simpa using slash character (List.mem_of_getLast? found)
      · apply decide_eq_true
        rintro rfl
        exact segment.undivided member
    have nonempty : directory ++ slashes ++ piece ≠ [] := List.ne_nil_of_mem divided
    simp only [pathLibraries, dirname, rdropWhile_slash last, if_neg nonempty]
    rw [if_neg (not_not_intro divided), front, rdropWhile_slashes trimmed.last slash, if_neg filled]

end Libprocess.Requests
