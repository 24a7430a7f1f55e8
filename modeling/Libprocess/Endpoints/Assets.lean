import Libprocess.Endpoints.Requests

/-!
# Assets stay in their directory

`handle` refuses a path with `/..` in its text, and puts at most the name of a process in front of
the others.  What `consume` appends to the path of an asset are the segments behind the first two.
-/

namespace Libprocess.Requests

open Paths

universe u

variable {Endpoint : Type u} {libraries : PathLibraries} {path forwarded receiver : List Char}
  {delegate : Option (List Char)} {used usedThen : List Char → Bool}

/-- A segment that does not lead out of its directory. -/
structure Inside (piece : List Char) : Prop extends Segment piece where
  contained : ¬ ['.', '.'] <+: piece

theorem inside_of_mem {piece : List Char} (begins : path.head? = some '/')
    (refused : ¬ ['/', '.', '.'] <:+: path) (member : piece ∈ segments path) : Inside piece where
  toSegment := segment_of_mem member
  contained start := by
    have parent : ['/', '.', '.'] <+: '/' :: piece := List.cons_prefix_cons.mpr ⟨rfl, start⟩
    exact refused (parent.isInfix.trans (infix_of_mem member begins))

/-- Only the first segment may be one that was put in front. -/
theorem mem_segments_front {front piece : List Char} (undivided : '/' ∉ front)
    (begins : path.head? = some '/') (member : piece ∈ (segments ('/' :: front ++ path)).drop 2) :
    piece ∈ (segments path).drop 1 := by
  rw [List.cons_append, segments_cons_slash] at member
  by_cases empty : front = []
  · rw [empty, List.nil_append, ← List.drop_drop (i := 1) (j := 1)] at member
    exact List.mem_of_mem_drop member
  · rwa [segments_append ⟨empty, undivided⟩ (.inr begins)] at member

theorem length_segments_name {name : List Char} (undivided : '/' ∉ name) :
    (segments ('/' :: name)).length ≤ 1 := by
  rw [segments_cons_slash]
  by_cases empty : name = []
  · simp [empty, segments]
  · simp [segments_single ⟨empty, undivided⟩]

/-- What the receiver is determined from: the path, or the name of the delegate if there is no
segment. -/
theorem findReceiver_cases (delegate : Option (List Char)) (path : List Char)
    (documented : libraries.Documented) :
    (findReceiver libraries delegate path).1 = path ∨
      ∃ id, delegate = some id ∧ segments path = [] ∧
        (findReceiver libraries delegate path).1 = '/' :: id := by
  rw [findReceiver.eq_def, documented.tokenize]
  split
  · rename_i id empty
    exact .inr ⟨id, rfl, empty, rfl⟩
  · exact .inl rfl
  · left
    split <;> rfl

theorem delegateRequest_cases (delegate : Option (List Char)) (used : List Char → Bool)
    (found : List Char × Option (List Char)) :
    (delegateRequest delegate used found).1 = found.1 ∨
      ∃ id, delegate = some id ∧
        (delegateRequest delegate used found).1 = '/' :: id ++ found.1 := by
  rw [delegateRequest.eq_def]
  split
  · rename_i id
    split
    · exact .inl rfl
    · exact .inr ⟨id, rfl, rfl⟩
  · exact .inl rfl

/-- Behind the second segment, `handle` lets no segment pass that leads out. -/
theorem handle_contained (documented : libraries.Documented)
    (undivided : ∀ id, delegate = some id → '/' ∉ id)
    (handled : handle libraries delegate used usedThen path = some (receiver, forwarded)) :
    ∀ piece ∈ (segments forwarded).drop 2, Inside piece := by
  rw [handle] at handled
  split at handled
  · cases handled
  · rename_i passed
    obtain ⟨begins, refused⟩ := not_or.mp passed
    rw [not_not] at begins
    have same : forwarded =
        (delegateRequest delegate used (findReceiver libraries delegate path)).1 := by
      obtain ⟨_, _, delivered⟩ := Option.bind_eq_some_iff.mp handled
      rw [Option.ite_none_right_eq_some] at delivered
      exact (Prod.ext_iff.mp (Option.some.inj delivered.2)).2.symm
    have inside : ∀ piece ∈ segments path, Inside piece :=
      fun piece member => inside_of_mem begins refused member
    rw [same]
    intro piece member
    rcases findReceiver_cases delegate path documented with found | ⟨id, named, _, found⟩
    · rcases delegateRequest_cases delegate used (findReceiver libraries delegate path) with
        kept | ⟨id, named, put⟩
      · rw [kept, found] at member
        exact inside piece (List.mem_of_mem_drop member)
      · rw [put, found] at member
        have behind := mem_segments_front (undivided id named) begins member
        exact inside piece (List.mem_of_mem_drop behind)
    · have short := length_segments_name (undivided id named)
      rcases delegateRequest_cases delegate used (findReceiver libraries delegate path) with
        kept | ⟨other, also, put⟩
      · rw [kept, found, List.drop_of_length_le (by omega)] at member
        cases member
      · rw [put, found] at member
        have behind := mem_segments_front (undivided other also) List.head?_cons member
        rw [List.drop_of_length_le short] at behind
        cases behind

/-- The path of the response. -/
theorem foldl_segments (start : List Char) (pieces : List (List Char)) :
    pieces.foldl (fun path piece => path ++ '/' :: piece) start =
      start ++ pieces.flatMap ('/' :: ·) := by
  induction pieces generalizing start with
  | nil => simp
  | cons piece rest ih => simp [ih]

theorem consume_path {process : ProcessBase Endpoint} {fuel : Nat} {response : List Char}
    {contentType : Option (List Char)} (documented : libraries.Documented)
    (answered : process.consume libraries fuel path = some (.path response contentType)) :
    ∃ asset, process.assets ((segments path)[1]?.getD []) = some asset ∧
      response = asset.path ++ ((segments path).drop 2).flatMap ('/' :: ·) := by
  have served : process.consumeAsset libraries (segments path) = .path response contentType := by
    rw [ProcessBase.consume.eq_def, documented.tokenize] at answered
    simp only at answered
    split at answered
    · split at answered
      · rw [Option.ite_none_right_eq_some, Option.map_eq_some_iff] at answered
        obtain ⟨_, found, _, answer⟩ := answered
        split at answer
        · cases answer
        · exact answer
      · cases answered
    · cases answered
  rw [ProcessBase.consumeAsset.eq_def] at served
  split at served
  · rename_i asset found
    refine ⟨asset, found, ?_⟩
    rw [ProcessBase.serve, foldl_segments] at served
    cases served
    rfl
  · cases served

/-- The path of a response with an asset is the path of the asset, followed by segments that do not
lead out of it. -/
theorem asset_contained {process : ProcessBase Endpoint} {fuel : Nat} {response : List Char}
    {contentType : Option (List Char)} (documented : libraries.Documented)
    (undivided : ∀ id, delegate = some id → '/' ∉ id)
    (handled : handle libraries delegate used usedThen path = some (receiver, forwarded))
    (answered : process.consume libraries fuel forwarded = some (.path response contentType)) :
    ∃ (asset : Asset) (rest : List (List Char)),
      process.assets ((segments forwarded)[1]?.getD []) = some asset ∧
      response = asset.path ++ rest.flatMap ('/' :: ·) ∧ ∀ piece ∈ rest, Inside piece := by
  obtain ⟨asset, found, same⟩ := consume_path documented answered
  exact ⟨asset, _, found, same, handle_contained documented undivided handled⟩

/-- A process that provides a directory. -/
def provider : ProcessBase Nat :=
  ⟨['d'], fun _ => none, Function.update (fun _ => none) "x".toList (some ⟨"/srv".toList, []⟩)⟩

theorem asset_contained_delegated :
    handle pathLibraries (some ['d']) (· = ['d']) (· = ['d']) "//x//%2e./a.b".toList =
      some (['d'], "/d//x//%2e./a.b".toList) ∧
    provider.consume pathLibraries 9 "/d//x//%2e./a.b".toList =
      some (.path "/srv/%2e./a.b".toList none) ∧
    ∃ (asset : Asset) (rest : List (List Char)),
      provider.assets ((segments "/d//x//%2e./a.b".toList)[1]?.getD []) = some asset ∧
      "/srv/%2e./a.b".toList = asset.path ++ rest.flatMap ('/' :: ·) ∧
        ∀ piece ∈ rest, Inside piece := by
  have handled : handle pathLibraries (some ['d']) (· = ['d']) (· = ['d'])
      "//x//%2e./a.b".toList = some (['d'], "/d//x//%2e./a.b".toList) := by decide +kernel
  have answered : provider.consume pathLibraries 9 "/d//x//%2e./a.b".toList =
      some (.path "/srv/%2e./a.b".toList none) := by decide +kernel
  exact ⟨handled, answered,
    asset_contained pathLibraries_documented (by simp) handled answered⟩

end Libprocess.Requests
