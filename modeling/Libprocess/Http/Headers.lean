import Libprocess.Http.Encoding

/-!
# Header maps

A header map has at most one entry for a key, and keys are compared without regard to case.  Setting
a key replaces the value of the entry that is there, whose own key is kept.
-/

namespace Libprocess.Http.Headers

variable {headers : Headers} {key other value : String}

theorem sameKey_iff : sameKey key other = true ↔
    key.toList.map Char.toLower = other.toList.map Char.toLower := by
  simp [sameKey]

@[simp] theorem sameKey_refl (key : String) : sameKey key key = true := by
  simp [sameKey]

theorem sameKey_comm (key other : String) : sameKey key other = sameKey other key := by
  rw [Bool.eq_iff_iff, sameKey_iff, sameKey_iff, eq_comm]

/-- Keys that are the same cannot be told apart. -/
theorem sameKey_congr (same : sameKey key other = true) (third : String) :
    sameKey third key = sameKey third other := by
  rw [sameKey_iff] at same
  simp only [sameKey, same]

/-- At most one entry for a key, as in any hash map. -/
def Distinct (headers : Headers) : Prop :=
  headers.Pairwise fun left right => sameKey left.1 right.1 = false

instance (headers : Headers) : Decidable headers.Distinct :=
  inferInstanceAs (Decidable (List.Pairwise _ headers))

@[simp] theorem get_nil : get [] key = none := rfl

theorem get_cons (header : String × String) :
    get (header :: headers) key = if sameKey header.1 key then some header.2 else headers.get key := by
  unfold get
  rw [List.find?_cons]
  cases sameKey header.1 key <;> rfl

theorem get_append (front back : Headers) (key : String) :
    Headers.get (front ++ back) key = (front.get key).or (back.get key) := by
  unfold get
  rw [List.find?_append]
  cases front.find? fun header => sameKey header.1 key <;> rfl

theorem get_eq_none : headers.get key = none ↔
    ∀ header ∈ headers, sameKey header.1 key = false := by
  simp [get]

/-- A key that is the same as another one is the same as those that the other one is. -/
theorem sameKey_left (same : sameKey key other = true) (third : String) :
    sameKey key third = sameKey other third := by
  rw [sameKey_comm, sameKey_congr same, sameKey_comm]

theorem get_replace (headers : Headers) (key value other : String) :
    Headers.get (headers.map fun header => if sameKey header.1 key then (header.1, value) else header)
        other =
      if sameKey key other ∧ headers.any (fun header => sameKey header.1 key) then some value
      else headers.get other := by
  induction headers with
  | nil => simp
  | cons header rest ih =>
      rw [List.map_cons, get_cons, get_cons, List.any_cons, ih]
      by_cases here : sameKey header.1 key = true
      · simp only [here, if_true, Bool.true_or, and_true, sameKey_left here]
        by_cases same : sameKey key other = true
        · simp [same]
        · simp [same]
      · simp only [here, Bool.false_or]
        by_cases same : sameKey header.1 other = true
        · have different : ¬ sameKey key other = true := by
            intro equal
            exact here ((sameKey_congr equal _).trans same)
          simp [same, different]
        · simp [same]

/-- What is set is found under all keys that are the same. -/
theorem get_set (headers : Headers) (key value other : String) :
    (headers.set key value).get other =
      if sameKey key other then some value else headers.get other := by
  unfold set
  split
  · next found =>
      rw [get_replace]
      simp [found]
  · next absent =>
      rw [get_append, get_cons]
      by_cases same : sameKey key other = true
      · have none : headers.get other = none := by
          rw [get_eq_none]
          intro header member
          rw [← sameKey_congr same]
          simpa using fun found => absent (List.any_eq_true.mpr ⟨header, member, found⟩)
        simp [same, none]
      · simp [same]

@[simp] theorem get_set_self (headers : Headers) (key value : String) :
    (headers.set key value).get key = some value := by
  rw [get_set, sameKey_refl]
  rfl

/-- An entry behind a change is an old one or has the new value under a key that is the same. -/
theorem mem_set {header : String × String} (member : header ∈ headers.set key value) :
    header ∈ headers ∨ header = (key, value) ∨
      ∃ old ∈ headers, sameKey old.1 key = true ∧ header = (old.1, value) := by
  unfold set at member
  split at member
  · obtain ⟨old, inside, rfl⟩ := List.mem_map.mp member
    by_cases same : sameKey old.1 key = true
    · exact .inr (.inr ⟨old, inside, same, if_pos same⟩)
    · rw [if_neg same]
      exact .inl inside
  · cases List.mem_append.mp member with
    | inl inside => exact .inl inside
    | inr last => exact .inr (.inl (List.mem_singleton.mp last))

theorem distinct_set (distinct : headers.Distinct) : (headers.set key value).Distinct := by
  unfold set
  split
  · unfold Distinct
    rw [List.pairwise_map]
    apply List.Pairwise.imp _ distinct
    intro left right different
    split <;> split <;> exact different
  · next absent =>
      unfold Distinct
      rw [List.pairwise_append]
      refine ⟨distinct, List.pairwise_singleton _ _, ?_⟩
      intro header member last inside
      rw [List.mem_singleton.mp inside]
      simpa using fun found => absent (List.any_eq_true.mpr ⟨header, member, found⟩)

end Libprocess.Http.Headers
