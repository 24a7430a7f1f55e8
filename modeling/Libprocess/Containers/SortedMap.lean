import Mathlib.Data.List.Perm.Lattice
import Mathlib.Data.List.TakeWhile
import Mathlib.Order.Lattice

/-!
# Sorted maps to lists

A map whose keys are iterated in increasing order and whose values are lists.  Programs that
keep elements under a key push them at the end of the list of the key, remove them again, and
take out all elements up to a bound.
-/

namespace Containers

/-- A map to lists, in the order of its keys. -/
structure SortedMap (K V : Type) [LinearOrder K] where
  entries : List (K × List V)
  sorted : entries.Pairwise fun first second => first.1 < second.1

namespace SortedMap

variable {K V : Type} [LinearOrder K]

def empty : SortedMap K V := ⟨[], .nil⟩

/-- All elements, in the order of their keys. -/
def values (map : SortedMap K V) : List V := map.entries.flatMap Prod.snd

/-- `map.begin()->first` -/
def first? (map : SortedMap K V) : Option K := map.entries.head?.map Prod.fst

/-- `map.count(key) > 0` -/
def contains (map : SortedMap K V) (key : K) : Bool := map.entries.any (·.1 = key)

section Entries

variable {key : K} {value : V} {removed : V → Bool} {entries : List (K × List V)}
  {entry : K × List V}

def pushEntry (key : K) (value : V) : List (K × List V) → List (K × List V)
  | [] => [(key, [value])]
  | entry :: rest =>
      if key < entry.1 then (key, [value]) :: entry :: rest
      else if key = entry.1 then (entry.1, entry.2 ++ [value]) :: rest
      else entry :: pushEntry key value rest

def removeEntry (key : K) (removed : V → Bool) : List (K × List V) → List (K × List V)
  | [] => []
  | entry :: rest =>
      if key = entry.1 then
        match entry.2.filter fun value => !removed value with
        | [] => rest
        | head :: tail => (entry.1, head :: tail) :: rest
      else entry :: removeEntry key removed rest

/-- What `removeEntry` takes out. -/
def removedValues (key : K) (removed : V → Bool) : List (K × List V) → List V
  | [] => []
  | entry :: rest =>
      if key = entry.1 then entry.2.filter removed else removedValues key removed rest

theorem mem_pushEntry (member : entry ∈ pushEntry key value entries) :
    entry ∈ entries ∨ entry = (key, [value]) ∨
      ∃ list, (key, list) ∈ entries ∧ entry = (key, list ++ [value]) := by
  induction entries with
  | nil =>
      simp only [pushEntry, List.mem_singleton] at member
      exact .inr (.inl member)
  | cons head rest ih =>
      simp only [pushEntry] at member
      split at member
      · rcases List.mem_cons.mp member with created | old
        · exact .inr (.inl created)
        · exact .inl old
      · split at member
        · rename_i same
          rcases List.mem_cons.mp member with changed | old
          · refine .inr (.inr ⟨head.2, ?_, same ▸ changed⟩)
            rw [same]
            exact List.mem_cons_self
          · exact .inl (List.mem_cons_of_mem head old)
        · rcases List.mem_cons.mp member with rfl | later
          · exact .inl List.mem_cons_self
          · rcases ih later with old | created | ⟨list, present, changed⟩
            · exact .inl (List.mem_cons_of_mem head old)
            · exact .inr (.inl created)
            · exact .inr (.inr ⟨list, List.mem_cons_of_mem head present, changed⟩)

theorem mem_removeEntry (member : entry ∈ removeEntry key removed entries) :
    entry ∈ entries ∨ ∃ list, (key, list) ∈ entries ∧ entry.2 ≠ [] ∧
      entry = (key, list.filter fun value => !removed value) := by
  induction entries with
  | nil => cases member
  | cons head rest ih =>
      simp only [removeEntry] at member
      split at member
      · rename_i same
        split at member
        · exact .inl (List.mem_cons_of_mem head member)
        · rename_i kept
          rcases List.mem_cons.mp member with changed | later
          · refine .inr ⟨head.2, ?_, ?_, ?_⟩
            · rw [same]
              exact List.mem_cons_self
            · rw [changed]
              exact List.cons_ne_nil _ _
            · rw [changed, kept, same]
          · exact .inl (List.mem_cons_of_mem head later)
      · rcases List.mem_cons.mp member with rfl | later
        · exact .inl List.mem_cons_self
        · rcases ih later with old | ⟨list, present, changed⟩
          · exact .inl (List.mem_cons_of_mem head old)
          · exact .inr ⟨list, List.mem_cons_of_mem head present, changed⟩

theorem sorted_pushEntry (key : K) (value : V)
    (sorted : entries.Pairwise fun first second => first.1 < second.1) :
    (pushEntry key value entries).Pairwise fun first second => first.1 < second.1 := by
  induction entries with
  | nil => exact List.pairwise_singleton _ _
  | cons head rest ih =>
      obtain ⟨least, ordered⟩ := List.pairwise_cons.mp sorted
      simp only [pushEntry]
      split
      · rename_i before
        refine List.pairwise_cons.mpr ⟨fun entry member => ?_, sorted⟩
        rcases List.mem_cons.mp member with rfl | later
        · exact before
        · exact lt_trans before (least entry later)
      · rename_i notBefore
        split
        · exact List.pairwise_cons.mpr ⟨least, ordered⟩
        · rename_i different
          have above : head.1 < key := lt_of_le_of_ne (not_lt.mp notBefore) (Ne.symm different)
          refine List.pairwise_cons.mpr ⟨fun entry member => ?_, ih ordered⟩
          rcases mem_pushEntry member with old | rfl | ⟨list, _, rfl⟩
          · exact least entry old
          · exact above
          · exact above

theorem sorted_removeEntry (key : K) (removed : V → Bool)
    (sorted : entries.Pairwise fun first second => first.1 < second.1) :
    (removeEntry key removed entries).Pairwise fun first second => first.1 < second.1 := by
  induction entries with
  | nil => exact .nil
  | cons head rest ih =>
      obtain ⟨least, ordered⟩ := List.pairwise_cons.mp sorted
      simp only [removeEntry]
      split
      · split
        · exact ordered
        · exact List.pairwise_cons.mpr ⟨least, ordered⟩
      · refine List.pairwise_cons.mpr ⟨fun entry member => ?_, ih ordered⟩
        rcases mem_removeEntry member with old | ⟨list, present, _, rfl⟩
        · exact least entry old
        · exact least (key, list) present

theorem pushEntry_perm (key : K) (value : V) (entries : List (K × List V)) :
    ((pushEntry key value entries).flatMap Prod.snd).Perm
      (value :: entries.flatMap Prod.snd) := by
  induction entries with
  | nil => exact .refl _
  | cons head rest ih =>
      simp only [pushEntry]
      split
      · exact .refl _
      · split
        · simp only [List.flatMap_cons, List.append_assoc, List.singleton_append]
          exact List.perm_middle
        · simp only [List.flatMap_cons]
          exact (ih.append_left head.2).trans List.perm_middle

theorem removeEntry_perm (key : K) (removed : V → Bool) (entries : List (K × List V)) :
    (removedValues key removed entries ++
      (removeEntry key removed entries).flatMap Prod.snd).Perm (entries.flatMap Prod.snd) := by
  induction entries with
  | nil => exact .refl _
  | cons head rest ih =>
      simp only [removedValues, removeEntry]
      split
      · have parted := List.filter_append_perm removed head.2
        split
        · rename_i none
          rw [none, List.append_nil] at parted
          exact parted.append_right _
        · rename_i kept
          rw [kept] at parted
          simp only [List.flatMap_cons, ← List.append_assoc]
          exact parted.append_right _
      · simp only [List.flatMap_cons]
        calc
          (removedValues key removed rest ++ (head.2 ++ _)).Perm
              (head.2 ++ (removedValues key removed rest ++ _)) := by
            rw [← List.append_assoc, ← List.append_assoc]
            exact List.perm_append_comm.append_right _
          _ |>.Perm (head.2 ++ rest.flatMap Prod.snd) := ih.append_left head.2

theorem mem_removedValues (sorted : entries.Pairwise fun first second => first.1 < second.1)
    (present : entry ∈ entries) (member : value ∈ entry.2) (chosen : removed value = true) :
    value ∈ removedValues entry.1 removed entries := by
  induction entries with
  | nil => cases present
  | cons head rest ih =>
      obtain ⟨least, ordered⟩ := List.pairwise_cons.mp sorted
      rcases List.mem_cons.mp present with rfl | later
      · rw [removedValues, if_pos rfl]
        exact List.mem_filter.mpr ⟨member, chosen⟩
      · rw [removedValues, if_neg (ne_of_gt (least entry later))]
        exact ih ordered later

theorem of_mem_removedValues (member : value ∈ removedValues key removed entries) :
    removed value = true := by
  induction entries with
  | nil => cases member
  | cons head rest ih =>
      rw [removedValues] at member
      split at member
      · exact (List.mem_filter.mp member).2
      · exact ih member

theorem lt_of_mem_dropWhile {bound : K}
    (sorted : entries.Pairwise fun first second => first.1 < second.1)
    (member : entry ∈ entries.dropWhile (·.1 ≤ bound)) : bound < entry.1 := by
  induction entries with
  | nil => cases member
  | cons head rest ih =>
      obtain ⟨least, ordered⟩ := List.pairwise_cons.mp sorted
      rw [List.dropWhile_cons] at member
      split at member
      · exact ih ordered member
      · rename_i stopped
        have above : bound < head.1 := not_le.mp (of_decide_eq_false (by simpa using stopped))
        rcases List.mem_cons.mp member with rfl | later
        · exact above
        · exact lt_trans above (least entry later)

end Entries

/-- `map[key].push_back(value)` -/
def pushAt (map : SortedMap K V) (key : K) (value : V) : SortedMap K V :=
  ⟨pushEntry key value map.entries, sorted_pushEntry key value map.sorted⟩

/-- `map[key].remove(...); if (map[key].empty()) { map.erase(key); }` for a key of the map -/
def removeAt (map : SortedMap K V) (key : K) (removed : V → Bool) : SortedMap K V :=
  ⟨removeEntry key removed map.entries, sorted_removeEntry key removed map.sorted⟩

/-- The elements that `removeAt` takes out. -/
def removedAt (map : SortedMap K V) (key : K) (removed : V → Bool) : List V :=
  removedValues key removed map.entries

/-- The elements of the keys up to a bound, in the order of the keys. -/
def upTo (map : SortedMap K V) (bound : K) : List V :=
  (map.entries.takeWhile (·.1 ≤ bound)).flatMap Prod.snd

/-- `map.erase(map.begin(), map.upper_bound(bound))` -/
def after (map : SortedMap K V) (bound : K) : SortedMap K V :=
  ⟨map.entries.dropWhile (·.1 ≤ bound), map.sorted.sublist (List.dropWhile_sublist _)⟩

variable {map : SortedMap K V} {key bound first : K} {value : V} {removed : V → Bool}

theorem values_pushAt (map : SortedMap K V) (key : K) (value : V) :
    (map.pushAt key value).values.Perm (value :: map.values) :=
  pushEntry_perm key value map.entries

theorem values_removeAt (map : SortedMap K V) (key : K) (removed : V → Bool) :
    (map.removedAt key removed ++ (map.removeAt key removed).values).Perm map.values :=
  removeEntry_perm key removed map.entries

theorem removeAt_of_not_contains (absent : map.contains key = false) :
    map.removeAt key removed = map := by
  have unchanged : ∀ entries : List (K × List V), (∀ entry ∈ entries, key ≠ entry.1) →
      removeEntry key removed entries = entries := by
    intro entries different
    induction entries with
    | nil => rfl
    | cons head rest ih =>
        rw [removeEntry, if_neg (different head List.mem_cons_self),
          ih fun entry member => different entry (List.mem_cons_of_mem head member)]
  have same : removeEntry key removed map.entries = map.entries := by
    apply unchanged
    intro entry member same
    have found : map.contains key = true := List.any_eq_true.mpr ⟨entry, member, by simp [same]⟩
    rw [absent] at found
    cases found
  simp only [removeAt, same]

theorem upTo_append_after (map : SortedMap K V) (bound : K) :
    map.upTo bound ++ (map.after bound).values = map.values := by
  rw [upTo, values, values, ← List.flatMap_append, after, List.takeWhile_append_dropWhile]

/-- What is left when all elements up to a bound have been taken out. -/
theorem lt_of_mem_after {entry : K × List V} (member : entry ∈ (map.after bound).entries) :
    bound < entry.1 :=
  lt_of_mem_dropWhile map.sorted member

theorem le_of_mem_upTo_entries {entry : K × List V}
    (member : entry ∈ map.entries.takeWhile (·.1 ≤ bound)) : entry.1 ≤ bound := by
  have kept := List.mem_takeWhile_imp member
  simpa using kept

theorem first?_le (least : map.first? = some first) {entry : K × List V}
    (member : entry ∈ map.entries) : first ≤ entry.1 := by
  have sorted := map.sorted
  cases entries : map.entries with
  | nil =>
      rw [entries] at member
      cases member
  | cons head rest =>
      rw [first?, entries] at least
      obtain rfl : head.1 = first := Option.some.inj least
      rw [entries] at member sorted
      rcases List.mem_cons.mp member with rfl | later
      · exact le_refl _
      · exact le_of_lt ((List.pairwise_cons.mp sorted).1 entry later)

theorem exists_of_first? (least : map.first? = some first) :
    ∃ list, (first, list) ∈ map.entries := by
  obtain ⟨entry, head, rfl⟩ := Option.map_eq_some_iff.mp least
  exact ⟨entry.2, List.mem_of_mem_head? head⟩

/-- Removing elements does not bring the first key forward. -/
theorem first?_removeAt {later : K} (least : (map.removeAt key removed).first? = some later) :
    ∃ first, map.first? = some first ∧ first ≤ later := by
  obtain ⟨list, member⟩ := exists_of_first? least
  have present : ∃ list, (later, list) ∈ map.entries := by
    rcases mem_removeEntry member with old | ⟨old, present, _, same⟩
    · exact ⟨list, old⟩
    · obtain ⟨rfl, -⟩ := Prod.mk.inj same
      exact ⟨old, present⟩
  obtain ⟨old, present⟩ := present
  cases first : map.first? with
  | none =>
      rw [first?, Option.map_eq_none_iff, List.head?_eq_none_iff] at first
      rw [first] at present
      cases present
  | some key => exact ⟨key, rfl, first?_le first present⟩

theorem first?_pushAt_of_le (least : map.first? = some first) (notBefore : first ≤ key) :
    (map.pushAt key value).first? = some first := by
  cases entries : map.entries with
  | nil =>
      rw [first?, entries] at least
      cases least
  | cons head rest =>
      rw [first?, entries] at least
      obtain rfl : head.1 = first := Option.some.inj least
      simp only [first?, pushAt, entries, pushEntry, if_neg (not_lt.mpr notBefore)]
      split
      · rfl
      · rfl

end SortedMap

end Containers
