import Mathlib.Data.List.Nodup
import Mathlib.Logic.Function.Basic

/-!
# Maps to sets

A hash set is a list without repetitions, which fixes an order of iteration.  A map to
hash sets distinguishes a key without a set from a key with an empty one; programs that
use such maps as relations remove a set with its last element.
-/

namespace Containers

/-- A set that can be iterated. -/
structure HashSet (V : Type) where
  elements : List V
  nodup : elements.Nodup

namespace HashSet

variable {V : Type}

instance : Membership V (HashSet V) := ⟨fun set value => value ∈ set.elements⟩

instance : EmptyCollection (HashSet V) := ⟨⟨[], List.nodup_nil⟩⟩

theorem mem_def {value : V} {set : HashSet V} : value ∈ set ↔ value ∈ set.elements := Iff.rfl

@[simp] theorem not_mem_empty (value : V) : value ∉ (∅ : HashSet V) :=
  List.not_mem_nil

def isEmpty (set : HashSet V) : Bool := set.elements.isEmpty

theorem isEmpty_iff {set : HashSet V} : set.isEmpty = true ↔ ∀ value, value ∉ set := by
  simp [isEmpty, mem_def, List.eq_nil_iff_forall_not_mem]

variable [DecidableEq V]

instance (value : V) (set : HashSet V) : Decidable (value ∈ set) :=
  inferInstanceAs (Decidable (value ∈ set.elements))

def insert (set : HashSet V) (value : V) : HashSet V :=
  if fresh : value ∈ set.elements then set
  else ⟨value :: set.elements, List.nodup_cons.mpr ⟨fresh, set.nodup⟩⟩

def erase (set : HashSet V) (value : V) : HashSet V :=
  ⟨set.elements.erase value, set.nodup.erase value⟩

@[simp] theorem mem_insert {set : HashSet V} {value other : V} :
    other ∈ set.insert value ↔ other = value ∨ other ∈ set := by
  simp only [insert, mem_def]
  split
  · rename_i present
    exact ⟨.inr, fun either => either.elim (fun same => same ▸ present) id⟩
  · simp

@[simp] theorem mem_erase {set : HashSet V} {value other : V} :
    other ∈ set.erase value ↔ other ≠ value ∧ other ∈ set :=
  set.nodup.mem_erase_iff

end HashSet

/-- A map to sets. -/
abbrev SetMap (K V : Type) := K → Option (HashSet V)

namespace SetMap

variable {K V : Type}

def empty : SetMap K V := fun _ => none

def contains (map : SetMap K V) (key : K) : Bool := (map key).isSome

/-- The set of a key, empty if there is none. -/
def get (map : SetMap K V) (key : K) : HashSet V := (map key).getD ∅

/-- The relation that a map stands for. -/
def Related (map : SetMap K V) (key : K) (value : V) : Prop := value ∈ map.get key

/-- No key has an empty set. -/
def Inhabited (map : SetMap K V) : Prop :=
  ∀ key set, map key = some set → set.isEmpty = false

variable [DecidableEq K]

/-- `map.erase(key)` -/
def remove (map : SetMap K V) (key : K) : SetMap K V := Function.update map key none

variable [DecidableEq V]

/-- `map[key].insert(value)` -/
def insertAt (map : SetMap K V) (key : K) (value : V) : SetMap K V :=
  Function.update map key (some ((map.get key).insert value))

/-- `map[key].erase(value); if (map[key].empty()) { map.erase(key); }` -/
def eraseAt (map : SetMap K V) (key : K) (value : V) : SetMap K V :=
  let set := (map.get key).erase value
  Function.update map key (if set.isEmpty then none else some set)

section Lemmas

variable {map : SetMap K V} {key other : K} {value element : V}

omit [DecidableEq K] [DecidableEq V] in
theorem contains_of_related (related : map.Related key value) : map.contains key = true := by
  cases found : map key with
  | none => simp [Related, get, found] at related
  | some => simp [contains, found]

omit [DecidableEq K] [DecidableEq V] in
theorem Inhabited.contains_iff (inhabited : map.Inhabited) :
    map.contains key = true ↔ ∃ value, map.Related key value := by
  refine ⟨fun contained => ?_, fun ⟨value, related⟩ => contains_of_related related⟩
  obtain ⟨set, found⟩ := Option.isSome_iff_exists.mp contained
  have some := inhabited key set found
  by_contra none
  have empty : set.isEmpty = true := HashSet.isEmpty_iff.mpr fun value member =>
    none ⟨value, by simpa [Related, get, found] using member⟩
  simp [empty] at some

omit [DecidableEq K] [DecidableEq V] in
@[simp] theorem not_related_empty : ¬ (empty : SetMap K V).Related key value := by
  simp [Related, get, empty]

omit [DecidableEq K] [DecidableEq V] in
theorem inhabited_empty : (empty : SetMap K V).Inhabited := by
  simp [Inhabited, empty]

omit [DecidableEq V] in
@[simp] theorem related_remove :
    (map.remove key).Related other element ↔ other ≠ key ∧ map.Related other element := by
  by_cases same : other = key
  · subst same
    simp [Related, get, remove]
  · simp [Related, get, remove, same]

omit [DecidableEq V] in
theorem Inhabited.remove (inhabited : map.Inhabited) : (map.remove key).Inhabited := by
  intro other set found
  by_cases same : other = key
  · subst same
    simp [SetMap.remove] at found
  · exact inhabited other set (by simpa [SetMap.remove, same] using found)

@[simp] theorem related_insertAt :
    (map.insertAt key value).Related other element ↔
      other = key ∧ element = value ∨ map.Related other element := by
  by_cases same : other = key
  · subst same
    simp [Related, get, insertAt]
  · simp [Related, get, insertAt, same]

theorem Inhabited.insertAt (inhabited : map.Inhabited) :
    (map.insertAt key value).Inhabited := by
  intro other set found
  by_cases same : other = key
  · subst same
    simp only [SetMap.insertAt, Function.update_self] at found
    cases found
    by_contra empty
    exact HashSet.isEmpty_iff.mp (by simpa using empty) value (by simp)
  · exact inhabited other set (by simpa [SetMap.insertAt, same] using found)

@[simp] theorem related_eraseAt :
    (map.eraseAt key value).Related other element ↔
      map.Related other element ∧ ¬ (other = key ∧ element = value) := by
  by_cases same : other = key
  · subst same
    simp only [Related, get, eraseAt, Function.update_self]
    by_cases empty : (((map other).getD ∅).erase value).isEmpty = true
    · have none := HashSet.isEmpty_iff.mp empty element
      simp only [HashSet.mem_erase] at none
      simp only [empty, if_true, Option.getD_none, HashSet.not_mem_empty, true_and, false_iff]
      exact fun both => none ⟨both.2, both.1⟩
    · simp [empty, and_comm]
  · simp [Related, get, eraseAt, same]

theorem Inhabited.eraseAt (inhabited : map.Inhabited) : (map.eraseAt key value).Inhabited := by
  intro other set found
  by_cases same : other = key
  · subst same
    simp only [SetMap.eraseAt, Function.update_self] at found
    split at found
    · simp at found
    · simp_all
  · exact inhabited other set (by simpa [SetMap.eraseAt, same] using found)

end Lemmas

end SetMap

end Containers
