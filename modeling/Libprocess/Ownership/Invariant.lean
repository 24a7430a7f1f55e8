import Libprocess.Ownership.Memory
import Mathlib.Data.List.Nodup

/-!
# Who is in charge of an object

An object is deleted, returned by `release`, or in the charge of one block, and a block lives as
long as something refers to it.  In the middle of a call an object or a block may be in the hands
of the code alone; the invariant takes them as arguments.
-/

namespace Libprocess.Ownership

variable {α : Type}

/-- A value written into a list takes the place of the one that was there. -/
theorem exists_mem_set_or (holds : α → Prop) (values : List α) (index : Nat) (value : α)
    (bound : index < values.length) :
    ((∃ entry ∈ values.set index value, holds entry) ∨ holds values[index]) ↔
      (∃ entry ∈ values, holds entry) ∨ holds value := by
  induction values generalizing index with
  | nil => simp at bound
  | cons first rest ih =>
      cases index with
      | zero =>
          simp only [List.set_cons_zero, List.mem_cons, exists_eq_or_imp,
            List.getElem_cons_zero]
          rw [or_right_comm, or_comm (a := holds value), or_right_comm]
      | succ index =>
          have rest := ih index (by simpa using bound)
          simp only [List.set_cons_succ, List.mem_cons, exists_eq_or_imp,
            List.getElem_cons_succ, or_assoc, rest]

/-- Writing an entry changes the count of one value by what the entry counts for. -/
theorem count_map_set (key : α → Option Nat) (values : List α) (index : Nat) (old new : α)
    (found : values[index]? = some old) (x : Nat) :
    ((values.set index new).map key).count (some x) + (key old).toList.count x =
      (values.map key).count (some x) + (key new).toList.count x := by
  induction values generalizing index with
  | nil => simp at found
  | cons first rest ih =>
      cases index with
      | zero =>
          simp only [List.getElem?_cons_zero, Option.some.injEq] at found
          subst found
          cases oldKey : key first <;> cases newKey : key new <;>
            simp [oldKey, newKey, List.count_cons, Nat.add_right_comm]
      | succ index =>
          have rest := ih index (by simpa using found)
          simp only [List.set_cons_succ, List.map_cons, List.count_cons]
          omega

theorem found_append {values : List α} {index : Nat} {last value : α} :
    (values ++ [last])[index]? = some value ↔
      values[index]? = some value ∨ values.length = index ∧ last = value := by
  rcases Nat.lt_trichotomy index values.length with inside | rfl | outside
  · simp [List.getElem?_append_left inside, Nat.ne_of_gt inside]
  · simp
  · have beyond : (values ++ [last]).length ≤ index := by simp; omega
    simp only [List.getElem?_eq_none beyond, List.getElem?_eq_none (Nat.le_of_lt outside),
      Nat.ne_of_lt outside, reduceCtorEq, false_and, or_self]

namespace Memory

def OwnedAlive (memory : Memory) (block : Nat) : Prop :=
  ∃ data, memory.ownedData[block]? = some data ∧ data.destroyed = false

def SharedAlive (memory : Memory) (block : Nat) : Prop :=
  ∃ data, memory.sharedData[block]? = some data ∧ data.destroyed = false

/-- How often an object is deleted, released, or in somebody's charge. -/
def tally (memory : Memory) (object : Option Nat) (x : Nat) : Nat :=
  memory.deleted.count x + memory.released.count x +
    (memory.ownedData.map OwnedData.holding).count (some x) +
    (memory.sharedData.map SharedData.holding).count (some x) + object.toList.count x

/-- What holds of the promises of the `Shared::Data`. -/
structure Promising (memory : Memory) : Prop where
  claimed : ∀ block, block ∈ memory.owns ↔
    ∃ data, memory.sharedData[block]? = some data ∧ data.owned = true
  ready : ∀ (block : Nat) (data : SharedData), memory.sharedData[block]? = some data →
    (data.future.isSome = true ↔ data.destroyed = true ∧ data.owned = true)
  delivered : ∀ (block : Nat) (data : SharedData) made, memory.sharedData[block]? = some data →
    data.future = some made →
    ∃ owned : OwnedData, memory.ownedData[made]? = some owned ∧ ∀ x, owned.t = some x → x = data.t
  once : memory.owns.Nodup
  handles : ∀ block, .promise block ∈ memory.futures → block ∈ memory.owns

/-- The invariant, with the object and the blocks that only the code in the middle of a call
has. -/
structure Sound (memory : Memory) (object owned shared : Option Nat) : Prop where
  counted : ∀ x, memory.tally object x = if x < memory.allocated then 1 else 0
  ownedAlive : ∀ block, memory.OwnedAlive block ↔
    block ∈ memory.ownedReferences ∨ owned = some block
  sharedAlive : ∀ block, memory.SharedAlive block ↔
    block ∈ memory.sharedReferences ∨ shared = some block
  promising : memory.Promising

section References

variable {memory : Memory} {block place : Nat} {object owned shared value : Option Nat}

theorem mem_ownedReferences :
    block ∈ memory.ownedReferences ↔
      (∃ entry ∈ memory.owneds, entry = some block) ∨
        ∃ handle ∈ memory.futures, memory.delivery handle = some block := by
  simp [ownedReferences]

theorem mem_sharedReferences :
    block ∈ memory.sharedReferences ↔ ∃ entry ∈ memory.shareds, entry = some block := by
  simp [sharedReferences]

theorem owned_eq (bound : place < memory.owneds.length) :
    memory.owned place = memory.owneds[place] := by
  simp [Memory.owned, bound]

theorem shared_eq (bound : place < memory.shareds.length) :
    memory.shared place = memory.shareds[place] := by
  simp [Memory.shared, bound]

theorem owned_mem (found : memory.owned place = some block) :
    block ∈ memory.ownedReferences := by
  simp only [Memory.owned, Option.join_eq_some_iff] at found
  exact mem_ownedReferences.mpr (.inl ⟨_, List.mem_of_getElem? found, rfl⟩)

theorem shared_mem (found : memory.shared place = some block) :
    block ∈ memory.sharedReferences := by
  simp only [Memory.shared, Option.join_eq_some_iff] at found
  exact mem_sharedReferences.mpr ⟨_, List.mem_of_getElem? found, rfl⟩

theorem future_mem (promise : memory.future place = .promise block) :
    .promise block ∈ memory.futures := by
  simp only [Memory.future, List.getD_eq_getElem?_getD] at promise
  cases found : memory.futures[place]? with
  | none => simp [found] at promise
  | some handle =>
      simp only [found, Option.getD_some] at promise
      exact promise ▸ List.mem_of_getElem? found

theorem delivery_mem (delivered : memory.delivery (memory.future place) = some block) :
    block ∈ memory.ownedReferences := by
  apply mem_ownedReferences.mpr
  right
  cases handle : memory.future place with
  | promise promised =>
      rw [handle] at delivered
      exact ⟨_, future_mem handle, delivered⟩
  | _ => simp [handle, delivery] at delivered

end References

section Collecting

variable {memory : Memory} {block : Nat} {object owned shared value : Option Nat}

/-- A reference that something else keeps as well need not be in hand. -/
theorem Sound.hold (sound : Sound memory object none shared)
    (known : ∀ block, value = some block → block ∈ memory.ownedReferences) :
    Sound memory object value shared := by
  refine { sound with ownedAlive := ?_ }
  intro block
  rw [sound.ownedAlive]
  have known := known block
  simp only [reduceCtorEq, or_false, iff_self_or]
  exact known

theorem Sound.holdShared (sound : Sound memory object owned none)
    (known : ∀ block, value = some block → block ∈ memory.sharedReferences) :
    Sound memory object owned value := by
  refine { sound with sharedAlive := ?_ }
  intro block
  rw [sound.sharedAlive]
  have known := known block
  simp only [reduceCtorEq, or_false, iff_self_or]
  exact known

theorem Sound.destroyOwned (sound : Sound memory object (some block) shared)
    (last : block ∉ memory.ownedReferences) :
    Sound (memory.destroyOwned block) object none shared := by
  obtain ⟨data, found, alive⟩ := (sound.ownedAlive block).mpr (.inr rfl)
  have bound := (List.getElem?_eq_some_iff.mp found).1
  simp only [Memory.destroyOwned, found]
  constructor
  · intro x
    apply Eq.trans _ (sound.counted x)
    have moved := count_map_set OwnedData.holding _ _ _ { data with destroyed := true } found x
    simp only [OwnedData.holding, alive, if_true, Bool.false_eq_true, if_false,
      Option.toList_none, List.count_nil] at moved
    simp only [tally, List.count_append]
    omega
  · intro other
    by_cases same : other = block
    · subst other
      simp only [OwnedAlive, List.getElem?_set_self bound]
      have last : block ∉ memory.ownedReferences := last
      constructor
      · rintro ⟨_, written, dead⟩
        cases written
        cases dead
      · rintro (referenced | none)
        · exact absurd referenced last
        · cases none
    · have alive := sound.ownedAlive other
      simp only [OwnedAlive, List.getElem?_set_ne (Ne.symm same)] at alive ⊢
      rw [alive]
      simp only [Option.some.injEq, Ne.symm same, reduceCtorEq]
      exact Iff.rfl
  · exact sound.sharedAlive
  · constructor
    · exact sound.promising.claimed
    · exact sound.promising.ready
    · intro promised data' made at' future
      obtain ⟨owned, kept, same⟩ := sound.promising.delivered promised data' made at' future
      by_cases here : made = block
      · subst made
        rw [found] at kept
        cases kept
        exact ⟨_, List.getElem?_set_self bound, same⟩
      · exact ⟨owned, (List.getElem?_set_ne (Ne.symm here)).trans kept, same⟩
    · exact sound.promising.once
    · exact sound.promising.handles

theorem Sound.collectOwned (sound : Sound memory object (some block) shared) :
    Sound (memory.collectOwned block) object none shared := by
  unfold Memory.collectOwned
  split
  next referenced =>
    refine { sound with ownedAlive := ?_ }
    intro other
    rw [sound.ownedAlive]
    constructor
    · rintro (known | held)
      · exact .inl known
      · cases held
        exact .inl referenced
    · rintro (known | none)
      · exact .inl known
      · cases none
  next last => exact sound.destroyOwned last

theorem Sound.dropOwned (sound : Sound memory object value shared) :
    Sound (memory.dropOwned value) object none shared := by
  cases value with
  | none => exact sound
  | some block => exact sound.collectOwned

theorem promising_newOwned (promising : memory.Promising) (x : Nat) :
    (memory.newOwned x).Promising := by
  refine { promising with delivered := ?_ }
  intro promised data made found future
  obtain ⟨owned, kept, same⟩ := promising.delivered promised data made found future
  have bound := (List.getElem?_eq_some_iff.mp kept).1
  exact ⟨owned, (List.getElem?_append_left bound).trans kept, same⟩

theorem ownedAlive_newOwned (x : Nat) :
    (memory.newOwned x).OwnedAlive block ↔
      memory.OwnedAlive block ∨ memory.ownedData.length = block := by
  simp only [OwnedAlive, Memory.newOwned, found_append, or_and_right, exists_or]
  apply or_congr Iff.rfl
  constructor
  · rintro ⟨data, ⟨here, _⟩, _⟩
    exact here
  · intro here
    exact ⟨_, ⟨here, rfl⟩, rfl⟩

/-- `new Owned::Data(t)` takes the object over from the code. -/
theorem Sound.newOwned {x : Nat} (sound : Sound memory (some x) none shared) :
    Sound (memory.newOwned x) none (some memory.ownedData.length) shared := by
  constructor
  · intro y
    apply Eq.trans _ (sound.counted y)
    simp [tally, Memory.newOwned, OwnedData.holding, List.count_cons]
    omega
  · intro block
    rw [ownedAlive_newOwned, sound.ownedAlive]
    simp only [reduceCtorEq, or_false, Option.some.injEq]
    exact Iff.rfl
  · exact sound.sharedAlive
  · exact promising_newOwned sound.promising x

theorem sharedAlive_newShared (x : Nat) :
    (memory.newShared x).SharedAlive block ↔
      memory.SharedAlive block ∨ memory.sharedData.length = block := by
  simp only [SharedAlive, Memory.newShared, found_append, or_and_right, exists_or]
  apply or_congr Iff.rfl
  constructor
  · rintro ⟨data, ⟨here, _⟩, _⟩
    exact here
  · intro here
    exact ⟨_, ⟨here, rfl⟩, rfl⟩

/-- A new block has no future that is ready. -/
theorem delivery_newShared (x : Nat) : (memory.newShared x).delivery = memory.delivery := by
  funext handle
  cases handle with
  | promise block =>
      apply Option.ext
      intro made
      simp only [delivery, Memory.newShared, Option.bind_eq_some_iff, found_append, or_and_right,
        exists_or, or_iff_left_iff_imp]
      rintro ⟨data, ⟨_, rfl⟩, ready⟩
      cases ready
  | _ => rfl

theorem promising_newShared (promising : memory.Promising) (x : Nat) :
    (memory.newShared x).Promising := by
  constructor
  · intro block
    rw [show (memory.newShared x).owns = memory.owns from rfl, promising.claimed]
    simp only [Memory.newShared, found_append, or_and_right, exists_or, iff_self_or]
    rintro ⟨data, ⟨_, rfl⟩, claimed⟩
    cases claimed
  · intro block data found
    rcases found_append.mp found with old | ⟨_, rfl⟩
    · exact promising.ready block data old
    · simp
  · intro block data made found ready
    rcases found_append.mp found with old | ⟨_, rfl⟩
    · exact promising.delivered block data made old ready
    · cases ready
  · exact promising.once
  · exact promising.handles

/-- `new Shared::Data(t)` takes the object over from the code. -/
theorem Sound.newShared {x : Nat} (sound : Sound memory (some x) owned none) :
    Sound (memory.newShared x) none owned (some memory.sharedData.length) := by
  constructor
  · intro y
    apply Eq.trans _ (sound.counted y)
    simp [tally, Memory.newShared, SharedData.holding, List.count_cons]
    omega
  · intro block
    have references : (memory.newShared x).ownedReferences = memory.ownedReferences := by
      simp only [ownedReferences, delivery_newShared]
      rfl
    rw [references]
    exact sound.ownedAlive block
  · intro block
    rw [sharedAlive_newShared, sound.sharedAlive]
    simp only [reduceCtorEq, or_false, Option.some.injEq]
    exact Iff.rfl
  · exact promising_newShared sound.promising x

/-- A block that is written anew may become ready with one `Owned`, and delivers nothing else than
before. -/
theorem ownedReferences_putShared {data new : SharedData}
    (found : memory.sharedData[block]? = some data) (other : Nat)
    (same : new.future = some other ↔ data.future = some other) :
    other ∈ (memory.putShared block new).ownedReferences ↔ other ∈ memory.ownedReferences := by
  simp only [mem_ownedReferences]
  apply or_congr Iff.rfl
  apply exists_congr
  intro handle
  apply and_congr Iff.rfl
  cases handle with
  | promise promised =>
      by_cases here : promised = block
      · subst promised
        have bound := (List.getElem?_eq_some_iff.mp found).1
        simp [delivery, found, Memory.putShared, List.getElem?_set_self bound, same]
      · simp [delivery, Memory.putShared, List.getElem?_set_ne (Ne.symm here)]
  | _ => exact Iff.rfl

theorem sharedAlive_putShared {data dead : SharedData}
    (found : memory.sharedData[block]? = some data) (gone : dead.destroyed = true) (other : Nat) :
    (memory.putShared block dead).SharedAlive other ↔ memory.SharedAlive other ∧ other ≠ block := by
  have bound := (List.getElem?_eq_some_iff.mp found).1
  by_cases same : other = block
  · subst other
    simp [SharedAlive, Memory.putShared, List.getElem?_set_self bound, gone]
  · simp [SharedAlive, Memory.putShared, List.getElem?_set_ne (Ne.symm same), same]

theorem found_putShared {data new found : SharedData} {other : Nat}
    (here : memory.sharedData[block]? = some data) :
    (memory.putShared block new).sharedData[other]? = some found ↔
      other = block ∧ new = found ∨ other ≠ block ∧ memory.sharedData[other]? = some found := by
  have bound := (List.getElem?_eq_some_iff.mp here).1
  by_cases same : other = block
  · subst other
    simp [Memory.putShared, List.getElem?_set_self bound]
  · simp [Memory.putShared, List.getElem?_set_ne (Ne.symm same), same]

/-- A block that is destroyed keeps the promises if its future is ready exactly when it was
claimed. -/
theorem promising_putShared {data dead : SharedData} (promising : memory.Promising)
    (found : memory.sharedData[block]? = some data) (claimed : dead.owned = data.owned)
    (gone : dead.destroyed = true) (ready : dead.future.isSome = dead.owned)
    (delivered : ∀ made, dead.future = some made →
      ∃ owned, memory.ownedData[made]? = some owned ∧ ∀ x, owned.t = some x → x = dead.t) :
    (memory.putShared block dead).Promising := by
  constructor
  · intro other
    apply (promising.claimed other).trans
    by_cases same : other = block
    · subst other
      simp [found_putShared found, found, claimed]
    · simp [found_putShared found, same]
  · intro other data' found'
    rcases (found_putShared found).mp found' with ⟨_, rfl⟩ | ⟨_, old⟩
    · simp [gone, ready]
    · exact promising.ready other data' old
  · intro other data' made found' future
    rcases (found_putShared found).mp found' with ⟨_, rfl⟩ | ⟨_, old⟩
    · exact delivered made future
    · exact promising.delivered other data' made old future
  · exact promising.once
  · exact promising.handles

theorem Sound.destroyShared (sound : Sound memory object none (some block))
    (last : block ∉ memory.sharedReferences) :
    Sound (memory.destroyShared block) object none none := by
  obtain ⟨data, found, alive⟩ := (sound.sharedAlive block).mpr (.inr rfl)
  have pending : data.future = none := by
    have ready := (sound.promising.ready block data found).mp
    cases future : data.future with
    | none => rfl
    | some made =>
        have destroyed := (ready (by simp [future])).1
        rw [alive] at destroyed
        cases destroyed
  have sharedAlive : ∀ other, memory.SharedAlive other ∧ other ≠ block ↔
      other ∈ memory.sharedReferences ∨ none = some other := by
    intro other
    rw [sound.sharedAlive]
    by_cases same : other = block
    · subst other
      simp [last]
    · simp [same, Ne.symm same]
  simp only [Memory.destroyShared, found]
  split
  next claimed =>
    have found' : (memory.newOwned data.t).sharedData[block]? = some data := found
    have made : (memory.newOwned data.t).ownedData[memory.ownedData.length]? =
        some { t := some data.t } := List.getElem?_concat_length
    apply Sound.collectOwned
    constructor
    · intro x
      apply Eq.trans _ (sound.counted x)
      have moved := count_map_set SharedData.holding _ _ _ { data with
        destroyed := true, future := some memory.ownedData.length } found x
      simp only [SharedData.holding, alive, if_true, Bool.false_eq_true, if_false,
        Option.toList_none, Option.toList_some, List.count_nil] at moved
      simp [tally, Memory.putShared, Memory.newOwned, OwnedData.holding, List.count_cons]
        at moved ⊢
      omega
    · intro other
      have alive : (memory.newOwned data.t).OwnedAlive other ↔ _ := ownedAlive_newOwned data.t
      apply alive.trans
      rw [sound.ownedAlive]
      by_cases same : other = memory.ownedData.length
      · subst other
        simp
      · rw [ownedReferences_putShared found' other (by simp [pending, Ne.symm same])]
        simp only [reduceCtorEq, or_false, Option.some.injEq]
        exact Iff.rfl
    · intro other
      rw [sharedAlive_putShared found' rfl]
      exact sharedAlive other
    · apply promising_putShared (promising_newOwned sound.promising data.t) found'
      · rfl
      · rfl
      · exact claimed.symm
      · intro at' same
        cases same
        exact ⟨_, made, fun x same => (Option.some.inj same).symm⟩
  next unclaimed =>
    constructor
    · intro x
      apply Eq.trans _ (sound.counted x)
      have moved := count_map_set SharedData.holding _ _ _ { data with destroyed := true } found x
      simp only [SharedData.holding, alive, if_true, Bool.false_eq_true, if_false,
        Option.toList_none, Option.toList_some, List.count_nil] at moved
      simp only [tally, Memory.putShared, List.count_append]
      omega
    · intro other
      apply (sound.ownedAlive other).trans
      simp only [reduceCtorEq, or_false]
      have same := Iff.refl
        (({ data with destroyed := true } : SharedData).future = some other)
      exact (ownedReferences_putShared found other same).symm
    · intro other
      apply Iff.trans _ (sharedAlive other)
      exact sharedAlive_putShared found rfl other
    · have put : (memory.putShared block { data with destroyed := true }).Promising := by
        apply promising_putShared sound.promising found
        · rfl
        · rfl
        · simp [pending, unclaimed]
        · intro made future
          exact sound.promising.delivered block data made found future
      exact ⟨put.claimed, put.ready, put.delivered, put.once, put.handles⟩

theorem Sound.collectShared (sound : Sound memory object none (some block)) :
    Sound (memory.collectShared block) object none none := by
  unfold Memory.collectShared
  split
  next referenced =>
    refine { sound with sharedAlive := ?_ }
    intro other
    rw [sound.sharedAlive]
    constructor
    · rintro (known | held)
      · exact .inl known
      · cases held
        exact .inl referenced
    · rintro (known | none)
      · exact .inl known
      · cases none
  next last => exact sound.destroyShared last

theorem Sound.dropShared (sound : Sound memory object none value) :
    Sound (memory.dropShared value) object none none := by
  cases value with
  | none => exact sound
  | some block => exact sound.collectShared

end Collecting

end Memory

end Libprocess.Ownership
