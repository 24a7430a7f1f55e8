import Libprocess.Ownership.Invariant

/-!
# Every object is disposed of once

What a program does with its pointers keeps the invariant: a call takes an object or a block in
hand and gives it to a variable, to a block or to the caller before it returns.
-/

namespace Libprocess.Ownership.Memory

section Variables

variable {memory : Memory} {place : Nat} {object owned shared value : Option Nat}

/-- A variable that is written lets go of its block and holds on to the one that was in hand. -/
theorem ownedReferences_set (bound : place < memory.owneds.length) (block : Nat) :
    block ∈ { memory with owneds := memory.owneds.set place value }.ownedReferences ∨
        memory.owned place = some block ↔
      block ∈ memory.ownedReferences ∨ value = some block := by
  have written := exists_mem_set_or (fun entry => entry = some block) memory.owneds place value
    bound
  rw [mem_ownedReferences, mem_ownedReferences, owned_eq bound, or_right_comm,
    or_right_comm (c := value = some block)]
  exact or_congr written Iff.rfl

theorem Sound.setOwned (sound : Sound memory object value shared)
    (bound : place < memory.owneds.length) :
    Sound (memory.setOwned place value) object none shared := by
  apply Sound.dropOwned
  constructor
  · exact sound.counted
  · intro block
    apply (sound.ownedAlive block).trans
    exact (ownedReferences_set bound block).symm
  · exact sound.sharedAlive
  · exact ⟨sound.promising.claimed, sound.promising.ready, sound.promising.delivered,
      sound.promising.once, sound.promising.handles⟩

theorem setOwned_outside (outside : ¬ place < memory.owneds.length) :
    memory.setOwned place value = memory := by
  have beyond := Nat.le_of_not_lt outside
  have absent : memory.owned place = none := by
    simp [Memory.owned, List.getElem?_eq_none beyond]
  rw [Memory.setOwned, absent, List.set_eq_of_length_le beyond]
  rfl

theorem Sound.setOwned_known (sound : Sound memory object none shared)
    (known : ∀ block, value = some block → block ∈ memory.ownedReferences) :
    Sound (memory.setOwned place value) object none shared := by
  by_cases bound : place < memory.owneds.length
  · exact (sound.hold known).setOwned bound
  · rw [setOwned_outside bound]
    exact sound

theorem Sound.pushOwned (sound : Sound memory object value shared) :
    Sound (memory.pushOwned value) object none shared := by
  constructor
  · exact sound.counted
  · intro block
    apply (sound.ownedAlive block).trans
    simp only [mem_ownedReferences, Memory.pushOwned, List.mem_append, List.mem_singleton,
      or_and_right, exists_or, exists_eq_left, reduceCtorEq, or_false]
    exact or_right_comm
  · exact sound.sharedAlive
  · exact ⟨sound.promising.claimed, sound.promising.ready, sound.promising.delivered,
      sound.promising.once, sound.promising.handles⟩

theorem sharedReferences_set (bound : place < memory.shareds.length) (block : Nat) :
    block ∈ { memory with shareds := memory.shareds.set place value }.sharedReferences ∨
        memory.shared place = some block ↔
      block ∈ memory.sharedReferences ∨ value = some block := by
  rw [mem_sharedReferences, mem_sharedReferences, shared_eq bound]
  exact exists_mem_set_or (fun entry => entry = some block) memory.shareds place value bound

theorem Sound.setShared (sound : Sound memory object none value)
    (bound : place < memory.shareds.length) :
    Sound (memory.setShared place value) object none none := by
  apply Sound.dropShared
  constructor
  · exact sound.counted
  · exact sound.ownedAlive
  · intro block
    apply (sound.sharedAlive block).trans
    exact (sharedReferences_set bound block).symm
  · exact ⟨sound.promising.claimed, sound.promising.ready, sound.promising.delivered,
      sound.promising.once, sound.promising.handles⟩

theorem setShared_outside (outside : ¬ place < memory.shareds.length) :
    memory.setShared place value = memory := by
  have beyond := Nat.le_of_not_lt outside
  have absent : memory.shared place = none := by
    simp [Memory.shared, List.getElem?_eq_none beyond]
  rw [Memory.setShared, absent, List.set_eq_of_length_le beyond]
  rfl

theorem Sound.setShared_known (sound : Sound memory object none none)
    (known : ∀ block, value = some block → block ∈ memory.sharedReferences) :
    Sound (memory.setShared place value) object none none := by
  by_cases bound : place < memory.shareds.length
  · exact (sound.holdShared known).setShared bound
  · rw [setShared_outside bound]
    exact sound

theorem Sound.pushShared (sound : Sound memory object owned value) :
    Sound (memory.pushShared value) object owned none := by
  constructor
  · exact sound.counted
  · exact sound.ownedAlive
  · intro block
    apply (sound.sharedAlive block).trans
    simp only [mem_sharedReferences, Memory.pushShared, List.mem_append, List.mem_singleton,
      or_and_right, exists_or, exists_eq_left, reduceCtorEq, or_false]
  · exact ⟨sound.promising.claimed, sound.promising.ready, sound.promising.delivered,
      sound.promising.once, sound.promising.handles⟩

end Variables

section Futures

variable {memory : Memory} {place : Nat} {object owned shared : Option Nat} {handle : Handle}

/-- A variable may be given a future that some variable has already. -/
def Known (memory : Memory) (handle : Handle) : Prop :=
  (∀ block, handle = .promise block → block ∈ memory.owns) ∧
    ∀ made, memory.delivery handle = some made → made ∈ memory.ownedReferences

theorem Sound.known_future (sound : Sound memory object owned shared) (place : Nat) :
    memory.Known (memory.future place) := by
  constructor
  · intro block promise
    exact sound.promising.handles block (future_mem promise)
  · intro made delivered
    exact delivery_mem delivered

theorem known_plain (plain : ∀ block, handle ≠ .promise block) : memory.Known handle := by
  constructor
  · intro block promise
    exact absurd promise (plain block)
  · intro made delivered
    cases handle with
    | promise block => exact absurd rfl (plain block)
    | _ => cases delivered

theorem Sound.pushFuture (sound : Sound memory object none shared)
    (known : memory.Known handle) : Sound (memory.pushFuture handle) object none shared := by
  constructor
  · exact sound.counted
  · intro block
    apply (sound.ownedAlive block).trans
    have delivered := known.2 block
    rw [mem_ownedReferences] at delivered
    simp only [mem_ownedReferences, Memory.pushFuture, List.mem_append, List.mem_singleton,
      or_and_right, exists_or, exists_eq_left, reduceCtorEq, or_false, ← or_assoc]
    exact (or_iff_left_of_imp delivered).symm
  · exact sound.sharedAlive
  · constructor
    · exact sound.promising.claimed
    · exact sound.promising.ready
    · exact sound.promising.delivered
    · exact sound.promising.once
    · intro block inside
      rcases List.mem_append.mp inside with old | new
      · exact sound.promising.handles block old
      · exact known.1 block (List.mem_singleton.mp new).symm

theorem ownedReferences_setFuture (bound : place < memory.futures.length) (block : Nat) :
    block ∈ { memory with futures := memory.futures.set place handle }.ownedReferences ∨
        memory.delivery memory.futures[place] = some block ↔
      block ∈ memory.ownedReferences ∨ memory.delivery handle = some block := by
  have written := exists_mem_set_or (fun handle => memory.delivery handle = some block)
    memory.futures place handle bound
  rw [mem_ownedReferences, mem_ownedReferences, or_assoc, or_assoc]
  exact or_congr Iff.rfl written

theorem Sound.setFuture (sound : Sound memory object none shared)
    (known : memory.Known handle) : Sound (memory.setFuture place handle) object none shared := by
  by_cases bound : place < memory.futures.length
  · apply Sound.dropOwned
    have here : memory.future place = memory.futures[place] := by
      simp [Memory.future, bound]
    constructor
    · exact sound.counted
    · intro block
      apply (sound.ownedAlive block).trans
      rw [here, ownedReferences_setFuture bound, or_iff_left_of_imp (known.2 block)]
      simp
    · exact sound.sharedAlive
    · constructor
      · exact sound.promising.claimed
      · exact sound.promising.ready
      · exact sound.promising.delivered
      · exact sound.promising.once
      · intro block inside
        rcases List.mem_or_eq_of_mem_set inside with old | new
        · exact sound.promising.handles block old
        · exact known.1 block new.symm
  · have beyond := Nat.le_of_not_lt bound
    have absent : memory.future place = .dropped := by
      simp [Memory.future, beyond]
    rw [Memory.setFuture, absent, List.set_eq_of_length_le beyond]
    exact sound

end Futures

section Calls

variable {memory : Memory} {place block x : Nat} {object owned shared : Option Nat}

theorem Sound.allocate (sound : Sound memory none owned shared) :
    Sound memory.allocate (some memory.allocated) owned shared := by
  constructor
  · intro x
    have taken : memory.allocate.tally (some memory.allocated) x =
        memory.tally none x + if memory.allocated = x then 1 else 0 := by
      simp [tally, Memory.allocate, List.count_singleton]
    rw [taken, sound.counted x]
    change _ = if x < memory.allocated + 1 then 1 else 0
    split <;> split <;> split <;> omega
  · exact sound.ownedAlive
  · exact sound.sharedAlive
  · exact ⟨sound.promising.claimed, sound.promising.ready, sound.promising.delivered,
      sound.promising.once, sound.promising.handles⟩

theorem Sound.makeOwned (sound : Sound memory none none none) :
    Sound memory.makeOwned none none none :=
  sound.allocate.newOwned.pushOwned

theorem Sound.makeSharedOf (sound : Sound memory (some x) none none) :
    Sound (memory.makeSharedOf x) none none none :=
  sound.newShared.pushShared

theorem Sound.resetOwnedTo (sound : Sound memory none none none) :
    Sound (memory.resetOwnedTo place) none none none := by
  unfold Memory.resetOwnedTo
  split
  next bound => exact sound.allocate.newOwned.setOwned bound
  next => exact sound

theorem Sound.resetSharedTo (sound : Sound memory none none none) :
    Sound (memory.resetSharedTo place) none none none := by
  unfold Memory.resetSharedTo
  split
  next bound => exact sound.allocate.newShared.setShared bound
  next => exact sound

theorem pointer_eq_some (found : memory.pointer place = some (block, x)) :
    memory.owned place = some block ∧
      ∃ data, memory.ownedData[block]? = some data ∧ data.t = some x := by
  simp only [Memory.pointer, Option.bind_eq_some_iff, Option.map_eq_some_iff,
    Prod.mk.injEq] at found
  obtain ⟨_, refers, _, ⟨data, found, holds⟩, rfl, rfl⟩ := found
  exact ⟨refers, data, found, holds⟩

section

variable (sound : Sound memory none none none)

include sound

/-- An exchange takes the object out of the block. -/
theorem Sound.exchange (found : memory.pointer place = some (block, x)) :
    Sound (memory.exchange block) (some x) none none := by
  obtain ⟨refers, data, found, holds⟩ := pointer_eq_some found
  have bound := (List.getElem?_eq_some_iff.mp found).1
  have alive : data.destroyed = false := by
    obtain ⟨data', found', alive⟩ := (sound.ownedAlive block).mpr (.inl (owned_mem refers))
    rw [found] at found'
    cases found'
    exact alive
  simp only [Memory.exchange, found]
  constructor
  · intro y
    apply Eq.trans _ (sound.counted y)
    have moved := count_map_set OwnedData.holding _ _ _ { data with t := none } found y
    have before : data.holding = some x := by simp [OwnedData.holding, alive, holds]
    have after : ({ data with t := none } : OwnedData).holding = none := by
      simp [OwnedData.holding]
    rw [before, after, Option.toList_none, List.count_nil] at moved
    simp only [tally, Option.toList_none, List.count_nil]
    omega
  · intro other
    apply Iff.trans _ (sound.ownedAlive other)
    by_cases same : other = block
    · subst other
      simp [OwnedAlive, List.getElem?_set_self bound, found]
    · simp [OwnedAlive, List.getElem?_set_ne (Ne.symm same)]
  · exact sound.sharedAlive
  · refine ⟨sound.promising.claimed, sound.promising.ready, ?_, sound.promising.once,
      sound.promising.handles⟩
    intro promised data' made at' future
    obtain ⟨owned, kept, same⟩ := sound.promising.delivered promised data' made at' future
    by_cases here : made = block
    · subst made
      exact ⟨_, List.getElem?_set_self bound, fun _ none => by cases none⟩
    · exact ⟨owned, (List.getElem?_set_ne (Ne.symm here)).trans kept, same⟩

theorem Sound.share :
    Sound (memory.share place) none none none := by
  unfold Memory.share
  split
  next => exact sound.pushShared
  next block old found =>
    apply Sound.makeSharedOf
    apply Sound.setOwned_known (sound.exchange found)
    intro _ none
    cases none

theorem Sound.release :
    Sound (memory.release place) none none none := by
  unfold Memory.release
  split
  next => exact sound
  next block old found =>
    have reset : Sound ((memory.exchange block).setOwned place none) (some old) none none := by
      apply Sound.setOwned_known (sound.exchange found)
      intro _ none
      cases none
    constructor
    · intro x
      apply Eq.trans _ (reset.counted x)
      simp only [tally, List.count_append, Option.toList_some, Option.toList_none, List.count_nil]
      omega
    · exact reset.ownedAlive
    · exact reset.sharedAlive
    · exact ⟨reset.promising.claimed, reset.promising.ready, reset.promising.delivered,
        reset.promising.once, reset.promising.handles⟩

theorem Sound.get :
    Sound (memory.get place) none none none := by
  unfold Memory.get
  split
  next => exact sound.pushOwned
  next =>
    split
    next => exact sound
    next made delivered =>
      apply Sound.pushOwned
      apply sound.hold
      intro _ same
      cases same
      exact delivery_mem delivered

end

/-- The block that `own` claims, before the variable lets go of it. -/
theorem Sound.claim {data : SharedData} (sound : Sound memory none none none)
    (found : memory.sharedData[block]? = some data) (refers : memory.shared place = some block)
    (unclaimed : ¬ data.owned) :
    Sound { memory.putShared block { data with owned := true } with
      futures := memory.futures ++ [Handle.promise block]
      owns := memory.owns ++ [block] } none none none := by
  obtain ⟨data', found', alive⟩ := (sound.sharedAlive block).mpr (.inl (shared_mem refers))
  rw [found] at found'
  cases found'
  have fresh : block ∉ memory.owns := by
    intro claimed
    obtain ⟨data', found', owned⟩ := (sound.promising.claimed block).mp claimed
    rw [found] at found'
    cases found'
    exact unclaimed owned
  have pending : data.future = none := by
    have ready := (sound.promising.ready block data found).not
    simpa [unclaimed] using ready
  have put (other : Nat) (value : SharedData) :
      (memory.putShared block { data with owned := true }).sharedData[other]? = some value ↔
        other = block ∧ { data with owned := true } = value ∨
          other ≠ block ∧ memory.sharedData[other]? = some value := found_putShared found
  constructor
  · intro x
    apply Eq.trans _ (sound.counted x)
    have moved := count_map_set SharedData.holding _ _ _ { data with owned := true } found x
    have same : ({ data with owned := true } : SharedData).holding = data.holding := rfl
    rw [same, Nat.add_right_cancel_iff] at moved
    simp only [tally, Memory.putShared, moved]
  · intro other
    apply (sound.ownedAlive other).trans
    have kept := ownedReferences_putShared found other
      (Iff.refl (({ data with owned := true } : SharedData).future = some other))
    have undelivered : (memory.putShared block { data with owned := true }).delivery
        (.promise block) = none := by
      rw [delivery, (put block _).mpr (.inl ⟨rfl, rfl⟩)]
      exact pending
    simp only [reduceCtorEq, or_false]
    rw [← kept, mem_ownedReferences, mem_ownedReferences]
    apply or_congr Iff.rfl
    constructor
    · rintro ⟨handle, inside, delivered⟩
      exact ⟨handle, List.mem_append_left _ inside, delivered⟩
    · rintro ⟨handle, inside, delivered⟩
      rcases List.mem_append.mp inside with old | new
      · exact ⟨handle, old, delivered⟩
      · cases List.mem_singleton.mp new
        cases undelivered.symm.trans delivered
  · intro other
    apply Iff.trans _ (sound.sharedAlive other)
    by_cases same : other = block
    · subst other
      have bound := (List.getElem?_eq_some_iff.mp found).1
      simp [SharedAlive, Memory.putShared, List.getElem?_set_self bound, found]
    · simp [SharedAlive, Memory.putShared, List.getElem?_set_ne (Ne.symm same)]
  · constructor
    · intro other
      rw [List.mem_append, List.mem_singleton, sound.promising.claimed]
      by_cases same : other = block
      · subst other
        simp only [or_true, true_iff]
        exact ⟨_, (put block _).mpr (.inl ⟨rfl, rfl⟩), rfl⟩
      · simp only [same, or_false]
        apply exists_congr
        intro value
        apply and_congr _ Iff.rfl
        simp [put, same]
    · intro other value here
      rcases (put other value).mp here with ⟨_, rfl⟩ | ⟨_, old⟩
      · simp [pending, alive]
      · exact sound.promising.ready other value old
    · intro other value made here future
      rcases (put other value).mp here with ⟨_, rfl⟩ | ⟨_, old⟩
      · simp [pending] at future
      · exact sound.promising.delivered other value made old future
    · apply List.Nodup.append sound.promising.once (List.nodup_singleton block)
      simpa using fresh
    · intro other inside
      rcases List.mem_append.mp inside with old | new
      · exact List.mem_append_left _ (sound.promising.handles other old)
      · cases List.mem_singleton.mp new
        exact List.mem_append_right _ (List.mem_singleton_self block)

theorem Sound.own (sound : Sound memory none none none) :
    Sound (memory.own place) none none none := by
  have plain {handle : Handle} (plain : ∀ block, handle ≠ .promise block) :
      Sound (memory.pushFuture handle) none none none := sound.pushFuture (known_plain plain)
  unfold Memory.own
  split
  next => exact plain (by simp)
  next block refers =>
    split
    next => exact sound
    next data found =>
      split
      next => exact plain (by simp)
      next unclaimed =>
        apply Sound.setShared_known (sound.claim found refers unclaimed)
        intro _ none
        cases none

/-- One call keeps the invariant. -/
theorem Sound.step (sound : Sound memory none none none) (action : Action) :
    Sound (memory.step action) none none none := by
  cases action with
  | makeOwned => exact sound.makeOwned
  | makeOwnedNull => exact sound.pushOwned
  | copyOwned source =>
      exact Sound.pushOwned (sound.hold fun _ refers => owned_mem refers)
  | assignOwned place source =>
      exact sound.setOwned_known fun _ refers => owned_mem refers
  | resetOwned place => exact sound.setOwned_known fun _ none => by cases none
  | resetOwnedTo place => exact sound.resetOwnedTo
  | share place => exact sound.share
  | release place => exact sound.release
  | makeShared => exact sound.allocate.makeSharedOf
  | makeSharedNull => exact sound.pushShared
  | copyShared source =>
      exact Sound.pushShared (sound.holdShared fun _ refers => shared_mem refers)
  | assignShared place source =>
      exact sound.setShared_known fun _ refers => shared_mem refers
  | resetShared place => exact sound.setShared_known fun _ none => by cases none
  | resetSharedTo place => exact sound.resetSharedTo
  | own place => exact sound.own
  | copyFuture source => exact sound.pushFuture (sound.known_future source)
  | assignFuture place source => exact sound.setFuture (sound.known_future source)
  | dropFuture place => exact sound.setFuture (known_plain (by simp))
  | get place => exact sound.get

theorem sound_initial : Sound {} none none none := by
  constructor
  · intro x
    rfl
  · intro block
    simp [OwnedAlive, ownedReferences]
  · intro block
    simp [SharedAlive, sharedReferences]
  · constructor <;> simp

/-- A program keeps the invariant. -/
theorem Sound.foldl (sound : Sound memory none none none) (actions : List Action) :
    Sound (actions.foldl Memory.step memory) none none none := by
  induction actions generalizing memory with
  | nil => exact sound
  | cons action rest ih => exact ih (sound.step action)

theorem sound_run (actions : List Action) : Sound (run actions) none none none :=
  sound_initial.foldl actions

end Calls

section Results

variable {memory next last : Memory} {place block x : Nat} {value : Option Nat}

section

variable (sound : Sound memory none none none)

include sound

/-- The charge of an object is held, and the object has not been disposed of. -/
theorem Sound.held_iff (x : Nat) :
    memory.Held x ↔ 0 < (memory.ownedData.map OwnedData.holding).count (some x) +
      (memory.sharedData.map SharedData.holding).count (some x) := by
  rw [Nat.add_pos_iff_pos_or_pos, List.count_pos_iff, List.count_pos_iff, List.mem_map,
    List.mem_map]
  apply or_congr
  · constructor
    · rintro ⟨block, _, data, found, holds⟩
      exact ⟨data, List.mem_of_getElem? found, holds⟩
    · rintro ⟨data, inside, holds⟩
      obtain ⟨block, found⟩ := List.mem_iff_getElem?.mp inside
      have alive : data.destroyed = false := by
        simp only [OwnedData.holding, ite_eq_iff, reduceCtorEq, and_false, false_or] at holds
        simpa using holds.1
      have refers := (sound.ownedAlive block).mp ⟨data, found, alive⟩
      simp only [reduceCtorEq, or_false] at refers
      exact ⟨block, refers, data, found, holds⟩
  · constructor
    · rintro ⟨block, _, data, found, holds⟩
      exact ⟨data, List.mem_of_getElem? found, holds⟩
    · rintro ⟨data, inside, holds⟩
      obtain ⟨block, found⟩ := List.mem_iff_getElem?.mp inside
      have alive : data.destroyed = false := by
        simp only [SharedData.holding, ite_eq_iff, reduceCtorEq, and_false, false_or] at holds
        simpa using holds.1
      have refers := (sound.sharedAlive block).mp ⟨data, found, alive⟩
      simp only [reduceCtorEq, or_false] at refers
      exact ⟨block, refers, data, found, holds⟩

theorem Sound.disposed (taken : x < memory.allocated) :
    (memory.Held x → memory.deleted.count x + memory.released.count x = 0) ∧
      (¬ memory.Held x → memory.deleted.count x + memory.released.count x = 1) := by
  have counted := sound.counted x
  simp only [tally, Option.toList_none, List.count_nil, taken, if_true] at counted
  rw [sound.held_iff]
  constructor <;> intro held <;> omega

theorem Sound.ready_iff (claimed : block ∈ memory.owns) :
    memory.Ready block ↔ block ∉ memory.sharedReferences := by
  obtain ⟨data, found, owned⟩ := (sound.promising.claimed block).mp claimed
  have ready := sound.promising.ready block data found
  have alive := sound.sharedAlive block
  simp only [SharedAlive, found, Option.some.injEq, exists_eq_left', reduceCtorEq, or_false]
    at alive
  simp only [Ready, found, Option.some.injEq, exists_eq_left', ready, owned, and_true, ← alive,
    Bool.not_eq_false]

/-- A future delivers the object of its block, and while it does no `Shared` leads there. -/
theorem Sound.delivers (delivers : memory.Delivers block x) : ¬ memory.Refers x := by
  rintro ⟨other, refers, data', found', rfl⟩
  obtain ⟨data, made, owned, found, ready, kept, holds⟩ := delivers
  obtain ⟨alive', found'', alive⟩ := (sound.sharedAlive other).mpr (.inl refers)
  rw [found'] at found''
  cases found''
  have counted := sound.counted data'.t
  have first : 0 < (memory.ownedData.map OwnedData.holding).count (some data'.t) :=
    List.count_pos_iff.mpr (List.mem_map.mpr ⟨owned, List.mem_of_getElem? kept, holds⟩)
  have second : 0 < (memory.sharedData.map SharedData.holding).count (some data'.t) :=
    List.count_pos_iff.mpr (List.mem_map.mpr ⟨data', List.mem_of_getElem? found', by
      simp [SharedData.holding, alive]⟩)
  simp only [tally] at counted
  split at counted <;> omega

end

/-- What a block of a `Shared` has gone through is not undone. -/
def Older (memory next : Memory) : Prop :=
  ∀ (block : Nat) (data : SharedData), memory.sharedData[block]? = some data →
    ∃ later : SharedData, next.sharedData[block]? = some later ∧
      (data.destroyed = true → later.destroyed = true) ∧ (data.owned = true → later.owned = true)

theorem older_of_eq (same : next.sharedData = memory.sharedData) : Older memory next := by
  intro block data found
  exact ⟨data, same ▸ found, fun gone => gone, fun claimed => claimed⟩

theorem Older.trans (first : Older memory next) (second : Older next last) : Older memory last := by
  intro block data found
  obtain ⟨later, found, gone, claimed⟩ := first block data found
  obtain ⟨last, found, gone', claimed'⟩ := second block later found
  exact ⟨last, found, fun before => gone' (gone before), fun before => claimed' (claimed before)⟩

theorem older_newShared : Older memory (memory.newShared x) := by
  intro block data found
  exact ⟨data, found_append.mpr (.inl found), fun gone => gone, fun claimed => claimed⟩

theorem older_putShared {data new : SharedData} (found : memory.sharedData[block]? = some data)
    (gone : data.destroyed = true → new.destroyed = true)
    (claimed : data.owned = true → new.owned = true) : Older memory (memory.putShared block new) := by
  intro other value here
  by_cases same : other = block
  · subst other
    rw [found] at here
    cases here
    exact ⟨new, (found_putShared found).mpr (.inl ⟨rfl, rfl⟩), gone, claimed⟩
  · exact ⟨value, (found_putShared found).mpr (.inr ⟨same, here⟩), fun gone => gone,
      fun claimed => claimed⟩

theorem sharedData_collectOwned :
    (memory.collectOwned block).sharedData = memory.sharedData := by
  simp only [Memory.collectOwned, Memory.destroyOwned]
  split
  · rfl
  · split <;> rfl

theorem sharedData_dropOwned : (memory.dropOwned value).sharedData = memory.sharedData := by
  cases value with
  | none => rfl
  | some block => exact sharedData_collectOwned

theorem older_setOwned : Older memory (memory.setOwned place value) :=
  older_of_eq sharedData_dropOwned

theorem older_exchange : Older memory (memory.exchange block) := by
  apply older_of_eq
  unfold Memory.exchange
  split <;> rfl

theorem older_dropShared : Older memory (memory.dropShared value) := by
  cases value with
  | none => exact older_of_eq rfl
  | some block =>
      simp only [Memory.dropShared, Memory.collectShared, Memory.destroyShared]
      split
      · exact older_of_eq rfl
      · split
        · exact older_of_eq rfl
        next data found =>
          split
          · have made : Older memory (memory.newOwned data.t) := older_of_eq rfl
            apply Older.trans _ (older_of_eq sharedData_collectOwned)
            apply made.trans
            apply older_putShared found
            · intro _
              rfl
            · intro claimed
              exact claimed
          · have put : Older memory (memory.putShared block { data with destroyed := true }) := by
              apply older_putShared found
              · intro _
                rfl
              · intro claimed
                exact claimed
            exact put.trans (older_of_eq rfl)

theorem older_setShared : Older memory (memory.setShared place value) := by
  have written : Older memory { memory with shareds := memory.shareds.set place value } :=
    older_of_eq rfl
  exact written.trans older_dropShared

theorem older_share : Older memory (memory.share place) := by
  unfold Memory.share
  split
  next => exact older_of_eq rfl
  next block old _ =>
    have made : Older ((memory.exchange block).setOwned place none)
        (((memory.exchange block).setOwned place none).makeSharedOf old) :=
      older_newShared.trans (older_of_eq rfl)
    exact older_exchange.trans (older_setOwned.trans made)

theorem older_release : Older memory (memory.release place) := by
  unfold Memory.release
  split
  next => exact older_of_eq rfl
  next block old _ =>
    exact older_exchange.trans (older_setOwned.trans (older_of_eq rfl))

theorem older_own : Older memory (memory.own place) := by
  unfold Memory.own
  split
  next => exact older_of_eq rfl
  next block refers =>
    split
    next => exact older_of_eq rfl
    next data found =>
      split
      next => exact older_of_eq rfl
      next =>
        have claimed : Older memory (memory.putShared block { data with owned := true }) := by
          apply older_putShared found
          · intro gone
            exact gone
          · intro _
            rfl
        apply Older.trans _ older_setShared
        exact claimed.trans (older_of_eq rfl)

theorem older_step (action : Action) : Older memory (memory.step action) := by
  cases action with
  | makeOwned | makeOwnedNull | copyOwned | makeSharedNull | copyShared | copyFuture =>
      exact older_of_eq rfl
  | assignOwned | resetOwned => exact older_setOwned
  | resetOwnedTo place =>
      simp only [Memory.step, Memory.resetOwnedTo]
      split
      · apply Older.trans _ older_setOwned
        exact older_of_eq rfl
      · exact older_of_eq rfl
  | share place => exact older_share
  | release place => exact older_release
  | makeShared =>
      have allocated : Older memory memory.allocate := older_of_eq rfl
      exact (allocated.trans older_newShared).trans (older_of_eq rfl)
  | assignShared | resetShared => exact older_setShared
  | resetSharedTo place =>
      simp only [Memory.step, Memory.resetSharedTo]
      split
      · have allocated : Older memory memory.allocate := older_of_eq rfl
        exact (allocated.trans older_newShared).trans older_setShared
      · exact older_of_eq rfl
  | own place => exact older_own
  | assignFuture | dropFuture => exact older_of_eq sharedData_dropOwned
  | get place =>
      simp only [Memory.step, Memory.get]
      apply older_of_eq
      split
      · rfl
      · split <;> rfl

theorem older_foldl (actions : List Action) : Older memory (actions.foldl Memory.step memory) := by
  induction actions generalizing memory with
  | nil => exact older_of_eq rfl
  | cons action rest ih => exact (older_step action).trans ih

/-- A future that is ready stays ready. -/
theorem Sound.ready_later (sound : Sound memory none none none)
    (later : Sound next none none none) (older : Older memory next)
    (ready : memory.Ready block) : next.Ready block := by
  obtain ⟨data, found, isSome⟩ := ready
  obtain ⟨data', found', gone, claimed⟩ := older block data found
  have before := (sound.promising.ready block data found).mp isSome
  exact ⟨data', found', (later.promising.ready block data' found').mpr
    ⟨gone before.1, claimed before.2⟩⟩

theorem Sound.claimed_of_ready (sound : Sound memory none none none)
    (ready : memory.Ready block) : block ∈ memory.owns := by
  obtain ⟨data, found, isSome⟩ := ready
  exact (sound.promising.claimed block).mpr
    ⟨data, found, ((sound.promising.ready block data found).mp isSome).2⟩

end Results

theorem setShared_futures (memory : Memory) (place : Nat) (value : Option Nat) :
    (memory.setShared place value).futures = memory.futures := by
  unfold Memory.setShared
  cases memory.shared place with
  | none => rfl
  | some block =>
      simp only [Memory.dropShared, Memory.collectShared]
      split
      · rfl
      · simp only [Memory.destroyShared]
        split
        · rfl
        · split
          · simp only [Memory.collectOwned, Memory.destroyOwned]
            split
            · rfl
            · split <;> rfl
          · rfl

/-- The first `own` on a block gets the future of the promise, and every other one fails. -/
theorem Sound.own_futures (sound : Sound memory none none none) {place : Nat}
    (refers : memory.shared place = some block) :
    (memory.own place).futures =
      memory.futures ++ [if block ∈ memory.owns then .failed else .promise block] := by
  obtain ⟨data, found, -⟩ := (sound.sharedAlive block).mpr (.inl (shared_mem refers))
  have claimed : block ∈ memory.owns ↔ data.owned = true := by
    rw [sound.promising.claimed, found]
    simp
  unfold Memory.own
  simp only [refers, found]
  split
  · rename_i owned
    rw [if_pos (claimed.mpr owned)]
    rfl
  · rename_i unowned
    rw [if_neg fun known => unowned (claimed.mp known), setShared_futures]

/-- After any sequence of calls an object that has been allocated is in the charge of something
that a variable leads to, and neither deleted nor released, or it has been deleted once or released
once.  The first `own` on a block, and no other one, gets a future that does not fail; the future is
ready exactly when no `Shared` leads to the block.  Whatever is called after that, no `Shared` leads
to the block again, and none leads to the object as long as the `Owned` in the future has it. -/
theorem disposal (actions : List Action) :
    (∀ x < (run actions).allocated,
      ((run actions).Held x →
        (run actions).deleted.count x + (run actions).released.count x = 0) ∧
      (¬ (run actions).Held x →
        (run actions).deleted.count x + (run actions).released.count x = 1)) ∧
    (run actions).owns.Nodup ∧
    (∀ place block, (run actions).shared place = some block →
      (run (actions ++ [.own place])).futures = (run actions).futures ++
        [if block ∈ (run actions).owns then .failed else .promise block]) ∧
    (∀ block, .promise block ∈ (run actions).futures → block ∈ (run actions).owns) ∧
    (∀ block ∈ (run actions).owns,
      (run actions).Ready block ↔ block ∉ (run actions).sharedReferences) ∧
    ∀ block, (run actions).Ready block → ∀ later : List Action,
      (run (actions ++ later)).Ready block ∧
      block ∉ (run (actions ++ later)).sharedReferences ∧
      ∀ x, (run (actions ++ later)).Delivers block x → ¬ (run (actions ++ later)).Refers x := by
  have sound := sound_run actions
  refine ⟨fun x taken => sound.disposed taken, sound.promising.once,
    fun place block refers => ?_, sound.promising.handles,
    fun block claimed => sound.ready_iff claimed, ?_⟩
  · rw [run, List.foldl_append]
    exact sound.own_futures refers
  intro block ready later
  have sound' := sound_run (actions ++ later)
  have older : Older (run actions) (run (actions ++ later)) := by
    rw [run, run, List.foldl_append]
    exact older_foldl later
  have still := sound.ready_later sound' older ready
  refine ⟨still, (sound'.ready_iff (sound'.claimed_of_ready still)).mp still, ?_⟩
  intro x delivers
  exact sound'.delivers delivers

end Libprocess.Ownership.Memory
