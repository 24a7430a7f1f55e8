import Libprocess.Collect.Whole

/-!
# What `collect` and `await` promise

The future of `collect` or `await` of a vector, in every reachable state, says only what the vector
says; and once every event was delivered it says what a complete vector says.
-/

namespace Libprocess

variable {T : Type}

namespace Gather

/-- The future that a process was spawned for only says what its inputs say. -/
structure Faithful (status : Statuses T) (name : FutureId) (process : GatherProcess T) : Prop where
  collected : process.gathering = .collect → (status name).state = .ready →
    ∃ values, (status name).result = .some (.values values) ∧
      List.Forall₂ (fun future value =>
        (status future).state = .ready ∧ (status future).result = .some value)
        process.inputs values
  awaited : process.gathering = .await → (status name).state = .ready →
    (status name).result = .some (.futures process.inputs) ∧
      ∀ future ∈ process.inputs, (status future).state ≠ .pending
  failed : (status name).state = .failed → process.gathering = .collect ∧
    ∃ future ∈ process.inputs,
      (status future).state = .failed ∨ (status future).state = .discarded
  discarded : (status name).state = .discarded →
    (status name).discard = true ∧ process.asked = process.inputs ∧
      ∀ future ∈ process.inputs, (status future).discard = true ∨ (status future).state ≠ .pending
  abandoned : (status name).abandoned = true →
    process.terminated = true ∨ Lost status process

/-- Every callback of the inputs has run, and the process has served every event. -/
structure Delivered (machine : Machine (gathering T)) (name : FutureId)
    (process : GatherProcess T) : Prop where
  inputs : ∀ future ∈ process.inputs, machine.Quiescent future
  promise : machine.Quiescent name
  frames : ∀ body ∈ machine.snapshot.bodies, about name body = false
  stage : process.stage = .blocked ∨ process.stage = .deleted
  events : process.events = []

abbrev Idle (machine : Machine (gathering T)) : Prop := machine.Resting

instance main_decidable (frame : (gathering T).Body) : Decidable (frame = (gathering T).main) :=
  decidable_of_bool (match frame with | .user => true | _ => false) (by
    cases frame <;> simp [gathering])

theorem Idle.delivered {machine : Machine (gathering T)} {name : FutureId}
    {process : GatherProcess T} (idle : Idle machine)
    (stage : process.stage = .blocked ∨ process.stage = .deleted) (events : process.events = []) :
    Delivered machine name process := by
  constructor
  · exact fun future _ => idle.quiescent future
  · exact idle.quiescent name
  · intro body member
    rw [idle.body member]
    rfl
  · exact stage
  · exact events

/-- Nothing keeps the process from an answer: its inputs are ready, nobody requested a discard of
its future, and nobody terminated it. -/
structure Fulfilled (status : Statuses T) (name : FutureId) (process : GatherProcess T) :
    Prop where
  ready : ∀ future ∈ process.inputs, (status future).state = .ready
  kept : ∀ future ∈ process.inputs, (status future).abandoned = false
  wanted : (status name).discard = false
  running : process.terminated = false

section Faithful

variable {snapshot : GatherSnapshot T} {status : Statuses T} {name : FutureId}
  {process : GatherProcess T} {completion : Completion (Value T)}

/-- A promise that was completed was so by what the process decided. -/
theorem Tracked.decided (tracked : Tracked snapshot name process)
    (completed : (snapshot.status name).state ≠ .pending) :
    ∃ completion, Justified snapshot.status name process completion ∧
      (snapshot.status name).Settles (completion.op : Op (Value T) GatherCallback) := by
  obtain ⟨completion, single, settles⟩ := tracked.promises.settled completed
  exact ⟨completion, tracked.justified completion single, settles⟩

theorem Tracked.faithful (tracked : Tracked snapshot name process) :
    Faithful snapshot.status name process := by
  constructor
  · intro collects ready
    obtain ⟨values, found, result⟩ := tracked.values collects ready
    refine ⟨values, result, (gets_eq_some.mp found).imp ?_⟩
    intro future value here
    exact get_eq_some.mp here
  · intro awaits ready
    obtain ⟨completion, justified, settles⟩ := tracked.decided (by simp [ready])
    cases justified with
    | awaited _ completed => exact ⟨settles.2, completed⟩
    | collected collects | failed collects | discarded collects =>
        rw [awaits] at collects
        cases collects
    | requested => cases ready.symm.trans settles
  · intro failed
    obtain ⟨completion, justified, settles⟩ := tracked.decided (by simp [failed])
    cases justified with
    | collected | awaited => cases failed.symm.trans settles.1
    | failed collects input here => exact ⟨collects, _, input, .inl here⟩
    | discarded collects input here => exact ⟨collects, _, input, .inr here⟩
    | requested => cases failed.symm.trans settles
  · intro discarded
    obtain ⟨completion, justified, settles⟩ := tracked.decided (by simp [discarded])
    cases justified with
    | collected | awaited | failed | discarded => cases discarded.symm.trans settles.1
    | requested requested same asked => exact ⟨requested, same, asked⟩
  · exact tracked.promises.abandoned

end Faithful

section Progress

variable {machine : Machine (gathering T)} {name : FutureId} {process : GatherProcess T}

section

variable (delivered : Delivered machine name process)

include delivered

/-- When every answer was delivered, the process has counted those of all inputs that have
answered. -/
theorem Delivered.notified
    (tracked : Tracked machine.snapshot name process) (blocked : process.stage = .blocked)
    (undecided : process.completions = []) :
    (↑process.heard : Multiset FutureId) = machine.snapshot.notified .onAny (.waited name) := by
  have answers := tracked.counted.answers (by simp [blocked]) undecided
  have underway : machine.snapshot.bodies.filterMap (answer name) = 0 := by
    refine Multiset.eq_zero_of_forall_notMem fun future member => ?_
    obtain ⟨body, present, shown⟩ := (Multiset.mem_filterMap _ _).mp member
    rw [answer_of_about (delivered.frames body present)] at shown
    cases shown
  simpa [underway, delivered.events] using answers

/-- When every input has answered and every answer was delivered, the process has counted all of
them. -/
theorem Delivered.heard
    (invariant : machine.Invariant) (tracked : Tracked machine.snapshot name process)
    (blocked : process.stage = .blocked) (undecided : process.completions = [])
    (complete : ∀ future ∈ process.inputs, (machine.snapshot.status future).state ≠ .pending) :
    process.heard.length = process.inputs.length := by
  have notified := delivered.notified tracked blocked undecided
  have subscribed : machine.snapshot.subscribed .onAny (.waited name) = ↑process.inputs := by
    rw [tracked.registers.waited, if_pos rfl, due, if_neg (by simp [blocked])]
  have all : (↑process.heard : Multiset FutureId) = ↑process.inputs := by
    apply Multiset.ext.mpr
    intro future
    rw [notified, ← subscribed]
    by_cases input : future ∈ process.inputs
    · exact invariant.notified_eq (by simp) _ (delivered.inputs future input)
        (decide_eq_true (complete future input))
    · apply Nat.le_antisymm
      · exact Multiset.count_le_of_le future (invariant.sound.notified_le (by simp) _)
      · rw [subscribed, Multiset.count_eq_zero.mpr (by simpa using input)]
        exact Nat.zero_le _
  exact congrArg Multiset.card all

/-- A process that could answer has answered. -/
theorem Delivered.completed
    (invariant : machine.Invariant) (tracked : Tracked machine.snapshot name process)
    (fulfilled : Fulfilled machine.snapshot.status name process) :
    (machine.snapshot.status name).state ≠ .pending := by
  cases decided : process.completions with
  | nil =>
      cases delivered.stage with
      | inl blocked =>
          have complete : ∀ future ∈ process.inputs,
              (machine.snapshot.status future).state ≠ .pending := by
            intro future input pending
            rw [fulfilled.ready future input] at pending
            cases pending
          have heard := delivered.heard invariant tracked blocked decided complete
          have fewer := (tracked.shaped.undecided decided).2
          exact absurd heard (Nat.ne_of_lt fewer)
      | inr deleted =>
          obtain terminated | lost | completed := tracked.ends.ended (.inr (.inr deleted))
          · rw [fulfilled.running] at terminated
            cases terminated
          · obtain ⟨future, input, abandoned⟩ := lost
            rw [fulfilled.kept future input] at abandoned
            cases abandoned
          · exact completed
  | cons completion rest =>
      have single : rest = [] := by
        have length := tracked.shaped.single
        rw [decided] at length
        exact List.eq_nil_of_length_eq_zero (by simpa using length)
      rw [single] at decided
      cases tracked.promises.decided completion decided with
      | inl waits => exact absurd waits (delivered.promise.no_call _)
      | inr completed => exact completed

/-- And its answer is not an error. -/
theorem Delivered.ready
    (invariant : machine.Invariant) (tracked : Tracked machine.snapshot name process)
    (fulfilled : Fulfilled machine.snapshot.status name process) :
    (machine.snapshot.status name).state = .ready := by
  have faithful := tracked.faithful
  have completed := delivered.completed invariant tracked fulfilled
  cases state : (machine.snapshot.status name).state with
  | ready => rfl
  | pending => exact absurd state completed
  | failed =>
      obtain ⟨-, future, input, error⟩ := faithful.failed state
      rw [fulfilled.ready future input] at error
      cases error with
      | inl failed => cases failed
      | inr discarded => cases discarded
  | discarded =>
      have requested := (faithful.discarded state).1
      rw [fulfilled.wanted] at requested
      cases requested

end

end Progress

end Gather

open Gather in
/-- `collect` and `await` of a vector are sound for every order of completions, and no `CHECK` of
theirs fails. -/
theorem gathering_sound {machine : Machine (gathering T)}
    (reached : (futures (gathering T)).Reachable machine) :
    machine.snapshot.env.aborted = false ∧
      ∀ name process, machine.snapshot.env.process name = some process →
        Faithful machine.snapshot.status name process ∧ process.completions.length ≤ 1 ∧
          (Delivered machine name process → Fulfilled machine.snapshot.status name process →
            (machine.snapshot.status name).state = .ready) := by
  have whole := Whole.of_reachable reached
  have invariant := Machine.Invariant.of_reachable reached
  refine ⟨whole.aborted, ?_⟩
  intro name process known
  have tracked := whole.tracked name process known
  refine ⟨tracked.faithful, tracked.shaped.single, ?_⟩
  intro delivered fulfilled
  exact delivered.ready invariant tracked fulfilled

abbrev Gather.perform : Nat → GatherChoice T → Nat → List (Move (gathering T)) :=
  (gathering T).perform .finish

/-- A vector in which one future stands twice is collected. -/
def gatheringSchedule : List (Move (gathering Nat)) :=
  List.flatten [[.spawn], Gather.perform 0 (.promise 0) 0,
    Gather.perform 0 (.gather .collect [0, 0] 1) 1, Gather.perform 0 (.resume 1) 6,
    Gather.perform 0 (.call 0 (.set (.value 7))) 8, Gather.perform 0 (.resume 1) 9]

theorem gathering_sound_twice : ∃ machine : Machine (gathering Nat), ∃ process,
    machine.snapshot.env.process 1 = some process ∧ process.inputs = [0, 0] ∧
      process.gathering = .collect ∧ (machine.snapshot.status 1).state = .ready := by
  obtain ⟨machine, executed, idle, ⟨process, known, inputs, collects, stage, events, terminated⟩,
      ready, kept, wanted⟩ : ∃ machine ∈ (futures (gathering Nat)).run
        (Machine.new _ fun _ => false) gatheringSchedule, Gather.Idle machine ∧
      (∃ process ∈ machine.memory.env.process 1, process.inputs = [0, 0] ∧
        process.gathering = .collect ∧ process.stage = .deleted ∧ process.events = [] ∧
        process.terminated = false) ∧
      (machine.memory.data 0).state = .ready ∧ (machine.memory.data 0).abandoned = false ∧
      (machine.memory.data 1).discard = false := by
    decide +kernel
  have sound := (gathering_sound
    (.of_run (Machine.new_initial (gathering Nat) fun _ => false) executed)).2 1 process known
  refine ⟨machine, process, known, inputs, collects, sound.2.2 ?_ ?_⟩
  · exact idle.delivered (.inr stage) events
  · constructor
    · rw [inputs]
      intro future member
      have same : future = 0 := by simpa using member
      exact same ▸ ready
    · rw [inputs]
      intro future member
      have same : future = 0 := by simpa using member
      exact same ▸ kept
    · exact wanted
    · exact terminated

end Libprocess
