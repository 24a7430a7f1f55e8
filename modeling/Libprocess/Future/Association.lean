import Libprocess.Future.Abandonment

/-!
# Associated futures

`Promise::associate` makes a future a copy of its target.  The functions of the promise read
`associated` before they take the lock, so the copy is faithful if no such function passes its
check, is overtaken by `associate`, and then completes the future.
-/

namespace Libprocess

open Concurrency

variable {α : Type}

open Snapshot (Entered Ran)

namespace Graph

/-- An associated future holds nothing but what its target holds. -/
structure Mirrored (snapshot : GraphSnapshot α) : Prop where
  completed : ∀ future target, snapshot.env.target future = some target →
    (snapshot.status future).state ≠ .pending → ∃ op : Op α GraphCallback,
      (snapshot.status future).Settles op ∧ (snapshot.status target).Settles op
  bound : ∀ callback argument future completion, .bound callback argument ∈ snapshot.bodies →
    forwards callback argument = some (future, completion) →
    ∃ target, snapshot.env.target future = some target ∧
      (snapshot.status target).Settles (completion.op : Op α GraphCallback)
  forwarded : ∀ future completion, .forwarded future completion ∈ snapshot.bodies →
    ∃ target, snapshot.env.target future = some target ∧
      (snapshot.status target).Settles (completion.op : Op α GraphCallback)

/-- A call that completes an associated future copies its target. -/
def Copies (snapshot : GraphSnapshot α) (frame : (graph α).Frame) : Prop :=
  ∀ future op, frame = .enter future op → (future, op) ∈ snapshot.calls → op.completes = true →
    (snapshot.status future).state = .pending → ∀ target,
    snapshot.env.target future = some target → (snapshot.status target).Settles op

section Mirrored

variable {before after : GraphSnapshot α} {frame : (graph α).Frame}

/-- Frames that wait for a bound function are entered by it. -/
theorem Moves.forwarded_origin {status : FutureId → Status α} {env next : GraphEnv}
    {body : GraphBody α} {associated : FutureId → Bool}
    {made : List (FutureId × Op α GraphCallback)} {entered : List (GraphBody α)}
    (moves : Moves status env body next associated made entered) {future : FutureId}
    {completion : Completion α} (member : .forwarded future completion ∈ entered) :
    ∃ callback argument, body = .bound callback argument ∧
      forwards callback argument = some (future, completion) := by
  have different : ∀ frame : GraphBody α, frame.isForeign = true →
      .forwarded future completion ≠ frame := by
    rintro frame runs rfl
    cases runs
  cases moves with
  | call runs | promise runs | settling runs | associating runs | destroy runs | derive runs
  | expire runs | free runs | orphan runs => simp [different _ runs] at member
  | forward forwards =>
      simp only [List.mem_singleton, GraphBody.forwarded.injEq] at member
      obtain ⟨rfl, rfl⟩ := member
      exact ⟨_, _, rfl, forwards⟩
  | _ => simp at member

/-- An invoked callback copies what its future holds. -/
theorem settles_of_ran {target : FutureId} {kind : CallbackKind} {callback : GraphCallback}
    {future : FutureId} {completion : Completion α} {env : GraphEnv} {status : Status α}
    (place : Place env target kind callback) (fires : status.fires kind = true)
    (result : status.result.Fits status.state)
    (found : forwards callback (argument target kind status.result) = some (future, completion)) :
    env.target future = some target ∧ status.Settles (completion.op : Op α GraphCallback) := by
  cases callback with
  | set other | fail other | discarded other =>
      obtain ⟨rfl, targets⟩ := place
      simp only [Status.fires, decide_eq_true_eq] at fires
      cases stored : status.result <;> rw [stored] at found result <;>
        simp_all [forwards, argument, Result.Fits, Status.Settles]
      all_goals
        obtain ⟨rfl, rfl⟩ := found
        simp_all [Completion.op]
  | other | run | abandoned | discard | abandon => simp [forwards] at found

theorem Mirrored.step (mirrored : Mirrored before) (invariant : Invariant before)
    (sound : before.Sound) (copies : Copies before frame) (step : before.Step frame after) :
    Mirrored after := by
  have progress := step_progress invariant.kept step
  have stays : ∀ future (op : Op α GraphCallback),
      (∃ target, before.env.target future = some target ∧ (before.status target).Settles op) →
      ∃ target, after.env.target future = some target ∧ (after.status target).Settles op := by
    rintro future op ⟨target, found, settles⟩
    exact ⟨target, progress.env.target _ _ found, settles.later (progress.status target)⟩
  have completed : ∀ future target, before.env.target future = some target →
      (before.status future).state ≠ .pending → ∃ op : Op α GraphCallback,
        (after.status future).Settles op ∧ (after.status target).Settles op := by
    intro future target found completed
    obtain ⟨op, own, settles⟩ := mirrored.completed future target found completed
    exact ⟨op, own.later (progress.status future), settles.later (progress.status target)⟩
  obtain rfl | ⟨other, op, rfl, entered⟩ | ⟨other, kind, registration, ran⟩ |
    ⟨body, rest, calls, opened, -, executed⟩ := step_cases step
  · exact mirrored
  · constructor
    · rw [entered.env]
      intro future target found final
      by_cases pending : (before.status future).state = .pending
      · obtain ⟨rfl, completes, settles, -⟩ := entered.completes pending final
        have call : (future, op) ∈ before.calls := by
          rw [entered.calls]
          exact Multiset.mem_cons_self _ _
        have source := copies future op rfl call completes pending target found
        exact ⟨op, settles, source.later (progress.status target)⟩
      · exact completed future target found pending
    · rw [entered.bodies]
      intro callback argument future completion member found
      exact stays future _ (mirrored.bound callback argument future completion member found)
    · rw [entered.bodies]
      intro future completion member
      exact stays future _ (mirrored.forwarded future completion member)
  · constructor
    · rw [ran.env, ran.status]
      exact mirrored.completed
    · intro callback argument future completion member found
      rw [ran.bodies] at member
      cases Multiset.mem_cons.mp member with
      | inr old =>
          exact stays future _ (mirrored.bound callback argument future completion old found)
      | inl new =>
          have place := invariant.placed.registered _ ran.filed
          have fires := ran.fires fun _ => disciplined other
          apply stays future
          refine ⟨other, settles_of_ran place fires (sound.result other) ?_⟩
          cases own : registration.callback <;> rw [own] at new <;> simp only [invoke] at new <;>
            cases new <;> exact found
    · intro future completion member
      rw [ran.bodies] at member
      cases Multiset.mem_cons.mp member with
      | inr old => exact stays future _ (mirrored.forwarded future completion old)
      | inl new =>
          cases own : registration.callback <;> rw [own] at new <;> simp only [invoke] at new <;>
            cases new
  · constructor
    · intro future target found final
      rw [(executed.status future).1] at final
      obtain ⟨same, -⟩ | ⟨associated, _, -, -, pending, -, targets, -, -⟩ := executed.moves.target
      · rw [same] at found
        exact completed future target found final
      · by_cases here : future = associated
        · subst here
          exact absurd pending final
        · rw [targets, Function.update_of_ne here] at found
          exact completed future target found final
    · intro callback argument future completion member found
      cases executed.source member with
      | inl new => exact absurd new executed.moves.not_bound
      | inr old =>
          exact stays future _ (mirrored.bound callback argument future completion old found)
    · intro future completion member
      cases executed.source member with
      | inr old => exact stays future _ (mirrored.forwarded future completion old)
      | inl new =>
          obtain ⟨callback, argument, rfl, found⟩ := executed.moves.forwarded_origin new
          apply stays future
          exact mirrored.bound callback argument future completion executed.mem found

end Mirrored

/-! ## Runs -/

/-- The future that a function of its promise is about to complete. -/
def direct : List (graph α).Frame → Option FutureId
  | .enter future op :: .body (.promised other _) :: _ =>
      if future = other ∧ op.completes then some future else none
  | _ => none

/-- The block of a function of a promise does not complete a future that has been associated
since the function read `associated`. -/
def Unraced (machine : Machine (graph α)) : Move (graph α) → Prop
  | .spawn => True
  | .advance thread _ => ∀ future ∈ machine.threads[thread]?.bind direct,
      (machine.memory.data future).state = .pending →
      (machine.memory.data future).associated = false

/-- The future that a frame associates. -/
def associates : (graph α).Frame → Option FutureId
  | .body (.associate future _) => some future
  | _ => none

/-- A call on the future that has not executed its block and may complete it. -/
def completing (future : FutureId) : (graph α).Frame → Bool
  | .enter other op => other = future ∧ op.completes
  | _ => false

/-- `associate` takes effect while no function of the promise is about to complete the future. -/
def Separate (machine : Machine (graph α)) : Move (graph α) → Prop
  | .spawn => True
  | .advance thread _ => ∀ future ∈ (machine.threads.top? thread).bind associates,
      (machine.memory.data future).associated = false →
      ∀ frame ∈ machine.threads.frames, completing future frame = false

instance unraced_decidable (machine : Machine (graph α)) :
    (move : Move (graph α)) → Decidable (Unraced machine move)
  | .spawn => .isTrue trivial
  | .advance thread _ => inferInstanceAs (Decidable (∀ future ∈ machine.threads[thread]?.bind
      direct, (machine.memory.data future).state = .pending →
        (machine.memory.data future).associated = false))

instance separate_decidable (machine : Machine (graph α)) :
    (move : Move (graph α)) → Decidable (Separate machine move)
  | .spawn => .isTrue trivial
  | .advance thread _ => inferInstanceAs (Decidable (∀ future ∈ (machine.threads.top? thread).bind
      associates, (machine.memory.data future).associated = false →
        ∀ frame ∈ machine.threads.frames, completing future frame = false))

section Runs

variable {machine : Machine (graph α)}

theorem Mirrored.initial (initial : machine.Initial) : Mirrored machine.snapshot := by
  obtain ⟨env, -, -, -, bodies, -⟩ := initial.blank
  have environment : machine.snapshot.env = .new := env
  refine ⟨?_, by simp [bodies], by simp [bodies]⟩
  intro future target found
  rw [environment] at found
  cases found

theorem Mirrored.spawn {snapshot : GraphSnapshot α} (mirrored : Mirrored snapshot) :
    Mirrored { snapshot with bodies := .other ::ₘ snapshot.bodies } := by
  refine ⟨mirrored.completed, ?_, ?_⟩
  · intro callback argument future completion member found
    cases Multiset.mem_cons.mp member with
    | inl same => cases same
    | inr old => exact mirrored.bound callback argument future completion old found
  · intro future completion member
    cases Multiset.mem_cons.mp member with
    | inl same => cases same
    | inr old => exact mirrored.forwarded future completion old

/-- What the stacks and the condition on runs say about a completing call. -/
def Called (snapshot : GraphSnapshot α) (frame : (graph α).Frame) : Prop :=
  ∀ future op, frame = .enter future op → op.completes = true →
    ((snapshot.status future).state = .pending → (snapshot.status future).associated = false) ∨
      ∃ completion : Completion α, op = completion.op ∧ .forwarded future completion ∈ snapshot.bodies

theorem called_of_unraced (reached : (futures (graph α)).Reachable machine) {thread : Nat}
    {choice : GraphChoice α} (unraced : Unraced machine (.advance thread choice))
    {frame : (graph α).Frame} (running : machine.threads.top? thread = some frame) :
    Called machine.snapshot frame := by
  rintro future op rfl completes
  obtain ⟨below, present⟩ := Threads.exists_stack running
  have member := List.mem_of_getElem? present
  obtain ⟨completion, rfl, promised | forwarded⟩ :=
    Stacked.of_reachable reached _ member [] _ below rfl completes
  · obtain ⟨rest, rfl⟩ := List.head?_eq_some_iff.mp promised
    left
    apply unraced future
    simp [present, direct, completes]
  · right
    refine ⟨completion, rfl, ?_⟩
    have inside : .body (.forwarded future completion) ∈ machine.threads.frames :=
      List.mem_flatten.mpr
        ⟨_, member, List.mem_cons_of_mem _ (List.mem_of_mem_head? forwarded)⟩
    exact (Multiset.mem_filterMap Frame.body? _).mpr ⟨_, Multiset.mem_coe.mpr inside, rfl⟩

theorem Mirrored.of_unraced (reached : (futures (graph α)).Reaches Unraced machine) :
    Mirrored machine.snapshot := by
  have both : Invariant machine.snapshot ∧ Mirrored machine.snapshot := by
    apply Machine.snapshot_invariant_of Called _
      (fun snapshot => Invariant snapshot ∧ Mirrored snapshot) _ _ _ reached
    · intro machine thread choice frame reached unraced running
      exact called_of_unraced reached.reachable unraced running
    · intro machine initial
      exact ⟨.initial initial, .initial initial⟩
    · rintro snapshot ⟨invariant, mirrored⟩
      exact ⟨invariant.spawn, mirrored.spawn⟩
    · rintro before frame after sound - ⟨invariant, mirrored⟩ called step
      refine ⟨invariant.step step, mirrored.step invariant sound ?_ step⟩
      rintro future op rfl - completes pending target found
      obtain unassociated | ⟨completion, rfl, member⟩ := called future op rfl completes
      · have flag := invariant.kept.associated future
        rw [unassociated pending, found] at flag
        cases flag
      · obtain ⟨other, same, settles⟩ := mirrored.forwarded future completion member
        rw [found, Option.some.injEq] at same
        rw [same]
        exact settles
  exact both.2

/-- A call that completes an associated future copies its target. -/
def Separated (snapshot : GraphSnapshot α) : Prop :=
  ∀ future op, (future, op) ∈ snapshot.calls → op.completes = true → ∀ target,
    snapshot.env.target future = some target → (snapshot.status target).Settles op

/-- No call is about to complete the future that the frame associates. -/
def Alone (snapshot : GraphSnapshot α) (frame : (graph α).Frame) : Prop :=
  ∀ future target, frame = .body (.associate future target) →
    (snapshot.status future).associated = false → ∀ op, op.completes = true →
    (future, op) ∉ snapshot.calls

theorem Separated.step {before after : GraphSnapshot α} {frame : (graph α).Frame}
    (separated : Separated before) (mirrored : Mirrored before) (kept : Kept before)
    (alone : Alone before frame) (step : before.Step frame after) : Separated after := by
  have progress := step_progress kept step
  have earlier : ∀ future op, (future, op) ∈ before.calls → op.completes = true → ∀ target,
      before.env.target future = some target → (after.status target).Settles op := by
    intro future op member completes target found
    exact (separated future op member completes target found).later (progress.status target)
  obtain rfl | ⟨other, called, rfl, entered⟩ | ⟨other, kind, registration, ran⟩ |
    ⟨body, rest, calls, opened, rfl, executed⟩ := step_cases step
  · exact separated
  · intro future op member completes target found
    rw [entered.env] at found
    apply earlier future op _ completes target found
    rw [entered.calls]
    exact Multiset.mem_cons_of_mem member
  · rw [Separated, ran.calls, ran.env]
    exact earlier
  · intro future op member completes target found
    rw [executed.calls] at member
    cases Multiset.mem_add.mp member with
    | inl new =>
        have same : after.env.target = before.env.target := by
          obtain ⟨same, -⟩ | ⟨_, _, rfl, -⟩ := executed.moves.target
          · exact same
          · obtain ⟨_, ⟨⟩, -⟩ | ⟨_, _, _, ⟨⟩, -⟩ := executed.moves.completing_origin new completes
        obtain ⟨completion, -, -, unassociated⟩ |
          ⟨callback, argument, completion, rfl, forwards, rfl⟩ :=
          executed.moves.completing_origin new completes
        · have flag := kept.associated future
          rw [unassociated, ← same, found] at flag
          cases flag
        · obtain ⟨source, known, settles⟩ :=
            mirrored.bound callback argument future completion executed.mem forwards
          rw [same, known, Option.some.injEq] at found
          rw [← found]
          exact settles.later (progress.status source)
    | inr old =>
        obtain ⟨same, -⟩ | ⟨associated, goal, rfl, -, -, free, targets, -, -⟩ :=
          executed.moves.target
        · rw [same] at found
          exact earlier future op old completes target found
        · by_cases here : future = associated
          · subst here
            exact absurd old (alone future goal rfl free op completes)
          · rw [targets, Function.update_of_ne here] at found
            exact earlier future op old completes target found

theorem Mirrored.of_separate (reached : (futures (graph α)).Reaches Separate machine) :
    Mirrored machine.snapshot := by
  have all : Invariant machine.snapshot ∧ Mirrored machine.snapshot ∧
      Separated machine.snapshot := by
    apply Machine.snapshot_invariant_of Alone _
      (fun snapshot => Invariant snapshot ∧ Mirrored snapshot ∧ Separated snapshot) _ _ _ reached
    · rintro machine thread choice frame - separate running future target rfl unassociated op
        completes member
      have free := separate future (by rw [running]; rfl) unassociated
      simpa [completing, completes] using free _ (Machine.mem_frames_of_call member)
    · intro machine initial
      refine ⟨.initial initial, .initial initial, ?_⟩
      intro future op member
      simp [initial.blank.calls] at member
    · rintro snapshot ⟨invariant, mirrored, separated⟩
      exact ⟨invariant.spawn, mirrored.spawn, separated⟩
    · rintro before frame after sound - ⟨invariant, mirrored, separated⟩ alone step
      refine ⟨invariant.step step, mirrored.step invariant sound ?_ step,
        separated.step mirrored invariant.kept alone step⟩
      rintro future op rfl member completes - target found
      exact separated future op member completes target found
  exact all.2.1

end Runs

end Graph

end Libprocess
