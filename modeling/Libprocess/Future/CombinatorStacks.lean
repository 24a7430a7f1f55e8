import Libprocess.Future.CombinatorEffects

/-!
# The stacks of promises and combinators

A call that completes a future is made by a function of its promise or by a function that
`associate` bound, and the frame of that function lies directly below the call.  When it runs
again, the future is completed.
-/

namespace Libprocess

open Concurrency

variable {α : Type}

namespace Graph

/-- How a frame fits between its neighbours. -/
def Fits (snapshot : GraphSnapshot α) (above : Option (graph α).Frame) (frame : (graph α).Frame)
    (below : Option (graph α).Frame) : Prop :=
  match frame with
  | .body (.promised future completion) =>
      Resolved future snapshot ∨ above = some (.enter future completion.op)
  | .enter future op => op.completes = true → ∃ completion : Completion α, op = completion.op ∧
      (below = some (.body (.promised future completion)) ∨
        below = some (.body (.forwarded future completion)))
  | _ => True

section Steps

variable {status : FutureId → Status α} {env : GraphEnv} {frame : GraphBody α}
  {choice : GraphChoice α} {effect : Outcome α} {next : GraphEnv} {associated : FutureId → Bool}
  {made : List (FutureId × Op α GraphCallback)} {entered : List (GraphBody α)}

theorem not_completes_released {future other : FutureId} {op : Op α GraphCallback}
    (member : (future, op) ∈ released env other) : op.completes = false := by
  rw [released] at member
  split at member
  · simp only [List.mem_singleton, Prod.mk.injEq] at member
    rw [member.2]
    rfl
  · cases member

/-- Only functions of promises and bound functions complete futures. -/
theorem Moves.plain (moves : Moves status env frame next associated made entered) :
    (∃ future completion, frame = .settle future completion) ∨
      (∃ callback argument, frame = .bound callback argument) ∨
      (∀ future op, (future, op) ∈ made → op.completes = false) ∧
        ∀ future completion, .promised future completion ∉ entered := by
  have foreign : ∀ frame : GraphBody α, frame.isForeign = true →
      ∀ future completion, .promised future completion ≠ frame := by
    rintro frame runs future completion rfl
    cases runs
  cases moves with
  | @call frame other op runs shared =>
      refine .inr (.inr ⟨?_, ?_⟩)
      · intro future made member
        simp only [List.mem_singleton, Prod.mk.injEq] at member
        rw [member.2]
        cases op <;> first | rfl | cases shared
      · simp [foreign _ runs]
  | promise runs | settling runs | associating runs | expire runs | free runs =>
      exact .inr (.inr ⟨by simp, by simp [foreign _ runs]⟩)
  | destroy runs | orphan runs =>
      refine .inr (.inr ⟨?_, by simp [foreign _ runs]⟩)
      intro future op member
      simp only [List.mem_singleton, Prod.mk.injEq] at member
      rw [member.2]
      rfl
  | derive runs =>
      refine .inr (.inr ⟨?_, by simp [foreign _ runs]⟩)
      intro future op member
      simp only [derivations, List.mem_cons, Prod.mk.injEq, List.not_mem_nil, or_false] at member
      rcases member with ⟨-, rfl⟩ | ⟨-, rfl⟩ | ⟨-, rfl⟩ <;> rfl
  | associate =>
      refine .inr (.inr ⟨?_, by simp⟩)
      intro future op member
      cases List.mem_append.mp member with
      | inr releases => exact not_completes_released releases
      | inl member =>
          simp only [associations, List.mem_cons, Prod.mk.injEq, List.not_mem_nil, or_false]
            at member
          rcases member with ⟨-, rfl⟩ | ⟨-, rfl⟩ | ⟨-, rfl⟩ | ⟨-, rfl⟩ | ⟨-, rfl⟩ <;> rfl
  | unrun | promised | refuse runs =>
      exact .inr (.inr ⟨fun _ _ => not_completes_released, by simp⟩)
  | settle => exact .inl ⟨_, _, rfl⟩
  | forward | abandon | abandoned | discard | emptied => exact .inr (.inl ⟨_, _, rfl⟩)
  | finish | invoke | copy | repair | after | late | expired | yieldValue | yieldFuture
  | forwarded => exact .inr (.inr ⟨by simp, by simp⟩)

/-- Where completing calls come from. -/
theorem Moves.completing_origin (moves : Moves status env frame next associated made entered)
    {future : FutureId} {op : Op α GraphCallback} (member : (future, op) ∈ made)
    (completes : op.completes = true) :
    (∃ completion, frame = .settle future completion ∧ op = completion.op ∧
        (status future).associated = false) ∨
      ∃ callback argument completion, frame = .bound callback argument ∧
        forwards callback argument = some (future, completion) ∧ op = completion.op := by
  obtain ⟨other, completion, rfl⟩ | ⟨callback, argument, rfl⟩ | ⟨plain, -⟩ := moves.plain
  · left
    cases moves with
    | settle alive unassociated =>
        simp only [List.mem_singleton] at member
        cases member
        exact ⟨completion, rfl, rfl, unassociated⟩
    | refuse runs =>
        rw [not_completes_released member] at completes
        cases completes
    | call runs | promise runs | settling runs | associating runs | destroy runs | derive runs
    | expire runs | free runs | orphan runs => cases runs
    | late runs => rcases runs with runs | runs <;> cases runs
  · right
    obtain ⟨other, completion, found, rfl⟩ | ⟨other, -, rfl⟩ | ⟨other, -, rfl⟩ |
      ⟨other, -, rfl | ⟨-, rfl⟩⟩ := moves.bound
    · simp only [List.mem_singleton] at member
      cases member
      exact ⟨callback, argument, completion, rfl, found, rfl⟩
    · cases List.mem_singleton.mp member
      cases completes
    · cases List.mem_singleton.mp member
      cases completes
    · cases List.mem_singleton.mp member
      cases completes
    · cases member
  · rw [plain future op member] at completes
    cases completes

/-- A completing call stands directly before the frame that waits for it. -/
theorem step_next (stepped : step status env frame choice = some effect) :
    (∃ future completion, effect.next =
        [.call future completion.op, .body (.promised future completion)] ∨
      effect.next = [.call future completion.op, .body (.forwarded future completion)]) ∨
      (∀ future op, .call future op ∈ effect.next → op.completes = false) ∧
        ∀ future completion, .body (.promised future completion) ∉ effect.next := by
  have plain : ∀ future, (∀ other op, .call other op ∈ release (α := α) env future →
      op.completes = false) ∧ ∀ other completion, .body (.promised other completion) ∉
        release (α := α) env future := by
    intro future
    rw [release]
    split <;> simp [Op.completes]
  obtain ⟨future, completion, rfl⟩ | ⟨callback, argument, rfl⟩ | ⟨calls, bodies⟩ :=
    (step_does stepped).1.plain
  · simp only [step, settle] at stepped
    split at stepped
    · cases stepped
    · split at stepped <;> cases stepped
      · exact .inr (plain future)
      · exact .inl ⟨future, completion, .inl rfl⟩
  · obtain ⟨activations, found, rfl⟩ := Option.map_eq_some_iff.mp stepped
    change (∃ future completion, activations = _ ∨ activations = _) ∨
      (∀ future op, _ ∈ activations → _) ∧ ∀ future completion, _ ∉ activations
    unfold bound at found
    split at found
    · rename_i future value
      cases found
      exact .inl ⟨future, .set value, .inr rfl⟩
    · rename_i future message
      cases found
      exact .inl ⟨future, .fail message, .inr rfl⟩
    · rename_i future
      cases found
      exact .inl ⟨future, .discard, .inr rfl⟩
    · cases found
      exact .inr (by simp [Op.completes])
    · cases found
      exact .inr (by simp [Op.completes])
    · split at found <;> cases found <;> exact .inr (by simp [Op.completes])
    · cases found
  · right
    constructor
    · intro future op member
      exact calls future op (List.mem_filterMap.mpr ⟨_, member, rfl⟩)
    · intro future completion member
      exact bodies future completion (List.mem_filterMap.mpr ⟨_, member, rfl⟩)

end Steps

/-- The frame fits between all neighbours. -/
def Free (frame : (graph α).Frame) : Prop :=
  ∀ (snapshot : GraphSnapshot α) above below, Fits snapshot above frame below

theorem free_of_internal {frame : (graph α).Frame} (internal : frame.Internal) : Free frame := by
  intro snapshot above below
  cases frame with
  | enter => cases internal.1
  | body => cases internal.2
  | running | clearing | swapped | invoking => trivial

theorem free_callback (memory : Memory (graph α)) (future : FutureId) (kind : CallbackKind)
    (registration : Registration GraphCallback) :
    Free (memory.callback future kind registration) := by
  intro snapshot above below
  rw [Memory.callback]
  cases registration.callback <;> trivial

section Machine

variable {machine next : Machine (graph α)} {memory after : Memory (graph α)}
  {frame : (graph α).Frame} {continuation : List (graph α).Frame} {choice : GraphChoice α}

/-- A function of a future leaves the environment alone. -/
theorem env_of_step (stepped : memory.step frame choice = some (after, continuation))
    (internal : frame.body? = none) : after.env = memory.env := by
  cases frame with
  | enter called op =>
      simp only [Memory.step, Option.some.injEq, Prod.ext_iff] at stepped
      rw [← stepped.1]
      exact (Memory.enter_frame memory called op).1
  | running called kind index =>
      simp only [Memory.step, Memory.iterate, Option.some.injEq] at stepped
      split at stepped <;> cases stepped <;> rfl
  | clearing called | invoking called kind registration =>
      cases stepped
      rfl
  | swapped called kind rest =>
      cases rest <;> cases stepped <;> rfl
  | body => cases internal

/-- A function of a future enters no frames with neighbours. -/
theorem free_of_step (stepped : memory.step frame choice = some (after, continuation))
    (internal : frame.body? = none) : ∀ entered ∈ continuation, Free entered := by
  cases frame with
  | enter future op =>
      simp only [Memory.step, Option.some.injEq, Prod.ext_iff] at stepped
      intro entered member
      rw [← stepped.2] at member
      exact free_of_internal ((Memory.enter_frame memory future op).2.2 entered member)
  | running future kind index =>
      simp only [Memory.step, Memory.iterate, Option.some.injEq] at stepped
      intro entered member
      split at stepped
      · cases stepped
        simp only [List.mem_cons, List.not_mem_nil, or_false] at member
        obtain rfl | rfl := member
        · exact free_callback _ _ _ _
        · exact free_of_internal ⟨rfl, rfl⟩
      · cases stepped
        split at member <;> rw [List.mem_singleton.mp member] <;>
          exact free_of_internal ⟨rfl, rfl⟩
  | clearing future =>
      cases stepped
      simp
  | swapped future kind rest =>
      cases rest with
      | nil =>
          cases stepped
          simp
      | cons registration rest =>
          cases stepped
          intro entered member
          simp only [List.mem_cons, List.not_mem_nil, or_false] at member
          obtain rfl | rfl := member
          · exact free_callback _ _ _ _
          · exact free_of_internal ⟨rfl, rfl⟩
  | invoking future kind registration =>
      cases stepped
      intro entered member
      rw [List.mem_singleton.mp member]
      exact free_callback _ _ _ _
  | body => cases internal

/-- The frames that a step of the code enters fit between each other. -/
theorem fits_of_step {body : GraphBody α} (snapshot : GraphSnapshot α)
    (stepped : memory.step (.body body) choice = some (after, continuation))
    {above below : List (graph α).Frame} {entered : (graph α).Frame}
    (split : continuation = above ++ entered :: below) (under : Option (graph α).Frame) :
    Fits snapshot above.getLast? entered (below.head?.or under) := by
  obtain ⟨effect, moved, result⟩ := Option.map_eq_some_iff.mp stepped
  rw [Prod.mk.injEq] at result
  rw [← result.2] at split
  -- A completing call and the frame below it are entered together.
  have pair : ∀ future (completion : Completion α) (waiting : GraphBody α),
      waiting = .promised future completion ∨ waiting = .forwarded future completion →
      effect.next = [.call future completion.op, .body waiting] →
      Fits snapshot above.getLast? entered (below.head?.or under) := by
    intro future completion waiting waits next
    rw [next] at split
    simp only [List.map_cons, List.map_nil, Activation.frame] at split
    rcases above with _ | ⟨first, _ | ⟨second, above⟩⟩
    · obtain ⟨rfl, rfl⟩ := List.cons.inj split
      intro _
      refine ⟨completion, rfl, ?_⟩
      rcases waits with rfl | rfl
      · exact .inl rfl
      · exact .inr rfl
    · obtain ⟨rfl, rest⟩ := List.cons.inj split
      obtain ⟨rfl, rfl⟩ := List.cons.inj rest
      rcases waits with rfl | rfl
      · exact .inr rfl
      · trivial
    · simp at split
  have member : entered ∈ effect.next.map Activation.frame := by
    rw [split]
    simp
  obtain ⟨activation, present, rfl⟩ := List.mem_map.mp member
  obtain ⟨future, completion, promised | forwarded⟩ | ⟨calls, bodies⟩ := step_next moved
  · exact pair future completion _ (.inl rfl) promised
  · exact pair future completion _ (.inr rfl) forwarded
  · cases activation with
    | call future op =>
        intro completes
        rw [calls future op present] at completes
        cases completes
    | body frame =>
        cases frame with
        | promised future completion => exact absurd present (bodies future completion)
        | _ => trivial

/-- Every stack is in order. -/
def Stacked (machine : Machine (graph α)) : Prop :=
  machine.threads.Arranged (Fits machine.snapshot)

theorem Fits.progress {before after : GraphSnapshot α} (progress : Progress before after)
    {above below : Option (graph α).Frame} (fits : Fits before above frame below) :
    Fits after above frame below := by
  cases frame with
  | enter future op => exact fits
  | body body =>
      cases body with
      | promised future completion =>
          cases fits with
          | inl resolved => exact .inl (resolved.progress progress)
          | inr waits => exact .inr waits
      | _ => trivial
  | running | clearing | swapped | invoking => trivial

/-- A completing call leaves its future completed. -/
theorem completed_of_enter {future : FutureId} {op : Op α GraphCallback}
    (moved : memory.step (.enter future op) choice = some (after, continuation))
    (completes : op.completes = true) : (after.data future).state ≠ .pending := by
  simp only [Memory.step, Option.some.injEq, Prod.ext_iff] at moved
  have status := congrFun (Memory.enter_status memory future op) future
  rw [moved.1, Function.update_self] at status
  rw [status]
  by_cases pending : (memory.data future).state = .pending
  · exact (Status.enter_of_completes pending completes).1.not_pending
  · rw [Status.enter_of_not_pending pending]
    exact pending

theorem Stacked.step {move : Move (graph α)}
    (reached : (futures (graph α)).Reachable machine) (stacked : Stacked machine)
    (stepped : machine.step move = some next) : Stacked next := by
  cases move with
  | spawn =>
      cases stepped
      exact Threads.Arranged.spawn stacked trivial
  | advance thread choice =>
      have kept := (Invariant.of_reachable reached).kept
      obtain ⟨frame, top, step⟩ :=
        Machine.advance_snapshot (.of_reachable reached) (.of_reachable reached) stepped
      have progress := step_progress kept step
      obtain ⟨running, continuation, same, moved, threads⟩ := Machine.step_advance stepped
      rw [top] at same
      cases same
      rw [Stacked, threads]
      refine Threads.Arranged.resume stacked top ?_ ?_ ?_
      · intro above other below fits
        exact fits.progress progress
      · intro above entered below split under
        cases frame with
        | body body => exact fits_of_step _ moved split under
        | _ =>
            apply free_of_step moved rfl
            rw [split]
            simp
      · intro other below fits
        cases other with
        | enter future op => exact fits
        | body body =>
            cases body with
            | promised future completion =>
                obtain resolved | waits := fits
                · exact .inl (resolved.progress progress)
                · -- The call above has executed its block.
                  cases waits
                  exact .inl (.inl (completed_of_enter moved (completes_op completion)))
            | _ => trivial
        | running | clearing | swapped | invoking => trivial

theorem Stacked.of_reachable (reached : (futures (graph α)).Reachable machine) :
    Stacked machine := by
  induction reached with
  | start started =>
      rw [Stacked, started.2.2.2.2.2]
      intro stack member
      cases member
  | step prior _ stepped ih => exact ih.step prior stepped

/-- When a function of a promise runs again, the future is resolved. -/
theorem Stacked.promised (stacked : Stacked machine) {thread : Nat} {future : FutureId}
    {completion : Completion α}
    (running : machine.threads.top? thread = some (.body (.promised future completion))) :
    Resolved future machine.snapshot := by
  obtain ⟨below, present⟩ := Threads.exists_stack running
  obtain resolved | waits := stacked _ (List.mem_of_getElem? present) [] _ below rfl
  · exact resolved
  · cases waits

end Machine

end Graph

end Libprocess
