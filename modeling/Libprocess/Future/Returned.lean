import Libprocess.Future.Client

/-!
# Calls that have returned

The frames of a thread are a stack, so code that stands below a call runs after the call has
executed its block.  A snapshot forgets the order of the frames; what code may rely on when it runs
is stated here for all code that says which calls stand above which of its frames.
-/

namespace Libprocess

open Concurrency

variable {α : Type} {code : Code α}

/-- What the block of a call leaves for good. -/
def Op.Done {Callback : Type} (status : Status α) : Op α Callback → Prop
  | .set _ | .fail _ | .discarded => status.state ≠ .pending
  | .discard => status.discard = true ∨ status.state ≠ .pending
  | .abandon _ | .on _ _ => True

namespace Op.Done

variable {Callback : Type} {op : Op α Callback} {before after : Status α}

theorem of_enter (status : Status α) (op : Op α Callback) : op.Done (status.enter op) := by
  cases op with
  | set | fail | discarded =>
      simp only [Done, Status.enter]
      split <;> simp_all
  | discard =>
      simp only [Done, Status.enter]
      split
      · exact .inl rfl
      · rename_i refused
        by_cases requested : status.discard = true
        · exact .inl requested
        · exact .inr fun pending => refused ⟨by simpa using requested, pending⟩
  | abandon | on => exact True.intro

theorem mono (done : op.Done before) (state : before.state ≠ .pending → after.state ≠ .pending)
    (discard : before.discard = true → after.discard = true) : op.Done after := by
  cases op with
  | set | fail | discarded => exact state done
  | discard =>
      cases done with
      | inl requested => exact .inl (discard requested)
      | inr completed => exact .inr (state completed)
  | abandon | on => exact True.intro

end Op.Done

theorem Status.enter_discard {Callback : Type} (status : Status α) (op : Op α Callback)
    (requested : status.discard = true) : (status.enter op).discard = true := by
  cases op <;> simp only [enter] <;> (try split) <;> simp [requested]

/-- The code says which calls stand above its frames, and leaves the `discard` flags alone. -/
structure Ordered (code : Code α) (after : code.Body → List (FutureId × Op α code.Callback)) :
    Prop where
  main : after code.main = []
  invoke : ∀ future argument callback, after (code.invoke future argument callback) = []
  step : ∀ status env body choice effect, code.step status env body choice = some effect →
    ∀ above frame below, effect.next = above ++ .body frame :: below →
      ∀ call ∈ after frame, .call call.1 call.2 ∈ above ∨ call ∈ after body
  disciplined : ∀ future, code.Disciplined future

namespace Machine

variable {machine next : Machine code} {after : code.Body → List (FutureId × Op α code.Callback)}

/-- Every call that a frame of the code relies on is done, or stands above it. -/
def Returning (after : code.Body → List (FutureId × Op α code.Callback)) (memory : Memory code)
    (above : List code.Frame) (frame : code.Frame) : Prop :=
  ∀ body, frame = .body body → ∀ call ∈ after body,
    call.2.Done (memory.data call.1).toStatus ∨ .enter call.1 call.2 ∈ above

section Step

variable {before memory : Memory code} {frame : code.Frame} {choice : code.Choice}
  {continuation : List code.Frame}

theorem step_discard (disciplined : ∀ future, code.Disciplined future)
    (moved : before.step frame choice = some (memory, continuation)) (future : FutureId)
    (requested : (before.data future).discard = true) : (memory.data future).discard = true := by
  cases frame with
  | enter other op =>
      simp only [Memory.step, Option.some.injEq, Prod.ext_iff] at moved
      have status := congrFun (Memory.enter_status before other op) future
      rw [moved.1] at status
      have same := congrArg (fun status => status.discard) status
      by_cases own : future = other
      · subst own
        rw [Function.update_self] at same
        exact same.trans (Status.enter_discard _ op requested)
      · rw [Function.update_of_ne own] at same
        exact same.trans requested
  | running other kind index =>
      simp only [Memory.step, Memory.iterate, Option.some.injEq] at moved
      split at moved <;> cases moved <;> exact requested
  | clearing other =>
      cases moved
      by_cases own : future = other
      · subst own
        simpa [Memory.store, Memory.returns, Data.clearAllCallbacks] using requested
      · simpa [Memory.store, Memory.returns, own] using requested
  | swapped other kind owed => cases owed <;> cases moved <;> exact requested
  | invoking other kind registration =>
      cases moved
      exact requested
  | body body =>
      simp only [Memory.step, Memory.execute, Option.map_eq_some_iff] at moved
      obtain ⟨effect, executed, result⟩ := moved
      cases result
      exact (disciplined future _ _ _ _ _ executed).trans requested

/-- What is done stays done. -/
theorem step_done (disciplined : ∀ future, code.Disciplined future)
    (moved : before.step frame choice = some (memory, continuation)) {future : FutureId}
    {op : Op α code.Callback} (done : op.Done (before.data future).toStatus) :
    op.Done (memory.data future).toStatus := by
  refine done.mono ?_ (step_discard disciplined moved future)
  intro completed
  rw [(Memory.step_state_of_not_pending completed moved).1]
  exact completed

theorem enter_done {future : FutureId} {op : Op α code.Callback}
    (moved : before.step (.enter future op) choice = some (memory, continuation)) :
    op.Done (memory.data future).toStatus := by
  simp only [Memory.step, Option.some.injEq, Prod.ext_iff] at moved
  have status := congrFun (Memory.enter_status before future op) future
  rw [moved.1, Function.update_self] at status
  rw [status]
  exact Op.Done.of_enter _ op

/-- A call that has executed its block enters no code but the callbacks it invokes. -/
theorem step_invokes (moved : before.step frame choice = some (memory, continuation))
    (outside : frame.body? = none) {body : code.Body} (member : .body body ∈ continuation) :
    ∃ future argument callback, body = code.invoke future argument callback := by
  cases frame with
  | enter future op =>
      simp only [Memory.step, Option.some.injEq, Prod.ext_iff] at moved
      have internal := (Memory.enter_frame before future op).2.2
      rw [moved.2] at internal
      cases (internal _ member).2
  | running future kind index =>
      simp only [Memory.step, Memory.iterate, Option.some.injEq] at moved
      split at moved
      · cases moved
        simp only [Memory.callback, List.mem_cons, Frame.body.injEq, reduceCtorEq, List.not_mem_nil,
          or_false] at member
        exact ⟨_, _, _, member⟩
      · cases moved
        split at member <;> simp at member
  | clearing future =>
      cases moved
      cases member
  | swapped future kind owed =>
      cases owed with
      | nil =>
          cases moved
          cases member
      | cons registration owed =>
          cases moved
          simp only [Memory.callback, List.mem_cons, Frame.body.injEq, reduceCtorEq,
            List.not_mem_nil, or_false] at member
          exact ⟨_, _, _, member⟩
  | invoking future kind registration =>
      cases moved
      simp only [Memory.callback, List.mem_cons, Frame.body.injEq, List.not_mem_nil,
        or_false] at member
      exact ⟨_, _, _, member⟩
  | body body => cases outside

end Step

theorem Returning.own (ordered : Ordered code after) {before memory : Memory code}
    {frame : code.Frame} {choice : code.Choice} {continuation : List code.Frame}
    (moved : before.step frame choice = some (memory, continuation))
    (returned : Returning after before [] frame) {above : List code.Frame} {other : code.Frame}
    {below : List code.Frame} (split : continuation = above ++ other :: below) :
    Returning after memory above other := by
  rintro body rfl call member
  cases frame with
  | body runs =>
      have executes := moved
      simp only [Memory.step, Memory.execute, Option.map_eq_some_iff] at executes
      obtain ⟨effect, executed, result⟩ := executes
      have frames : effect.next.map Activation.frame = above ++ .body body :: below := by
        rw [← split]
        exact congrArg Prod.snd result
      obtain ⟨earlier, rest, cut, same, tail⟩ := List.map_eq_append_iff.mp frames
      obtain ⟨activation, later, rfl, here, -⟩ := List.map_eq_cons_iff.mp tail
      cases activation with
      | call future op => cases here
      | body entered =>
          cases here
          cases ordered.step _ _ _ _ _ executed earlier body later cut call member with
          | inl stands =>
              right
              rw [← same]
              exact List.mem_map_of_mem stands
          | inr relied =>
              cases returned runs rfl call relied with
              | inl done => exact .inl (step_done ordered.disciplined moved done)
              | inr stands => cases stands
  | _ =>
      obtain ⟨future, argument, callback, rfl⟩ := step_invokes moved rfl
        (split ▸ List.mem_append_right above List.mem_cons_self)
      rw [ordered.invoke] at member
      cases member

theorem Returning.under (ordered : Ordered code after) {before memory : Memory code}
    {frame : code.Frame} {choice : code.Choice} {continuation : List code.Frame}
    (moved : before.step frame choice = some (memory, continuation)) {between : List code.Frame}
    {other : code.Frame} (returned : Returning after before (frame :: between) other) :
    Returning after memory (continuation ++ between) other := by
  intro body same call member
  cases returned body same call member with
  | inl done => exact .inl (step_done ordered.disciplined moved done)
  | inr stands =>
      cases List.mem_cons.mp stands with
      | inl executes =>
          subst executes
          exact .inl (enter_done moved)
      | inr stands => exact .inr (List.mem_append_right continuation stands)

theorem returning_of_reaches (ordered : Ordered code after)
    {allowed : Machine code → Move code → Prop} (reached : (futures code).Reaches allowed machine) :
    machine.threads.Covered (Returning after machine.memory) := by
  apply reached.invariant fun machine : Machine code =>
    machine.threads.Covered (Returning after machine.memory)
  · intro machine initial
    obtain ⟨-, -, -, -, -, threads⟩ := initial
    intro stack member
    rw [threads] at member
    cases member
  · intro machine move next covered _ moved
    cases move with
    | spawn =>
        cases moved
        apply covered.spawn
        rintro body same call member
        cases same
        rw [ordered.main] at member
        cases member
    | advance thread choice =>
        obtain ⟨frame, continuation, running, stepped, threads⟩ := step_advance moved
        rw [threads]
        refine covered.resume running ?_ ?_ ?_
        · intro above other returned body same call member
          cases returned body same call member with
          | inl done => exact .inl (step_done ordered.disciplined stepped done)
          | inr stands => exact .inr stands
        · intro returned above other below split
          exact returned.own ordered stepped split
        · intro between other returned
          exact returned.under ordered stepped

/-- When a frame of the code runs, the calls that stood above it are done. -/
theorem done_of_running (ordered : Ordered code after) {allowed : Machine code → Move code → Prop}
    (reached : (futures code).Reaches allowed machine) {thread : Nat} {body : code.Body}
    (running : machine.threads.top? thread = some (.body body))
    {call : FutureId × Op α code.Callback} (member : call ∈ after body) :
    call.2.Done (machine.snapshot.status call.1) := by
  obtain ⟨below, present⟩ := Threads.exists_stack running
  have returned := returning_of_reaches ordered reached _ (List.mem_of_getElem? present) [] _ below
    rfl
  cases returned body rfl call member with
  | inl done => exact done
  | inr stands => cases stands

end Machine

end Libprocess
