import Libprocess.Loop.Control

/-!
# A loop computes the synchronous loop

In every state of every run, whoever completes the futures and whenever, the calls that
a loop has made are the first calls of the synchronous recursion, one at a time; a
completed promise holds what the recursion returns; and when nothing is in flight the
loop has come exactly as far as the recursion has.
-/

namespace Libprocess

open Concurrency Loop

variable {T R : Type} {promise : FutureId} {pid : Bool}

/-- `iterate` or `body` is running. -/
def LoopBody.calling : LoopBody → Bool
  | .iterate _ | .body => true
  | _ => false

namespace Loop

section Statement

variable (machine : Machine (looping T R promise pid))

/-- The calls of `iterate` and `body` that are running. -/
def inFlight : Nat :=
  (machine.threads.frames.filterMap Frame.body?).countP LoopBody.calling

/-- What the synchronous loop computes from the futures that the calls returned. -/
def reference : History T R :=
  iterating machine.snapshot.status machine.memory.env.returned

/-- No code of the loop, no function of its futures and no job is in flight. -/
def Idle : Prop :=
  (∀ frame, .body frame ∈ machine.threads.frames → frame = .other) ∧
    machine.memory.env.mailbox = [] ∧ machine.Quiescent promise ∧
    ∀ future ∈ machine.memory.env.returned, machine.Quiescent future

/-- The loop does what the synchronous loop does. -/
structure Synchronous : Prop where
  /-- The calls made are the first calls of the recursion. -/
  calls : machine.memory.env.calls <+: (reference machine).calls
  alternates : Alternates machine.snapshot.status machine.memory.env.returned
    machine.memory.env.calls
  exclusive : inFlight machine ≤ 1
  /-- A completed promise holds what the recursion returns. -/
  completed : (machine.memory.data promise).state ≠ .pending → inFlight machine = 0 ∧
    ∃ ending, reference machine = ⟨machine.memory.env.calls, .ended ending⟩ ∧
      (machine.snapshot.status promise).outcome? = some ending
  /-- Nothing is called after the promise is completed. -/
  final : (machine.memory.data promise).state ≠ .pending →
    ∀ later, (futures (looping T R promise pid)).Leads machine later →
      later.memory.env.calls = machine.memory.env.calls
  /-- With nothing in flight, the loop ended or waits for a pending future. -/
  idle : Idle machine → machine.memory.env.started = true →
    (∃ ending, reference machine = ⟨machine.memory.env.calls, .ended ending⟩ ∧
      (machine.snapshot.status promise).outcome? = some ending) ∨
    (reference machine = ⟨machine.memory.env.calls, .blocked⟩ ∧
      (machine.memory.data promise).state = .pending ∧
      ∃ future, machine.memory.env.returned.getLast? = some future ∧
        (machine.memory.data future).state = .pending)

end Statement

variable {before after snapshot : Snapshot (looping T R promise pid)}
  {frame : (looping T R promise pid).Frame} {control : Option (Control R)}
  {machine : Machine (looping T R promise pid)}

/-! ## In every state -/

/-- At most one frame holds the control. -/
theorem Controlled.card_bodies_le_one (controlled : Controlled snapshot control)
    (sound : snapshot.Sound) :
    (snapshot.bodies.filterMap (LoopBody.control? (R := R))).card ≤ 1 := by
  obtain ⟨blocked, -, total⟩ := controlled.blocked sound
  have card := congrArg Multiset.card total
  have single : control.toList.length ≤ 1 := by
    cases control <;> simp
  simp only [controls, Multiset.card_add, Multiset.coe_card] at card
  omega

theorem calling_control {current : LoopBody} (calls : current.calling = true) :
    (current.control? (R := R)).isSome := by
  cases current <;> simp_all [LoopBody.calling, LoopBody.control?]

theorem inFlight_le (machine : Machine (looping T R promise pid)) :
    inFlight machine ≤ (machine.snapshot.bodies.filterMap (LoopBody.control? (R := R))).card := by
  simp only [inFlight, Machine.snapshot, Memory.snapshot, Multiset.filterMap_coe,
    Multiset.coe_card, List.length_filterMap_eq_countP]
  exact List.countP_mono_left fun current _ calls => calling_control calls

/-- The control of a completed loop is in its promise. -/
theorem Controlled.of_completed (controlled : Controlled snapshot control)
    (placed : Placed snapshot) (sound : snapshot.Sound)
    (completed : (snapshot.status promise).state ≠ .pending) :
    ∃ ending, (snapshot.status promise).outcome? = some ending ∧
      control = some (.ended ending) ∧
      snapshot.bodies.filterMap (LoopBody.control? (R := R)) = 0 := by
  obtain ⟨ending, outcome⟩ := Option.isSome_iff_exists.mp (placed.completed completed)
  have present : controls snapshot = .ended ending ::ₘ
      (snapshot.calls.filterMap (callControl? promise) +
        snapshot.bodies.filterMap LoopBody.control? +
        Multiset.ofList (snapshot.env.mailbox.map jobControl)) := by
    rw [controls, outcome, Option.toList_some, List.map_singleton, Multiset.coe_singleton,
      add_comm, Multiset.singleton_add]
  obtain ⟨same, empty, -⟩ := controlled.alone sound present
  refine ⟨ending, outcome, same, Multiset.le_zero.mp ?_⟩
  rw [← empty, add_right_comm]
  exact Multiset.le_add_left _ _

/-- A completed loop makes no further call. -/
theorem Invariant.calls_of_completed (invariant : Invariant before) (sound : before.Sound)
    (completed : (before.status promise).state ≠ .pending) (step : before.Step frame after) :
    after.env.calls = before.env.calls := by
  obtain ⟨placed, control, controlled⟩ := invariant
  obtain ⟨ending, -, rfl, none⟩ := controlled.of_completed placed sound completed
  rcases step.cases with rfl | ⟨future, op, rfl, entered⟩ | ⟨future, kind, registration, ran⟩ |
    ⟨current, rest, choice, effect, -, running, stepped, rfl⟩
  · rfl
  · rw [entered.env]
  · rw [ran.env]
  · have fired : ∀ stage future, current = .continuation stage future →
        (before.status future).state ≠ .pending := by
      rintro stage future rfl
      exact placed.fired stage future (.inl (by simp [running]))
    obtain ⟨moves, -⟩ := step_moves stepped
    rcases moves.control placed.unassociated fired with
      ⟨-, -, calls, -⟩ | ⟨source, target, holder, -⟩ | ⟨-, -, fresh, -⟩
    · exact calls
    · rw [running, filterMap_cons_toList, holder] at none
      simp at none
    · simp [controlled.started] at fresh

/-- A completed loop stays completed and makes no further call, over whole runs. -/
theorem calls_of_leads {later : Machine (looping T R promise pid)}
    (reached : (futures (looping T R promise pid)).Reachable machine)
    (completed : (machine.memory.data promise).state ≠ .pending)
    (leads : (futures (looping T R promise pid)).Leads machine later) :
    later.memory.env.calls = machine.memory.env.calls := by
  have both := leads.preserves
    (fun state => (state.snapshot.status promise).state ≠ .pending ∧
      state.snapshot.env.calls = machine.memory.env.calls) reached ⟨completed, rfl⟩ ?_
  · exact both.2
  · rintro state move next reachable ⟨done, calls⟩ stepped
    have futures := Machine.Invariant.of_reachable reachable
    rcases Machine.step_snapshot futures (Machine.Filed.of_reachable reachable) stepped with
      started | ⟨thread, choice, frame, -, -, step⟩
    · rw [started]
      exact ⟨done, calls⟩
    · rw [((step.later promise).completed done).1]
      exact ⟨done, ((Invariant.of_reachable reachable).calls_of_completed futures.sound done
        step).trans calls⟩

/-! ## With nothing in flight -/

theorem Idle.no_frame (idle : Idle machine) {current : LoopBody}
    (member : current ∈ machine.snapshot.bodies) : current = .other :=
  idle.1 _ (Machine.mem_frames_of_body member)

/-- In an idle state no frame, call or job holds the control. -/
theorem Idle.controls_eq (idle : Idle machine) (sound : machine.snapshot.Sound)
    (controlled : Controlled machine.snapshot control) :
    controls machine.snapshot =
      Multiset.ofList ((machine.snapshot.status promise).outcome?.toList.map .ended) := by
  have bodies : machine.snapshot.bodies.filterMap (LoopBody.control? (R := R)) = 0 := by
    refine Multiset.eq_zero_of_forall_notMem fun found member => ?_
    obtain ⟨current, present, holds⟩ := (Multiset.mem_filterMap _ _).mp member
    rw [idle.no_frame present] at holds
    simp [LoopBody.control?] at holds
  have mailbox : machine.snapshot.env.mailbox = [] := idle.2.1
  have calls : machine.snapshot.calls.filterMap (callControl? promise) = 0 := by
    refine Multiset.eq_zero_of_forall_notMem fun found member => ?_
    obtain ⟨⟨future, op⟩, present, holds⟩ := (Multiset.mem_filterMap _ _).mp member
    have held : found ∈ controls machine.snapshot := by
      simp only [controls, Multiset.mem_add]
      exact .inl (.inl (.inl member))
    have only := controlled.of_mem sound held
    rcases callControl?_eq_some holds with rfl | ⟨stage, rfl⟩
    · exact idle.2.2.1.no_call op present
    · obtain ⟨earlier, returned, -⟩ := only ▸ controlled.right
      have member : future ∈ machine.memory.env.returned := by
        have known : machine.memory.env.returned = earlier ++ [future] := returned
        simp [known]
      exact (idle.2.2.2 future member).no_call op present
  simp [controls, bodies, mailbox, calls]

/-- The control waits for this future. -/
def Control.awaits (stage : Stage) (future : FutureId) : Control R → Bool
  | .awaiting other waited => other = stage ∧ waited = future
  | _ => false

theorem awaits_entryControl? (stage : Stage) (future : FutureId)
    (entry : FutureId × CallbackKind × Registration LoopCallback) :
    ((entryControl? (R := R) entry).map (·.awaits stage future)).getD false =
      decide (entry.1 = future ∧ entry.2.1 = .onAny ∧
        entry.2.2.callback = .continuation stage) := by
  obtain ⟨other, kind, ticket, callback⟩ := entry
  cases callback <;> cases kind <;> simp [entryControl?, Control.awaits, and_comm]

theorem countP_waiting (snapshot : Snapshot (looping T R promise pid)) (stage : Stage)
    (future : FutureId) : (waiting snapshot).countP (·.awaits stage future) =
      snapshot.registrations future .onAny (fun registration =>
        registration.callback = .continuation stage) := by
  rw [waiting, Multiset.coe_countP]
  simp only [Bool.decide_eq_true, List.countP_filterMap, awaits_entryControl?,
    Snapshot.registrations, decide_eq_true_eq]

theorem countP_resumed (snapshot : Snapshot (looping T R promise pid)) (stage : Stage)
    (future : FutureId) : (resumed snapshot).countP (·.awaits stage future) =
      snapshot.invoked future .onAny (fun registration =>
        registration.callback = .continuation stage) := by
  rw [resumed, Multiset.coe_countP]
  simp only [Bool.decide_eq_true, List.countP_filterMap, Function.comp_apply,
    awaits_entryControl?, Snapshot.invoked, Invocation.entry, decide_eq_true_eq]

/-- In an idle state a control that waits does so for a pending future. -/
theorem Idle.blocked (idle : Idle machine) (futures : machine.Invariant)
    (controlled : Controlled machine.snapshot control)
    (pending : (machine.snapshot.status promise).outcome? = none)
    (started : machine.memory.env.started = true) :
    ∃ stage future, control = some (.awaiting stage future) ∧
      (machine.snapshot.status future).state = .pending := by
  obtain ⟨blocked, waits, total⟩ := controlled.blocked futures.sound
  rw [idle.controls_eq futures.sound controlled, pending] at total
  have some : control.isSome := controlled.started ▸ started
  obtain ⟨found, rfl⟩ := Option.isSome_iff_exists.mp some
  simp only [Option.toList_none, List.map_nil, Multiset.coe_nil, zero_add, Option.toList_some,
    Multiset.coe_singleton] at total
  subst total
  have member : found ∈ waiting machine.snapshot := by
    rw [waits]
    simp
  obtain ⟨⟨future, kind, ticket, callback⟩, registered, holds⟩ := List.mem_filterMap.mp member
  obtain ⟨stage, rfl⟩ : ∃ stage, found = .awaiting stage future := by
    cases callback <;> cases kind <;> simp [entryControl?] at holds
    exact ⟨_, holds.symm⟩
  refine ⟨stage, future, rfl, ?_⟩
  by_contra completed
  obtain ⟨earlier, returned, -⟩ := controlled.right
  have known : machine.memory.env.returned = earlier ++ [future] := returned
  have invoked := futures.invoked_of_fires (idle.2.2.2 future (by simp [known])) .onAny (by simp)
    (decide_eq_true completed) (fun registration =>
      registration.callback = .continuation stage)
  have self : Control.awaits stage future (.awaiting stage future : Control R) = true := by
    simp [Control.awaits]
  rw [← countP_resumed, ← countP_waiting, waits, Multiset.singleton_add,
    Multiset.countP_cons, if_pos self] at invoked
  omega

/-- A loop computes the synchronous loop in every state of every run. -/
theorem loop_synchronous (reached : (futures (looping T R promise pid)).Reachable machine) :
    Synchronous machine := by
  have futures := Machine.Invariant.of_reachable reached
  obtain ⟨placed, control, controlled⟩ := Invariant.of_reachable reached
  have calls := controlled.right.calls_isPrefix
  refine ⟨calls, (iterating_alternates _).mono calls, ?_, ?_, ?_, ?_⟩
  · exact (inFlight_le machine).trans (controlled.card_bodies_le_one futures.sound)
  · intro completed
    obtain ⟨ending, outcome, rfl, none⟩ := controlled.of_completed placed futures.sound completed
    refine ⟨?_, ending, controlled.right, outcome⟩
    have atMost := inFlight_le machine
    rw [none] at atMost
    simpa using atMost
  · exact fun completed later leads => calls_of_leads reached completed leads
  · intro idle started
    by_cases completed : (machine.memory.data promise).state = .pending
    · right
      have none : (machine.snapshot.status promise).outcome? = none :=
        outcome?_of_pending completed
      obtain ⟨stage, future, rfl, pending⟩ := idle.blocked futures controlled none started
      obtain ⟨earlier, returned, running⟩ := controlled.right
      have known : machine.memory.env.returned = earlier ++ [future] := returned
      refine ⟨?_, completed, future, by simp [known], pending⟩
      rw [reference, known, iterating_append running]
      simp only [follow, pending]
      simp [Machine.snapshot, Memory.snapshot]
    · left
      obtain ⟨ending, outcome, rfl, -⟩ :=
        controlled.of_completed placed futures.sound completed
      exact ⟨ending, controlled.right, outcome⟩

/-- One thread starts the loop, whose first future is completed by another thread; the
continuation calls `body`, which returns a ready future. -/
def blockingSchedule : List (Move (looping Nat Nat 0 false)) :=
  List.flatten [[.spawn, .advance 0 .start], List.replicate 3 (.advance 0 .finish),
    [.advance 0 (.yield 1)], List.replicate 7 (.advance 0 .finish),
    [.spawn, .advance 1 (.call 1 (.set (.next 5)))], List.replicate 6 (.advance 1 .finish),
    [.advance 1 (.call 2 (.set (.flow (.Break 7))))], List.replicate 4 (.advance 1 .finish),
    [.advance 1 (.yield 2)], List.replicate 7 (.advance 1 .finish)]

theorem loop_synchronous_blocking : ∃ machine,
    (futures (looping Nat Nat 0 false)).run (Machine.new _ fun _ => false) blockingSchedule =
        some machine ∧
      Synchronous machine ∧
      machine.threads.map (·.map Frame.body?) = [[some .other], [some .other]] ∧
      machine.memory.env.calls = [.iterate, .body 5] ∧
      (machine.memory.data 0).result = .some (.result 7) := by
  obtain ⟨machine, executed, observed⟩ : ∃ machine ∈ (futures (looping Nat Nat 0 false)).run
      (Machine.new _ fun _ => false) blockingSchedule,
      machine.threads.map (·.map Frame.body?) = [[some .other], [some .other]] ∧
      machine.memory.env.calls = [.iterate, .body 5] ∧
      (machine.memory.data 0).result = .some (.result 7) := by
    decide +kernel
  exact ⟨machine, executed,
    loop_synchronous (.of_run (Machine.new_initial _ fun _ => false) executed), observed⟩

end Loop

end Libprocess
