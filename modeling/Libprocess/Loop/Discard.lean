import Libprocess.Loop.Synchronous

/-!
# Discarding a loop

A discard of the loop's future reaches the future the loop is blocked on through the
function `discard`, which `run` assigns after it has registered its continuation.  The
continuation may by then have run on another thread and may have blocked the loop on a
later future, whose assignment the first thread overwrites.  Every discard is passed on
in the runs in which no assignment comes that late.
-/

namespace Libprocess

open Concurrency Loop

variable {T R : Type} {promise : FutureId} {pid : Bool}

namespace Loop

/-- The future with which the latest continuation was registered. -/
def blockedOn (registered : List (FutureId × CallbackKind × Registration LoopCallback)) :
    Option FutureId :=
  registered.findSome? fun entry =>
    match entry.2.2.callback with
    | .continuation _ => some entry.1
    | _ => none

/-- The loop passes a discard of its own future on to the future it is blocked on. -/
def Propagates (machine : Machine (looping T R promise pid)) : Prop :=
  Idle machine → (machine.memory.data promise).state = .pending →
    (machine.memory.data promise).discard = true →
    ∀ future, blockedOn machine.memory.registered = some future →
      future ∈ machine.memory.env.discards

/-- Assigning `discard` for this future hides no later one: the loop is blocked on it, or
is not blocked at all, or the later future is still to be published or to be discarded by
the thread that blocked the loop on it, or has been discarded. -/
def Current (snapshot : Snapshot (looping T R promise pid)) (future : FutureId) : Prop :=
  match blockedOn snapshot.registered with
  | none => True
  | some latest =>
      latest = future ∨ controls snapshot ≠ 0 ∨ .test latest ∈ snapshot.bodies ∨
        .publish latest ∈ snapshot.bodies ∨
        (snapshot.status promise).discard = true ∧
          (latest ∈ snapshot.env.discards ∨ .recheck latest ∈ snapshot.bodies ∨
            .discard (some latest) ∈ snapshot.bodies)

/-- The future for which a frame assigns `discard`. -/
def published? : (looping T R promise pid).Frame → Option FutureId
  | .body (.publish future) => some future
  | _ => none

/-- The move assigns `discard`, if at all, for a current future. -/
def Timely (machine : Machine (looping T R promise pid)) :
    Move (looping T R promise pid) → Prop
  | .spawn => True
  | .advance thread _ =>
      ∀ future ∈ (machine.threads.top? thread).bind published?, Current machine.snapshot future

/-- The lambda that `start` registers. -/
def hook (registration : Registration LoopCallback) : Bool :=
  registration.callback = .onDiscard

section Invariant

variable (snapshot : Snapshot (looping T R promise pid))

/-- A discard reaches or will reach this future. -/
def Attended (latest : FutureId) : Prop :=
  controls snapshot ≠ 0 ∨ .test latest ∈ snapshot.bodies ∨ .publish latest ∈ snapshot.bodies ∨
    (snapshot.status promise).discard = false ∧ snapshot.env.discard = some latest ∨
    (snapshot.status promise).discard = true ∧
      (latest ∈ snapshot.env.discards ∨ .recheck latest ∈ snapshot.bodies ∨
        .discard (some latest) ∈ snapshot.bodies ∨
        snapshot.env.discard = some latest ∧
          (snapshot.invoked promise .onDiscard hook = 0 ∨ .onDiscard ∈ snapshot.bodies))

/-- The lambda of `start` is registered or about to be. -/
def Hooked : Prop :=
  (promise, .on .onDiscard .onDiscard) ∈ snapshot.calls ∨
    ∃ ticket, (promise, .onDiscard, ⟨ticket, .onDiscard⟩) ∈ snapshot.registered

/-- Discards reach the future the loop is blocked on. -/
structure Attentive : Prop where
  hooked : snapshot.env.started = true → Hooked snapshot
  unstarted : snapshot.env.started = false → blockedOn snapshot.registered = none
  attended : ∀ latest, blockedOn snapshot.registered = some latest → Attended snapshot latest

end Invariant

/-! ## What single steps do -/

section Moves

variable {status : FutureId → Status (LoopValue T R)} {env next : LoopEnv T}
  {frame : LoopBody} {made : List (FutureId × Op (LoopValue T R) LoopCallback)}
  {entered : List LoopBody} {latest : FutureId}

theorem Moves.discards_mono (moves : Moves promise pid status env frame next made entered)
    (member : latest ∈ env.discards) : latest ∈ next.discards := by
  cases moves <;> simp [member]

/-- Outside the code that holds the control, only `publish` writes `discard`. -/
theorem Moves.discard_eq (moves : Moves promise pid status env frame next made entered)
    (free : frame.control? = none (α := Control R)) :
    next.discard = env.discard ∨ ∃ future, frame = .publish future := by
  cases moves with
  | @publish future => exact .inr ⟨future, rfl⟩
  | reset => simp [LoopBody.control?] at free
  | _ => exact .inl rfl

theorem Moves.of_test (moves : Moves promise pid status env (.test latest) next made entered) :
    (if (status promise).discard then .recheck latest else .publish latest) ∈ entered := by
  cases moves with
  | test => simp
  | call client | idle client => simp [LoopBody.client] at client
  | ends runs => simp at runs
  | discards runs => simp at runs

theorem Moves.of_publish
    (moves : Moves promise pid status env (.publish latest) next made entered) :
    next.discard = some latest ∧ .recheck latest ∈ entered := by
  cases moves with
  | publish => simp
  | call client | idle client => simp [LoopBody.client] at client
  | ends runs => simp at runs
  | discards runs => simp at runs

theorem Moves.of_recheck (moves : Moves promise pid status env (.recheck latest) next made entered)
    (set : (status promise).discard = true) : latest ∈ next.discards := by
  cases moves with
  | unset unset => simp [unset] at set
  | call client | idle client => simp [LoopBody.client] at client
  | ends runs => simp at runs
  | discards runs =>
      obtain ⟨same, -⟩ := runs.resolve_right (by simp)
      simp only [LoopBody.recheck.injEq] at same
      simp [same]

theorem Moves.of_discard
    (moves : Moves promise pid status env (.discard (some latest)) next made entered) :
    latest ∈ next.discards := by
  cases moves with
  | call client | idle client => simp [LoopBody.client] at client
  | ends runs => simp at runs
  | discards runs =>
      have same := runs.resolve_left (by simp)
      simp only [LoopBody.discard.injEq, Option.some.injEq] at same
      simp [same]

theorem Moves.of_onDiscard (moves : Moves promise pid status env .onDiscard next made entered) :
    .discard env.discard ∈ entered := by
  cases moves with
  | onDiscard => simp
  | call client | idle client => simp [LoopBody.client] at client
  | ends runs => simp at runs
  | discards runs => simp at runs

section

variable (moves : Moves promise pid status env frame next made entered)

include moves

theorem Moves.started_mono (started : env.started = true) : next.started = true := by
  cases moves <;> simp [started]

theorem Moves.hooks (started : next.started = true) :
    env.started = true ∨ (promise, .on .onDiscard .onDiscard) ∈ made := by
  cases moves with
  | start => simp
  | _ => exact .inl started

/-- Only `register` registers a continuation. -/
theorem Moves.registers {future : FutureId} {kind : CallbackKind} {stage : Stage}
    (member : (future, .on kind (.continuation stage)) ∈ made) :
    frame = .register stage future := by
  cases moves with
  | @call _ _ op _ _ =>
      simp only [List.mem_singleton, Prod.mk.injEq] at member
      cases op <;> simp_all [Op.foreign]
  | @ends _ _ _ ending _ _ =>
      split at member
      · simp at member
      · cases ending <;> simp [Ending.op] at member
  | start | register | discards => simp_all
  | _ => simp at member

end

end Moves

theorem blockedOn_cons {registered : List (FutureId × CallbackKind × Registration LoopCallback)}
    {future : FutureId} {kind : CallbackKind} {registration : Registration LoopCallback}
    (other : ∀ stage, registration.callback ≠ .continuation stage) :
    blockedOn ((future, kind, registration) :: registered) = blockedOn registered := by
  cases callback : registration.callback with
  | continuation stage => exact absurd callback (other stage)
  | other | onDiscard => simp [blockedOn, callback]

theorem enter_discard {status : Status (LoopValue T R)} {op : Op (LoopValue T R) LoopCallback}
    (set : status.discard = true) : (status.enter op).discard = true := by
  cases op <;> simp only [Status.enter] <;> (try split) <;> simp [set]

variable {before after snapshot : Snapshot (looping T R promise pid)}
  {frame : (looping T R promise pid).Frame} {control : Option (Control R)}
  {machine : Machine (looping T R promise pid)} {latest : FutureId}

/-- The loop never writes the `discard` flag of its own future. -/
theorem looping_disciplined : (looping T R promise pid).Disciplined promise := by
  intro status env current choice effect stepped
  rw [(step_moves stepped).2]

/-! ## A call executes its block -/

/-- A call that registers no continuation leaves the control where it is. -/
theorem controls_of_not_continuation {future : FutureId}
    {op : Op (LoopValue T R) LoopCallback} (controlled : Controlled before control)
    (placed : Placed before) (sound : before.Sound) (entered : before.Entered after future op)
    (other : ∀ kind stage, op ≠ .on kind (.continuation stage)) :
    controls after = controls before ∧ blockedOn after.registered = blockedOn before.registered := by
  have moved := controls_enter controlled placed sound entered
  obtain ⟨ticket, filed⟩ := entered.filed
  cases op with
  | on kind callback =>
      have none : entryControl? (R := R) (future, kind, ⟨ticket, callback⟩) = none := by
        cases callback with
        | continuation stage => exact absurd rfl (other kind stage)
        | other | onDiscard => cases kind <;> rfl
      simp only [Snapshot.filed] at filed
      rw [waiting, waiting, filed, ofList_filterMap_cons, none] at moved
      refine ⟨by simpa using moved, ?_⟩
      rw [filed]
      exact blockedOn_cons fun stage same => other kind stage (by rw [← same])
  | set | fail | discarded | discard | abandon =>
      simp only [Snapshot.filed] at filed
      rw [waiting, waiting, filed] at moved
      exact ⟨by simpa using moved, by rw [filed]⟩

theorem Attended.enter {future : FutureId} {op : Op (LoopValue T R) LoopCallback}
    (attended : Attended before latest) (sound : before.Sound)
    (entered : before.Entered after future op) (same : controls after = controls before) :
    Attended after latest := by
  have flag : (after.status promise).discard = (before.status promise).discard ∨
      (after.status promise).discard = true := by
    rw [entered.status]
    by_cases own : promise = future
    · subst own
      rw [Function.update_self]
      cases set : (before.status promise).discard with
      | true => exact .inl (enter_discard set)
      | false => cases ((before.status promise).enter op).discard <;> simp
    · rw [Function.update_of_ne own]
      exact .inl rfl
  have unfired : (before.status promise).discard = false →
      before.invoked promise .onDiscard hook = 0 := fun unset =>
    sound.unfired promise .onDiscard hook (fun _ => looping_disciplined) unset
  rcases attended with active | test | publish | ⟨unset, assigned⟩ | ⟨set, rest⟩
  · exact .inl (same ▸ active)
  · exact .inr (.inl (entered.bodies ▸ test))
  · exact .inr (.inr (.inl (entered.bodies ▸ publish)))
  · refine .inr (.inr (.inr ?_))
    rcases flag with kept | set
    · exact .inl ⟨kept.trans unset, entered.env ▸ assigned⟩
    · refine .inr ⟨set, .inr (.inr (.inr ⟨entered.env ▸ assigned, .inl ?_⟩))⟩
      rw [Snapshot.invoked, entered.log]
      exact unfired unset
  · have still : (after.status promise).discard = true := flag.elim (·.trans set) id
    refine .inr (.inr (.inr (.inr ⟨still, ?_⟩)))
    rw [Snapshot.invoked, entered.bodies, entered.env, entered.log]
    exact rest

theorem Attentive.enter {future : FutureId} {op : Op (LoopValue T R) LoopCallback}
    (attentive : Attentive before) (controlled : Controlled before control)
    (placed : Placed before) (sound : before.Sound) (entered : before.Entered after future op)
    (followed : ∀ stage, op = .on .onAny (.continuation stage) → .test future ∈ before.bodies) :
    Attentive after := by
  have hooked : after.env.started = true → Hooked after := by
    intro started
    obtain ⟨ticket, filed⟩ := entered.filed
    rcases attentive.hooked (entered.env ▸ started) with called | ⟨earlier, registered⟩
    · rcases entered.remains called with ⟨rfl, rfl⟩ | remains
      · exact .inr ⟨ticket, by rw [filed]; simp [Snapshot.filed]⟩
      · exact .inl remains
    · refine .inr ⟨earlier, ?_⟩
      rw [filed]
      cases op <;> simp [Snapshot.filed, registered]
  by_cases continues : ∃ kind stage, op = .on kind (.continuation stage)
  · obtain ⟨kind, stage, rfl⟩ := continues
    have called : (future, .on kind (.continuation stage)) ∈ before.calls := by
      rw [entered.calls]
      simp
    obtain rfl : kind = .onAny := placed.calls _ _ _ called
    have held : .awaiting stage future ∈ controls before := by
      rw [controls, entered.calls, filterMap_cons_toList]
      simp [callControl?]
    have started : before.env.started = true := by
      rw [controlled.started, controlled.of_mem sound held]
      rfl
    refine ⟨hooked, ?_, ?_⟩
    · intro unstarted
      rw [entered.env, started] at unstarted
      simp at unstarted
    · intro latest blocked
      obtain ⟨ticket, filed⟩ := entered.filed
      rw [filed] at blocked
      simp only [Snapshot.filed, blockedOn, List.findSome?_cons] at blocked
      cases blocked
      exact .inr (.inl (entered.bodies ▸ followed stage rfl))
  · obtain ⟨same, blocked⟩ := controls_of_not_continuation controlled placed sound entered
      fun kind stage on => continues ⟨kind, stage, on⟩
    refine ⟨hooked, ?_, ?_⟩
    · intro unstarted
      rw [blocked]
      exact attentive.unstarted (entered.env ▸ unstarted)
    · intro latest known
      rw [blocked] at known
      exact (attentive.attended latest known).enter sound entered same

/-! ## A callback is invoked -/

theorem Attended.invoke {future : FutureId} {kind : CallbackKind}
    {registration : Registration LoopCallback} (attended : Attended before latest)
    (placed : Placed before) (ran : before.Ran after future kind registration) :
    Attended after latest := by
  have grows : ∀ current ∈ before.bodies, current ∈ after.bodies := by
    intro current member
    rw [ran.bodies]
    exact Multiset.mem_cons_of_mem member
  rcases attended with active | test | publish | ⟨unset, assigned⟩ | ⟨set, rest⟩
  · refine .inl fun none => active ?_
    rw [controls_invoke placed ran] at none
    exact Multiset.le_zero.mp (none ▸ Multiset.le_add_left _ _)
  · exact .inr (.inl (grows _ test))
  · exact .inr (.inr (.inl (grows _ publish)))
  · refine .inr (.inr (.inr (.inl ⟨?_, ran.env ▸ assigned⟩)))
    rw [ran.status]
    exact unset
  · refine .inr (.inr (.inr (.inr ⟨by rw [ran.status]; exact set, ?_⟩)))
    rcases rest with discarded | recheck | discard | ⟨assigned, invoked | running⟩
    · exact .inl (ran.env ▸ discarded)
    · exact .inr (.inl (grows _ recheck))
    · exact .inr (.inr (.inl (grows _ discard)))
    · refine .inr (.inr (.inr ⟨ran.env ▸ assigned, ?_⟩))
      cases lambda : hook registration with
      | true =>
          right
          simp only [hook, decide_eq_true_eq] at lambda
          rw [ran.bodies, lambda]
          exact Multiset.mem_cons_self _ _
      | false =>
          left
          rw [Snapshot.invoked_of_log ran.log]
          simp [lambda, invoked]
    · exact .inr (.inr (.inr ⟨ran.env ▸ assigned, .inr (grows _ running)⟩))

theorem Attentive.invoke {future : FutureId} {kind : CallbackKind}
    {registration : Registration LoopCallback} (attentive : Attentive before)
    (placed : Placed before) (ran : before.Ran after future kind registration) :
    Attentive after := by
  refine ⟨?_, ?_, ?_⟩
  · rw [ran.env, Hooked, ran.calls, ran.registered]
    exact attentive.hooked
  · rw [ran.env, ran.registered]
    exact attentive.unstarted
  · intro latest blocked
    rw [ran.registered] at blocked
    exact (attentive.attended latest blocked).invoke placed ran

/-! ## The loop and other code execute -/

section Execute

variable {current : LoopBody} {rest : Multiset LoopBody} {effect : Outcome T R}

/-- The frames after a step of the code. -/
theorem mem_execute (running : before.bodies = current ::ₘ rest) {present : LoopBody}
    (member : present ∈ before.bodies) :
    present = current ∨ present ∈ (before.execute rest effect).bodies := by
  rw [running] at member
  rcases Multiset.mem_cons.mp member with same | kept
  · exact .inl same
  · exact .inr (Multiset.mem_add.mpr (.inr kept))

/-- The frames that a step turns into. -/
theorem entered_execute {present : LoopBody}
    (member : present ∈ effect.next.filterMap Activation.body?) :
    present ∈ (before.execute rest effect).bodies :=
  Multiset.mem_add.mpr (.inl member)

theorem execute_discard (rest : Multiset LoopBody)
    (flags : effect.flags promise = (before.status promise).toFlags) :
    ((before.execute rest effect).status promise).discard =
      (before.status promise).discard := by
  simp only [Snapshot.execute, flags]

/-- An assignment of `discard` that is current leaves the latest future attended. -/
theorem attended_publish {future : FutureId}
    (running : before.bodies = .publish future ::ₘ rest)
    (moves : Moves promise pid before.status before.env (.publish future) effect.env
      (effect.next.filterMap Activation.call?) (effect.next.filterMap Activation.body?))
    (flags : effect.flags promise = (before.status promise).toFlags)
    (permitted : Current before future) (inactive : controls before = 0)
    (blocked : blockedOn before.registered = some latest) :
    Attended (before.execute rest effect) latest := by
  obtain ⟨assigned, recheck⟩ := moves.of_publish
  have flag := execute_discard rest flags
  by_cases same : latest = future
  · subst same
    cases set : (before.status promise).discard with
    | false => exact .inr (.inr (.inr (.inl ⟨flag.trans set, assigned⟩)))
    | true =>
        exact .inr (.inr (.inr (.inr ⟨flag.trans set, .inr (.inl (entered_execute recheck))⟩)))
  · have kept : ∀ present ∈ before.bodies, present ≠ .publish future →
        present ∈ (before.execute rest effect).bodies :=
      fun present member different => (mem_execute running member).resolve_left different
    simp only [Current, blocked, same, inactive, false_or, ne_eq, not_true_eq_false] at permitted
    rcases permitted with test | publish | ⟨set, discarded | recheck | discard⟩
    · exact .inr (.inl (kept _ test (by simp)))
    · exact .inr (.inr (.inl (kept _ publish (by simp [same]))))
    · exact .inr (.inr (.inr (.inr ⟨flag.trans set, .inl (moves.discards_mono discarded)⟩)))
    · exact .inr (.inr (.inr (.inr ⟨flag.trans set, .inr (.inl (kept _ recheck (by simp)))⟩)))
    · exact .inr (.inr (.inr (.inr ⟨flag.trans set,
        .inr (.inr (.inl (kept _ discard (by simp))))⟩)))

/-- No other step leaves the latest future unattended. -/
theorem Attended.execute_of_ne (attended : Attended before latest)
    (running : before.bodies = current ::ₘ rest)
    (moves : Moves promise pid before.status before.env current effect.env
      (effect.next.filterMap Activation.call?) (effect.next.filterMap Activation.body?))
    (flags : effect.flags promise = (before.status promise).toFlags)
    (inactive : controls before = 0) (other : ¬ ∃ future, current = .publish future) :
    Attended (before.execute rest effect) latest := by
  have flag := execute_discard rest flags
  have free : current.control? = none (α := Control R) := by
    have empty := inactive
    rw [controls_running running] at empty
    have none := Multiset.le_zero.mp (empty ▸ Multiset.le_add_right _ _)
    simp only [Multiset.coe_eq_zero, List.append_eq_nil_iff, Option.toList_eq_nil_iff] at none
    exact none.1
  have kept : effect.env.discard = before.env.discard :=
    (moves.discard_eq free).resolve_right other
  rcases attended with active | test | publish | ⟨unset, assigned⟩ | ⟨set, rest⟩
  · exact absurd inactive active
  · rcases mem_execute running test with rfl | remains
    · have tested := moves.of_test
      cases set : (before.status promise).discard with
      | false =>
          simp only [set, Bool.false_eq_true, if_false] at tested
          exact .inr (.inr (.inl (entered_execute tested)))
      | true =>
          simp only [set, if_true] at tested
          exact .inr (.inr (.inr (.inr ⟨flag.trans set, .inr (.inl (entered_execute tested))⟩)))
    · exact .inr (.inl remains)
  · exact .inr (.inr (.inl ((mem_execute running publish).resolve_left
      fun same => other ⟨latest, same.symm⟩)))
  · exact .inr (.inr (.inr (.inl ⟨flag.trans unset, kept.trans assigned⟩)))
  · refine .inr (.inr (.inr (.inr ⟨flag.trans set, ?_⟩)))
    rcases rest with discarded | recheck | discard | ⟨assigned, invoked | lambda⟩
    · exact .inl (moves.discards_mono discarded)
    · rcases mem_execute running recheck with rfl | remains
      · exact .inl (moves.of_recheck set)
      · exact .inr (.inl remains)
    · rcases mem_execute running discard with rfl | remains
      · exact .inl moves.of_discard
      · exact .inr (.inr (.inl remains))
    · exact .inr (.inr (.inr ⟨kept.trans assigned, .inl invoked⟩))
    · rcases mem_execute running lambda with rfl | remains
      · have copied := moves.of_onDiscard
        rw [assigned] at copied
        exact .inr (.inr (.inl (entered_execute copied)))
      · exact .inr (.inr (.inr ⟨kept.trans assigned, .inr remains⟩))

theorem Attentive.execute (attentive : Attentive before) (placed : Placed before)
    (running : before.bodies = current ::ₘ rest)
    (moves : Moves promise pid before.status before.env current effect.env
      (effect.next.filterMap Activation.call?) (effect.next.filterMap Activation.body?))
    (flags : effect.flags promise = (before.status promise).toFlags)
    (permitted : ∀ future, current = .publish future → Current before future) :
    Attentive (before.execute rest effect) := by
  refine ⟨?_, ?_, ?_⟩
  · intro started
    rcases moves.hooks started with earlier | called
    · rcases attentive.hooked earlier with remains | registered
      · exact .inl (Multiset.mem_add.mpr (.inr remains))
      · exact .inr registered
    · exact .inl (Multiset.mem_add.mpr (.inl called))
  · intro unstarted
    apply attentive.unstarted
    cases started : before.env.started with
    | false => rfl
    | true => exact (moves.started_mono started).symm.trans unstarted
  · intro latest blocked
    by_cases inactive : controls before = 0
    · by_cases publishes : ∃ future, current = .publish future
      · obtain ⟨future, rfl⟩ := publishes
        exact attended_publish running moves flags (permitted future rfl) inactive blocked
      · exact (attentive.attended latest blocked).execute_of_ne running moves flags inactive
          publishes
    · exact .inl (controls_execute_ne_zero placed running moves inactive)

end Execute

/-! ## In every state -/

/-- A call that registers a continuation stands right above the frame that tests the
discard flag. -/
def follower : (looping T R promise pid).Frame → Option (looping T R promise pid).Frame
  | .enter future (.on .onAny (.continuation _)) => some (.body (.test future))
  | _ => none

/-- The futures push no call. -/
theorem step_no_call {memory next : Memory (looping T R promise pid)}
    {continuation : List (looping T R promise pid).Frame} {choice : LoopChoice T R}
    (stepped : memory.step frame choice = some (next, continuation))
    (internal : ∀ current, frame ≠ .body current) : ∀ other ∈ continuation, other.call? = none := by
  cases frame with
  | enter future op =>
      simp only [Memory.step, Option.some.injEq, Prod.ext_iff] at stepped
      obtain ⟨-, rfl⟩ := stepped
      exact fun other member => ((Memory.enter_frame memory future op).2.2 other member).1
  | running future kind index =>
      simp only [Memory.step, Memory.iterate, Option.some.injEq] at stepped
      split at stepped
      · obtain ⟨-, rfl⟩ := Prod.mk.inj stepped
        simp [Memory.callback, Frame.call?]
      · obtain ⟨-, rfl⟩ := Prod.mk.inj stepped
        split <;> simp [Frame.call?]
  | clearing future =>
      simp only [Memory.step, Option.some.injEq, Prod.mk.injEq] at stepped
      simp [← stepped.2]
  | swapped future kind rest =>
      cases rest <;> simp only [Memory.step, Option.some.injEq, Prod.mk.injEq] at stepped <;>
        simp [← stepped.2, Memory.callback, Frame.call?]
  | invoking future kind registration =>
      simp only [Memory.step, Option.some.injEq, Prod.mk.injEq] at stepped
      simp [← stepped.2, Memory.callback, Frame.call?]
  | body current => exact absurd rfl (internal current)

/-- The frames that a step of the machine pushes keep that order. -/
theorem step_followed {memory next : Memory (looping T R promise pid)}
    {continuation : List (looping T R promise pid).Frame} {choice : LoopChoice T R}
    (stepped : memory.step frame choice = some (next, continuation)) :
    ∀ above other below, continuation = above ++ other :: below →
      ∀ lower, follower other = some lower → below.head? = some lower := by
  intro above upper below split lower follows
  have member : upper ∈ continuation := by
    rw [split]
    simp
  obtain ⟨future, stage, rfl, rfl⟩ : ∃ future stage,
      upper = .enter future (.on .onAny (.continuation stage)) ∧ lower = .body (.test future) := by
    simp only [follower] at follows
    split at follows
    · exact ⟨_, _, rfl, by simpa using follows.symm⟩
    · simp at follows
  cases frame with
  | body current =>
      simp only [Memory.step, Memory.execute, Option.map_eq_some_iff, Prod.mk.injEq] at stepped
      obtain ⟨effect, moved, -, rfl⟩ := stepped
      obtain ⟨activation, listed, call⟩ := List.mem_map.mp member
      cases activation with
      | body => simp [Activation.frame] at call
      | call called op =>
          simp only [Activation.frame, Frame.enter.injEq] at call
          obtain ⟨rfl, rfl⟩ := call
          have made : (called, .on .onAny (.continuation stage)) ∈
              effect.next.filterMap Activation.call? := List.mem_filterMap.mpr ⟨_, listed, rfl⟩
          obtain rfl := (step_moves moved).1.registers made
          simp only [step, continues] at moved
          cases moved
          simp only [List.map_cons, List.map_nil, Activation.frame] at split
          cases above with
          | nil =>
              simp only [List.nil_append, List.cons.injEq] at split
              simp [← split.2]
          | cons first above =>
              simp only [List.cons_append, List.cons.injEq] at split
              cases above <;> simp at split
  | enter | running | clearing | swapped | invoking =>
      have none := step_no_call stepped (by simp) _ member
      simp [Frame.call?] at none

theorem followed_of_reaches
    {allowed : Machine (looping T R promise pid) → Move (looping T R promise pid) → Prop}
    (reached : (futures (looping T R promise pid)).Reaches allowed machine) :
    machine.threads.Followed follower := by
  refine reached.invariant (fun machine => machine.threads.Followed follower) ?_ ?_
  · rintro machine ⟨-, -, -, -, -, threads⟩ stack member
    simp [threads] at member
  · intro machine move next followed _ stepped
    cases move with
    | spawn =>
        simp only [futures, Machine.step] at stepped
        cases stepped
        exact followed.spawn rfl
    | advance thread choice =>
        obtain ⟨frame, continuation, running, moved, threads⟩ := Machine.step_advance stepped
        rw [threads]
        exact followed.resume running (step_followed moved)

/-- The frames that run in a timely run. -/
def Known (snapshot : Snapshot (looping T R promise pid))
    (frame : (looping T R promise pid).Frame) : Prop :=
  (∀ future, frame = .body (.publish future) → Current snapshot future) ∧
    ∀ future stage, frame = .enter future (.on .onAny (.continuation stage)) →
      .test future ∈ snapshot.bodies

theorem known_of_timely (reached : (futures (looping T R promise pid)).Reaches Timely machine)
    {thread : Nat} {choice : LoopChoice T R} (timely : Timely machine (.advance thread choice))
    (running : machine.threads.top? thread = some frame) : Known machine.snapshot frame := by
  constructor
  · rintro future rfl
    exact timely future (by rw [running]; rfl)
  · rintro future stage rfl
    have below := (followed_of_reaches reached).mem_frames running rfl
    exact (Multiset.mem_filterMap Frame.body? _).mpr ⟨_, Multiset.mem_coe.mpr below, rfl⟩

/-- The invariants of a loop and of its discards. -/
structure Guarded (snapshot : Snapshot (looping T R promise pid)) : Prop where
  invariant : Invariant snapshot
  attentive : Attentive snapshot

theorem Guarded.step (sound : before.Sound) (guarded : Guarded before)
    (known : Known before frame) (step : before.Step frame after) : Guarded after := by
  refine ⟨guarded.invariant.step sound step, ?_⟩
  obtain ⟨⟨placed, control, controlled⟩, attentive⟩ := guarded
  generalize moved : frame = running at step
  cases step with
  | stutter => exact attentive
  | @call future op rest ticket called =>
      subst moved
      exact attentive.enter controlled placed sound ⟨called, ⟨ticket, rfl⟩, rfl, rfl, rfl, rfl⟩
        fun stage same => known.2 future stage (by rw [same])
  | @invoke _ future kind registration registered fires =>
      exact attentive.invoke placed ⟨registered, fires, rfl, rfl, rfl, rfl, rfl, rfl⟩
  | @body current rest choice effect running stepped =>
      obtain ⟨moves, flags⟩ := step_moves stepped
      exact attentive.execute placed running moves flags
        fun future same => known.1 future (by rw [moved, same])

theorem Guarded.of_reaches (reached : (futures (looping T R promise pid)).Reaches Timely machine) :
    Guarded machine.snapshot := by
  refine Machine.snapshot_invariant_of Known
    (fun _ _ _ _ reached timely running => known_of_timely reached timely running)
    Guarded ?_ ?_ ?_ reached
  · intro machine initial
    refine ⟨⟨.initial initial, none, .initial initial⟩, ?_⟩
    obtain ⟨-, env, registered, -, -, -⟩ := initial
    constructor <;> simp [Machine.snapshot, Memory.snapshot, env, registered, blockedOn]
  · rintro snapshot ⟨⟨placed, control, controlled⟩, attentive⟩
    refine ⟨⟨placed.spawn, control, controlled.spawn⟩, attentive.hooked, attentive.unstarted, ?_⟩
    intro latest blocked
    have attended := attentive.attended latest blocked
    simpa [Attended, controls, filterMap_cons_toList, LoopBody.control?, Snapshot.invoked]
      using attended
  · exact fun _ _ _ sound _ guarded known step => guarded.step sound known step

/-- Discards are passed on in every run in which `discard` is assigned only for a current
future. -/
theorem loop_propagates_of_timely
    (reached : (futures (looping T R promise pid)).Reaches Timely machine) :
    Propagates machine := by
  have futures := Machine.Invariant.of_reachable reached.reachable
  obtain ⟨⟨placed, control, controlled⟩, attentive⟩ := Guarded.of_reaches reached
  intro idle pending discard latest blocked
  have inactive : controls machine.snapshot = 0 := by
    have none : (machine.snapshot.status promise).outcome? = none := outcome?_of_pending pending
    rw [idle.controls_eq futures.sound controlled, none]
    rfl
  have set : (machine.snapshot.status promise).discard = true := discard
  have hooked : 0 < machine.snapshot.registrations promise .onDiscard hook := by
    have started : machine.snapshot.env.started = true := by
      cases started : machine.snapshot.env.started with
      | true => rfl
      | false => exact absurd ((attentive.unstarted started).symm.trans blocked) (by simp)
    rcases attentive.hooked started with called | ⟨ticket, registered⟩
    · exact absurd called (idle.2.2.1.no_call _)
    · exact List.countP_pos_iff.mpr ⟨_, registered, by simp [hook]⟩
  have invoked := futures.invoked_of_fires idle.2.2.1 .onDiscard (fun _ => looping_disciplined)
    set hook
  rcases attentive.attended latest blocked with
    active | test | publish | ⟨unset, -⟩ |
      ⟨-, discarded | recheck | copied | ⟨-, none | lambda⟩⟩
  · exact absurd inactive active
  · simpa using idle.no_frame test
  · simpa using idle.no_frame publish
  · exact absurd (set.symm.trans unset) (by simp)
  · exact discarded
  · simpa using idle.no_frame recheck
  · simpa using idle.no_frame copied
  · omega
  · simpa using idle.no_frame lambda

instance current_decidable (snapshot : Snapshot (looping Nat Nat promise pid))
    (future : FutureId) : Decidable (Current snapshot future) :=
  match blocked : blockedOn snapshot.registered with
  | none => .isTrue (by simp [Current, blocked])
  | some latest =>
      decidable_of_iff
        (latest = future ∨ controls snapshot ≠ 0 ∨ .test latest ∈ snapshot.bodies ∨
          .publish latest ∈ snapshot.bodies ∨
          (snapshot.status promise).discard = true ∧
            (latest ∈ snapshot.env.discards ∨ .recheck latest ∈ snapshot.bodies ∨
              .discard (some latest) ∈ snapshot.bodies))
        (by simp [Current, blocked])

instance timely_decidable (machine : Machine (looping Nat Nat promise pid)) :
    (move : Move (looping Nat Nat promise pid)) → Decidable (Timely machine move)
  | .spawn => .isTrue True.intro
  | .advance thread _ =>
      inferInstanceAs (Decidable (∀ future ∈ (machine.threads.top? thread).bind published?,
        Current machine.snapshot future))

/-- A state in which all frames belong to other code is idle. -/
theorem idle_of_frames (only : ∀ frame ∈ machine.threads.frames, frame.body? = some LoopBody.other)
    (empty : machine.memory.env.mailbox = []) : Idle machine := by
  have quiescent : ∀ future, machine.Quiescent future := by
    intro future frame member
    have body := only frame member
    cases frame <;> simp [Frame.body?, Frame.subject] at body ⊢
  refine ⟨fun current member => ?_, empty, quiescent promise, fun future _ => quiescent future⟩
  simpa [Frame.body?] using only _ member

/-- The loop blocks on a first future and then, on the thread that completes it, on a
second one before it is discarded. -/
def discardingSchedule : List (Move (looping Nat Nat 0 false)) :=
  List.flatten [[.spawn, .advance 0 .start], List.replicate 3 (.advance 0 .finish),
    [.advance 0 (.yield 1)], List.replicate 7 (.advance 0 .finish),
    [.spawn, .advance 1 (.call 1 (.set (.next 5)))], List.replicate 6 (.advance 1 .finish),
    [.advance 1 (.yield 2)], List.replicate 8 (.advance 1 .finish), [.advance 0 (.call 0 .discard)],
    List.replicate 6 (.advance 0 .finish)]

theorem loop_propagates_of_timely_discarding : ∃ machine,
    (futures (looping Nat Nat 0 false)).run (Machine.new _ fun _ => false) discardingSchedule =
        some machine ∧
      Propagates machine ∧ blockedOn machine.memory.registered = some 2 ∧
      machine.memory.env.discards = [2] := by
  obtain ⟨machine, executed, observed⟩ : ∃ machine ∈ (futures (looping Nat Nat 0 false)).run
      (Machine.new _ fun _ => false) discardingSchedule,
      blockedOn machine.memory.registered = some 2 ∧ machine.memory.env.discards = [2] := by
    decide +kernel
  have timely : (futures (looping Nat Nat 0 false)).Along Timely
      (Machine.new _ fun _ => false) discardingSchedule := by
    decide +kernel
  exact ⟨machine, executed,
    loop_propagates_of_timely
      (.of_along (.start (Machine.new_initial _ fun _ => false)) timely executed), observed⟩

/-- The thread that starts the loop assigns `discard` after the continuation of its
future has blocked the loop on a second one, which the discard then misses. -/
def staleSchedule : List (Move (looping Nat Nat 0 false)) :=
  List.flatten [[.spawn, .advance 0 .start], List.replicate 3 (.advance 0 .finish),
    [.advance 0 (.yield 1)], List.replicate 5 (.advance 0 .finish),
    [.spawn, .advance 1 (.call 1 (.set (.next 5)))], List.replicate 6 (.advance 1 .finish),
    [.advance 1 (.yield 2)], List.replicate 8 (.advance 1 .finish),
    [.advance 0 .finish, .advance 0 .finish, .advance 0 (.call 0 .discard)],
    List.replicate 6 (.advance 0 .finish)]

theorem loop_not_propagates : ∃ machine,
    (futures (looping Nat Nat 0 false)).run (Machine.new _ fun _ => false) staleSchedule =
        some machine ∧
      blockedOn machine.memory.registered = some 2 ∧
      (machine.memory.data 2).state = .pending ∧ (machine.memory.data 2).discard = false ∧
      ¬ Propagates machine := by
  obtain ⟨machine, executed, observed⟩ : ∃ machine ∈ (futures (looping Nat Nat 0 false)).run
      (Machine.new _ fun _ => false) staleSchedule,
      machine.threads.frames.map Frame.body? = [some .other, some .other] ∧
      machine.memory.env.mailbox = [] ∧ machine.memory.env.discards = [1] ∧
      blockedOn machine.memory.registered = some 2 := by
    decide +kernel
  have futures : ((futures (looping Nat Nat 0 false)).run (Machine.new _ fun _ => false)
      staleSchedule).map (fun machine =>
        ((machine.memory.data 0).state, (machine.memory.data 0).discard,
          (machine.memory.data 2).state, (machine.memory.data 2).discard)) =
      some (.pending, true, .pending, false) := by
    decide +kernel
  rw [executed, Option.map_some, Option.some.injEq] at futures
  simp only [Prod.mk.injEq] at observed futures
  obtain ⟨frames, mailbox, discards, blocked⟩ := observed
  obtain ⟨pending, discarded, later⟩ := futures
  refine ⟨machine, executed, blocked, later.1, later.2, fun propagates => ?_⟩
  have idle : Idle machine := by
    refine idle_of_frames (fun frame member => ?_) mailbox
    have body : frame.body? ∈ [some LoopBody.other, some LoopBody.other] := by
      rw [← frames]
      exact List.mem_map_of_mem member
    simpa using body
  have reaches := propagates idle pending discarded 2 blocked
  rw [discards] at reaches
  simp at reaches

end Loop

end Libprocess
