import Libprocess.Loop.Reference
import Mathlib.Algebra.Order.Group.Multiset
import Mathlib.Tactic.Abel

/-!
# The control of a loop

A started loop has one control.  It is in a frame, in a call, in a job of the executor
or in the completed promise, or it waits in a continuation that is registered and has
not been invoked.  Together with the futures' guarantee that no registration is invoked
twice, this gives mutual exclusion, and with it that the history of calls is the one of
the synchronous loop.
-/

namespace Libprocess.Loop

variable {T R : Type} {promise : FutureId} {pid : Bool}

/-- The control of the loop in a registered continuation. -/
def entryControl? : FutureId × CallbackKind × Registration LoopCallback → Option (Control R)
  | (future, .onAny, ⟨_, .continuation stage⟩) => some (.awaiting stage future)
  | _ => none

section Definitions

variable (snapshot : Snapshot (looping T R promise pid))

/-- The control in calls, frames and jobs and in the completed promise. -/
def controls : Multiset (Control R) :=
  snapshot.calls.filterMap (callControl? promise) +
    snapshot.bodies.filterMap LoopBody.control? +
    Multiset.ofList (snapshot.env.mailbox.map jobControl) +
    Multiset.ofList ((snapshot.status promise).outcome?.toList.map .ended)

/-- The control in all continuations ever registered. -/
def waiting : Multiset (Control R) :=
  Multiset.ofList (snapshot.registered.filterMap entryControl?)

/-- The control in all continuations ever invoked. -/
def resumed : Multiset (Control R) :=
  Multiset.ofList (snapshot.log.filterMap (entryControl? ∘ Invocation.entry))

/-- Callbacks, completing calls and continuations are where the loop puts them. -/
structure Placed : Prop where
  unassociated : (snapshot.status promise).associated = false
  calls : ∀ future kind callback, (future, .on kind callback) ∈ snapshot.calls →
    Place promise future kind callback
  registered : ∀ future kind registration, (future, kind, registration) ∈ snapshot.registered →
    Place promise future kind registration.callback
  completing : ∀ op, (promise, op) ∈ snapshot.calls → op.completes = true →
    (ending? op).isSome
  completed : (snapshot.status promise).state ≠ .pending →
    (snapshot.status promise).outcome?.isSome
  fired : ∀ stage future, (.continuation stage future ∈ snapshot.bodies ∨
      .deferred stage future ∈ snapshot.bodies ∨
      .continuation stage future ∈ snapshot.env.mailbox) →
    (snapshot.status future).state ≠ .pending

/-- A started loop has one control, and its history is right. -/
structure Controlled (control : Option (Control R)) : Prop where
  balance : controls snapshot + waiting snapshot = Multiset.ofList control.toList + resumed snapshot
  started : snapshot.env.started = control.isSome
  right : Right snapshot.status snapshot.env.calls snapshot.env.returned control

end Definitions

variable {before after snapshot : Snapshot (looping T R promise pid)}
  {frame : (looping T R promise pid).Frame} {control : Option (Control R)}

theorem outcome?_of_settles {status : Status (LoopValue T R)}
    {op : Op (LoopValue T R) LoopCallback} {ending : Ending R} (ends : ending? op = some ending)
    (settles : status.Settles op) : status.outcome? = some ending := by
  cases op with
  | set value =>
      cases value <;> simp only [ending?, reduceCtorEq] at ends
      cases ends
      simp [Status.outcome?, settles.1, settles.2]
  | fail message =>
      simp only [ending?] at ends
      cases ends
      simp [Status.outcome?, settles.1, settles.2]
  | discarded =>
      simp only [ending?] at ends
      cases ends
      simp only [Status.Settles] at settles
      simp [Status.outcome?, settles]
  | discard | abandon | on => simp [ending?] at ends

theorem outcome?_of_pending {status : Status (LoopValue T R)}
    (pending : status.state = .pending) : status.outcome? = none := by
  simp [Status.outcome?, pending]

theorem outcome?_congr {status other : Status (LoopValue T R)}
    (state : other.state = status.state) (result : other.result = status.result) :
    other.outcome? = status.outcome? := by
  simp only [Status.outcome?, state, result]

/-! ## Places -/

theorem Placed.initial {machine : Machine (looping T R promise pid)}
    (initial : machine.Initial) : Placed machine.snapshot := by
  obtain ⟨fresh, env, registered, -, -, threads⟩ := initial
  obtain ⟨abandoned, data⟩ := fresh promise
  constructor <;>
    simp_all [Machine.snapshot, Memory.snapshot, Data.fresh, Concurrency.Threads.frames]

theorem Placed.spawn (placed : Placed snapshot) :
    Placed { snapshot with bodies := LoopBody.other ::ₘ snapshot.bodies } where
  unassociated := placed.unassociated
  calls := placed.calls
  registered := placed.registered
  completing := placed.completing
  completed := placed.completed
  fired := by simpa using placed.fired

theorem Placed.enter {future : FutureId} {op : Op (LoopValue T R) LoopCallback}
    (placed : Placed before) (entered : before.Entered after future op) : Placed after where
  unassociated := by rw [entered.associated promise, placed.unassociated]
  calls := by
    intro other kind callback member
    exact placed.calls other kind callback (by rw [entered.calls]; simp [member])
  registered := by
    intro other kind registration member
    obtain ⟨ticket, filed⟩ := entered.filed
    rw [filed] at member
    cases op with
    | on filedKind callback =>
        simp only [Snapshot.filed, List.mem_cons, Prod.mk.injEq] at member
        rcases member with ⟨rfl, rfl, rfl⟩ | earlier
        · exact placed.calls other kind callback (by rw [entered.calls]; simp)
        · exact placed.registered other kind registration earlier
    | set | fail | discarded | discard | abandon =>
        exact placed.registered other kind registration member
  completing := by
    intro other member
    exact placed.completing other (by rw [entered.calls]; simp [member])
  completed := by
    intro completed
    by_cases pending : (before.status promise).state = .pending
    · obtain ⟨rfl, completes, settles, -⟩ := entered.completes pending completed
      obtain ⟨ending, ends⟩ := Option.isSome_iff_exists.mp
        (placed.completing op (by rw [entered.calls]; simp) completes)
      simp [outcome?_of_settles ends settles]
    · obtain ⟨state, result, -⟩ := (entered.later promise).completed pending
      rw [outcome?_congr state result]
      exact placed.completed pending
  fired := by
    intro stage other present
    rw [entered.bodies, entered.env] at present
    exact entered.keeps (placed.fired stage other present)

/-- An invoked callback becomes a frame with the control of its registration. -/
theorem control?_invoke {future : FutureId} {kind : CallbackKind}
    {registration : Registration LoopCallback} {argument : Argument (LoopValue T R)}
    (place : Place promise future kind registration.callback) :
    (invoke pid future argument registration.callback).control? =
      entryControl? (R := R) (future, kind, registration) := by
  obtain ⟨ticket, callback⟩ := registration
  cases callback with
  | other | onDiscard => cases kind <;> rfl
  | continuation stage =>
      simp only [Place] at place
      subst place
      cases pid <;> rfl

theorem Placed.invoke {future : FutureId} {kind : CallbackKind}
    {registration : Registration LoopCallback} (placed : Placed before)
    (ran : before.Ran after future kind registration) : Placed after where
  unassociated := by rw [ran.status, placed.unassociated]
  calls := by
    rw [ran.calls]
    exact placed.calls
  registered := by
    rw [ran.registered]
    exact placed.registered
  completing := by
    rw [ran.calls]
    exact placed.completing
  completed := by
    rw [ran.status]
    exact placed.completed
  fired := by
    intro stage other present
    rw [ran.status]
    by_cases earlier : .continuation stage other ∈ before.bodies ∨
        .deferred stage other ∈ before.bodies ∨
        .continuation stage other ∈ before.env.mailbox
    · exact placed.fired stage other earlier
    · rw [ran.bodies, ran.env] at present
      have place := placed.registered future kind registration ran.filed
      obtain ⟨ticket, callback⟩ := registration
      cases callback with
      | other | onDiscard => simp_all [Loop.invoke]
      | continuation =>
          simp only [Place] at place
          subst place
          have fires := ran.fires (by simp)
          have same : other = future := by
            cases pid <;> simp_all [Loop.invoke]
          subst same
          simpa [Status.fires] using fires

theorem Placed.execute {current : LoopBody} {rest : Multiset LoopBody}
    {effect : Outcome T R} (placed : Placed before) (running : before.bodies = current ::ₘ rest)
    (moves : Moves promise pid before.status before.env current effect.env
      (effect.next.filterMap Activation.call?) (effect.next.filterMap Activation.body?))
    (flags : effect.flags promise = (before.status promise).toFlags) :
    Placed (before.execute rest effect) where
  unassociated := by
    simp only [Snapshot.execute, flags]
    exact placed.unassociated
  calls := by
    intro future kind callback member
    rcases Multiset.mem_add.mp member with made | earlier
    · exact moves.place made
    · exact placed.calls future kind callback earlier
  registered := placed.registered
  completing := by
    intro op member
    rcases Multiset.mem_add.mp member with made | earlier
    · exact moves.completing made
    · exact placed.completing op earlier
  completed := placed.completed
  fired := by
    intro stage future present
    have earlier : .continuation stage future ∈ before.bodies ∨
        .deferred stage future ∈ before.bodies ∨
        .continuation stage future ∈ before.env.mailbox := by
      simp only [Snapshot.execute, Multiset.mem_add] at present
      rcases present with (new | old) | (new | old) | queued
      · rcases moves.continuation (.inl new) with rfl | queued
        · simp [running]
        · exact .inr (.inr queued)
      · exact .inl (by simp [running, old])
      · rcases moves.continuation (.inr (.inl new)) with rfl | queued
        · simp [running]
        · exact .inr (.inr queued)
      · exact .inr (.inl (by simp [running, old]))
      · rcases moves.continuation (.inr (.inr queued)) with rfl | queued
        · simp [running]
        · exact .inr (.inr queued)
    exact placed.fired stage future earlier

/-! ## One control -/

/-- The continuations that have not been invoked hold the control that is nowhere else. -/
theorem Controlled.blocked (controlled : Controlled snapshot control) (sound : snapshot.Sound) :
    ∃ blocked, waiting snapshot = blocked + resumed snapshot ∧
      controls snapshot + blocked = Multiset.ofList control.toList := by
  have tracked : ∀ entry : FutureId × CallbackKind × Registration LoopCallback,
      (entryControl? (R := R) entry).isSome → entry.2.1 ≠ .onDiscard := by
    rintro ⟨future, kind, registration⟩ visible rfl
    simp [entryControl?] at visible
  obtain ⟨blocked, waits⟩ := Multiset.le_iff_exists_add.mp (sound.filterMap_le _ tracked)
  refine ⟨blocked, by rw [waiting, waits, resumed]; exact Multiset.add_comm _ _, ?_⟩
  have balance := controlled.balance
  rw [waiting, waits, ← resumed, ← add_assoc, add_right_comm] at balance
  exact add_right_cancel balance

/-- A control that is found somewhere is the only one. -/
theorem Controlled.alone (controlled : Controlled snapshot control) (sound : snapshot.Sound)
    {found : Control R} {others : Multiset (Control R)}
    (present : controls snapshot = found ::ₘ others) :
    control = some found ∧ others = 0 ∧ waiting snapshot = resumed snapshot := by
  obtain ⟨blocked, waits, total⟩ := controlled.blocked sound
  rw [present, Multiset.cons_add] at total
  cases control with
  | none => simp at total
  | some control =>
      have single : found ::ₘ (others + blocked) = {control} := total
      rw [← Multiset.cons_zero, Multiset.cons_eq_cons] at single
      obtain ⟨rfl, empty⟩ | ⟨_, _, _, absurd⟩ := single
      · have none : others = 0 := Multiset.le_zero.mp (empty ▸ Multiset.le_add_right _ _)
        have free : blocked = 0 := Multiset.le_zero.mp (empty ▸ Multiset.le_add_left _ _)
        exact ⟨rfl, none, by simpa [free] using waits⟩
      · simp at absurd

theorem Controlled.of_mem (controlled : Controlled snapshot control) (sound : snapshot.Sound)
    {found : Control R} (member : found ∈ controls snapshot) : control = some found := by
  obtain ⟨others, present⟩ := Multiset.exists_cons_of_mem member
  exact (controlled.alone sound present).1

theorem filterMap_cons_toList {α β : Type} (view : α → Option β) (head : α)
    (tail : Multiset α) : (head ::ₘ tail).filterMap view =
      Multiset.ofList (view head).toList + tail.filterMap view := by
  cases seen : view head with
  | none => simp [Multiset.filterMap_cons_none _ _ seen]
  | some value => simp [Multiset.filterMap_cons_some _ _ _ seen]

theorem ofList_filterMap_cons {α β : Type} (view : α → Option β) (head : α) (tail : List α) :
    Multiset.ofList ((head :: tail).filterMap view) =
      Multiset.ofList (view head).toList + Multiset.ofList (tail.filterMap view) := by
  simpa using filterMap_cons_toList view head (tail : Multiset α)

theorem Controlled.initial {machine : Machine (looping T R promise pid)}
    (initial : machine.Initial) : Controlled machine.snapshot none := by
  obtain ⟨fresh, env, registered, log, -, threads⟩ := initial
  obtain ⟨abandoned, data⟩ := fresh promise
  constructor
  · simp [controls, waiting, resumed, Machine.snapshot, Memory.snapshot, env, registered, log,
      threads, data, Data.fresh, outcome?_of_pending, Concurrency.Threads.frames]
  · simp [Machine.snapshot, Memory.snapshot, env]
  · simp [Right, Machine.snapshot, Memory.snapshot, env]

theorem Controlled.spawn (controlled : Controlled snapshot control) :
    Controlled { snapshot with bodies := LoopBody.other ::ₘ snapshot.bodies } control where
  balance := by
    have balance := controlled.balance
    simp only [controls, filterMap_cons_toList, LoopBody.control?, Option.toList_none,
      Multiset.coe_nil, zero_add] at balance ⊢
    exact balance
  started := controlled.started
  right := controlled.right

/-- The control in a registration moves to the registered continuation. -/
theorem callControl?_on {future : FutureId} {kind : CallbackKind} {callback : LoopCallback}
    (place : Place promise future kind callback) (ticket : Nat) :
    callControl? (T := T) promise (future, .on kind callback) =
      entryControl? (R := R) (future, kind, ⟨ticket, callback⟩) := by
  cases callback with
  | other | onDiscard => cases kind <;> simp [callControl?, ending?, entryControl?]
  | continuation stage =>
      simp only [Place] at place
      subst place
      rfl

theorem callControl?_of_not_on {future : FutureId} {op : Op (LoopValue T R) LoopCallback}
    (notOn : ∀ kind callback, op ≠ .on kind callback) :
    callControl? promise (future, op) =
      if future = promise then (ending? op).map .ended else none := by
  cases op with
  | on kind callback => exact absurd rfl (notOn kind callback)
  | set | fail | discarded | discard | abandon => rfl

/-- The control in a call moves to the promise that it completes. -/
theorem outcome_enter {future : FutureId} {op : Op (LoopValue T R) LoopCallback}
    (controlled : Controlled before control) (placed : Placed before) (sound : before.Sound)
    (entered : before.Entered after future op) (notOn : ∀ kind callback, op ≠ .on kind callback) :
    (after.status promise).outcome?.toList.map .ended =
      (callControl? promise (future, op)).toList ++
        (before.status promise).outcome?.toList.map Control.ended := by
  rw [callControl?_of_not_on notOn]
  by_cases own : future = promise
  · subst own
    rw [if_pos rfl]
    cases completes : op.completes with
    | false =>
        have status : after.status future = (before.status future).enter op := by
          rw [entered.status, Function.update_self]
        obtain ⟨state, result⟩ : ((before.status future).enter op).state = _ ∧
            ((before.status future).enter op).result = _ := Status.enter_of_open op completes
        rw [ending?_of_not_completes completes, status, outcome?_congr state result]
        rfl
    | true =>
        have called : (future, op) ∈ before.calls := by
          rw [entered.calls]
          simp
        obtain ⟨ending, ends⟩ := Option.isSome_iff_exists.mp
          (placed.completing op called completes)
        by_cases pending : (before.status future).state = .pending
        · obtain ⟨-, -, settles, -⟩ := entered.completes pending (entered.completed completes)
          simp [outcome?_of_settles ends settles, outcome?_of_pending pending, ends]
        · obtain ⟨earlier, outcome⟩ := Option.isSome_iff_exists.mp (placed.completed pending)
          have found : controls before = .ended ending ::ₘ
              (after.calls.filterMap (callControl? future) +
                before.bodies.filterMap LoopBody.control? +
                Multiset.ofList (before.env.mailbox.map jobControl) + {.ended earlier}) := by
            rw [controls, entered.calls, filterMap_cons_toList, callControl?_of_not_on notOn,
              if_pos rfl, ends, outcome]
            simp
          have empty := (controlled.alone sound found).2.1
          have member : Control.ended earlier ∈ (0 : Multiset (Control R)) := by
            rw [← empty]
            simp
          simp at member
  · rw [if_neg own, entered.status, Function.update_of_ne (Ne.symm own)]
    rfl

/-- The control in a call moves to what the call brings about. -/
theorem controls_enter {future : FutureId} {op : Op (LoopValue T R) LoopCallback}
    (controlled : Controlled before control) (placed : Placed before) (sound : before.Sound)
    (entered : before.Entered after future op) :
    controls after + waiting after = controls before + waiting before := by
  obtain ⟨ticket, filed⟩ := entered.filed
  cases op with
  | on kind callback =>
      have place := placed.calls future kind callback (by rw [entered.calls]; simp)
      have same : after.status = before.status := by
        rw [entered.status]
        exact Function.update_eq_self future before.status
      rw [controls, controls, waiting, waiting, filed, entered.calls, entered.bodies,
        entered.env, same, filterMap_cons_toList, callControl?_on place ticket,
        Snapshot.filed, ofList_filterMap_cons]
      abel
  | set | fail | discarded | discard | abandon =>
      rw [controls, controls, waiting, waiting, filed, entered.calls, entered.bodies,
        entered.env, filterMap_cons_toList,
        outcome_enter controlled placed sound entered (by simp), ← Multiset.coe_add]
      simp only [Snapshot.filed]
      abel

theorem Controlled.enter {future : FutureId} {op : Op (LoopValue T R) LoopCallback}
    (controlled : Controlled before control) (placed : Placed before) (sound : before.Sound)
    (entered : before.Entered after future op) : Controlled after control where
  balance := by
    rw [controls_enter controlled placed sound entered, resumed, entered.log]
    exact controlled.balance
  started := by
    rw [entered.env]
    exact controlled.started
  right := by
    rw [entered.env]
    exact controlled.right.later entered.later

/-- The control of an invoked continuation moves to its frame. -/
theorem controls_invoke {future : FutureId} {kind : CallbackKind}
    {registration : Registration LoopCallback} (placed : Placed before)
    (ran : before.Ran after future kind registration) :
    controls after =
      Multiset.ofList (entryControl? (future, kind, registration)).toList + controls before := by
  rw [controls, controls, ran.calls, ran.bodies, ran.env, ran.status, filterMap_cons_toList,
    control?_invoke (placed.registered future kind registration ran.filed)]
  abel

theorem Controlled.invoke {future : FutureId} {kind : CallbackKind}
    {registration : Registration LoopCallback} (controlled : Controlled before control)
    (placed : Placed before) (ran : before.Ran after future kind registration) :
    Controlled after control where
  balance := by
    have logged : resumed after =
        Multiset.ofList (entryControl? (future, kind, registration)).toList + resumed before := by
      rw [resumed, resumed, ran.log, ofList_filterMap_cons]
      rfl
    rw [controls_invoke placed ran, logged, waiting, ran.registered, ← waiting, add_assoc,
      controlled.balance]
    abel
  started := by
    rw [ran.env]
    exact controlled.started
  right := by
    rw [ran.env, ran.status]
    exact controlled.right

/-- The control that a step of the loop leaves alone. -/
def others (snapshot : Snapshot (looping T R promise pid)) (rest : Multiset LoopBody) :
    Multiset (Control R) :=
  snapshot.calls.filterMap (callControl? promise) + rest.filterMap LoopBody.control? +
    Multiset.ofList ((snapshot.status promise).outcome?.toList.map .ended)

theorem controls_running {current : LoopBody} {rest : Multiset LoopBody}
    (running : before.bodies = current ::ₘ rest) :
    controls before =
      Multiset.ofList (current.control?.toList ++ before.env.mailbox.map jobControl) +
        others before rest := by
  rw [controls, running, filterMap_cons_toList, others, ← Multiset.coe_add]
  abel

theorem controls_execute {rest : Multiset LoopBody} {effect : Outcome T R} :
    controls (before.execute rest effect) =
      Multiset.ofList (held promise (effect.next.filterMap Activation.call?)
        (effect.next.filterMap Activation.body?) effect.env.mailbox) + others before rest := by
  have outcome : ((before.execute rest effect).status promise).outcome? =
      (before.status promise).outcome? := outcome?_congr rfl rfl
  rw [controls, outcome, others, held, ← Multiset.coe_add, ← Multiset.coe_add]
  simp only [Snapshot.execute, Effect.calls, Effect.bodies, Multiset.filterMap_add,
    Multiset.filterMap_coe]
  abel

theorem Controlled.execute {current : LoopBody} {rest : Multiset LoopBody}
    {effect : Outcome T R} (controlled : Controlled before control) (placed : Placed before)
    (sound : before.Sound) (running : before.bodies = current ::ₘ rest)
    (moves : Moves promise pid before.status before.env current effect.env
      (effect.next.filterMap Activation.call?) (effect.next.filterMap Activation.body?)) :
    ∃ target, Controlled (before.execute rest effect) target := by
  have completed : ∀ stage future, current = .continuation stage future →
      (before.status future).state ≠ .pending := by
    rintro stage future rfl
    exact placed.fired stage future (.inl (by simp [running]))
  have evolves : ∀ future, (before.status future).Later
      ((before.execute rest effect).status future) :=
    fun _ => ⟨fun _ => ⟨rfl, rfl, rfl⟩, id⟩
  rcases moves.control placed.unassociated completed with
    ⟨passes, started, calls, returned⟩ | ⟨source, target, holder, passes, started, advance⟩ |
      ⟨none, passes, fresh, started, calls, returned⟩
  · refine ⟨control, ?_, started.trans controlled.started, ?_⟩
    · rw [controls_execute, Multiset.coe_eq_coe.mpr passes, ← controls_running running]
      exact controlled.balance
    · simp only [Snapshot.execute, calls, returned]
      exact controlled.right.later evolves
  · have present : controls before =
        source ::ₘ (Multiset.ofList (before.env.mailbox.map jobControl) + others before rest) := by
      rw [controls_running running, holder, Option.toList_some, List.singleton_append,
        ← Multiset.cons_coe, Multiset.cons_add]
    obtain ⟨rfl, empty, free⟩ := controlled.alone sound present
    refine ⟨some target, ?_, started.trans controlled.started, ?_⟩
    · rw [controls_execute, Multiset.coe_eq_coe.mpr passes, ← Multiset.cons_coe,
        Multiset.cons_add]
      simp only [empty]
      exact congrArg _ free
    · exact (advance.right controlled.right).later evolves
  · have unstarted := controlled.started
    cases control with
    | some => simp [fresh] at unstarted
    | none =>
        have balance := controlled.balance
        rw [controls_running running, none] at balance
        refine ⟨some .entering, ?_, started, ?_⟩
        · rw [controls_execute, Multiset.coe_eq_coe.mpr passes, ← Multiset.cons_coe,
            Multiset.cons_add, Multiset.cons_add]
          exact congrArg _ balance
        · obtain ⟨noCalls, noneReturned⟩ := controlled.right
          simp [Right, Snapshot.execute, calls, returned, noCalls, noneReturned, iterating]

/-- The control is not lost while it is in a frame, a call or a job. -/
theorem controls_execute_ne_zero {current : LoopBody} {rest : Multiset LoopBody}
    {effect : Outcome T R} (placed : Placed before) (running : before.bodies = current ::ₘ rest)
    (moves : Moves promise pid before.status before.env current effect.env
      (effect.next.filterMap Activation.call?) (effect.next.filterMap Activation.body?))
    (active : controls before ≠ 0) : controls (before.execute rest effect) ≠ 0 := by
  have completed : ∀ stage future, current = .continuation stage future →
      (before.status future).state ≠ .pending := by
    rintro stage future rfl
    exact placed.fired stage future (.inl (by simp [running]))
  rcases moves.control placed.unassociated completed with
    ⟨passes, -⟩ | ⟨source, target, -, passes, -⟩ | ⟨-, passes, -⟩
  · rw [controls_execute, Multiset.coe_eq_coe.mpr passes, ← controls_running running]
    exact active
  · rw [controls_execute, Multiset.coe_eq_coe.mpr passes, ← Multiset.cons_coe, Multiset.cons_add]
    exact Multiset.cons_ne_zero
  · rw [controls_execute, Multiset.coe_eq_coe.mpr passes, ← Multiset.cons_coe, Multiset.cons_add]
    exact Multiset.cons_ne_zero

/-! ## Every state -/

/-- The invariant of a loop. -/
structure Invariant (snapshot : Snapshot (looping T R promise pid)) : Prop where
  placed : Placed snapshot
  controlled : ∃ control, Controlled snapshot control

theorem Invariant.step (sound : before.Sound) (invariant : Invariant before)
    (step : before.Step frame after) : Invariant after := by
  obtain ⟨placed, control, controlled⟩ := invariant
  rcases step.cases with rfl | ⟨future, op, rfl, entered⟩ | ⟨future, kind, registration, ran⟩ |
    ⟨current, rest, choice, effect, -, running, stepped, rfl⟩
  · exact ⟨placed, control, controlled⟩
  · exact ⟨placed.enter entered, control, controlled.enter placed sound entered⟩
  · exact ⟨placed.invoke ran, control, controlled.invoke placed ran⟩
  · obtain ⟨moves, flags⟩ := step_moves stepped
    exact ⟨placed.execute running moves flags,
      controlled.execute placed sound running moves⟩

theorem Invariant.of_reachable {machine : Machine (looping T R promise pid)}
    (reached : (futures (looping T R promise pid)).Reachable machine) :
    Invariant machine.snapshot := by
  refine Machine.snapshot_invariant_of (fun _ _ => True)
    (fun _ _ _ _ _ _ _ => True.intro) Invariant ?_ ?_ ?_ reached
  · exact fun _ initial => ⟨.initial initial, none, .initial initial⟩
  · exact fun _ invariant => ⟨invariant.placed.spawn, _, invariant.controlled.choose_spec.spawn⟩
  · exact fun _ _ _ sound _ invariant _ step => invariant.step sound step

end Libprocess.Loop
