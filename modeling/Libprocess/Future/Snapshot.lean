import Libprocess.Future.ExactlyOnce
import Mathlib.Data.Multiset.Filter
import Mathlib.Data.Multiset.Count

/-!
# What code over futures relies on

A client of futures does not see the callback vectors nor the loops that run
them.  It sees the status of each future, the calls it has made that have not
executed their block, its own activation frames, and the history of
registrations and invocations.  A snapshot keeps exactly this, with the frames of
all threads as multisets, and every step of the machine is one of the few steps
a snapshot can make.  Invariants of code over futures are proved on snapshots.
-/

namespace Libprocess

open Concurrency

variable {α : Type}

namespace Frame

variable {Callback Body : Type}

/-- The call a frame is about to execute. -/
def call? : Frame α Callback Body → Option (FutureId × Op α Callback)
  | .enter future op => some (future, op)
  | _ => none

/-- The client's own frame. -/
def body? : Frame α Callback Body → Option Body
  | .body frame => some frame
  | _ => none

/-- The frame belongs to a call that has executed its block. -/
def Internal (frame : Frame α Callback Body) : Prop :=
  frame.call? = none ∧ frame.body? = none

/-- The registrations a frame has taken out of the shared data. -/
def carried : Frame α Callback Body → List (FutureId × CallbackKind × Registration Callback)
  | .swapped future kind rest => rest.map fun registration => (future, kind, registration)
  | .invoking future kind registration => [(future, kind, registration)]
  | _ => []

end Frame

/-- The effect of a call on what can be observed of its future. -/
def Status.enter {Callback : Type} (status : Status α) : Op α Callback → Status α
  | .set value =>
      if status.state = .pending then
        { status with state := .ready, result := .some value }
      else status
  | .fail message =>
      if status.state = .pending then
        { status with state := .failed, result := .error message }
      else status
  | .discarded => if status.state = .pending then { status with state := .discarded } else status
  | .discard =>
      if !status.discard ∧ status.state = .pending then { status with discard := true } else status
  | .abandon propagating =>
      if !status.abandoned ∧ status.state = .pending ∧ (!status.associated ∨ propagating) then
        { status with abandoned := true }
      else status
  | .on _ _ => status

namespace Op

variable {Callback : Type}

/-- The calls that complete a future. -/
def completes : Op α Callback → Bool
  | .set _ | .fail _ | .discarded => true
  | .discard | .abandon _ | .on _ _ => false

end Op

namespace Status

variable {Callback : Type} {status : Status α} {op : Op α Callback}

/-- The future holds what the call stores. -/
def Settles (status : Status α) : Op α Callback → Prop
  | .set value => status.state = .ready ∧ status.result = .some value
  | .fail message => status.state = .failed ∧ status.result = .error message
  | .discarded => status.state = .discarded
  | .discard | .abandon _ | .on _ _ => False

theorem Settles.not_pending (settles : status.Settles op) : status.state ≠ .pending := by
  cases op <;> simp_all [Settles]

theorem enter_of_not_pending (notPending : status.state ≠ .pending) (op : Op α Callback) :
    status.enter op = status := by
  cases op <;> simp [enter, notPending]

@[simp] theorem enter_associated (status : Status α) (op : Op α Callback) :
    (status.enter op).associated = status.associated := by
  cases op <;> simp only [enter] <;> (try split) <;> rfl

theorem enter_of_open (op : Op α Callback) (keeps : op.completes = false) :
    (status.enter op).state = status.state ∧ (status.enter op).result = status.result := by
  cases op with
  | set | fail | discarded => simp [Op.completes] at keeps
  | discard | abandon => simp only [enter]; split <;> simp
  | on => simp [enter]

theorem enter_of_completes (pending : status.state = .pending) (completes : op.completes = true) :
    (status.enter op).Settles op ∧ (status.enter op).abandoned = status.abandoned := by
  cases op <;> simp [Op.completes] at completes <;> simp [enter, pending, Settles]

/-- How the status of a future can change. -/
structure Later (before after : Status α) : Prop where
  completed : before.state ≠ .pending → after.state = before.state ∧
    after.result = before.result ∧ after.abandoned = before.abandoned
  abandoned : before.abandoned = true → after.abandoned = true

theorem later_enter (status : Status α) (op : Op α Callback) : status.Later (status.enter op) where
  completed := by
    intro notPending
    simp [enter_of_not_pending notPending]
  abandoned := by
    intro abandoned
    cases op <;> simp only [enter] <;> (try split) <;> simp [abandoned]

theorem Settles.agree {other : Status α} (settles : status.Settles op)
    (settlesOther : other.Settles op) (fits : status.result.Fits status.state)
    (fitsOther : other.result.Fits other.state) :
    status.state = other.state ∧ status.result = other.result := by
  cases op <;> simp_all [Settles, Result.Fits]

theorem Settles.later {after : Status α} (settles : status.Settles op)
    (later : status.Later after) : after.Settles op := by
  obtain ⟨state, result, -⟩ := later.completed settles.not_pending
  cases op <;> simp_all [Settles]

end Status

/-- What a client of futures sees of the machine. -/
structure Snapshot (code : Code α) where
  status : FutureId → Status α
  env : code.Env
  registered : List (FutureId × CallbackKind × Registration code.Callback)
  log : List (Invocation α code.Callback)
  calls : Multiset (FutureId × Op α code.Callback)
  bodies : Multiset code.Body

/-- The client's view of a memory and the frames of all threads. -/
def Memory.snapshot {code : Code α} (memory : Memory code) (frames : Multiset code.Frame) :
    Snapshot code where
  status future := (memory.data future).toStatus
  env := memory.env
  registered := memory.registered
  log := memory.log
  calls := frames.filterMap Frame.call?
  bodies := frames.filterMap Frame.body?

def Machine.snapshot {code : Code α} (machine : Machine code) : Snapshot code :=
  machine.memory.snapshot machine.threads.frames

section Activations

variable {Callback Body Env : Type}

def Activation.call? : Activation α Callback Body → Option (FutureId × Op α Callback)
  | .call future op => some (future, op)
  | .body _ => none

def Activation.body? : Activation α Callback Body → Option Body
  | .call _ _ => none
  | .body frame => some frame

/-- The calls among the activations of a step. -/
def Effect.calls (effect : Effect α Callback Body Env) : Multiset (FutureId × Op α Callback) :=
  effect.next.filterMap Activation.call?

/-- The frames among the activations of a step. -/
def Effect.bodies (effect : Effect α Callback Body Env) : Multiset Body :=
  effect.next.filterMap Activation.body?

end Activations

namespace Snapshot

variable {code : Code α}

/-- The history after a call. -/
def filed (snapshot : Snapshot code) (future : FutureId) (ticket : Nat) :
    Op α code.Callback → List (FutureId × CallbackKind × Registration code.Callback)
  | .on kind callback => (future, kind, ⟨ticket, callback⟩) :: snapshot.registered
  | _ => snapshot.registered

/-- The invocation of a registered callback. -/
def invocation (snapshot : Snapshot code) (future : FutureId) (kind : CallbackKind)
    (registration : Registration code.Callback) : Invocation α code.Callback :=
  ⟨future, kind, registration, argument future kind (snapshot.status future).result⟩

/-- The steps of a snapshot, by the frame that moves. -/
inductive Step (before : Snapshot code) : code.Frame → Snapshot code → Prop where
  | stutter (frame : code.Frame) : Step before frame before
  | call {future : FutureId} {op : Op α code.Callback}
      {rest : Multiset (FutureId × Op α code.Callback)} (ticket : Nat) :
      before.calls = (future, op) ::ₘ rest →
      Step before (.enter future op)
        { before with
          status := Function.update before.status future ((before.status future).enter op)
          registered := before.filed future ticket op
          calls := rest }
  | invoke (frame : code.Frame) {future : FutureId} {kind : CallbackKind}
      {registration : Registration code.Callback} :
      (future, kind, registration) ∈ before.registered →
      ((kind = .onDiscard → code.Disciplined future) →
        (before.status future).fires kind = true) →
      Step before frame
        { before with
          log := before.invocation future kind registration :: before.log
          bodies := code.invoke future (before.invocation future kind registration).argument
            registration.callback ::ₘ before.bodies }
  | body {frame : code.Body} {rest : Multiset code.Body} {choice : code.Choice}
      {effect : Effect α code.Callback code.Body code.Env} :
      before.bodies = frame ::ₘ rest →
      code.step before.status before.env frame choice = some effect →
      Step before (.body frame)
        { before with
          status := fun future => { before.status future with toFlags := effect.flags future }
          env := effect.env
          calls := effect.calls + before.calls
          bodies := effect.bodies + rest }

/-- A step keeps completed futures and abandoned futures as they are. -/
theorem Step.later {before after : Snapshot code} {frame : code.Frame}
    (step : before.Step frame after) (future : FutureId) :
    (before.status future).Later (after.status future) := by
  cases step with
  | stutter | invoke | body => exact ⟨fun _ => ⟨rfl, rfl, rfl⟩, id⟩
  | @call other op rest ticket called =>
      by_cases same : future = other
      · subst other
        simpa using Status.later_enter (before.status future) op
      · simp only [Function.update_of_ne same]
        exact ⟨fun _ => ⟨rfl, rfl, rfl⟩, id⟩

/-- How often selected registrations of a future have been invoked. -/
def invoked (snapshot : Snapshot code) (future : FutureId) (kind : CallbackKind)
    (selected : Registration code.Callback → Bool) : Nat :=
  snapshot.log.countP fun invocation =>
    invocation.future = future ∧ invocation.kind = kind ∧ selected invocation.registration

/-- How many selected registrations of a future have been made. -/
def registrations (snapshot : Snapshot code) (future : FutureId) (kind : CallbackKind)
    (selected : Registration code.Callback → Bool) : Nat :=
  snapshot.registered.countP fun entry =>
    entry.1 = future ∧ entry.2.1 = kind ∧ selected entry.2.2

theorem invoked_of_log {before after : Snapshot code} {invocation : Invocation α code.Callback}
    (log : after.log = invocation :: before.log) (future : FutureId) (kind : CallbackKind)
    (selected : Registration code.Callback → Bool) :
    after.invoked future kind selected = before.invoked future kind selected +
      (decide (invocation.future = future ∧ invocation.kind = kind) &&
        selected invocation.registration).toNat := by
  simp only [invoked, log, List.countP_cons]
  by_cases here : invocation.future = future <;> by_cases this : invocation.kind = kind <;>
    cases chosen : selected invocation.registration <;> simp [here, this]

theorem registrations_of_filed {before after : Snapshot code}
    {entry : FutureId × CallbackKind × Registration code.Callback}
    (filed : after.registered = entry :: before.registered) (future : FutureId)
    (kind : CallbackKind) (selected : Registration code.Callback → Bool) :
    after.registrations future kind selected = before.registrations future kind selected +
      (decide (entry.1 = future ∧ entry.2.1 = kind) && selected entry.2.2).toNat := by
  simp only [registrations, filed, List.countP_cons]
  by_cases here : entry.1 = future <;> by_cases this : entry.2.1 = kind <;>
    cases chosen : selected entry.2.2 <;> simp [here, this]

/-- What the futures guarantee to their clients in every state. -/
structure Sound (snapshot : Snapshot code) : Prop where
  atMost : ∀ future kind selected, (kind = .onDiscard → code.Disciplined future) →
    snapshot.invoked future kind selected ≤ snapshot.registrations future kind selected
  unfired : ∀ future kind selected, (kind = .onDiscard → code.Disciplined future) →
    (snapshot.status future).fires kind = false → snapshot.invoked future kind selected = 0
  result : ∀ future, (snapshot.status future).result.Fits (snapshot.status future).state
  unique : (snapshot.registered.map (·.2.2.ticket)).Nodup

end Snapshot

/-! ## Steps of the machine are steps of its snapshots -/

namespace Memory

variable {code : Code α} {memory next : Memory code} {frame : code.Frame}
  {frames continuation : List code.Frame}

/-- Every callback that may still be invoked has been registered. -/
structure Filed (memory : Memory code) (frames : List code.Frame) : Prop where
  stored : ∀ future kind, ∀ registration ∈ (memory.data future).callbacks kind,
    (future, kind, registration) ∈ memory.registered
  carried : ∀ frame ∈ frames, ∀ entry ∈ frame.carried, entry ∈ memory.registered

theorem enter_status (memory : Memory code) (future : FutureId) (op : Op α code.Callback) :
    (fun other => ((memory.enter future op).1.data other).toStatus) =
      Function.update (fun other => (memory.data other).toStatus) future
        ((memory.data future).toStatus.enter op) := by
  funext other
  by_cases same : other = future
  · subst other
    cases op <;>
      simp only [enter, completed, swappedOut, register, Data.set, Data.fail, Data.discarded,
        Data.complete, Data.requestDiscard, Data.abandon, Data.register, Status.enter] <;>
      split_ifs <;> simp_all [store, returns, Data.take, Data.push]
  · cases op <;>
      simp only [enter, completed, swappedOut, register] <;>
      (try split) <;> simp [store, returns, same]

theorem enter_registered (memory : Memory code) (future : FutureId)
    (op : Op α code.Callback) :
    (memory.enter future op).1.registered =
      match op with
      | .on kind callback => (future, kind, ⟨memory.tickets, callback⟩) :: memory.registered
      | _ => memory.registered := by
  cases op <;> simp only [enter, completed, swappedOut, register] <;> (try split) <;> rfl

theorem enter_frame (memory : Memory code) (future : FutureId) (op : Op α code.Callback) :
    (memory.enter future op).1.env = memory.env ∧
      (memory.enter future op).1.log = memory.log ∧
      ∀ frame ∈ (memory.enter future op).2, frame.Internal := by
  cases op <;> simp only [enter, completed, swappedOut, register] <;> (try split) <;>
    simp [store, returns, Frame.Internal, Frame.call?, Frame.body?]

section

variable (filed : Filed memory frames)

include filed

theorem completed_filed (future : FutureId)
    (own : CallbackKind) (target : FutureState) (result : Result α) :
    Filed (memory.completed future own ((memory.data future).complete target result)).1
      (memory.completed future own ((memory.data future).complete target result)).2 := by
  by_cases pending : (memory.data future).state = .pending
  · simp only [completed, Data.complete, pending, if_true]
    refine ⟨fun other kind registration member => ?_, by simp [Frame.carried]⟩
    by_cases same : other = future
    · subst other
      exact filed.stored future kind registration (by simpa [store] using member)
    · exact filed.stored other kind registration (by simpa [store, same] using member)
  · simp only [completed, Data.complete, pending, if_false, Bool.false_eq_true]
    exact ⟨filed.stored, by simp⟩

/-- A vector that is swapped out moves from the data to a frame. -/
theorem take_filed (future : FutureId) (kind : CallbackKind)
    {data : Data α code.Callback} (same : data.callbacks = (memory.data future).callbacks) :
    Filed (memory.store future (data.take kind).1)
      [.swapped future kind (data.take kind).2] := by
  constructor
  · intro other current registration member
    by_cases here : other = future
    · subst other
      by_cases swapped : current = kind
      · subst current
        simp [store, Data.take] at member
      · apply filed.stored future current registration
        simpa [store, Data.take, swapped, same] using member
    · exact filed.stored other current registration (by simpa [store, here] using member)
  · intro frame member entry owed
    simp only [List.mem_singleton] at member
    subst member
    simp only [Frame.carried, Data.take, same, List.mem_map] at owed
    obtain ⟨registration, stored, rfl⟩ := owed
    exact filed.stored future kind registration stored

theorem register_filed (future : FutureId)
    (kind : CallbackKind) (callback : code.Callback) :
    Filed (memory.register future kind callback).1
      (memory.register future kind callback).2 := by
  constructor
  · intro other current registration member
    by_cases here : other = future
    · subst other
      simp only [register, store, Function.update_self, Data.register] at member ⊢
      split_ifs at member
      · exact List.mem_cons_of_mem _ (filed.stored future current registration member)
      · by_cases pushed : current = kind
        · subst current
          simp only [Data.push, Function.update_self, List.mem_append,
            List.mem_singleton] at member
          rcases member with earlier | rfl
          · exact List.mem_cons_of_mem _ (filed.stored future kind registration earlier)
          · simp
        · simp only [Data.push, Function.update_of_ne pushed] at member
          exact List.mem_cons_of_mem _ (filed.stored future current registration member)
      · exact List.mem_cons_of_mem _ (filed.stored future current registration member)
    · simp only [register, store, Function.update_of_ne here] at member ⊢
      exact List.mem_cons_of_mem _ (filed.stored other current registration member)
  · intro frame member entry owed
    simp only [register] at member ⊢
    split at member
    · simp only [List.mem_singleton] at member
      subst member
      simp only [Frame.carried, List.mem_singleton] at owed
      simp [owed]
    · simp at member

theorem enter_filed (future : FutureId)
    (op : Op α code.Callback) :
    Filed (memory.enter future op).1 (memory.enter future op).2 := by
  cases op with
  | set value | fail message | discarded => exact completed_filed filed future _ _ _
  | discard =>
      simp only [enter, Data.requestDiscard]
      split
      · exact take_filed filed future .onDiscard rfl
      · exact ⟨filed.stored, by simp [swappedOut]⟩
  | abandon propagating =>
      simp only [enter, Data.abandon]
      split
      · exact take_filed filed future .onAbandoned rfl
      · exact ⟨filed.stored, by simp [swappedOut]⟩
  | on kind callback => exact register_filed filed future kind callback

theorem iterate_filed (future : FutureId)
    (kind : CallbackKind) (index : Nat) :
    Filed (memory.iterate future kind index).1 (memory.iterate future kind index).2 := by
  simp only [iterate]
  split
  · exact ⟨filed.stored, by simp [Frame.carried, callback]⟩
  · refine ⟨filed.stored, ?_⟩
    split <;> simp [Frame.carried]

theorem execute_filed {body : code.Body} {choice : code.Choice}
    (stepped : memory.execute body choice = some (next, continuation)) :
    Filed next continuation ∧ next.registered = memory.registered := by
  simp only [execute, Option.map_eq_some_iff, Prod.mk.injEq] at stepped
  obtain ⟨effect, _, rfl, rfl⟩ := stepped
  refine ⟨⟨filed.stored, ?_⟩, rfl⟩
  intro frame member entry owed
  obtain ⟨activation, _, rfl⟩ := List.mem_map.mp member
  cases activation <;> simp [Activation.frame, Frame.carried] at owed

/-- Every step files what it stores or takes out. -/
theorem step_filed (member : frame ∈ frames)
    {choice : code.Choice} (stepped : memory.step frame choice = some (next, continuation)) :
    Filed next continuation ∧ ∀ entry ∈ memory.registered, entry ∈ next.registered := by
  cases frame with
  | enter future op =>
      simp only [step, Option.some.injEq, Prod.ext_iff] at stepped
      obtain ⟨rfl, rfl⟩ := stepped
      refine ⟨enter_filed filed future op, ?_⟩
      intro entry earlier
      rw [enter_registered]
      cases op <;> simp [earlier]
  | running future kind index =>
      simp only [step, Option.some.injEq, Prod.ext_iff] at stepped
      obtain ⟨rfl, rfl⟩ := stepped
      refine ⟨iterate_filed filed future kind index, ?_⟩
      simp only [iterate]
      split <;> simp [record]
  | clearing future =>
      cases stepped
      refine ⟨⟨fun other kind registration present => ?_, by simp⟩, fun _ earlier => earlier⟩
      by_cases same : other = future
      · subst other
        simp [returns, store, Data.clearAllCallbacks] at present
      · exact filed.stored other kind registration
          (by simpa [returns, store, same] using present)
  | swapped future kind rest =>
      have owned := filed.carried _ member
      cases rest with
      | nil =>
          cases stepped
          exact ⟨⟨filed.stored, by simp⟩, fun _ earlier => earlier⟩
      | cons registration rest =>
          cases stepped
          simp only [Frame.carried, List.map_cons, List.mem_cons] at owned
          refine ⟨⟨filed.stored, ?_⟩, fun _ earlier => earlier⟩
          intro frame present entry owed
          simp only [List.mem_cons, List.not_mem_nil, or_false] at present
          rcases present with rfl | rfl
          · simp [callback, Frame.carried] at owed
          · exact owned entry (.inr owed)
  | invoking future kind registration =>
      cases stepped
      exact ⟨⟨filed.stored, by simp [callback, Frame.carried]⟩, fun _ earlier => earlier⟩
  | body body =>
      obtain ⟨kept, same⟩ := execute_filed filed stepped
      exact ⟨kept, fun entry earlier => by rwa [same]⟩

end

/-- What a frame owes is due. -/
theorem owed_fires {future : FutureId} {kind : CallbackKind}
    (registration : Registration code.Callback)
    (settled : Settled (code.Disciplined future) future (memory.view future) frames)
    (member : frame ∈ frames)
    (owed : registration ∈ frame.owed (memory.data future).callbacks future kind)
    (tracked : kind = .onDiscard → code.Disciplined future) :
    (memory.data future).fires kind = true := by
  by_contra unfired
  have silent : (memory.data future).fires kind = false := by simpa using unfired
  have none := (settled.unfired kind (fun _ => true) tracked silent).2
  have zero : occurrences (fun _ => true)
      (frame.owed (memory.data future).callbacks future kind) = 0 :=
    List.sum_eq_zero_iff_forall_eq_nat.mp none _ (List.mem_map_of_mem member)
  have absent := List.countP_eq_zero.mp zero registration owed
  simp at absent

section Views

variable {rest : Multiset code.Frame}

theorem filterMap_internal {Seen : Type} (rest : Multiset code.Frame)
    {view : code.Frame → Option Seen} (hidden : ∀ frame ∈ continuation, view frame = none) :
    ((↑continuation : Multiset code.Frame) + rest).filterMap view = rest.filterMap view := by
  have none : continuation.filterMap view = [] := List.filterMap_eq_nil_iff.mpr hidden
  simp [Multiset.filterMap_add, none]

/-- A step inside a function of a future that invokes nothing. -/
theorem stutter_step (frame : code.Frame) (hidden : frame.Internal)
    (internal : ∀ frame ∈ continuation, frame.Internal)
    (status : ∀ future, (next.data future).toStatus = (memory.data future).toStatus)
    (env : next.env = memory.env) (registered : next.registered = memory.registered)
    (log : next.log = memory.log) :
    (memory.snapshot (frame ::ₘ rest)).Step frame (next.snapshot (↑continuation + rest)) := by
  have same : next.snapshot (↑continuation + rest) = memory.snapshot (frame ::ₘ rest) := by
    simp only [snapshot, status, env, registered, log,
      filterMap_internal rest fun frame member => (internal frame member).1,
      filterMap_internal rest fun frame member => (internal frame member).2,
      Multiset.filterMap_cons_none _ _ hidden.1, Multiset.filterMap_cons_none _ _ hidden.2]
  rw [same]
  exact .stutter frame

/-- A step inside a function of a future that invokes a callback. -/
theorem invoke_step (frame : code.Frame) (hidden : frame.Internal) {future : FutureId}
    {kind : CallbackKind} {registration : Registration code.Callback}
    (registered : (future, kind, registration) ∈ memory.registered)
    (fires : (kind = .onDiscard → code.Disciplined future) →
      (memory.data future).fires kind = true)
    (internal : ∀ frame ∈ continuation, frame.Internal) :
    (memory.snapshot (frame ::ₘ rest)).Step frame
      ((memory.record future kind registration).snapshot
        (↑(memory.callback future kind registration :: continuation) + rest)) := by
  have same : (memory.record future kind registration).snapshot
      (↑(memory.callback future kind registration :: continuation) + rest) =
      { memory.snapshot (frame ::ₘ rest) with
        log := (memory.snapshot (frame ::ₘ rest)).invocation future kind registration ::
          memory.log
        bodies := code.invoke future (argument future kind (memory.data future).result)
          registration.callback ::ₘ (memory.snapshot (frame ::ₘ rest)).bodies } := by
    have calls := filterMap_internal rest fun frame member => (internal frame member).1
    have bodies := filterMap_internal rest fun frame member => (internal frame member).2
    simp only [snapshot, ← Multiset.cons_coe, Multiset.cons_add,
      Multiset.filterMap_cons_none _ _ hidden.1, Multiset.filterMap_cons_none _ _ hidden.2]
    rw [Multiset.filterMap_cons_none _ _ (by rfl), Multiset.filterMap_cons_some _ _ _ (by rfl),
      calls, bodies]
    rfl
  rw [same]
  exact .invoke frame registered fires

/-- A call that executes its block. -/
theorem call_step (future : FutureId) (op : Op α code.Callback) :
    (memory.snapshot (.enter future op ::ₘ rest)).Step (.enter future op)
      ((memory.enter future op).1.snapshot (↑(memory.enter future op).2 + rest)) := by
  obtain ⟨env, log, internal⟩ := enter_frame memory future op
  have before : (memory.snapshot (.enter future op ::ₘ rest)).calls =
      (future, op) ::ₘ rest.filterMap Frame.call? := by
    exact Multiset.filterMap_cons_some _ _ _ rfl
  have same : (memory.enter future op).1.snapshot (↑(memory.enter future op).2 + rest) =
      { memory.snapshot (.enter future op ::ₘ rest) with
        status := Function.update (memory.snapshot (.enter future op ::ₘ rest)).status future
          ((memory.data future).toStatus.enter op)
        registered := (memory.snapshot (.enter future op ::ₘ rest)).filed future
          memory.tickets op
        calls := rest.filterMap Frame.call? } := by
    have calls := filterMap_internal rest fun frame member => (internal frame member).1
    have bodies := filterMap_internal rest fun frame member => (internal frame member).2
    have hidden : Multiset.filterMap Frame.body? (.enter future op ::ₘ rest) =
        rest.filterMap Frame.body? := Multiset.filterMap_cons_none _ _ rfl
    simp only [snapshot, enter_status, enter_registered, env, log, calls, bodies, hidden]
    cases op <;> rfl
  rw [same]
  exact .call memory.tickets before

/-- A step of the client. -/
theorem body_step {body : code.Body} {choice : code.Choice}
    (stepped : memory.execute body choice = some (next, continuation)) :
    (memory.snapshot (.body body ::ₘ rest)).Step (.body body)
      (next.snapshot (↑continuation + rest)) := by
  simp only [execute, Option.map_eq_some_iff, Prod.mk.injEq] at stepped
  obtain ⟨effect, moved, rfl, rfl⟩ := stepped
  have before : (memory.snapshot (.body body ::ₘ rest)).bodies =
      body ::ₘ rest.filterMap Frame.body? := Multiset.filterMap_cons_some _ _ _ rfl
  have hidden : Multiset.filterMap Frame.call? (.body body ::ₘ rest) =
      rest.filterMap Frame.call? := Multiset.filterMap_cons_none _ _ rfl
  have calls : (effect.next.map Activation.frame).filterMap Frame.call? =
      effect.next.filterMap Activation.call? := by
    rw [List.filterMap_map]
    congr 1
    funext activation
    cases activation <;> rfl
  have bodies : (effect.next.map Activation.frame).filterMap Frame.body? =
      effect.next.filterMap Activation.body? := by
    rw [List.filterMap_map]
    congr 1
    funext activation
    cases activation <;> rfl
  have step := Snapshot.Step.body before moved
  simpa only [snapshot, hidden, Effect.calls, Effect.bodies, Multiset.filterMap_add,
    Multiset.filterMap_coe, calls, bodies] using step

/-- Every step of the machine is a step of its snapshot. -/
theorem step_snapshot
    (settled : ∀ future, Settled (code.Disciplined future) future (memory.view future) frames)
    (filed : Filed memory frames) (member : frame ∈ frames) {choice : code.Choice}
    (stepped : memory.step frame choice = some (next, continuation))
    (rest : Multiset code.Frame) :
    (memory.snapshot (frame ::ₘ rest)).Step frame (next.snapshot (↑continuation + rest)) := by
  cases frame with
  | enter future op =>
      simp only [step, Option.some.injEq, Prod.ext_iff] at stepped
      obtain ⟨rfl, rfl⟩ := stepped
      exact call_step future op
  | running future kind index =>
      simp only [step, iterate, Option.some.injEq] at stepped
      split at stepped
      next registration found =>
        obtain ⟨rfl, rfl⟩ := Prod.mk.inj stepped
        refine invoke_step _ ⟨rfl, rfl⟩ ?_ (owed_fires registration (settled future) member ?_)
          (by simp [Frame.Internal, Frame.call?, Frame.body?])
        · exact filed.stored future kind registration (List.mem_of_getElem? found)
        · simp only [Frame.owed, if_true]
          exact List.mem_of_getElem? (i := 0) (by simpa using found)
      next exhausted =>
        obtain ⟨rfl, rfl⟩ := Prod.mk.inj stepped
        refine stutter_step _ ⟨rfl, rfl⟩ ?_ (fun _ => rfl) rfl rfl rfl
        split <;> simp [Frame.Internal, Frame.call?, Frame.body?]
  | clearing future =>
      cases stepped
      refine stutter_step _ ⟨rfl, rfl⟩ (by simp) ?_ rfl rfl rfl
      intro other
      by_cases same : other = future
      · subst other
        simp [returns, store, Data.clearAllCallbacks]
      · simp [returns, store, same]
  | swapped future kind owed =>
      cases owed with
      | nil =>
          cases stepped
          exact stutter_step _ ⟨rfl, rfl⟩ (by simp) (fun _ => rfl) rfl rfl rfl
      | cons registration owed =>
          cases stepped
          exact invoke_step _ ⟨rfl, rfl⟩ (filed.carried _ member _ (by simp [Frame.carried]))
            (owed_fires registration (settled future) member (by simp [Frame.owed]))
            (by simp [Frame.Internal, Frame.call?, Frame.body?])
  | invoking future kind registration =>
      cases stepped
      exact invoke_step _ ⟨rfl, rfl⟩ (filed.carried _ member _ (by simp [Frame.carried]))
        (owed_fires registration (settled future) member (by simp [Frame.owed])) (by simp)
  | body body => exact body_step stepped

end Views

end Memory

namespace Machine

variable {code : Code α} {machine next : Machine code}

/-- Every callback that may still be invoked has been registered. -/
def Filed (machine : Machine code) : Prop :=
  machine.memory.Filed machine.threads.frames

/-- Nothing has happened yet. -/
structure Blank (snapshot : Snapshot code) : Prop where
  env : snapshot.env = code.initial
  registered : snapshot.registered = []
  log : snapshot.log = []
  calls : snapshot.calls = 0
  bodies : snapshot.bodies = 0
  state : ∀ future, (snapshot.status future).state = .pending
  discard : ∀ future, (snapshot.status future).discard = false
  associated : ∀ future, (snapshot.status future).associated = false

theorem Initial.blank (initial : Initial machine) : Blank machine.snapshot := by
  obtain ⟨fresh, env, registered, log, -, threads⟩ := initial
  have idle : machine.threads.frames = [] := by simp [threads]
  have data : ∀ future, (machine.memory.data future).state = .pending ∧
      (machine.memory.data future).discard = false ∧
        (machine.memory.data future).associated = false := by
    intro future
    obtain ⟨abandoned, data⟩ := fresh future
    simp [data, Data.fresh]
  exact ⟨env, registered, log, by simp [Machine.snapshot, Memory.snapshot, idle],
    by simp [Machine.snapshot, Memory.snapshot, idle], fun future => (data future).1,
    fun future => (data future).2.1, fun future => (data future).2.2⟩

theorem Initial.filed (initial : Initial machine) : Filed machine := by
  obtain ⟨fresh, -, -, -, -, threads⟩ := initial
  refine ⟨fun future kind registration member => ?_, by simp [threads]⟩
  obtain ⟨abandoned, data⟩ := fresh future
  simp [data, Data.fresh] at member

theorem Filed.step {move : Move code} (filed : Filed machine)
    (stepped : machine.step move = some next) : Filed next := by
  cases move with
  | spawn =>
      simp only [Machine.step] at stepped
      cases stepped
      refine ⟨filed.stored, ?_⟩
      intro frame member entry owed
      rw [Threads.frames_spawn] at member
      rcases List.mem_append.mp member with earlier | started
      · exact filed.carried frame earlier entry owed
      · simp only [List.mem_singleton] at started
        subst started
        simp [Frame.carried] at owed
  | advance thread choice =>
      obtain ⟨frame, continuation, running, moved, threads⟩ := step_advance stepped
      have exchange := Threads.exchange running continuation
      obtain ⟨kept, grows⟩ := Memory.step_filed filed exchange.member moved
      refine ⟨kept.stored, ?_⟩
      intro other member entry owed
      rw [threads] at member
      rcases exchange.source member with entered | earlier
      · exact kept.carried other entered entry owed
      · exact grows entry (filed.carried other earlier entry owed)

theorem Filed.of_reachable (reached : (futures code).Reachable machine) : Filed machine :=
  reached.invariant Filed (fun _ initial => Initial.filed initial)
    fun _ _ _ filed _ stepped => filed.step stepped

/-- The running frame is no call, or a call that meets a condition on the state in
which its block executes. -/
def Permits (permitted : (FutureId → Status α) → FutureId → Op α code.Callback → Prop)
    (status : FutureId → Status α) : Option code.Frame → Prop
  | some (.enter future op) => permitted status future op
  | _ => True

/-- Every call that a move executes meets the condition. -/
def Meets (permitted : (FutureId → Status α) → FutureId → Op α code.Callback → Prop)
    (machine : Machine code) : Move code → Prop
  | .spawn => True
  | .advance thread _ =>
      Permits permitted (fun other => (machine.memory.data other).toStatus)
        (machine.threads.top? thread)

section Decidable

variable {permitted : (FutureId → Status α) → FutureId → Op α code.Callback → Prop}
  [decidable : ∀ status future op, Decidable (permitted status future op)]

instance permits_decidable (status : FutureId → Status α) :
    (frame : Option code.Frame) → Decidable (Permits permitted status frame)
  | some (.enter future op) => decidable status future op
  | none | some (.running _ _ _) | some (.clearing _) | some (.swapped _ _ _)
  | some (.invoking _ _ _) | some (.body _) => .isTrue True.intro

instance meets_decidable (machine : Machine code) :
    (move : Move code) → Decidable (machine.Meets permitted move)
  | .spawn => .isTrue True.intro
  | .advance thread _ => permits_decidable _ (machine.threads.top? thread)

end Decidable

/-- A step of a thread is a step of the snapshot. -/
theorem advance_snapshot {thread : Nat} {choice : code.Choice} (invariant : Invariant machine)
    (filed : Filed machine) (stepped : machine.step (.advance thread choice) = some next) :
    ∃ frame, machine.threads.top? thread = some frame ∧
      machine.snapshot.Step frame next.snapshot := by
  obtain ⟨frame, continuation, running, moved, threads⟩ := step_advance stepped
  have exchange := Threads.exchange running continuation
  obtain ⟨rest, before, after⟩ := exchange.split
  refine ⟨frame, running, ?_⟩
  have step := Memory.step_snapshot invariant.settled filed exchange.member moved rest
  have old : (↑machine.threads.frames : Multiset code.Frame) = frame ::ₘ ↑rest :=
    Multiset.coe_eq_coe.mpr before
  have new : (↑next.threads.frames : Multiset code.Frame) = ↑continuation + ↑rest := by
    rw [threads, Multiset.coe_add]
    exact Multiset.coe_eq_coe.mpr after
  rw [snapshot, snapshot, old, new]
  exact step

/-- A new thread adds its frame to the snapshot. -/
theorem spawn_snapshot (stepped : machine.step .spawn = some next) :
    next.snapshot =
      { machine.snapshot with bodies := code.main ::ₘ machine.snapshot.bodies } := by
  simp only [Machine.step] at stepped
  cases stepped
  have frames : (↑(machine.threads.spawn (.body code.main)).frames : Multiset code.Frame) =
      Frame.body code.main ::ₘ ↑machine.threads.frames := by
    rw [Threads.frames_spawn, ← Multiset.coe_add, Multiset.add_comm]
    rfl
  simp only [snapshot, Memory.snapshot, frames]
  rw [Multiset.filterMap_cons_none _ _ (by rfl), Multiset.filterMap_cons_some _ _ _ (by rfl)]

/-- A machine step starts a thread or is a step of the snapshot. -/
theorem step_snapshot {move : Move code} (invariant : Invariant machine)
    (filed : Filed machine) (stepped : machine.step move = some next) :
    next.snapshot =
        { machine.snapshot with bodies := code.main ::ₘ machine.snapshot.bodies } ∨
      ∃ thread choice frame, move = .advance thread choice ∧
        machine.threads.top? thread = some frame ∧
        machine.snapshot.Step frame next.snapshot := by
  cases move with
  | spawn => exact .inl (spawn_snapshot stepped)
  | advance thread choice =>
      obtain ⟨frame, running, step⟩ := advance_snapshot invariant filed stepped
      exact .inr ⟨thread, choice, frame, rfl, running, step⟩

@[simp] theorem snapshot_status (machine : Machine code) (future : FutureId) :
    machine.snapshot.status future = (machine.memory.data future).toStatus := rfl

theorem snapshot_invoked (machine : Machine code) (future : FutureId) (kind : CallbackKind)
    (selected : Registration code.Callback → Bool) :
    machine.snapshot.invoked future kind selected =
      (machine.memory.view future).invoked kind selected := by
  simp only [Snapshot.invoked, View.invoked, Memory.view, List.countP_filter]
  congr 1
  funext invocation
  simp [and_comm, Bool.and_comm]

theorem snapshot_registrations (machine : Machine code) (future : FutureId)
    (kind : CallbackKind) (selected : Registration code.Callback → Bool) :
    machine.snapshot.registrations future kind selected =
      (machine.memory.view future).registrations kind selected := by
  simp only [Snapshot.registrations, View.registrations, Memory.view, List.countP_map,
    List.countP_filter]
  congr 1
  funext entry
  simp [and_comm, Bool.and_comm]

theorem Invariant.sound (invariant : Invariant machine) : machine.snapshot.Sound where
  atMost := by
    intro future kind selected tracked
    rw [snapshot_invoked, snapshot_registrations]
    have settled := invariant.settled future
    cases fires : (machine.memory.data future).fires kind with
    | true =>
        have balanced := settled.fired kind selected tracked fires
        omega
    | false =>
        have none := (settled.unfired kind selected tracked fires).1
        omega
  unfired := by
    intro future kind selected tracked unfired
    rw [snapshot_invoked]
    exact ((invariant.settled future).unfired kind selected tracked unfired).1
  result future := (invariant.settled future).result
  unique := invariant.tickets.unique

/-- Once a future is quiescent, every callback whose event has happened has been
invoked. -/
theorem Invariant.invoked_of_fires (invariant : Invariant machine) {future : FutureId}
    (quiescent : machine.Quiescent future) (kind : CallbackKind)
    (tracked : kind = .onDiscard → code.Disciplined future)
    (fires : (machine.snapshot.status future).fires kind = true)
    (selected : Registration code.Callback → Bool) :
    machine.snapshot.invoked future kind selected =
      machine.snapshot.registrations future kind selected := by
  have balanced := (invariant.settled future).fired kind selected tracked fires
  rw [Invariant.nothing_outstanding quiescent] at balanced
  rw [snapshot_invoked, snapshot_registrations]
  exact balanced

/-- A call that stands somewhere is a frame of a thread. -/
theorem mem_frames_of_call {future : FutureId} {op : Op α code.Callback}
    (member : (future, op) ∈ machine.snapshot.calls) :
    .enter future op ∈ machine.threads.frames := by
  simp only [snapshot, Memory.snapshot, Multiset.mem_filterMap] at member
  obtain ⟨frame, present, call⟩ := member
  cases frame <;> simp only [Frame.call?, reduceCtorEq] at call
  cases call
  exact Multiset.mem_coe.mp present

theorem mem_frames_of_body {body : code.Body} (member : body ∈ machine.snapshot.bodies) :
    .body body ∈ machine.threads.frames := by
  simp only [snapshot, Memory.snapshot, Multiset.mem_filterMap] at member
  obtain ⟨frame, present, same⟩ := member
  cases frame <;> simp only [Frame.body?, reduceCtorEq] at same
  cases same
  exact Multiset.mem_coe.mp present

theorem Quiescent.no_call {future : FutureId} (quiescent : machine.Quiescent future)
    (op : Op α code.Callback) : (future, op) ∉ machine.snapshot.calls := by
  intro member
  exact quiescent _ (mem_frames_of_call member) rfl

/-- The invariant rule for code over futures.  A step may rely on what is known of the
frame that runs, from the condition on runs or from the machine itself. -/
theorem snapshot_invariant_of {allowed : Machine code → Move code → Prop}
    (permitted : Snapshot code → code.Frame → Prop)
    (known : ∀ machine thread choice frame, (futures code).Reaches allowed machine →
      allowed machine (.advance thread choice) → machine.threads.top? thread = some frame →
      permitted machine.snapshot frame)
    (holds : Snapshot code → Prop)
    (initial : ∀ machine : Machine code, machine.Initial → holds machine.snapshot)
    (spawned : ∀ snapshot, holds snapshot →
      holds { snapshot with bodies := code.main ::ₘ snapshot.bodies })
    (preserved : ∀ before frame after, Snapshot.Sound before → Snapshot.Sound after →
      holds before → permitted before frame → before.Step frame after → holds after)
    (reached : (futures code).Reaches allowed machine) : holds machine.snapshot := by
  have invariant : Invariant machine ∧ Filed machine ∧ holds machine.snapshot := by
    induction reached with
    | start started =>
        exact ⟨Initial.invariant started, Initial.filed started, initial _ started⟩
    | step prior allowed stepped ih =>
        obtain ⟨invariant, filed, held⟩ := ih
        have after := invariant.step stepped
        refine ⟨after, filed.step stepped, ?_⟩
        rcases step_snapshot invariant filed stepped with
          started | ⟨thread, choice, frame, rfl, running, step⟩
        · rw [started]
          exact spawned _ held
        · exact preserved _ frame _ invariant.sound after.sound held
            (known _ thread choice frame prior allowed running) step
  exact invariant.2.2

/-- The invariant rule for runs in which every call meets a condition on the state
before it executes. -/
theorem snapshot_invariant
    {permitted : (FutureId → Status α) → FutureId → Op α code.Callback → Prop}
    (holds : Snapshot code → Prop)
    (initial : ∀ machine : Machine code, machine.Initial → holds machine.snapshot)
    (spawned : ∀ snapshot, holds snapshot →
      holds { snapshot with bodies := code.main ::ₘ snapshot.bodies })
    (preserved : ∀ before frame after, Snapshot.Sound before → Snapshot.Sound after →
      holds before →
      (∀ future op, frame = .enter future op → permitted before.status future op) →
      before.Step frame after → holds after)
    (reached : (futures code).Reaches (Meets permitted) machine) :
    holds machine.snapshot := by
  refine snapshot_invariant_of _ ?_ holds initial spawned preserved reached
  rintro machine thread choice frame - meets running future op rfl
  rw [Meets, running] at meets
  exact meets

end Machine

end Libprocess
