import Libprocess.Future.Client
import Libprocess.Future.RecoverMoves

/-!
# The invariant of recover

The invariant has four parts.  `Counted` balances the invocations of the two
lambdas against the frames on their way to the callable.  `Placed` says on which
future and for which event each callback is registered.  `Resolved` says that the
recovered future is completed only by what the callable returned or, when the
source became ready, by the source.  `Delivered` says that what the callable
returned is not lost.

All of it rests on one condition: nothing completes the source while its
`abandoned` flag is set, except that it may still become ready once the promise of
the recovered future has been completed or associated.
-/

namespace Libprocess

variable {α : Type} {source recovered : FutureId}

abbrev RecoverSnapshot (α : Type) (source recovered : FutureId) :=
  Snapshot (recovery α source recovered)

open Snapshot (Entered Ran)

namespace Recover

/-- The registrations of one of the two lambdas. -/
def lambda (callback : RecoverCallback) (registration : Registration RecoverCallback) : Bool :=
  registration.callback = callback

/-- How many frames of one kind there are. -/
def frames (selected : RecoverBody α → Bool) (bodies : Multiset (RecoverBody α)) : Nat :=
  bodies.countP fun frame => selected frame = true

/-- How many calls are about to register a callback. -/
def registering (source : FutureId) (kind : CallbackKind) (callback : RecoverCallback)
    (calls : Multiset (FutureId × Op α RecoverCallback)) : Nat :=
  calls.countP fun call => (decide (call.1 = source) && call.2.registers kind callback) = true

@[simp] theorem frames_cons (selected : RecoverBody α → Bool) (frame : RecoverBody α)
    (bodies : Multiset (RecoverBody α)) :
    frames selected (frame ::ₘ bodies) = frames selected bodies + (selected frame).toNat := by
  simp only [frames, Multiset.countP_cons]
  cases selected frame <;> rfl

@[simp] theorem registering_cons (source : FutureId) (kind : CallbackKind)
    (callback : RecoverCallback) (future : FutureId) (op : Op α RecoverCallback)
    (calls : Multiset (FutureId × Op α RecoverCallback)) :
    registering source kind callback ((future, op) ::ₘ calls) =
      registering source kind callback calls +
        (decide (future = source) && op.registers kind callback).toNat := by
  simp only [registering, Multiset.countP_cons]
  cases decide (future = source) && op.registers kind callback <;> rfl

theorem frames_add (selected : RecoverBody α → Bool) (entered : List (RecoverBody α))
    (bodies : Multiset (RecoverBody α)) :
    frames selected (↑entered + bodies) =
      (entered.map fun frame => (selected frame).toNat).sum + frames selected bodies := by
  induction entered with
  | nil => simp
  | cons frame entered ih =>
      rw [← Multiset.cons_coe, Multiset.cons_add, frames_cons, ih]
      simp only [List.map_cons, List.sum_cons]
      omega

theorem registering_add (source : FutureId) (kind : CallbackKind) (callback : RecoverCallback)
    (made : List (FutureId × Op α RecoverCallback))
    (calls : Multiset (FutureId × Op α RecoverCallback)) :
    registering source kind callback
        ((↑made : Multiset (FutureId × Op α RecoverCallback)) + calls) =
      (made.map fun call =>
        (decide (call.1 = source) && call.2.registers kind callback).toNat).sum +
        registering source kind callback calls := by
  induction made with
  | nil => simp
  | cons call made ih =>
      rw [← Multiset.cons_coe, Multiset.cons_add, registering_cons, ih]
      simp only [List.map_cons, List.sum_cons]
      omega

/-- Invocations of the lambdas, frames on their way to the callable, and calls. -/
structure Counted (snapshot : RecoverSnapshot α source recovered) : Prop where
  any : registering source .onAny .onAny snapshot.calls +
    snapshot.registrations source .onAny (lambda .onAny) = snapshot.env.called.toNat
  abandoned : registering source .onAbandoned .onAbandoned snapshot.calls +
    snapshot.registrations source .onAbandoned (lambda .onAbandoned) =
      snapshot.env.called.toNat
  entries : frames RecoverBody.entry snapshot.bodies ≤
    snapshot.invoked source .onAny (lambda .onAny)
  balance : frames RecoverBody.committed snapshot.bodies + snapshot.env.calls +
      (if (snapshot.status source).recovers then frames RecoverBody.entry snapshot.bodies else 0) =
    snapshot.invoked source .onAbandoned (lambda .onAbandoned) +
      (if (snapshot.status source).recovers then
        snapshot.invoked source .onAny (lambda .onAny) else 0)
  yields : frames RecoverBody.running snapshot.bodies + snapshot.env.returned.length =
    snapshot.env.calls
structure Placed (snapshot : RecoverSnapshot α source recovered) : Prop where
  registered : ∀ entry ∈ snapshot.registered,
    Place source snapshot.env.target entry.1 entry.2.1 entry.2.2.callback
  calls : ∀ future kind callback, (future, .on kind callback) ∈ snapshot.calls →
    Place source snapshot.env.target future kind callback

/-- The completions of the source that the code is written for: none while the
`abandoned` flag is set, except that the source may become ready once the promise of
the recovered future has been completed or associated. -/
def Guarded (source recovered : FutureId) (status : FutureId → Status α) (future : FutureId)
    (op : Op α RecoverCallback) : Prop :=
  future = source → op.completes = true → (status source).state = .pending →
    (status source).abandoned = true →
    op.readies = true ∧
      ((status recovered).state ≠ .pending ∨ (status recovered).associated = true)

instance guarded_decidable (status : FutureId → Status α) (future : FutureId)
    (op : Op α RecoverCallback) : Decidable (Guarded source recovered status future op) :=
  inferInstanceAs (Decidable (_ → _ → _ → _ → _ ∧ _))

/-- A completion of the recovered future has one of two origins: a value returned by
the callable, or the future that its promise is associated with. -/
def Justified (snapshot : RecoverSnapshot α source recovered) (op : Op α RecoverCallback) :
    Prop :=
  (snapshot.env.target = none ∧ ∃ value, op = .set value ∧ .value value ∈ snapshot.env.returned) ∨
    ∃ future, snapshot.env.target = some future ∧ (snapshot.status future).Settles op

structure Resolved (snapshot : RecoverSnapshot α source recovered) : Prop where
  associated : (snapshot.status recovered).associated = snapshot.env.target.isSome
  sets : ∀ value, .set value ∈ snapshot.bodies → .value value ∈ snapshot.env.returned
  associates : ∀ future, .associate future ∈ snapshot.bodies →
    .future future ∈ snapshot.env.returned ∨
      future = source ∧ (snapshot.status source).state = .ready
  calls : ∀ op, (recovered, op) ∈ snapshot.calls → op.completes = true →
    Justified snapshot op
  forwards : ∀ callback argument op, .bound callback argument ∈ snapshot.bodies →
    bound recovered callback argument = some (recovered, op) → op.completes = true →
    ∃ future, snapshot.env.target = some future ∧ (snapshot.status future).Settles op
  completed : (snapshot.status recovered).state ≠ .pending →
    ∃ op, (snapshot.status recovered).Settles op ∧ Justified snapshot op
  target : ∀ future, snapshot.env.target = some future →
    .future future ∈ snapshot.env.returned ∨
      future = source ∧ (snapshot.status source).state = .ready ∧
        (snapshot.status source).abandoned = false
  guarded : (snapshot.status source).abandoned = true →
    (snapshot.status source).state ≠ .pending →
    (snapshot.status source).state = .ready ∧
      ((snapshot.status recovered).state ≠ .pending ∨
        (snapshot.status recovered).associated = true)
/-- A completion of the recovered future is on its way or has happened. -/
def Arriving (snapshot : RecoverSnapshot α source recovered) : Prop :=
  (∃ callback argument op, .bound callback argument ∈ snapshot.bodies ∧
      bound recovered callback argument = some (recovered, op) ∧ op.completes = true) ∨
    (∃ op, (recovered, op) ∈ snapshot.calls ∧ op.completes = true) ∨
    (snapshot.status recovered).state ≠ .pending

structure Delivered (snapshot : RecoverSnapshot α source recovered) : Prop where
  value : ∀ value, .value value ∈ snapshot.env.returned →
    .set value ∈ snapshot.bodies ∨ (recovered, .set value) ∈ snapshot.calls ∨
      (snapshot.status recovered).state ≠ .pending
  future : ∀ future, .future future ∈ snapshot.env.returned →
    .associate future ∈ snapshot.bodies ∨ snapshot.env.target = some future
  mirrored : ∀ future, snapshot.env.target = some future → ∀ kind callback,
    mirror kind = some callback →
    (future, .on kind callback) ∈ snapshot.calls ∨
      ∃ ticket, (future, kind, ⟨ticket, callback⟩) ∈ snapshot.registered
  forwarded : ∀ invocation ∈ snapshot.log,
    mirror invocation.kind = some invocation.registration.callback → Arriving snapshot
/-! ## At most one call -/

section AtMostOnce

variable {snapshot : RecoverSnapshot α source recovered}

/-- The `onAbandoned` lambda has not run if the source failed or was discarded. -/
theorem lambdas_le_one (counted : Counted snapshot) (resolved : Resolved snapshot)
    (sound : snapshot.Sound) :
    snapshot.invoked source .onAbandoned (lambda .onAbandoned) +
      (if (snapshot.status source).recovers then
        snapshot.invoked source .onAny (lambda .onAny) else 0) ≤ 1 := by
  have onAny := sound.atMost source .onAny (lambda .onAny) (by simp)
  have onAbandoned := sound.atMost source .onAbandoned (lambda .onAbandoned) (by simp)
  have any := counted.any
  have abandoned := counted.abandoned
  have bound := Bool.toNat_le snapshot.env.called
  split
  next recovers =>
    have intact : (snapshot.status source).abandoned = false := by
      by_contra lost
      have guarded := resolved.guarded (by simpa using lost)
      simp only [Status.recovers, decide_eq_true_eq] at recovers
      rcases recovers with state | state <;> simp [state] at guarded
    have silent := sound.unfired source .onAbandoned (lambda .onAbandoned) (by simp) intact
    omega
  next => omega

theorem calls_le_one (counted : Counted snapshot) (resolved : Resolved snapshot)
    (sound : snapshot.Sound) : snapshot.env.calls ≤ 1 := by
  have balance := counted.balance
  have atMost := lambdas_le_one counted resolved sound
  omega

/-- The callable returns once. -/
theorem returned_unique (counted : Counted snapshot) (resolved : Resolved snapshot)
    (sound : snapshot.Sound) {one other : Recovery α} (first : one ∈ snapshot.env.returned)
    (second : other ∈ snapshot.env.returned) : one = other := by
  have yields := counted.yields
  have atMost := calls_le_one counted resolved sound
  match returned : snapshot.env.returned with
  | [] => simp [returned] at first
  | [only] =>
      simp only [returned, List.mem_singleton] at first second
      rw [first, second]
  | _ :: _ :: _ =>
      simp only [returned, List.length_cons] at yields
      omega

/-- A source that became ready without being abandoned never needs the callable. -/
theorem returned_ready (counted : Counted snapshot) (sound : snapshot.Sound)
    (ready : (snapshot.status source).state = .ready)
    (intact : (snapshot.status source).abandoned = false) : snapshot.env.returned = [] := by
  have silent := sound.unfired source .onAbandoned (lambda .onAbandoned) (by simp) intact
  have balance := counted.balance
  have yields := counted.yields
  simp only [Status.recovers, ready, reduceCtorEq, or_self, decide_false, Bool.false_eq_true,
    if_false] at balance
  exact List.eq_nil_of_length_eq_zero (by omega)

end AtMostOnce

/-! ## Counting -/

section Invoked

variable {future : FutureId} {kind : CallbackKind} {callback : RecoverCallback}

@[simp] theorem entry_invoke (argument : Argument α) :
    (Recover.invoke future argument callback).entry = decide (callback = .onAny) := by
  cases callback <;> rfl

@[simp] theorem committed_invoke (argument : Argument α) :
    (Recover.invoke future argument callback).committed = decide (callback = .onAbandoned) := by
  cases callback <;> rfl

@[simp] theorem running_invoke (argument : Argument α) :
    (Recover.invoke future argument callback).running = false := by
  cases callback <;> rfl

theorem Place.any {target : Option FutureId} (place : Place source target future kind callback) :
    (decide (future = source ∧ kind = .onAny) && decide (callback = .onAny)) =
      decide (callback = .onAny) := by
  cases callback <;> simp_all [Place]

theorem Place.abandoned {target : Option FutureId}
    (place : Place source target future kind callback) :
    (decide (future = source ∧ kind = .onAbandoned) && decide (callback = .onAbandoned)) =
      decide (callback = .onAbandoned) := by
  cases callback <;> simp_all [Place]

end Invoked

section Steps

variable {before after : RecoverSnapshot α source recovered}

/-- A snapshot before and after a step of the code. -/
structure Executed (before after : RecoverSnapshot α source recovered) (frame : RecoverBody α)
    (rest : Multiset (RecoverBody α)) (made : List (FutureId × Op α RecoverCallback))
    (entered : List (RecoverBody α)) : Prop where
  moves : Moves source recovered before.status before.env frame after.env
    (after.status recovered).associated made entered
  running : before.bodies = frame ::ₘ rest
  bodies : after.bodies = ↑entered + rest
  calls : after.calls = ↑made + before.calls
  registered : after.registered = before.registered
  log : after.log = before.log
  status : ∀ future, (after.status future).state = (before.status future).state ∧
    (after.status future).result = (before.status future).result ∧
    (after.status future).abandoned = (before.status future).abandoned

theorem step_cases {frame : (recovery α source recovered).Frame}
    (step : before.Step frame after) :
    after = before ∨
      (∃ future op, frame = .enter future op ∧ Entered before after future op) ∨
      (∃ future kind registration, Ran before after future kind registration) ∨
      ∃ frame rest made entered, Executed before after frame rest made entered := by
  rcases step.cases with same | called | ran |
    ⟨body, rest, choice, effect, -, running, moved, rfl⟩
  · exact .inl same
  · exact .inr (.inl called)
  · exact .inr (.inr (.inl ran))
  · exact .inr (.inr (.inr ⟨body, rest, _, _, step_moves moved, running, rfl, rfl, rfl, rfl,
      fun _ => ⟨rfl, rfl, rfl⟩⟩))

/-! ### Counting -/

theorem Counted.ran {future : FutureId} {kind : CallbackKind}
    {registration : Registration RecoverCallback} (counted : Counted before)
    (placed : Placed before) (ran : Ran before after future kind registration) :
    Counted after := by
  have place := placed.registered _ ran.filed
  obtain ⟨-, -, bodies, log, status, env, registered, calls⟩ := ran
  obtain ⟨any, abandoned, entries, balance, yields⟩ := counted
  have onAny := Snapshot.invoked_of_log log source .onAny (lambda .onAny)
  have onAbandoned := Snapshot.invoked_of_log log source .onAbandoned (lambda .onAbandoned)
  simp only [lambda, place.any] at onAny
  simp only [lambda, place.abandoned] at onAbandoned
  constructor
  · simpa only [calls, env, Snapshot.registrations, registered] using any
  · simpa only [calls, env, Snapshot.registrations, registered] using abandoned
  · simp only [bodies, frames_cons, entry_invoke, onAny]
    omega
  · simp only [bodies, frames_cons, entry_invoke, committed_invoke, env, status, onAny,
      onAbandoned]
    split_ifs at balance ⊢ <;> omega
  · simp only [bodies, frames_cons, running_invoke, env]
    exact yields

/-- A call that is about to register a callback turns into a registration. -/
theorem filed_registrations {future : FutureId} {op : Op α RecoverCallback} {ticket : Nat}
    (filed : after.registered = before.filed future ticket op) (kind : CallbackKind)
    (callback : RecoverCallback) :
    after.registrations source kind (lambda callback) =
      before.registrations source kind (lambda callback) +
        (decide (future = source) && op.registers kind callback).toNat := by
  cases op with
  | on current registered =>
      rw [Snapshot.registrations_of_filed filed]
      congr 2
      simp [Op.registers, lambda, Bool.and_assoc]
  | set | fail | discarded | discard | abandon =>
      have same : after.registered = before.registered := filed
      simp [Snapshot.registrations, same, Op.registers]

theorem invoked_congr (log : after.log = before.log) (kind : CallbackKind)
    (callback : RecoverCallback) :
    after.invoked source kind (lambda callback) =
      before.invoked source kind (lambda callback) := by
  simp [Snapshot.invoked, log]

theorem Counted.entered {future : FutureId} {op : Op α RecoverCallback}
    (counted : Counted before) (sound : before.Sound)
    (entered : Entered before after future op) : Counted after := by
  have later := entered.later source
  obtain ⟨calls, ⟨ticket, filed⟩, -, env, log, bodies⟩ := entered
  obtain ⟨any, abandoned, entries, balance, yields⟩ := counted
  rw [calls, registering_cons] at any abandoned
  constructor
  · rw [filed_registrations filed, env]
    omega
  · rw [filed_registrations filed, env]
    omega
  · rw [bodies, invoked_congr log]
    exact entries
  · rw [bodies, env, invoked_congr log, invoked_congr log]
    by_cases pending : (before.status source).state = .pending
    · have silent := sound.unfired source .onAny (lambda .onAny) (by simp)
        (by simp [Status.fires, pending])
      split_ifs at balance ⊢ <;> omega
    · have same : (after.status source).recovers = (before.status source).recovers := by
        simp [Status.recovers, (later.completed pending).1]
      rw [same]
      exact balance
  · rw [bodies, env]
    exact yields

theorem Counted.executed {frame : RecoverBody α} {rest : Multiset (RecoverBody α)}
    {made : List (FutureId × Op α RecoverCallback)} {entered : List (RecoverBody α)}
    (counted : Counted before) (executed : Executed before after frame rest made entered) :
    Counted after := by
  obtain ⟨moves, running, bodies, calls, registered, log, status⟩ := executed
  obtain ⟨any, abandoned, entries, balance, yields⟩ := counted
  have recovers : (after.status source).recovers = (before.status source).recovers := by
    simp [Status.recovers, (status source).1]
  have filed : ∀ kind selected, after.registrations source kind selected =
      before.registrations source kind selected := by
    simp [Snapshot.registrations, registered]
  have onAny := moves.registers (.inl ⟨rfl, rfl⟩)
  have onAbandoned := moves.registers (.inr ⟨rfl, rfl⟩)
  have steps := moves.frames
  simp only [running, frames_cons] at entries balance yields
  constructor
  · rw [calls, registering_add, filed]
    omega
  · rw [calls, registering_add, filed]
    omega
  · rw [bodies, frames_add, invoked_congr log]
    omega
  · rw [bodies, frames_add, frames_add, recovers, invoked_congr log, invoked_congr log]
    cases counts : (before.status source).recovers <;>
      simp [counts] at balance steps ⊢ <;> omega
  · rw [bodies, frames_add]
    omega

/-! ### Registrations -/

theorem Place.target {target next : Option FutureId} {future : FutureId} {kind : CallbackKind}
    {callback : RecoverCallback} (place : Place source target future kind callback)
    (kept : next = target ∨ target = none) : Place source next future kind callback := by
  rcases kept with rfl | none
  · exact place
  · cases callback <;> simp_all [Place]
/-- The promise is associated at most once. -/
theorem Executed.target {frame : RecoverBody α} {rest : Multiset (RecoverBody α)}
    {made : List (FutureId × Op α RecoverCallback)} {entered : List (RecoverBody α)}
    (executed : Executed before after frame rest made entered) (resolved : Resolved before) :
    after.env.target = before.env.target ∨ before.env.target = none := by
  rcases executed.moves.association with ⟨target, -⟩ | ⟨future, -, -, -, unassociated, -, -⟩
  · exact .inl target
  · right
    have same := resolved.associated
    rw [unassociated] at same
    simpa using same.symm

theorem Placed.ran {future : FutureId} {kind : CallbackKind}
    {registration : Registration RecoverCallback} (placed : Placed before)
    (ran : Ran before after future kind registration) : Placed after where
  registered := by
    rw [ran.registered, ran.env]
    exact placed.registered
  calls := by
    rw [ran.calls, ran.env]
    exact placed.calls

theorem Placed.entered {future : FutureId} {op : Op α RecoverCallback} (placed : Placed before)
    (entered : Entered before after future op) : Placed after where
  registered := by
    obtain ⟨calls, ⟨ticket, filed⟩, -, env, -, -⟩ := entered
    rw [filed, env]
    cases op with
    | on kind callback =>
        intro entry member
        rcases List.mem_cons.mp member with rfl | earlier
        · exact placed.calls future kind callback (by rw [calls]; simp)
        · exact placed.registered entry earlier
    | set | fail | discarded | discard | abandon => exact placed.registered
  calls := by
    rw [entered.env]
    intro other kind callback member
    refine placed.calls other kind callback ?_
    rw [entered.calls]
    exact Multiset.mem_cons_of_mem member

theorem Placed.executed {frame : RecoverBody α} {rest : Multiset (RecoverBody α)}
    {made : List (FutureId × Op α RecoverCallback)} {entered : List (RecoverBody α)}
    (placed : Placed before) (resolved : Resolved before)
    (executed : Executed before after frame rest made entered) : Placed after where
  registered := by
    rw [executed.registered]
    intro entry member
    exact (placed.registered entry member).target
      (executed.target resolved)
  calls := by
    rw [executed.calls]
    intro future kind callback member
    rcases Multiset.mem_add.mp member with new | earlier
    · exact executed.moves.place new
    · exact (placed.calls future kind callback earlier).target
        (executed.target resolved)
end Steps

end Recover

end Libprocess
