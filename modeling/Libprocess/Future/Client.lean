import Libprocess.Future.Snapshot
import Mathlib.Data.List.Perm.Subperm

/-!
# Reasoning about code over futures

A step of a snapshot executes the block of a call, invokes a registered callback, or
executes code of the client.  Each of the first two is described by the relation it
leaves between the snapshots before and after, with its consequences for futures,
calls and frames; these are the same for every client.
-/

namespace Libprocess

variable {α : Type} {code : Code α}

/-- Calls that need no promise; destroying the promise abandons its future. -/
def Op.open {Callback : Type} : Op α Callback → Bool
  | .discard => true
  | .abandon propagating => !propagating
  | .on _ _ => true
  | .set _ | .fail _ | .discarded => false

/-- A call by code that registers no callbacks but `other`. -/
def Op.foreign {Callback : Type} (other : Callback) : Op α Unit → Op α Callback
  | .set value => .set value
  | .fail message => .fail message
  | .discarded => .discarded
  | .discard => .discard
  | .abandon propagating => .abandon propagating
  | .on kind _ => .on kind other

theorem Op.completes_foreign {Callback : Type} {op : Op α Unit} {other : Callback}
    (opened : op.open = true) : (op.foreign other).completes = false := by
  cases op <;> simp_all [Op.open, Op.foreign, Op.completes]

namespace Machine

variable {machine : Machine code}

/-- Every thread executes the code around. -/
def Resting (machine : Machine code) : Prop :=
  ∀ frame ∈ machine.threads.frames, frame = .body code.main

instance resting_decidable (machine : Machine code)
    [∀ frame : code.Body, Decidable (frame = code.main)] : Decidable machine.Resting :=
  decidable_of_iff
    (∀ frame ∈ machine.threads.frames, (frame.body?.any fun body => body = code.main) = true) <| by
      refine forall₂_congr fun frame _ => ?_
      cases frame <;> simp [Frame.body?]

theorem Resting.quiescent (resting : machine.Resting) (future : FutureId) :
    machine.Quiescent future := by
  intro frame member
  rw [resting frame member]
  simp [Frame.subject]

theorem Resting.body (resting : machine.Resting) {frame : code.Body}
    (member : frame ∈ machine.snapshot.bodies) : frame = code.main :=
  Frame.body.inj (resting _ (mem_frames_of_body member))

end Machine

/-- One step of the code around, and so many steps of what it called. -/
def Code.perform (finish : code.Choice) (thread : Nat) (choice : code.Choice) (steps : Nat) :
    List (Move code) :=
  .advance thread choice :: List.replicate steps (.advance thread finish)

/-- The registration that an invocation invokes. -/
def Invocation.entry {Callback : Type} (invocation : Invocation α Callback) :
    FutureId × CallbackKind × Registration Callback :=
  (invocation.future, invocation.kind, invocation.registration)

namespace Snapshot

variable {before after snapshot : Snapshot code}

/-- Every registration is invoked at most once. -/
theorem Sound.count_entry_le
    [DecidableEq (FutureId × CallbackKind × Registration code.Callback)] (sound : snapshot.Sound)
    {entry : FutureId × CallbackKind × Registration code.Callback}
    (tracked : entry.2.1 ≠ .onDiscard) :
    (snapshot.log.map Invocation.entry).count entry ≤ snapshot.registered.count entry := by
  obtain ⟨future, kind, registration⟩ := entry
  let same (other : Registration code.Callback) : Bool :=
    (future, kind, other) = (future, kind, registration)
  have atMost := sound.atMost future kind same (fun untracked => absurd untracked tracked)
  have invoked : (snapshot.log.map Invocation.entry).count (future, kind, registration) =
      snapshot.invoked future kind same := by
    rw [List.count, List.countP_map]
    refine List.countP_congr fun invocation _ => ?_
    simp [Invocation.entry, same]
  have registered : snapshot.registered.count (future, kind, registration) =
      snapshot.registrations future kind same := by
    refine List.countP_congr fun entry _ => ?_
    simp [Prod.ext_iff, same]
  rw [invoked, registered]
  exact atMost

/-- The invocations seen through a view are among the registrations seen through it. -/
theorem Sound.filterMap_le {β : Type} (sound : snapshot.Sound)
    (view : FutureId × CallbackKind × Registration code.Callback → Option β)
    (tracked : ∀ entry, (view entry).isSome → entry.2.1 ≠ .onDiscard) :
    (↑(snapshot.log.filterMap (view ∘ Invocation.entry)) : Multiset β) ≤
      ↑(snapshot.registered.filterMap view) := by
  classical
  let shown : Multiset _ := (↑(snapshot.log.map Invocation.entry) : Multiset _).filter
    fun entry => (view entry).isSome
  have among : shown ≤ ↑snapshot.registered := by
    refine Multiset.le_iff_count.mpr fun entry => ?_
    rw [Multiset.count_filter]
    split
    · rename_i visible
      rw [Multiset.coe_count, Multiset.coe_count]
      exact sound.count_entry_le (tracked entry visible)
    · exact Nat.zero_le _
  have same : shown.filterMap view = ↑(snapshot.log.filterMap (view ∘ Invocation.entry)) := by
    rw [Multiset.filterMap_filter, ← List.filterMap_map, ← Multiset.filterMap_coe]
    congr 1
    funext entry
    cases seen : view entry <;> simp
  rw [← same, ← Multiset.filterMap_coe]
  exact Multiset.filterMap_le_filterMap view among

/-- A snapshot before and after a call executes its block. -/
structure Entered (before after : Snapshot code) (future : FutureId)
    (op : Op α code.Callback) : Prop where
  calls : before.calls = (future, op) ::ₘ after.calls
  filed : ∃ ticket, after.registered = before.filed future ticket op
  status : after.status =
    Function.update before.status future ((before.status future).enter op)
  env : after.env = before.env
  log : after.log = before.log
  bodies : after.bodies = before.bodies

/-- A snapshot before and after a callback is invoked. -/
structure Ran (before after : Snapshot code) (future : FutureId) (kind : CallbackKind)
    (registration : Registration code.Callback) : Prop where
  filed : (future, kind, registration) ∈ before.registered
  fires : (kind = .onDiscard → code.Disciplined future) →
    (before.status future).fires kind = true
  bodies : after.bodies = code.invoke future
    (argument future kind (before.status future).result) registration.callback ::ₘ before.bodies
  log : after.log = ⟨future, kind, registration,
    argument future kind (before.status future).result⟩ :: before.log
  status : after.status = before.status
  env : after.env = before.env
  registered : after.registered = before.registered
  calls : after.calls = before.calls

/-- The snapshot after a step of the client. -/
def execute (before : Snapshot code) (rest : Multiset code.Body)
    (effect : Effect α code.Callback code.Body code.Env) : Snapshot code :=
  { before with
    status := fun future => { before.status future with toFlags := effect.flags future }
    env := effect.env
    calls := effect.calls + before.calls
    bodies := effect.bodies + rest }

theorem Step.cases {frame : code.Frame} (step : before.Step frame after) :
    after = before ∨
      (∃ future op, frame = .enter future op ∧ Entered before after future op) ∨
      (∃ future kind registration, Ran before after future kind registration) ∨
      ∃ body rest choice effect, frame = .body body ∧ before.bodies = body ::ₘ rest ∧
        code.step before.status before.env body choice = some effect ∧
        after = before.execute rest effect := by
  cases step with
  | stutter => exact .inl rfl
  | @call future op rest ticket called =>
      exact .inr (.inl ⟨future, op, rfl, called, ⟨ticket, rfl⟩, rfl, rfl, rfl, rfl⟩)
  | @invoke _ future kind registration registered fires =>
      exact .inr (.inr (.inl ⟨future, kind, registration, registered, fires, rfl, rfl, rfl, rfl,
        rfl, rfl⟩))
  | @body frame rest choice effect running moved =>
      exact .inr (.inr (.inr ⟨frame, rest, choice, effect, rfl, running, moved, rfl⟩))

namespace Entered

variable {future other : FutureId} {op called : Op α code.Callback}

section

variable (entered : Entered before after future op)

include entered

theorem later (other : FutureId) :
    (before.status other).Later (after.status other) := by
  rw [entered.status]
  by_cases same : other = future
  · subst same
    simpa using Status.later_enter (before.status other) op
  · rw [Function.update_of_ne same]
    exact ⟨fun _ => ⟨rfl, rfl, rfl⟩, id⟩

/-- A call completes only its own future. -/
theorem completes (pending : (before.status other).state = .pending)
    (completed : (after.status other).state ≠ .pending) :
    other = future ∧ op.completes = true ∧ (after.status other).Settles op ∧
      (after.status other).abandoned = (before.status other).abandoned := by
  rw [entered.status] at completed ⊢
  by_cases same : other = future
  · subst same
    rw [Function.update_self] at completed ⊢
    have completes : op.completes = true := by
      by_contra keeps
      rw [(Status.enter_of_open op (by simpa using keeps)).1] at completed
      exact completed pending
    obtain ⟨settles, abandoned⟩ := Status.enter_of_completes pending completes
    exact ⟨rfl, completes, settles, abandoned⟩
  · rw [Function.update_of_ne same] at completed
    exact absurd pending completed

/-- Only the destruction of its promise abandons a future. -/
theorem abandons (kept : (before.status other).abandoned ≠ true)
    (abandoned : (after.status other).abandoned = true) :
    other = future ∧ ∃ propagating, op = .abandon propagating ∧
      (before.status other).state = .pending := by
  rw [entered.status] at abandoned
  by_cases same : other = future
  · subst same
    rw [Function.update_self] at abandoned
    refine ⟨rfl, ?_⟩
    cases op with
    | abandon propagating =>
        simp only [Status.enter] at abandoned
        split at abandoned
        · rename_i takes
          exact ⟨propagating, rfl, takes.2.1⟩
        · exact absurd abandoned kept
    | set | fail | discarded | discard =>
        simp only [Status.enter] at abandoned
        split at abandoned <;> exact absurd abandoned kept
    | on => exact absurd abandoned kept
  · rw [Function.update_of_ne same] at abandoned
    exact absurd abandoned kept

theorem associated (other : FutureId) :
    (after.status other).associated = (before.status other).associated := by
  rw [entered.status]
  by_cases same : other = future
  · subst same
    simp
  · rw [Function.update_of_ne same]

/-- Every other call is still to be executed. -/
theorem remains (member : (other, called) ∈ before.calls) :
    other = future ∧ called = op ∨ (other, called) ∈ after.calls := by
  rw [entered.calls] at member
  simpa using Multiset.mem_cons.mp member

theorem keeps (completed : (before.status other).state ≠ .pending) :
    (after.status other).state ≠ .pending := by
  rw [((entered.later other).completed completed).1]
  exact completed

theorem completed (completes : op.completes = true) :
    (after.status future).state ≠ .pending := by
  by_cases pending : (before.status future).state = .pending
  · rw [entered.status, Function.update_self]
    exact (Status.enter_of_completes pending completes).1.not_pending
  · exact entered.keeps pending

end

end Entered

end Snapshot

end Libprocess
