import Libprocess.Future.RecoverResolved

/-!
# The callable of recover is invoked once

The contract of `recover`: its callable is invoked at most once, and exactly once for
a source that fails, is discarded or is abandoned, whose recovered future then takes
what the callable returned.  It holds in every run that completes no abandoned
source, and fails for `Future::failed`.
-/

namespace Libprocess

open Concurrency

variable {α : Type} {source recovered : FutureId}

instance meets_guarded_decidable (machine : Machine (recovery α source recovered))
    (move : Move (recovery α source recovered)) :
    Decidable (machine.Meets (Recover.Guarded source recovered) move) :=
  Machine.meets_decidable machine move

/-! ## The contract -/

section Contract

variable (machine : Machine (recovery α source recovered))

/-- No function of the two futures and no code of `recover` is being executed. -/
def Machine.Idle : Prop :=
  machine.Quiescent source ∧ machine.Quiescent recovered ∧
    ∀ frame, .body frame ∈ machine.threads.frames → frame = .other

/-- The recovered future holds the value that the callable returned, or what the
future holds that it returned. -/
def Machine.Takes : Recovery α → Prop
  | .value value =>
      (machine.memory.data recovered).state = .ready ∧
        (machine.memory.data recovered).result = .some value
  | .future future =>
      machine.Quiescent future →
        (machine.memory.data recovered).state = (machine.memory.data future).state ∧
          (machine.memory.data recovered).result = (machine.memory.data future).result

/-- The contract of `recover` in one state of a run. -/
structure Machine.Recovered : Prop where
  atMostOnce : machine.memory.env.calls ≤ 1
  exactlyOnce : machine.Idle → machine.memory.env.called = true →
    ((machine.memory.data source).state = .failed ∨
      (machine.memory.data source).state = .discarded ∨
      (machine.memory.data source).abandoned = true) →
    machine.memory.env.calls = 1 ∧
      ∃ recovery, machine.memory.env.returned = [recovery] ∧ machine.Takes recovery

variable {machine}

namespace Machine.Idle

open Recover

section

variable (idle : machine.Idle)

include idle

theorem frames_eq_zero (selected : RecoverBody α → Bool)
    (skips : selected .other = false) : frames selected machine.snapshot.bodies = 0 := by
  refine Multiset.countP_eq_zero.mpr fun frame member chosen => ?_
  rw [idle.2.2 _ (mem_frames_of_body member), skips] at chosen
  simp at chosen

theorem no_body {frame : RecoverBody α}
    (member : frame ∈ machine.snapshot.bodies) : frame = .other :=
  idle.2.2 _ (mem_frames_of_body member)

theorem registering_eq_zero (kind : CallbackKind)
    (callback : RecoverCallback) : registering source kind callback machine.snapshot.calls = 0 := by
  refine Multiset.countP_eq_zero.mpr fun call member chosen => ?_
  simp only [Bool.and_eq_true, decide_eq_true_eq] at chosen
  obtain ⟨future, op⟩ := call
  obtain ⟨rfl, -⟩ := chosen
  exact idle.1.no_call op member

/-- In an idle state the callable has been called for a source that needs it. -/
theorem calls_eq_one (futures : machine.Invariant)
    (invariant : Recover.Invariant machine.snapshot)
    (called : machine.memory.env.called = true)
    (needed : (machine.memory.data source).state = .failed ∨
      (machine.memory.data source).state = .discarded ∨
      (machine.memory.data source).abandoned = true) :
    machine.snapshot.env.calls = 1 ∧ machine.snapshot.env.returned.length = 1 := by
  obtain ⟨any, abandoned, -, balance, yields⟩ := invariant.counted
  have atMost := calls_le_one invariant.counted invariant.resolved futures.sound
  have recoverCalled : machine.snapshot.env.called = true := called
  rw [idle.registering_eq_zero, recoverCalled] at any abandoned
  rw [idle.frames_eq_zero RecoverBody.committed rfl, idle.frames_eq_zero RecoverBody.entry rfl]
    at balance
  rw [idle.frames_eq_zero RecoverBody.running rfl] at yields
  simp only [Bool.toNat_true, Nat.zero_add] at any abandoned
  suffices positive : 0 < machine.snapshot.env.calls by omega
  by_cases recovers : (machine.snapshot.status source).recovers = true
  · have completed : (machine.memory.data source).state ≠ .pending := by
      intro pending
      simp [Status.recovers, pending] at recovers
    have fires := futures.invoked_of_fires idle.1 .onAny (by simp)
      (by simp [Status.fires, completed]) (lambda .onAny)
    rw [if_pos recovers, if_pos recovers] at balance
    omega
  · have lost : (machine.memory.data source).abandoned = true := by
      have neither : ¬ (machine.memory.data source).state = .failed ∧
          ¬ (machine.memory.data source).state = .discarded := by
        rw [snapshot_status] at recovers
        simpa [Status.recovers] using recovers
      exact (needed.resolve_left neither.1).resolve_left neither.2
    have fires := futures.invoked_of_fires idle.1 .onAbandoned (by simp)
      (by simp [Status.fires, lost]) (lambda .onAbandoned)
    rw [if_neg recovers, if_neg recovers] at balance
    omega

/-- A returned value is stored. -/
theorem takes_value (futures : machine.Invariant)
    (invariant : Recover.Invariant machine.snapshot) {value : α}
    (returned : .value value ∈ machine.snapshot.env.returned) :
    machine.Takes (.value value) := by
  obtain ⟨counted, -, resolved, delivered⟩ := invariant
  have completed : (machine.snapshot.status recovered).state ≠ .pending := by
    rcases delivered.value value returned with running | called | completed
    · simpa using idle.no_body running
    · exact absurd called (idle.2.1.no_call _)
    · exact completed
  obtain ⟨op, settles, ⟨-, stored, rfl, member⟩ | ⟨future, target, -⟩⟩ :=
    resolved.completed completed
  · have same := returned_unique counted resolved futures.sound returned member
    simp only [Recovery.value.injEq] at same
    rw [same]
    exact settles
  · have unassociated := resolved.unassociated counted futures.sound returned
    rw [resolved.associated, target] at unassociated
    simp at unassociated

/-- A returned future is mirrored. -/
theorem takes_future (futures : machine.Invariant)
    (invariant : Recover.Invariant machine.snapshot) {future : FutureId}
    (returned : .future future ∈ machine.snapshot.env.returned) :
    machine.Takes (.future future) := by
  intro quiescent
  obtain ⟨counted, -, resolved, delivered⟩ := invariant
  have target : machine.snapshot.env.target = some future := by
    rcases delivered.future future returned with running | target
    · simpa using idle.no_body running
    · exact target
  have mirrored : (machine.snapshot.status recovered).state ≠ .pending →
      (machine.memory.data recovered).state = (machine.memory.data future).state ∧
        (machine.memory.data recovered).result = (machine.memory.data future).result := by
    intro completed
    obtain ⟨op, settles, ⟨none, -⟩ | ⟨other, associated, source⟩⟩ := resolved.completed completed
    · simp [target] at none
    · rw [target] at associated
      cases associated
      exact settles.agree source (futures.sound.result recovered) (futures.sound.result future)
  by_cases pending : (machine.memory.data future).state = .pending
  · by_cases completed : (machine.memory.data recovered).state = .pending
    · have left := futures.sound.result recovered
      have right := futures.sound.result future
      simp only [snapshot_status, completed, pending, Result.Fits] at left right
      exact ⟨completed.trans pending.symm, left.trans right.symm⟩
    · exact mirrored completed
  · refine mirrored ?_
    obtain ⟨kind, callback, mirrors, fires⟩ : ∃ kind callback, mirror kind = some callback ∧
        (machine.memory.data future).fires kind = true := by
      cases state : (machine.memory.data future).state with
      | pending => exact absurd state pending
      | ready => exact ⟨.onReady, .set, rfl, by simp [Status.fires, state]⟩
      | failed => exact ⟨.onFailed, .fail, rfl, by simp [Status.fires, state]⟩
      | discarded => exact ⟨.onDiscarded, .discarded, rfl, by simp [Status.fires, state]⟩
    rcases delivered.mirrored future target kind callback mirrors with called | ⟨ticket, filed⟩
    · exact absurd called (quiescent.no_call _)
    · have invoked := futures.invoked_of_fires quiescent kind
        (fun untracked => absurd untracked (mirror_tracked mirrors)) fires (lambda callback)
      have positive : 0 < machine.snapshot.invoked future kind (lambda callback) := by
        rw [invoked]
        exact List.countP_pos_iff.mpr ⟨_, filed, by simp [lambda]⟩
      obtain ⟨invocation, member, selected⟩ := List.countP_pos_iff.mp positive
      simp only [lambda, decide_eq_true_eq, Bool.decide_and, Bool.and_eq_true] at selected
      obtain ⟨-, rfl, rfl⟩ := selected
      rcases delivered.forwarded invocation member mirrors with
        ⟨_, _, _, running, -⟩ | ⟨op, called, -⟩ | completed
      · simpa using idle.no_body running
      · exact absurd called (idle.2.1.no_call op)
      · exact completed

end

end Machine.Idle

/-- The callable is invoked at most once, and exactly once for a source that fails,
is discarded or is abandoned, in every run in which nothing completes the source
while it is abandoned. -/
theorem recover_once_of_guarded (reached : (futures (recovery α source recovered)).Reaches
      (Machine.Meets (Recover.Guarded source recovered)) machine) : machine.Recovered := by
  have futures := Machine.Invariant.of_reachable reached.reachable
  have invariant := Recover.Invariant.of_reaches reached
  refine ⟨Recover.calls_le_one invariant.counted invariant.resolved futures.sound, ?_⟩
  intro idle called needed
  obtain ⟨calls, length⟩ := idle.calls_eq_one futures invariant called needed
  obtain ⟨recovery, returned⟩ := List.length_eq_one_iff.mp length
  refine ⟨calls, recovery, returned, ?_⟩
  cases recovery with
  | value value => exact idle.takes_value futures invariant (by simp [returned])
  | future future => exact idle.takes_future futures invariant (by simp [returned])

end Contract

/-- One thread calls `recover`, another fails the source, and the callable returns a
value. -/
def failingSchedule : List (Move (recovery Nat 0 1)) :=
  List.flatten [[.spawn, .advance 0 .recover], List.replicate 3 (.advance 0 .finish),
    [.spawn, .advance 1 (.call 0 (.fail "lost"))], List.replicate 6 (.advance 1 .finish),
    [.advance 1 (.yield (.value 7))], List.replicate 7 (.advance 1 .finish)]

theorem recover_once_of_guarded_failing : ∃ machine,
    (futures (recovery Nat 0 1)).run (Machine.new _ fun _ => false) failingSchedule =
        some machine ∧
      machine.Recovered ∧
      machine.threads.map (·.map Frame.body?) = [[some .other], [some .other]] ∧
      machine.memory.env.calls = 1 ∧ (machine.memory.data 0).state = .failed ∧
      (machine.memory.data 1).result = .some 7 := by
  obtain ⟨machine, executed, observed⟩ : ∃ machine ∈ (futures (recovery Nat 0 1)).run
      (Machine.new _ fun _ => false) failingSchedule,
      machine.threads.map (·.map Frame.body?) = [[some .other], [some .other]] ∧
      machine.memory.env.calls = 1 ∧ (machine.memory.data 0).state = .failed ∧
      (machine.memory.data 1).result = .some 7 := by
    decide
  have guarded : (futures (recovery Nat 0 1)).Along (Machine.Meets (Recover.Guarded 0 1))
      (Machine.new _ fun _ => false) failingSchedule := by decide
  exact ⟨machine, executed,
    recover_once_of_guarded
      (.of_along (.start (Machine.new_initial _ fun _ => false)) guarded executed), observed⟩

/-- `Future<T>::failed(message).recover(f)`: the source is default-constructed, so its
`abandoned` flag is set when it fails, and both lambdas run. -/
def failedSchedule : List (Move (recovery Nat 0 1)) :=
  List.flatten [[.spawn, .advance 0 (.call 0 (.fail "lost"))],
    List.replicate 4 (.advance 0 .finish), [.advance 0 .recover],
    List.replicate 5 (.advance 0 .finish), [.advance 0 (.yield (.value 7))],
    List.replicate 9 (.advance 0 .finish)]

theorem recover_not_once : ∃ machine,
    (futures (recovery Nat 0 1)).run (Machine.new _ fun future => future = 0) failedSchedule =
        some machine ∧
      machine.memory.env.calls = 2 ∧ ¬ machine.Recovered := by
  obtain ⟨machine, executed, calls⟩ : ∃ machine ∈ (futures (recovery Nat 0 1)).run
      (Machine.new _ fun future => future = 0) failedSchedule, machine.memory.env.calls = 2 := by
    decide
  refine ⟨machine, executed, calls, fun recovered => ?_⟩
  have atMost := recovered.atMostOnce
  omega

end Libprocess
