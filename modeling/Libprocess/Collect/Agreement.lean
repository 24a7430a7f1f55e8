import Libprocess.Collect.Sheltered
import Libprocess.Collect.Soundness

/-!
# Two ways to collect

The variadic `collect` gives the wrappers of its futures to the `collect` of a vector, and its
result to `then`.  At the end the wrappers say what the futures say, except for those that are ready
although somebody has asked to discard them.  So the two ways agree, unless there is such a future,
or what is seen first decides, because one future was abandoned and another one failed.
-/

namespace Libprocess

variable {T : Type}

namespace Gather

/-- The future has failed or was discarded. -/
def Errs (status : Status (Value T)) : Prop := status.state = .failed ∨ status.state = .discarded

theorem Errs.completed {status : Status (Value T)} (errs : Errs status) :
    status.state ≠ .pending := by
  obtain failed | discarded := errs
  · simp [failed]
  · simp [discarded]

theorem fires_any {status : Status (Value T)} (completed : status.state ≠ .pending) :
    status.fires .onAny = true := by
  simpa [Status.fires] using completed

/-- What a process makes of its inputs, whatever it has seen first. -/
structure Verdict (status : Statuses T) (inputs : List FutureId) (here : Status (Value T)) :
    Prop where
  errs : (∃ future ∈ inputs, Errs (status future)) → here.state = .failed ∧ here.abandoned = false
  lost : (∀ future ∈ inputs, ¬ Errs (status future)) →
    (∃ future ∈ inputs, (status future).abandoned = true) →
    here.state = .pending ∧ here.abandoned = true
  ready : (∀ future ∈ inputs, (status future).state = .ready) →
    here.state = .ready ∧ here.abandoned = false
  waits : (∀ future ∈ inputs, ¬ Errs (status future) ∧ (status future).abandoned = false) →
    (∃ future ∈ inputs, (status future).state = .pending) →
    here.state = .pending ∧ here.abandoned = false

/-- What is seen first does not matter: no input was abandoned if one has failed or was discarded,
and those that were abandoned have not completed. -/
structure Unmixed (status : Statuses T) (inputs : List FutureId) : Prop where
  gone : ∀ future ∈ inputs, (status future).abandoned = true → (status future).state = .pending
  unmixed : (∃ future ∈ inputs, Errs (status future)) →
    ∀ future ∈ inputs, (status future).abandoned = false

section Verdict

variable {machine : Machine (gathering T)} {name future : FutureId} {process : GatherProcess T}

theorem Unmixed.not_lost (unmixed : Unmixed machine.snapshot.status process.inputs)
    (errs : ∃ future ∈ process.inputs, Errs (machine.snapshot.status future)) :
    ¬ Lost machine.snapshot.status process := by
  rintro ⟨future, input, abandoned⟩
  rw [unmixed.unmixed errs future input] at abandoned
  cases abandoned

/-- A future whose event has happened, and that has nothing left to do, has notified whoever
subscribed. -/
theorem mem_notified (invariant : machine.Invariant) {kind : CallbackKind}
    {callback : GatherCallback} (tracked : kind ≠ .onDiscard)
    (quiescent : machine.Quiescent future)
    (fires : (machine.snapshot.status future).fires kind = true)
    (member : future ∈ machine.snapshot.subscribed kind callback) :
    future ∈ machine.snapshot.notified kind callback := by
  rw [← Multiset.count_pos, invariant.notified_eq tracked callback quiescent fires]
  exact Multiset.count_pos.mpr member

section

variable (delivered : Delivered machine name process)

include delivered

/-- A promise that was not completed is not going to be. -/
theorem Delivered.undecided (tracked : Tracked machine.snapshot name process)
    (pending : (machine.snapshot.status name).state = .pending) : process.completions = [] := by
  cases decided : process.completions with
  | nil => rfl
  | cons completion rest =>
      have single : rest = [] := by
        have length := tracked.shaped.single
        rw [decided] at length
        exact List.eq_nil_of_length_eq_zero (by simpa using length)
      rw [single] at decided
      cases tracked.promises.decided completion decided with
      | inl waits => exact absurd waits (delivered.promise.no_call _)
      | inr completed => exact absurd pending completed

/-- The process of a vector fails as soon as one of its inputs has. -/
theorem Delivered.failed
    (invariant : machine.Invariant) (tracked : Tracked machine.snapshot name process)
    (collects : process.gathering = .collect) (running : process.terminated = false)
    (kept : ¬ Lost machine.snapshot.status process)
    (errs : ∃ future ∈ process.inputs, Errs (machine.snapshot.status future)) :
    (machine.snapshot.status name).state ≠ .pending := by
  intro pending
  obtain ⟨future, input, error⟩ := errs
  have undecided := delivered.undecided tracked pending
  cases delivered.stage with
  | inl blocked =>
      have subscribed : machine.snapshot.subscribed .onAny (.waited name) = ↑process.inputs := by
        rw [tracked.registers.waited, if_pos rfl, due, if_neg (by simp [blocked])]
      have heard : future ∈ process.heard := by
        rw [← Multiset.mem_coe, delivered.notified tracked blocked undecided]
        apply mem_notified invariant (by simp) (delivered.inputs future input)
          (fires_any error.completed)
        rw [subscribed]
        exact input
      have ready := (tracked.counted.heard future heard).2 collects
      obtain failed | discarded := error
      · cases failed.symm.trans ready
      · cases discarded.symm.trans ready
  | inr deleted =>
      obtain terminated | lost | completed := tracked.ends.ended (.inr (.inr deleted))
      · rw [running] at terminated
        cases terminated
      · exact kept lost
      · exact completed pending

/-- The process of a vector gives up when one of its inputs was abandoned. -/
theorem Delivered.abandoned
    (invariant : machine.Invariant) (tracked : Tracked machine.snapshot name process)
    (dropped : Dropped machine.snapshot name process)
    (pending : (machine.snapshot.status name).state = .pending)
    (lost : ∃ future ∈ process.inputs, (machine.snapshot.status future).abandoned = true) :
    (machine.snapshot.status name).abandoned = true := by
  obtain ⟨future, input, abandoned⟩ := lost
  cases delivered.stage with
  | inl blocked =>
      have subscribed :
          machine.snapshot.subscribed .onAbandoned (.abandoned name) = ↑process.inputs := by
        rw [tracked.registers.abandoned, if_pos rfl, due, if_neg (by simp [blocked])]
      have notified : future ∈ machine.snapshot.notified .onAbandoned (.abandoned name) := by
        apply mem_notified invariant (by simp) (delivered.inputs future input)
          (show Status.fires .onAbandoned _ = true from abandoned)
        rw [subscribed]
        exact input
      have some : machine.snapshot.notified .onAbandoned (.abandoned name) ≠ 0 := by
        intro none
        rw [none] at notified
        exact Multiset.notMem_zero future notified
      obtain deleted | terminates | ends | queued | underway := tracked.heeds.abandoned some
      · rw [blocked] at deleted
        cases deleted
      · have queued := tracked.ends.queued terminates (by simp [blocked])
        rw [delivered.events] at queued
        cases queued
      · have outside := delivered.frames _ ends
        simp [about, handles] at outside
      · rw [delivered.events] at queued
        cases queued
      · have outside := delivered.frames _ underway
        simp [about] at outside
  | inr deleted =>
      obtain waits | completed | abandoned := dropped deleted
      · exact absurd waits (delivered.promise.no_call _)
      · exact absurd pending completed
      · exact abandoned

theorem Delivered.verdict
    (invariant : machine.Invariant) (tracked : Tracked machine.snapshot name process)
    (dropped : Dropped machine.snapshot name process) (collects : process.gathering = .collect)
    (running : process.terminated = false)
    (wanted : (machine.snapshot.status name).discard = false)
    (unmixed : Unmixed machine.snapshot.status process.inputs) :
    Verdict machine.snapshot.status process.inputs (machine.snapshot.status name) := by
  have faithful := tracked.faithful
  have nobody : (machine.snapshot.status name).state ≠ .discarded := by
    intro discarded
    have requested := (faithful.discarded discarded).1
    rw [wanted] at requested
    cases requested
  have kept : ¬ Lost machine.snapshot.status process →
      (machine.snapshot.status name).abandoned = false := by
    intro kept
    apply Bool.eq_false_of_not_eq_true
    intro abandoned
    obtain terminated | lost := tracked.promises.abandoned abandoned
    · rw [running] at terminated
      cases terminated
    · exact kept lost
  have ready : (machine.snapshot.status name).state = .ready →
      ∀ future ∈ process.inputs, (machine.snapshot.status future).state = .ready := by
    intro ready
    obtain ⟨values, -, all⟩ := faithful.collected collects ready
    exact ((List.forall₂_and_left _ _).mp all).1
  have pending : (∀ future ∈ process.inputs, ¬ Errs (machine.snapshot.status future)) →
      (∃ future ∈ process.inputs, (machine.snapshot.status future).state = .pending) →
      (machine.snapshot.status name).state = .pending := by
    rintro none ⟨future, input, waits⟩
    cases state : (machine.snapshot.status name).state with
    | pending => rfl
    | discarded => exact absurd state nobody
    | failed =>
        obtain ⟨-, other, among, errs⟩ := faithful.failed state
        exact absurd errs (none other among)
    | ready => cases waits.symm.trans (ready state future input)
  constructor
  · intro errs
    have remains := unmixed.not_lost errs
    have completed := delivered.failed invariant tracked collects running remains errs
    refine ⟨?_, kept remains⟩
    cases state : (machine.snapshot.status name).state with
    | failed => rfl
    | pending => exact absurd state completed
    | discarded => exact absurd state nobody
    | ready =>
        obtain ⟨future, input, failed | discarded⟩ := errs
        · cases failed.symm.trans (ready state future input)
        · cases discarded.symm.trans (ready state future input)
  · rintro none ⟨future, input, abandoned⟩
    have waits := pending none ⟨future, input, unmixed.gone future input abandoned⟩
    exact ⟨waits, delivered.abandoned invariant tracked dropped waits ⟨future, input, abandoned⟩⟩
  · intro all
    have remains : ¬ Lost machine.snapshot.status process := by
      rintro ⟨future, input, abandoned⟩
      cases (unmixed.gone future input abandoned).symm.trans (all future input)
    refine ⟨delivered.ready invariant tracked ⟨all, ?_, wanted, running⟩, kept remains⟩
    intro future input
    exact Bool.eq_false_of_not_eq_true fun abandoned => remains ⟨future, input, abandoned⟩
  · intro none waits
    refine ⟨pending (fun future input => (none future input).1) waits, kept ?_⟩
    rintro ⟨future, input, abandoned⟩
    rw [(none future input).2] at abandoned
    cases abandoned

end

end Verdict

section Derived

variable {machine : Machine (gathering T)} {derived parent : FutureId}
  {continuation : Continuation}

/-- Everything that concerns a derived future has run. -/
structure Rested (machine : Machine (gathering T)) (derived parent : FutureId) : Prop where
  above : machine.Quiescent parent
  own : machine.Quiescent derived
  frames : ∀ body ∈ machine.snapshot.bodies, settles derived body = false

/-- A derived future has done what its parent has. -/
theorem Rested.follows (rested : Rested machine derived parent) (invariant : machine.Invariant)
    (wrapped : Wrapped machine.snapshot derived parent continuation)
    (completed : (machine.snapshot.status parent).state ≠ .pending) :
    ∃ completion, Follows machine.snapshot.status parent continuation completion ∧
      (machine.snapshot.status derived).Settles (completion.op : Op (Value T) GatherCallback) := by
  apply wrapped.settled
  have notified : parent ∈ machine.snapshot.notified .onAny (.run derived) := by
    apply mem_notified invariant (by simp) rested.above (fires_any completed)
    rw [wrapped.runs, if_pos rfl]
    exact Multiset.mem_singleton_self parent
  have some : machine.snapshot.notified .onAny (.run derived) ≠ 0 := by
    intro none
    rw [none] at notified
    exact Multiset.notMem_zero parent notified
  obtain running | ⟨op, waits, -⟩ | settled := wrapped.ran some
  · have outside := rested.frames _ running
    simp [settles] at outside
  · exact absurd waits (rested.own.no_call op)
  · exact settled

theorem Rested.waits (rested : Rested machine derived parent) (invariant : machine.Invariant)
    (wrapped : Wrapped machine.snapshot derived parent continuation)
    (pending : (machine.snapshot.status parent).state = .pending) :
    (machine.snapshot.status derived).state = .pending ∧
      ((machine.snapshot.status derived).abandoned = true ↔
        (machine.snapshot.status parent).abandoned = true) := by
  have waits : (machine.snapshot.status derived).state = .pending := by
    by_contra settled
    obtain ⟨completion, follows, -⟩ := wrapped.settled settled
    exact follows.completed pending
  refine ⟨waits, wrapped.abandoned, fun abandoned => ?_⟩
  have notified : parent ∈ machine.snapshot.notified .onAbandoned (.abandon derived) := by
    apply mem_notified invariant (by simp) rested.above
      (show Status.fires .onAbandoned _ = true from abandoned)
    rw [wrapped.abandons, if_pos rfl]
    exact Multiset.mem_singleton_self parent
  have some : machine.snapshot.notified .onAbandoned (.abandon derived) ≠ 0 := by
    intro none
    rw [none] at notified
    exact Multiset.notMem_zero parent notified
  obtain running | called | settled | lost := wrapped.lost some
  · have outside := rested.frames _ running
    simp [settles] at outside
  · exact absurd called (rested.own.no_call _)
  · exact absurd waits settled
  · exact lost

/-- What a derived future says at the end. -/
structure Mirrors (status : Statuses T) (derived parent : FutureId) : Prop where
  pending : (status derived).state = .pending ↔ (status parent).state = .pending
  ready : (status derived).state = .ready ↔
    (status parent).state = .ready ∧ (status parent).discard = false
  failed : (status derived).state = .failed ↔ (status parent).state = .failed
  abandoned : (status derived).abandoned = true → (status parent).abandoned = true
  lost : (status parent).state = .pending → (status parent).abandoned = true →
    (status derived).abandoned = true

theorem Mirrors.kept {status : Statuses T} (mirrors : Mirrors status derived parent)
    (kept : (status parent).abandoned = false) : (status derived).abandoned = false := by
  apply Bool.eq_false_of_not_eq_true
  intro abandoned
  rw [mirrors.abandoned abandoned] at kept
  cases kept

theorem Rested.mirrors (rested : Rested machine derived parent) (invariant : machine.Invariant)
    (wrapped : Wrapped machine.snapshot derived parent continuation) :
    Mirrors machine.snapshot.status derived parent := by
  by_cases pending : (machine.snapshot.status parent).state = .pending
  · obtain ⟨waits, abandons⟩ := rested.waits invariant wrapped pending
    constructor
    · exact iff_of_true waits pending
    · rw [waits, pending]
      simp
    · rw [waits, pending]
    · exact abandons.mp
    · exact fun _ => abandons.mpr
  · obtain ⟨completion, follows, settles⟩ := rested.follows invariant wrapped pending
    constructor
    · exact iff_of_false settles.not_pending pending
    · cases follows with
      | nothing ready unasked | tuple ready unasked =>
          exact iff_of_true settles.1 ⟨ready, unasked⟩
      | requested ready asked =>
          rw [show (machine.snapshot.status derived).state = .discarded from settles, asked]
          simp
      | failed failed =>
          rw [settles.1, failed]
          simp
      | discarded discarded =>
          rw [show (machine.snapshot.status derived).state = .discarded from settles, discarded]
          simp
    · cases follows with
      | nothing ready | tuple ready =>
          rw [settles.1, ready]
      | requested ready =>
          rw [show (machine.snapshot.status derived).state = .discarded from settles, ready]
          simp
      | failed failed => exact iff_of_true settles.1 failed
      | discarded discarded =>
          rw [show (machine.snapshot.status derived).state = .discarded from settles, discarded]
    · exact wrapped.abandoned
    · exact fun waits => absurd waits pending

end Derived

section Agreement

variable {snapshot : GatherSnapshot T} {status : Statuses T} {call : Variadic}
  {inputs : List FutureId} {here there : Status (Value T)}

/-- No future is ready although somebody has asked to discard it, unless another one has failed or
was discarded anyway. -/
def Unasked (status : Statuses T) (inputs : List FutureId) : Prop :=
  (∀ future ∈ inputs, (status future).state = .ready → (status future).discard = false) ∨
    ∃ future ∈ inputs, Errs (status future)

/-- Both are ready, with the same values, or failed, or abandoned, or still pending. -/
structure Agrees (here there : Status (Value T)) : Prop where
  state : here.state = there.state
  abandoned : here.abandoned = there.abandoned
  values : here.state = .ready → ∃ values,
    here.result = .some (.values values) ∧ there.result = .some (.values values)

theorem errs_iff {status : Status (Value T)} :
    Errs status ↔ status.state ≠ .pending ∧ status.state ≠ .ready := by
  unfold Errs
  cases status.state <;> simp

/-- A derived future is an error if its parent is, or if somebody asked to discard the parent. -/
theorem Mirrors.errs {derived parent : FutureId} (mirrors : Mirrors status derived parent) :
    Errs (status derived) ↔ Errs (status parent) ∨
      (status parent).state = .ready ∧ (status parent).discard = true := by
  rw [errs_iff, errs_iff, ne_eq, ne_eq, mirrors.pending, mirrors.ready]
  cases (status parent).state <;> simp

/-- One verdict on the same inputs. -/
theorem Verdict.same (first : Verdict status inputs here) (second : Verdict status inputs there) :
    here.state = there.state ∧ here.abandoned = there.abandoned := by
  by_cases errs : ∃ future ∈ inputs, Errs (status future)
  · obtain ⟨failed, kept⟩ := first.errs errs
    obtain ⟨failed', kept'⟩ := second.errs errs
    exact ⟨failed.trans failed'.symm, kept.trans kept'.symm⟩
  · have none : ∀ future ∈ inputs, ¬ Errs (status future) :=
      fun future input error => errs ⟨future, input, error⟩
    by_cases lost : ∃ future ∈ inputs, (status future).abandoned = true
    · obtain ⟨pending, abandoned⟩ := first.lost none lost
      obtain ⟨pending', abandoned'⟩ := second.lost none lost
      exact ⟨pending.trans pending'.symm, abandoned.trans abandoned'.symm⟩
    · by_cases all : ∀ future ∈ inputs, (status future).state = .ready
      · obtain ⟨ready, kept⟩ := first.ready all
        obtain ⟨ready', kept'⟩ := second.ready all
        exact ⟨ready.trans ready'.symm, kept.trans kept'.symm⟩
      · have quiet : ∀ future ∈ inputs,
            ¬ Errs (status future) ∧ (status future).abandoned = false := by
          intro future input
          refine ⟨none future input, Bool.eq_false_of_not_eq_true ?_⟩
          exact fun abandoned => lost ⟨future, input, abandoned⟩
        have waits : ∃ future ∈ inputs, (status future).state = .pending := by
          obtain ⟨future, input, unready⟩ := by simpa only [not_forall, exists_prop] using all
          refine ⟨future, input, ?_⟩
          have clean := none future input
          cases state : (status future).state with
          | pending => rfl
          | ready => exact absurd state unready
          | failed => exact absurd (.inl state) clean
          | discarded => exact absurd (.inr state) clean
        obtain ⟨pending, kept⟩ := first.waits quiet waits
        obtain ⟨pending', kept'⟩ := second.waits quiet waits
        exact ⟨pending.trans pending'.symm, kept.trans kept'.symm⟩

/-- What is derived from a future that nobody asks to discard has the same verdict. -/
theorem Verdict.mirrored {derived parent : FutureId}
    (verdict : Verdict status inputs (status parent)) (mirrors : Mirrors status derived parent)
    (wanted : (status parent).discard = false) : Verdict status inputs (status derived) := by
  constructor
  · intro errs
    have above := verdict.errs errs
    exact ⟨mirrors.failed.mpr above.1, mirrors.kept above.2⟩
  · intro none lost
    have above := verdict.lost none lost
    exact ⟨mirrors.pending.mpr above.1, mirrors.lost above.1 above.2⟩
  · intro all
    have above := verdict.ready all
    exact ⟨mirrors.ready.mpr ⟨above.1, wanted⟩, mirrors.kept above.2⟩
  · intro none waits
    have above := verdict.waits none waits
    exact ⟨mirrors.pending.mpr above.1, mirrors.kept above.2⟩

end Agreement

/-! ## The wrappers -/

section Wrappers

variable {status : Statuses T} {call : Variadic} {here : Status (Value T)}

/-- Each wrapper of a call says what its future says. -/
structure Mirrored (status : Statuses T) (call : Variadic) : Prop where
  length : call.wrappers.length = call.futures.length
  mirrors : ∀ wrapper future, (wrapper, future) ∈ call.wrappers.zip call.futures →
    Mirrors status wrapper future

section

variable (mirrored : Mirrored status call)

include mirrored

theorem Mirrored.of_wrapper {wrapper : FutureId}
    (member : wrapper ∈ call.wrappers) :
    ∃ future ∈ call.futures, Mirrors status wrapper future := by
  rw [← List.map_fst_zip (Nat.le_of_eq mirrored.length)] at member
  obtain ⟨⟨wrapper, future⟩, pair, rfl⟩ := List.mem_map.mp member
  exact ⟨future, (List.of_mem_zip pair).2, mirrored.mirrors wrapper future pair⟩

theorem Mirrored.of_future {future : FutureId}
    (member : future ∈ call.futures) :
    ∃ wrapper ∈ call.wrappers, Mirrors status wrapper future := by
  rw [← List.map_snd_zip (Nat.le_of_eq mirrored.length.symm)] at member
  obtain ⟨⟨wrapper, future⟩, pair, rfl⟩ := List.mem_map.mp member
  exact ⟨wrapper, (List.of_mem_zip pair).1, mirrored.mirrors wrapper future pair⟩

/-- The wrappers are no more errors than the futures. -/
theorem Mirrored.errs (unasked : Unasked status call.futures) :
    (∃ wrapper ∈ call.wrappers, Errs (status wrapper)) ↔
      ∃ future ∈ call.futures, Errs (status future) := by
  constructor
  · rintro ⟨wrapper, member, error⟩
    obtain ⟨future, input, mirrors⟩ := mirrored.of_wrapper member
    obtain error | ⟨ready, asked⟩ := mirrors.errs.mp error
    · exact ⟨future, input, error⟩
    · obtain unasked | errs := unasked
      · rw [unasked future input ready] at asked
        cases asked
      · exact errs
  · rintro ⟨future, input, error⟩
    obtain ⟨wrapper, member, mirrors⟩ := mirrored.of_future input
    exact ⟨wrapper, member, mirrors.errs.mpr (.inl error)⟩

theorem Mirrored.unmixed
    (unasked : Unasked status call.futures) (unmixed : Unmixed status call.futures) :
    Unmixed status call.wrappers := by
  constructor
  · intro wrapper member abandoned
    obtain ⟨future, input, mirrors⟩ := mirrored.of_wrapper member
    exact mirrors.pending.mpr (unmixed.gone future input (mirrors.abandoned abandoned))
  · intro errs wrapper member
    obtain ⟨future, input, mirrors⟩ := mirrored.of_wrapper member
    exact mirrors.kept (unmixed.unmixed ((mirrored.errs unasked).mp errs) future input)

/-- A verdict on the wrappers is one on the futures. -/
theorem Mirrored.verdict
    (unasked : Unasked status call.futures) (unmixed : Unmixed status call.futures)
    (verdict : Verdict status call.wrappers here) : Verdict status call.futures here := by
  have clean : (∀ future ∈ call.futures, ¬ Errs (status future)) →
      ∀ wrapper ∈ call.wrappers, ¬ Errs (status wrapper) := by
    intro none wrapper member error
    obtain ⟨future, input, error⟩ := (mirrored.errs unasked).mp ⟨wrapper, member, error⟩
    exact none future input error
  constructor
  · exact fun errs => verdict.errs ((mirrored.errs unasked).mpr errs)
  · rintro none ⟨future, input, abandoned⟩
    obtain ⟨wrapper, member, mirrors⟩ := mirrored.of_future input
    have pending := unmixed.gone future input abandoned
    exact verdict.lost (clean none) ⟨wrapper, member, mirrors.lost pending abandoned⟩
  · intro all
    apply verdict.ready
    intro wrapper member
    obtain ⟨future, input, mirrors⟩ := mirrored.of_wrapper member
    have ready := all future input
    refine mirrors.ready.mpr ⟨ready, ?_⟩
    obtain unasked | ⟨other, among, error⟩ := unasked
    · exact unasked future input ready
    · exact absurd (all other among) (errs_iff.mp error).2
  · intro none waits
    apply verdict.waits
    · intro wrapper member
      refine ⟨clean (fun future input => (none future input).1) wrapper member, ?_⟩
      obtain ⟨future, input, mirrors⟩ := mirrored.of_wrapper member
      exact mirrors.kept (none future input).2
    · obtain ⟨future, input, pending⟩ := waits
      obtain ⟨wrapper, member, mirrors⟩ := mirrored.of_future input
      exact ⟨wrapper, member, mirrors.pending.mpr pending⟩

/-- A ready future that somebody asked to discard makes an error of its wrapper, and no wrapper is
abandoned if no future is. -/
theorem Mirrored.asked (asked : ¬ Unasked status call.futures)
    (kept : ∀ future ∈ call.futures, (status future).abandoned = false) :
    (∃ wrapper ∈ call.wrappers, Errs (status wrapper)) ∧ Unmixed status call.wrappers := by
  have clean : ∀ wrapper ∈ call.wrappers, (status wrapper).abandoned = false := by
    intro wrapper member
    obtain ⟨future, input, mirrors⟩ := mirrored.of_wrapper member
    exact mirrors.kept (kept future input)
  refine ⟨?_, ?_, fun _ => clean⟩
  · simp only [Unasked, not_or, not_forall, exists_prop] at asked
    obtain ⟨⟨future, input, ready, discard⟩, -⟩ := asked
    obtain ⟨wrapper, member, mirrors⟩ := mirrored.of_future input
    exact ⟨wrapper, member, mirrors.errs.mpr (.inr ⟨ready, by simpa using discard⟩)⟩
  · intro wrapper member abandoned
    rw [clean wrapper member] at abandoned
    cases abandoned

end

/-- And the futures themselves are not. -/
theorem Verdict.not_failed (verdict : Verdict status call.futures here)
    (asked : ¬ Unasked status call.futures)
    (kept : ∀ future ∈ call.futures, (status future).abandoned = false) :
    here.state ≠ .failed := by
  have none : ∀ future ∈ call.futures, ¬ Errs (status future) :=
    fun future input error => asked (.inr ⟨future, input, error⟩)
  by_cases all : ∀ future ∈ call.futures, (status future).state = .ready
  · simp [(verdict.ready all).1]
  · obtain ⟨future, input, unready⟩ := by simpa only [not_forall, exists_prop] using all
    have waits : (status future).state = .pending := by
      by_contra completed
      exact none future input (errs_iff.mpr ⟨completed, unready⟩)
    have quiet : ∀ future ∈ call.futures,
        ¬ Errs (status future) ∧ (status future).abandoned = false :=
      fun future input => ⟨none future input, kept future input⟩
    simp [(verdict.waits quiet ⟨future, input, waits⟩).1]

end Wrappers

end Gather

end Libprocess
