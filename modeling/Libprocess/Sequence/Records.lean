import Libprocess.Sequence.Turns

/-!
# What becomes of the callbacks

A callback that is invoked has the result of the future that it returns, and one that is
skipped is discarded.  Only a request for its own future, or the end of the sequence, has a
callback skipped.
-/

namespace Libprocess.Sequence

/-- The result of a callback. -/
structure Entry.Recorded (entry : Entry) : Prop where
  associated : entry.associated = true → entry.invoked = true
  invoked : entry.invoked = true → entry.result = entry.inner
  skipped : entry.invoked = false → entry.inner = none ∧
    (entry.result = none ∨ entry.result = some .discarded ∧ entry.discard = true)

namespace SequenceProcess

variable {sequence next : SequenceProcess} {turn : Nat} {holder : Option (Nat × Hook)}

/-- The results and the invocations. -/
structure Recorded (sequence : SequenceProcess) : Prop where
  entries : ∀ number, (sequence.entry number).Recorded
  mem_iff : ∀ number, number ∈ sequence.invocations ↔ (sequence.entry number).invoked = true
  increasing : sequence.invocations.Pairwise (· < ·)

theorem Recorded.init : init.Recorded :=
  ⟨fun _ => ⟨nofun, nofun, fun _ => ⟨rfl, .inl rfl⟩⟩,
    fun _ => by simp [SequenceProcess.init, Entry.init],
    .nil⟩

theorem Recorded.frame (recorded : sequence.Recorded)
    (invocations : next.invocations = sequence.invocations)
    (entries : ∀ number, (next.entry number).result = (sequence.entry number).result ∧
      (next.entry number).invoked = (sequence.entry number).invoked ∧
      (next.entry number).associated = (sequence.entry number).associated ∧
      (next.entry number).inner = (sequence.entry number).inner ∧
      ((sequence.entry number).discard = true → (next.entry number).discard = true)) :
    next.Recorded := by
  refine ⟨fun number => ?_, fun number => ?_, invocations ▸ recorded.increasing⟩
  · obtain ⟨result, invoked, associated, inner, discard⟩ := entries number
    have known := recorded.entries number
    refine ⟨?_, ?_, ?_⟩
    · rw [associated, invoked]
      exact known.associated
    · rw [invoked, result, inner]
      exact known.invoked
    · rw [invoked, result, inner]
      intro uninvoked
      exact ⟨(known.skipped uninvoked).1, (known.skipped uninvoked).2.imp id
        fun skipped => ⟨skipped.1, discard skipped.2⟩⟩
  · rw [invocations, (entries number).2.1]
    exact recorded.mem_iff number

/-- One entry changes, and its callback was not invoked before or is not now. -/
theorem Recorded.setEntry {number : Nat} {entry : Entry} (recorded : sequence.Recorded)
    (same : next.entry = Function.update sequence.entry number entry)
    (invocations : next.invocations = sequence.invocations)
    (unchanged : entry.invoked = (sequence.entry number).invoked) (kept : entry.Recorded) :
    next.Recorded := by
  refine ⟨fun other => ?_, fun other => ?_, invocations ▸ recorded.increasing⟩
  · rw [same, Function.update_apply]
    split
    · exact kept
    · exact recorded.entries other
  · rw [invocations, same, Function.update_apply, recorded.mem_iff other]
    split
    · rename_i equal
      rw [equal, unchanged]
    · rfl

theorem Recorded.notified {thread number : Nat} {hooks : List Hook}
    (recorded : sequence.Recorded) (isTurn : sequence.Turn turn holder)
    (top : sequence.hooks thread = .notified number :: hooks) :
    (sequence.notified number).1.Recorded := by
  obtain ⟨-, -, -, rfl, untouched⟩ := isTurn.top top rfl
  unfold SequenceProcess.notified
  split
  · rename_i requested
    refine recorded.setEntry rfl rfl rfl ⟨fun associated => ?_, fun invoked => ?_,
      fun _ => ⟨untouched.inner, .inr ⟨rfl, requested⟩⟩⟩
    · simp [untouched.associated] at associated
    · simp [untouched.invoked] at invoked
  · exact recorded

theorem Recorded.invoke {thread number : Nat} {hooks : List Hook}
    (recorded : sequence.Recorded) (isTurn : sequence.Turn turn holder)
    (top : sequence.hooks thread = .invoke number :: hooks) :
    (sequence.invoke number).1.Recorded := by
  obtain ⟨-, -, -, rfl, untouched⟩ := isTurn.top top rfl
  refine ⟨fun other => ?_, fun other => ?_, ?_⟩
  · simp only [SequenceProcess.invoke, setEntry_entry]
    split
    · exact ⟨fun _ => rfl, fun _ => untouched.result.trans untouched.inner.symm, nofun⟩
    · exact recorded.entries other
  · simp only [SequenceProcess.invoke, setEntry_entry, List.mem_append, List.mem_singleton]
    split
    · simp [*]
    · rename_i different
      rw [or_iff_left different, recorded.mem_iff other]
  · -- All callbacks that were invoked come before the one whose turn it is.
    refine List.pairwise_append.mpr ⟨recorded.increasing, List.pairwise_singleton _ _,
      fun other member last isLast => ?_⟩
    rw [List.mem_singleton.mp isLast]
    have invoked := (recorded.mem_iff other).mp member
    rcases Nat.lt_trichotomy other number with less | same | more
    · exact less
    · simp [same, untouched.invoked] at invoked
    · simp [(isTurn.later other (.inl more)).invoked] at invoked

theorem Recorded.associate {thread number : Nat} {hooks : List Hook}
    (recorded : sequence.Recorded) (isTurn : sequence.Turn turn holder)
    (returned : Option Outcome) (top : sequence.hooks thread = .associate number :: hooks) :
    (sequence.associate number returned).1.Recorded := by
  obtain ⟨-, -, -, rfl, waits⟩ := isTurn.top top rfl
  refine recorded.setEntry rfl rfl rfl ⟨fun _ => waits.invoked, fun _ => rfl, fun uninvoked => ?_⟩
  simp [waits.invoked] at uninvoked

theorem Recorded.add (recorded : sequence.Recorded) (isTurn : sequence.Turn turn holder) :
    sequence.add.Recorded :=
  recorded.setEntry rfl rfl
    (isTurn.later sequence.count (.inr (Nat.le_refl sequence.count))).invoked.symm
    ⟨nofun, nofun, fun _ => ⟨rfl, .inl rfl⟩⟩

/-- A call changes the entries and the invocations only. -/
theorem call_hooks (sequence : SequenceProcess) (returned : Option Outcome) (hook : Hook) :
    (sequence.call returned hook).1.hooks = sequence.hooks := by
  cases hook with
  | discardFuture | discardInner | discardNotifier =>
      simp only [call]
      split <;> rfl
  | completed | invoke | associate => rfl
  | notified =>
      simp only [call, SequenceProcess.notified]
      split <;> rfl

/-- A call that requests a discard keeps the requests that there are. -/
theorem call_discard (sequence : SequenceProcess) (returned : Option Outcome) (hook : Hook)
    (number : Nat) (requested : (sequence.entry number).discard = true) :
    ((sequence.call returned hook).1.entry number).discard = true := by
  cases hook with
  | discardFuture other | discardInner other | discardNotifier other =>
      simp only [call]
      split
      · rw [setEntry_entry]
        split
        · simp_all
        · exact requested
      · exact requested
  | completed other | invoke other | associate other =>
      simp only [call, SequenceProcess.invoke, SequenceProcess.associate, setEntry_entry]
      split
      · simp_all
      · exact requested
  | notified other =>
      simp only [call, SequenceProcess.notified]
      split
      · rw [setEntry_entry]
        split
        · simp_all
        · exact requested
      · exact requested

theorem Recorded.run {thread : Nat} {hook : Hook} {hooks : List Hook}
    (recorded : sequence.Recorded) (isTurn : sequence.Turn turn holder)
    (returned : Option Outcome) (top : sequence.hooks thread = hook :: hooks) :
    (sequence.call returned hook).1.Recorded := by
  have keeps := call_discard sequence returned hook
  cases passes : hook.passesTurn with
  | false =>
      obtain ⟨-, -, invocations, -, entries⟩ := call_of_stays sequence returned passes
      exact recorded.frame invocations fun number => ⟨(entries number).result,
        (entries number).invoked, (entries number).associated, (entries number).inner,
        keeps number⟩
  | true =>
      cases hook with
      | discardFuture | discardInner | discardNotifier => cases passes
      | notified number => exact recorded.notified isTurn top
      | invoke number => exact recorded.invoke isTurn top
      | associate number => exact recorded.associate isTurn returned top
      | completed number =>
          refine recorded.frame rfl fun other => ⟨?_, ?_, ?_, ?_, keeps other⟩
          all_goals
            simp only [call, setEntry_entry]
            split <;> simp [*]

theorem Recorded.step {event : SequenceEvent} (recorded : sequence.Recorded)
    (isTurn : sequence.Turn turn holder) (stepped : sequence.step event = some next) :
    next.Recorded := by
  cases step_cases stepped with
  | add =>
      exact recorded.add isTurn
  | finalize | discard =>
      exact recorded.frame rfl fun _ => ⟨rfl, rfl, rfl, rfl, id⟩
  | complete thread number outcome added associated pending =>
      have invoked := (recorded.entries number).associated associated
      refine recorded.setEntry rfl rfl rfl ⟨fun _ => invoked, fun _ => rfl, fun uninvoked => ?_⟩
      simp [invoked] at uninvoked
  | run thread hook hooks returned top =>
      exact (recorded.run isTurn returned top).frame rfl fun _ => ⟨rfl, rfl, rfl, rfl, id⟩

/-- Why the futures have a discard request. -/
structure Requests (sequence : SequenceProcess) : Prop where
  discarded : ∀ number, (sequence.entry number).discard = true →
    number ∈ sequence.requested ∨ sequence.finalized = true
  requested : ∀ thread number, .discardFuture number ∈ sequence.hooks thread →
    number ∈ sequence.requested ∨ sequence.finalized = true
  finalized : ∀ thread number, .discardNotifier number ∈ sequence.hooks thread →
    sequence.finalized = true

theorem Requests.init : init.Requests := ⟨nofun, nofun, nofun⟩

/-- The requests that a call makes. -/
theorem call_requests (sequence : SequenceProcess) (returned : Option Outcome) (hook : Hook) :
    (sequence.call returned hook).1.requested = sequence.requested ∧
      (sequence.call returned hook).1.finalized = sequence.finalized ∧
      (∀ number, ((sequence.call returned hook).1.entry number).discard = true →
        (sequence.entry number).discard = true ∨ hook = .discardFuture number) ∧
      ∀ number, .discardFuture number ∈ (sequence.call returned hook).2 ∨
        .discardNotifier number ∈ (sequence.call returned hook).2 →
          ∃ other, hook = .discardNotifier other := by
  cases hook with
  | discardFuture other =>
      simp only [call]
      split
      · refine ⟨rfl, rfl, fun number => ?_, fun number => ?_⟩
        · rw [setEntry_entry]
          split <;> simp_all
        · split <;> simp
      · exact ⟨rfl, rfl, fun _ => .inl, by simp⟩
  | discardInner other =>
      simp only [call]
      split
      · refine ⟨rfl, rfl, fun number => ?_, by simp⟩
        rw [setEntry_entry]
        split <;> simp_all
      · exact ⟨rfl, rfl, fun _ => .inl, by simp⟩
  | discardNotifier other =>
      simp only [call]
      split
      · refine ⟨rfl, rfl, fun number => ?_, fun _ _ => ⟨other, rfl⟩⟩
        rw [setEntry_entry]
        split <;> simp_all
      · exact ⟨rfl, rfl, fun _ => .inl, fun _ _ => ⟨other, rfl⟩⟩
  | completed other =>
      refine ⟨rfl, rfl, fun number => ?_, fun number => ?_⟩
      · simp only [call, setEntry_entry]
        split <;> simp_all
      · simp only [call]
        split <;> simp
  | notified other =>
      simp only [call, SequenceProcess.notified]
      split
      · refine ⟨rfl, rfl, fun number => ?_, by simp⟩
        rw [setEntry_entry]
        split <;> simp_all
      · exact ⟨rfl, rfl, fun _ => .inl, by simp⟩
  | invoke other =>
      refine ⟨rfl, rfl, fun number => ?_, by simp [call, SequenceProcess.invoke]⟩
      simp only [call, SequenceProcess.invoke, setEntry_entry]
      split <;> simp_all
  | associate other =>
      refine ⟨rfl, rfl, fun number => ?_, fun number => ?_⟩
      · simp only [call, SequenceProcess.associate, setEntry_entry]
        split <;> simp_all
      · simp only [call, SequenceProcess.associate]
        split <;> split <;> simp

theorem Requests.run {thread : Nat} {hook : Hook} {hooks : List Hook}
    (requests : sequence.Requests) (returned : Option Outcome)
    (top : sequence.hooks thread = hook :: hooks) :
    ((sequence.call returned hook).1.setHooks thread
      ((sequence.call returned hook).2 ++ hooks)).Requests := by
  obtain ⟨sameRequested, sameFinalized, discards, calls⟩ := call_requests sequence returned hook
  have same := (call_hooks sequence returned hook).symm
  have own : hook ∈ sequence.hooks thread := by simp [top]
  have old {other : Nat} {before : Hook} (member : before ∈
      if other = thread then (sequence.call returned hook).2 ++ hooks else sequence.hooks other) :
      before ∈ (sequence.call returned hook).2 ∨ before ∈ sequence.hooks other := by
    split at member
    · rename_i equal
      exact (List.mem_append.mp member).imp id fun rest => by simp [equal, top, rest]
    · exact .inr member
  refine ⟨fun number requested => ?_, fun other number member => ?_, fun other number member => ?_⟩
  · simp only [setHooks, sameRequested, sameFinalized]
    rcases discards number requested with before | rfl
    · exact requests.discarded number before
    · exact requests.requested thread number own
  · rw [setHooks_hooks, ← same] at member
    simp only [setHooks, sameRequested, sameFinalized]
    rcases old member with new | before
    · obtain ⟨notifier, rfl⟩ := calls number (.inl new)
      exact .inr (requests.finalized thread notifier own)
    · exact requests.requested other number before
  · rw [setHooks_hooks, ← same] at member
    simp only [setHooks, sameFinalized]
    rcases old member with new | before
    · obtain ⟨notifier, rfl⟩ := calls number (.inr new)
      exact requests.finalized thread notifier own
    · exact requests.finalized other number before

theorem Requests.step {event : SequenceEvent} (requests : sequence.Requests)
    (stepped : sequence.step event = some next) : next.Requests := by
  cases step_cases stepped with
  | add =>
      refine ⟨fun number requested => ?_, fun thread number member => ?_,
        fun thread number member => ?_⟩
      · simp only [SequenceProcess.add, setHooks, setEntry_entry] at requested
        split at requested
        · cases requested
        · exact requests.discarded number requested
      · simp only [SequenceProcess.add, setHooks_hooks] at member
        split at member
        · split at member <;> simp at member
        · exact requests.requested thread number member
      · simp only [SequenceProcess.add, setHooks_hooks] at member
        split at member
        · split at member <;> simp at member
        · exact requests.finalized thread number member
  | finalize =>
      exact ⟨fun _ _ => .inr rfl, fun _ _ _ => .inr rfl, fun _ _ _ => rfl⟩
  | discard thread number =>
      refine ⟨fun other requested => (requests.discarded other requested).imp
        (List.mem_cons_of_mem number) id, fun other' other member => ?_,
        fun other' other member => ?_⟩
      · rw [setHooks_hooks] at member
        split at member
        · rcases List.mem_cons.mp member with new | old
          · left
            simp only [Hook.discardFuture.injEq] at new
            simp [setHooks, new]
          · exact (requests.requested thread other old).imp (List.mem_cons_of_mem number) id
        · exact (requests.requested other' other member).imp (List.mem_cons_of_mem number) id
      · rw [setHooks_hooks] at member
        split at member
        · exact requests.finalized thread other (by simpa using member)
        · exact requests.finalized other' other member
  | complete thread number outcome =>
      refine ⟨fun other requested => ?_, fun other' other member => ?_,
        fun other' other member => ?_⟩
      · simp only [setHooks, setEntry_entry] at requested
        split at requested
        · rename_i same
          exact requests.discarded other (same ▸ requested)
        · exact requests.discarded other requested
      · rw [setHooks_hooks] at member
        split at member
        · exact requests.requested thread other (by simpa using member)
        · exact requests.requested other' other member
      · rw [setHooks_hooks] at member
        split at member
        · exact requests.finalized thread other (by simpa using member)
        · exact requests.finalized other' other member
  | run thread hook hooks returned top =>
      exact requests.run returned top

end SequenceProcess

end Libprocess.Sequence
