import Libprocess.Sequence.Finalization

/-!
# Requests that are passed on

When the future of a callback is discarded before or after it is associated with the future that
the callback has returned, that future is discarded as well.
-/

namespace Libprocess.Sequence

namespace SequenceProcess

variable {sequence next : SequenceProcess} {turn : Nat} {holder : Option (Nat × Hook)}

/-- A request to discard the future of a callback is passed on to the future that the callback has
returned, once they are associated. -/
structure Forwarded (sequence : SequenceProcess) : Prop where
  flagged : ∀ number, (sequence.entry number).innerDiscard = true →
    (sequence.entry number).discard = true
  requested : ∀ thread number, .discardInner number ∈ sequence.hooks thread →
    (sequence.entry number).discard = true ∧ (sequence.entry number).associated = true
  forwarded : ∀ number, (sequence.entry number).associated = true →
    (sequence.entry number).discard = true → (sequence.entry number).inner = none →
      (sequence.entry number).innerDiscard = true ∨
        ∃ thread, .discardInner number ∈ sequence.hooks thread

theorem Forwarded.init : init.Forwarded := ⟨nofun, nofun, nofun⟩

/-- What the forwarding of requests depends on. -/
theorem Forwarded.frame (forwarded : sequence.Forwarded)
    (hooks : ∀ thread number, .discardInner number ∈ next.hooks thread ↔
      .discardInner number ∈ sequence.hooks thread)
    (entries : ∀ number, (next.entry number).discard = (sequence.entry number).discard ∧
      (next.entry number).innerDiscard = (sequence.entry number).innerDiscard ∧
      (next.entry number).associated = (sequence.entry number).associated ∧
      ((next.entry number).inner = none → (sequence.entry number).inner = none)) :
    next.Forwarded := by
  refine ⟨fun number => ?_, fun thread number => ?_, fun number => ?_⟩
  · rw [(entries number).1, (entries number).2.1]
    exact forwarded.flagged number
  · rw [(entries number).1, (entries number).2.2.1, hooks]
    exact forwarded.requested thread number
  · rw [(entries number).1, (entries number).2.1, (entries number).2.2.1]
    simp only [hooks]
    exact fun associated discard pending =>
      forwarded.forwarded number associated discard ((entries number).2.2.2 pending)

/-- One entry changes. -/
theorem Forwarded.setEntry {number : Nat} {entry : Entry} (forwarded : sequence.Forwarded)
    (same : next.entry = Function.update sequence.entry number entry)
    (hooks : ∀ thread other, other ≠ number → (.discardInner other ∈ next.hooks thread ↔
      .discardInner other ∈ sequence.hooks thread))
    (flagged : entry.innerDiscard = true → entry.discard = true)
    (requested : ∀ thread, .discardInner number ∈ next.hooks thread →
      entry.discard = true ∧ entry.associated = true)
    (passed : entry.associated = true → entry.discard = true → entry.inner = none →
      entry.innerDiscard = true ∨ ∃ thread, .discardInner number ∈ next.hooks thread) :
    next.Forwarded := by
  refine ⟨fun other => ?_, fun thread other => ?_, fun other => ?_⟩
  all_goals
    rw [same, Function.update_apply]
    split
  · exact flagged
  · exact forwarded.flagged other
  · rename_i equal
    exact equal ▸ requested thread
  · rename_i different
    rw [hooks thread other different]
    exact forwarded.requested thread other
  · rename_i equal
    exact equal ▸ passed
  · rename_i different
    simp only [hooks _ other different]
    exact forwarded.forwarded other

/-- A call leaves the requests for the other callbacks as they are. -/
theorem mem_setHooks_iff {thread other number : Nat} {hook : Hook} {hooks calls : List Hook}
    (same : next.hooks = sequence.hooks) (top : sequence.hooks thread = hook :: hooks)
    (different : hook ≠ .discardInner number) (fresh : .discardInner number ∉ calls) :
    .discardInner number ∈ (next.setHooks thread (calls ++ hooks)).hooks other ↔
      .discardInner number ∈ sequence.hooks other := by
  rw [setHooks_hooks, same]
  split
  · rename_i equal
    rw [equal, top, List.mem_append, List.mem_cons]
    simp [fresh, different.symm]
  · rfl

theorem Forwarded.discardFuture {thread number : Nat} {hooks : List Hook}
    (forwarded : sequence.Forwarded) (returned : Option Outcome)
    (top : sequence.hooks thread = .discardFuture number :: hooks) :
    ((sequence.call returned (.discardFuture number)).1.setHooks thread
      ((sequence.call returned (.discardFuture number)).2 ++ hooks)).Forwarded := by
  have unchanged (next : SequenceProcess) (same : next.hooks = sequence.hooks)
      (other thread' : Nat) : .discardInner other ∈ (next.setHooks thread ([] ++ hooks)).hooks
        thread' ↔ .discardInner other ∈ sequence.hooks thread' :=
    mem_setHooks_iff same top nofun nofun
  simp only [call]
  split
  · by_cases associated : (sequence.entry number).associated = true
    · -- The future that the callback has returned is to be discarded as well.
      rw [if_pos associated]
      refine forwarded.setEntry rfl (fun _ other different =>
        mem_setHooks_iff rfl top nofun (by simpa using different)) (fun _ => rfl)
        (fun _ _ => ⟨rfl, associated⟩) fun _ _ _ => .inr ⟨thread, ?_⟩
      simp
    · rw [if_neg associated]
      refine forwarded.setEntry rfl (fun thread' other _ => unchanged _ rfl other thread')
        (fun _ => rfl) (fun thread' member => ?_) fun already => absurd already associated
      exact absurd (forwarded.requested thread' number
        ((unchanged _ rfl number thread').mp member)).2 associated
  · exact forwarded.frame (fun thread' other => unchanged _ rfl other thread')
      fun _ => ⟨rfl, rfl, rfl, id⟩

theorem Forwarded.discardInner {thread number : Nat} {hooks : List Hook}
    (forwarded : sequence.Forwarded) (returned : Option Outcome)
    (top : sequence.hooks thread = .discardInner number :: hooks) :
    ((sequence.call returned (.discardInner number)).1.setHooks thread
      ((sequence.call returned (.discardInner number)).2 ++ hooks)).Forwarded := by
  have known := forwarded.requested thread number (by simp [top])
  simp only [call]
  split
  · exact forwarded.setEntry rfl (fun _ other different =>
      mem_setHooks_iff rfl top (by simpa using different.symm) (by simp)) (fun _ => known.1)
      (fun _ _ => known) fun _ _ _ => .inl rfl
  · rename_i refused
    exact forwarded.setEntry (Function.update_eq_self number sequence.entry).symm
      (fun _ other different => mem_setHooks_iff rfl top (by simpa using different.symm) (by simp))
      (fun _ => known.1) (fun _ _ => known) fun _ _ pending => absurd pending refused

theorem Forwarded.notified {thread number : Nat} {hooks : List Hook}
    (forwarded : sequence.Forwarded) (top : sequence.hooks thread = .notified number :: hooks) :
    ((sequence.notified number).1.setHooks thread
      ((sequence.notified number).2 ++ hooks)).Forwarded := by
  unfold SequenceProcess.notified
  split
  · refine forwarded.frame (fun _ number => mem_setHooks_iff rfl top (by simp) (by simp))
      fun other => ?_
    simp only [setHooks, setEntry_entry]
    split <;> simp [*]
  · exact forwarded.frame (fun _ number => mem_setHooks_iff rfl top (by simp) (by simp))
      fun other => ⟨rfl, rfl, rfl, id⟩

theorem Forwarded.associate {thread number : Nat} {hooks : List Hook}
    (forwarded : sequence.Forwarded) (returned : Option Outcome)
    (top : sequence.hooks thread = .associate number :: hooks) :
    ((sequence.associate number returned).1.setHooks thread
      ((sequence.associate number returned).2 ++ hooks)).Forwarded := by
  have calls (other : Nat) (member : .discardInner other ∈ (sequence.associate number returned).2) :
      other = number ∧ (sequence.entry number).discard = true := by
    rcases List.mem_append.mp member with passed | completed
    · split at passed
      · rename_i requested
        exact ⟨by simpa using passed, requested⟩
      · cases passed
    · split at completed <;> simp at completed
  refine forwarded.setEntry rfl (fun _ other different => mem_setHooks_iff rfl top (by simp)
      fun member => different (calls other member).1) (forwarded.flagged number)
    (fun thread' member => ⟨?_, rfl⟩) fun _ (requested : (sequence.entry number).discard = true) _ =>
      .inr ⟨thread, by simp [SequenceProcess.associate, requested]⟩
  rw [setHooks_hooks] at member
  split at member
  · rename_i equal
    rcases List.mem_append.mp member with new | rest
    · exact (calls number new).2
    · exact (forwarded.requested thread number (by simp [top, rest])).1
  · exact (forwarded.requested thread' number member).1

theorem Forwarded.run {thread : Nat} {hook : Hook} {hooks : List Hook}
    (forwarded : sequence.Forwarded) (returned : Option Outcome)
    (top : sequence.hooks thread = hook :: hooks) :
    ((sequence.call returned hook).1.setHooks thread
      ((sequence.call returned hook).2 ++ hooks)).Forwarded := by
  cases hook with
  | discardFuture other => exact forwarded.discardFuture returned top
  | discardInner other => exact forwarded.discardInner returned top
  | discardNotifier other =>
      simp only [call]
      split
      · refine forwarded.frame (fun _ number => mem_setHooks_iff rfl top (by simp) ?_) fun number => ?_
        · cases other <;> simp
        · simp only [setHooks, setEntry_entry]
          split <;> simp [*]
      · exact forwarded.frame (fun _ _ => mem_setHooks_iff rfl top (by simp) (by simp))
          fun _ => ⟨rfl, rfl, rfl, id⟩
  | completed other =>
      refine forwarded.frame (fun _ number => mem_setHooks_iff rfl top (by simp) ?_) fun number => ?_
      · simp only [call]
        split <;> simp
      · simp only [call, setHooks, setEntry_entry]
        split <;> simp [*]
  | notified other => exact forwarded.notified top
  | invoke other =>
      refine forwarded.frame (fun _ number => mem_setHooks_iff rfl top (by simp) (by simp [call,
        SequenceProcess.invoke])) fun number => ?_
      simp only [call, SequenceProcess.invoke, setHooks, setEntry_entry]
      split <;> simp [*]
  | associate other => exact forwarded.associate returned top

theorem Forwarded.step {event : SequenceEvent} (forwarded : sequence.Forwarded)
    (isTurn : sequence.Turn turn holder) (stepped : sequence.step event = some next) :
    next.Forwarded := by
  cases step_cases stepped with
  | add live free =>
      have hooks (thread number : Nat) : .discardInner number ∈ sequence.add.hooks thread ↔
          .discardInner number ∈ sequence.hooks thread := by
        rw [SequenceProcess.add, setHooks_hooks]
        split
        · rename_i zero
          rw [zero, free]
          split <;> simp
        · rfl
      refine forwarded.setEntry rfl (fun thread number _ => hooks thread number)
        (fun flagged => by cases flagged) (fun thread member => ?_) (fun called => by cases called)
      have associated := (forwarded.requested thread sequence.count ((hooks _ _).mp member)).2
      simp [(isTurn.later sequence.count (.inr (Nat.le_refl _))).associated] at associated
  | finalize live free =>
      refine forwarded.frame (fun thread number => ?_) fun _ => ⟨rfl, rfl, rfl, id⟩
      rw [SequenceProcess.finalize, setHooks_hooks]
      split
      · rename_i zero
        rw [zero, free]
        split <;> simp
      · rfl
  | discard thread number =>
      refine forwarded.frame (fun thread' other => ?_) fun _ => ⟨rfl, rfl, rfl, id⟩
      rw [setHooks_hooks]
      split <;> simp [*]
  | complete thread number outcome =>
      refine forwarded.frame (fun thread' other => ?_) fun other => ?_
      · rw [setHooks_hooks]
        split
        · rename_i same
          simp [same]
        · rfl
      · simp only [setHooks, setEntry_entry]
        split <;> simp [*]
  | run thread hook hooks returned top =>
      exact forwarded.run returned top

end SequenceProcess

end Libprocess.Sequence
