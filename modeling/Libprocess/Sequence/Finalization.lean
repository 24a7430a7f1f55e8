import Libprocess.Sequence.Records

/-!
# The end of a sequence

`finalize` discards the last notifier, which discards its own future and then the notifier
before it, and so on back to the first notifier that is set.  When this is done, every future
that is still pending has a discard request, so no callback is invoked any more.
-/

namespace Libprocess.Sequence

/-- The notifiers that a thread is about to discard. -/
def storms (hooks : List Hook) : List Nat :=
  hooks.filterMap fun
    | .discardNotifier number => some number
    | _ => none

namespace SequenceProcess

variable {sequence next : SequenceProcess} {turn low : Nat} {holder : Option (Nat × Hook)}
  {active : Bool}

/-- How far `finalize` has come: the notifiers from `low` on are discarded, and the one
before `low` is next if it is `active`. -/
structure Storm (sequence : SequenceProcess) (low : Nat) (active : Bool) : Prop where
  bound : low ≤ sequence.count
  positive : active = true → 0 < low
  hooks : ∀ thread, storms (sequence.hooks thread) =
    if thread = 0 ∧ active = true then [low - 1] else []
  undiscarded : ∀ number < low, (sequence.entry number).notifierDiscard = false
  before : sequence.finalized = false → active = false ∧ low = sequence.count
  after : sequence.finalized = true → active = true ∨ low = 0 ∨
    (sequence.entry (low - 1)).notifierSet = true
  flagged : ∀ number, low ≤ number → number < sequence.count →
    (sequence.entry number).result = none → (sequence.entry number).discard = true ∨
      .discardFuture number ∈ sequence.hooks 0

theorem Storm.init : init.Storm 0 false :=
  ⟨Nat.le_refl 0, nofun, fun _ => by simp [SequenceProcess.init, storms], nofun,
    fun _ => ⟨rfl, rfl⟩, nofun, nofun⟩

/-- What `finalize` depends on. -/
theorem Storm.frame (storm : sequence.Storm low active) (count : next.count = sequence.count)
    (finalized : next.finalized = sequence.finalized)
    (hooks : ∀ thread, storms (next.hooks thread) = storms (sequence.hooks thread))
    (entries : ∀ number,
      (next.entry number).notifierDiscard = (sequence.entry number).notifierDiscard ∧
      ((sequence.entry number).notifierSet = true → (next.entry number).notifierSet = true) ∧
      ((next.entry number).result = none → (sequence.entry number).result = none))
    (flagged : ∀ number, (next.entry number).result = none →
      (sequence.entry number).discard = true ∨ .discardFuture number ∈ sequence.hooks 0 →
        (next.entry number).discard = true ∨ .discardFuture number ∈ next.hooks 0) :
    next.Storm low active := by
  refine ⟨count ▸ storm.bound, storm.positive, fun thread => (hooks thread).trans
    (storm.hooks thread), fun number less => ?_, fun unfinalized => ?_, fun isFinal => ?_,
    fun number least less pending => ?_⟩
  · rw [(entries number).1]
    exact storm.undiscarded number less
  · rw [count]
    exact storm.before (finalized ▸ unfinalized)
  · exact (storm.after (finalized ▸ isFinal)).imp id (Or.imp id (entries (low - 1)).2.1)
  · exact flagged number pending
      (storm.flagged number least (count ▸ less) ((entries number).2.2 pending))

theorem storms_append (left right : List Hook) :
    storms (left ++ right) = storms left ++ storms right :=
  List.filterMap_append

/-- What a call does to an entry, apart from discarding a notifier. -/
theorem call_entry {thread : Nat} {hook : Hook} {hooks : List Hook}
    (isTurn : sequence.Turn turn holder) (returned : Option Outcome)
    (top : sequence.hooks thread = hook :: hooks) (number : Nat) :
    ((∀ other, hook ≠ .discardNotifier other) →
      ((sequence.call returned hook).1.entry number).notifierDiscard =
        (sequence.entry number).notifierDiscard) ∧
      ((sequence.entry number).notifierSet = true →
        ((sequence.call returned hook).1.entry number).notifierSet = true) ∧
      (((sequence.call returned hook).1.entry number).result = none →
        (sequence.entry number).result = none) := by
  cases hook with
  | discardFuture other | discardInner other | discardNotifier other =>
      simp only [call]
      split
      · rw [setEntry_entry]
        split <;> simp_all
      · exact ⟨fun _ => rfl, id, id⟩
  | completed other | invoke other =>
      simp only [call, SequenceProcess.invoke, setEntry_entry]
      split <;> simp_all
  | notified other =>
      obtain ⟨-, -, -, rfl, untouched⟩ := isTurn.top top rfl
      have pending := untouched.result
      simp only [call, SequenceProcess.notified]
      split
      · rw [setEntry_entry]
        split <;> simp_all
      · exact ⟨fun _ => rfl, id, id⟩
  | associate other =>
      obtain ⟨-, -, -, rfl, waits⟩ := isTurn.top top rfl
      have pending := waits.result
      simp only [call, SequenceProcess.associate, setEntry_entry]
      split <;> simp_all

theorem call_count (sequence : SequenceProcess) (returned : Option Outcome) (hook : Hook) :
    (sequence.call returned hook).1.count = sequence.count := by
  cases hook with
  | discardFuture | discardInner | discardNotifier =>
      simp only [call]
      split <;> rfl
  | completed | invoke | associate => rfl
  | notified =>
      simp only [call, SequenceProcess.notified]
      split <;> rfl

/-- After the call `discardFuture`, the future is completed or has a discard request. -/
theorem call_discardFuture (sequence : SequenceProcess) (returned : Option Outcome) (number : Nat)
    (pending : ((sequence.call returned (.discardFuture number)).1.entry number).result = none) :
    ((sequence.call returned (.discardFuture number)).1.entry number).discard = true := by
  simp only [call] at pending ⊢
  split
  · simp
  · rename_i refused
    simp only [refused, if_false] at pending
    simpa [pending] using refused

/-- A call other than `discardNotifier`. -/
theorem Storm.call {thread : Nat} {hook : Hook} {hooks : List Hook}
    (storm : sequence.Storm low active) (isTurn : sequence.Turn turn holder)
    (returned : Option Outcome) (top : sequence.hooks thread = hook :: hooks)
    (other : ∀ number, hook ≠ .discardNotifier number) :
    ((sequence.call returned hook).1.setHooks thread
      ((sequence.call returned hook).2 ++ hooks)).Storm low active := by
  obtain ⟨-, finalized, -, calls⟩ := call_requests sequence returned hook
  have sameHooks := call_hooks sequence returned hook
  have entries := call_entry isTurn returned top
  refine storm.frame (call_count sequence returned hook) finalized (fun thread' => ?_)
    (fun number => ⟨(entries number).1 other, (entries number).2⟩) fun number pending known => ?_
  · rw [setHooks_hooks, sameHooks]
    split
    · rename_i equal
      have none : storms (sequence.call returned hook).2 = [] := by
        refine List.filterMap_eq_nil_iff.mpr fun call member => ?_
        cases call with
        | discardNotifier number =>
            obtain ⟨previous, same⟩ := calls number (.inr member)
            exact absurd same (other previous)
        | _ => rfl
      rw [storms_append, none, List.nil_append, equal, top]
      cases hook with
      | discardNotifier number => exact absurd rfl (other number)
      | _ => rfl
    · rfl
  · rcases known with requested | member
    · exact .inl (call_discard sequence returned hook number requested)
    · by_cases own : hook = .discardFuture number
      · subst own
        exact .inl (call_discardFuture sequence returned number pending)
      · right
        rw [setHooks_hooks, sameHooks]
        split
        · rename_i zero
          rw [zero, top] at member
          rcases List.mem_cons.mp member with same | rest
          · exact absurd same.symm own
          · exact List.mem_append_right _ rest
        · exact member

/-- The notifier that is discarded next is the last one that is not discarded. -/
theorem Storm.of_discardNotifier {thread number : Nat} {hooks : List Hook}
    (storm : sequence.Storm low active)
    (top : sequence.hooks thread = .discardNotifier number :: hooks) :
    thread = 0 ∧ active = true ∧ low = number + 1 ∧ storms hooks = [] := by
  have known := storm.hooks thread
  rw [top] at known
  change number :: storms hooks = _ at known
  split at known
  · rename_i both
    simp only [List.cons.injEq] at known
    have positive := storm.positive both.2
    exact ⟨both.1, both.2, by omega, known.2⟩
  · cases known

theorem Storm.discardNotifier {thread number : Nat} {hooks : List Hook}
    (storm : sequence.Storm low active) (returned : Option Outcome)
    (top : sequence.hooks thread = .discardNotifier number :: hooks)
    (finalized : sequence.finalized = true) :
    ∃ low active, ((sequence.call returned (.discardNotifier number)).1.setHooks thread
      ((sequence.call returned (.discardNotifier number)).2 ++ hooks)).Storm low active := by
  obtain ⟨rfl, rfl, rfl, rest⟩ := storm.of_discardNotifier top
  have bound := storm.bound
  have undiscarded := storm.undiscarded number (Nat.lt_succ_self number)
  have kept (calls : List Hook) {other : Nat} (known : (sequence.entry other).discard = true ∨
      .discardFuture other ∈ sequence.hooks 0) : (sequence.entry other).discard = true ∨
      .discardFuture other ∈ calls ++ hooks := by
    rw [top] at known
    refine known.imp id fun member => List.mem_append_right _ ?_
    simpa using member
  have others (other : Nat) (different : other ≠ 0) : storms (sequence.hooks other) = [] := by
    rw [storm.hooks other, if_neg fun both => different both.1]
  simp only [SequenceProcess.call]
  split
  · -- The notifier is discarded, then its future and the notifier before.
    refine ⟨number, decide (0 < number), by simp only [setHooks, setEntry]; omega, by simp,
      fun thread => ?_, fun other less => ?_, fun unfinalized => ?_, fun _ => ?_,
      fun other least less pending => ?_⟩
    · rw [setHooks_hooks]
      split
      · rename_i zero
        rw [storms_append, rest, zero]
        cases number <;> simp [storms]
      · rename_i different
        rw [if_neg fun both => different both.1]
        exact others thread different
    · simp only [setHooks, setEntry_entry]
      rw [if_neg (by omega)]
      exact storm.undiscarded other (by omega)
    · simp [setHooks, setEntry, finalized] at unfinalized
    · rcases Nat.eq_zero_or_pos number with zero | positive
      · exact .inr (.inl zero)
      · exact .inl (by simp [positive])
    · simp only [setHooks, setEntry_entry] at pending ⊢
      by_cases own : other = number
      · exact .inr (by simp [own])
      · rw [if_neg own] at pending ⊢
        rw [Function.update_self]
        exact kept _ (storm.flagged other (by omega) less pending)
  · -- The notifier is set, so everything before is complete.
    rename_i refused
    have isSet : (sequence.entry number).notifierSet = true := by
      simpa [undiscarded] using refused
    refine ⟨number + 1, false, bound, (by simp), fun thread => ?_, storm.undiscarded,
      fun unfinalized => ?_, fun _ => .inr (.inr isSet), fun other least less pending => ?_⟩
    · rw [setHooks_hooks]
      split
      · simpa using rest
      · rename_i different
        simpa using others thread different
    · simp [setHooks, finalized] at unfinalized
    · rw [setHooks_hooks, if_pos rfl]
      exact kept [] (storm.flagged other least less pending)

theorem Storm.step {event : SequenceEvent} (storm : sequence.Storm low active)
    (isTurn : sequence.Turn turn holder) (requests : sequence.Requests)
    (stepped : sequence.step event = some next) :
    ∃ low active, next.Storm low active := by
  cases step_cases stepped with
  | add live free =>
      obtain ⟨rfl, rfl⟩ := storm.before live
      refine ⟨sequence.count + 1, false, Nat.le_refl _, (by simp), fun thread => ?_,
        fun number less => ?_, fun _ => ⟨rfl, rfl⟩, fun isFinal => ?_, fun number least less => ?_⟩
      · simp only [SequenceProcess.add, setHooks_hooks]
        split
        · split <;> simp [storms]
        · rename_i different
          exact (storm.hooks thread).trans (by simp)
      · simp only [SequenceProcess.add, setHooks, setEntry_entry]
        split
        · rfl
        · exact storm.undiscarded number (by omega)
      · cases live.symm.trans isFinal
      · exact absurd less (Nat.not_lt.mpr least)
  | finalize live free =>
      obtain ⟨rfl, rfl⟩ := storm.before live
      refine ⟨sequence.count, decide (0 < sequence.count), Nat.le_refl _, by simp,
        fun thread => ?_, storm.undiscarded, fun live => ?_, fun _ => ?_,
        fun number least less => ?_⟩
      · simp only [SequenceProcess.finalize, setHooks_hooks]
        split
        · split <;> simp_all [storms]
        · rename_i different
          rw [if_neg fun both => different both.1]
          exact (storm.hooks thread).trans (by simp)
      · cases live
      · rcases Nat.eq_zero_or_pos sequence.count with zero | positive
        · exact .inr (.inl zero)
        · exact .inl (by simp [positive])
      · exact absurd less (Nat.not_lt.mpr least)
  | discard thread number =>
      refine ⟨low, active, storm.frame rfl rfl (fun thread' => ?_) (fun _ => ⟨rfl, id, id⟩)
        fun other _ known => known.imp id fun member => ?_⟩
      · rw [setHooks_hooks]
        split
        · rename_i same
          rw [same]
          rfl
        · rfl
      · rw [setHooks_hooks]
        split
        · rename_i zero
          exact List.mem_cons_of_mem _ (zero ▸ member)
        · exact member
  | complete thread number outcome =>
      refine ⟨low, active, storm.frame rfl rfl (fun thread' => ?_) (fun other => ?_)
        fun other pending known => ?_⟩
      · rw [setHooks_hooks]
        split
        · rename_i same
          rw [same]
          rfl
        · rfl
      · simp only [setHooks, setEntry_entry]
        split <;> simp_all
      · simp only [setHooks, setEntry_entry] at pending ⊢
        split at pending
        · cases pending
        · rename_i different
          rw [if_neg different]
          refine known.imp id fun member => ?_
          by_cases zero : 0 = thread
          · rw [← zero, Function.update_self]
            exact List.mem_cons_of_mem _ member
          · rwa [Function.update_of_ne zero]
  | run thread hook hooks returned top =>
      by_cases notifier : ∃ number, hook = .discardNotifier number
      · obtain ⟨number, rfl⟩ := notifier
        exact storm.discardNotifier returned top (requests.finalized thread number (by simp [top]))
      · exact ⟨low, active, storm.call isTurn returned top fun number same =>
          notifier ⟨number, same⟩⟩

end SequenceProcess

end Libprocess.Sequence
