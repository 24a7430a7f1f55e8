import Libprocess.Sequence.Forwarding

/-!
# Serialization

The invariants of the sequence together, and what they give: callbacks run in the order in
which they were added, and a discard cancels its own callback only.  A sequence that is
finalized invokes nothing any more, unless a thread had tested the future of a callback before
`finalize` discarded it, and calls the callback afterwards.
-/

namespace Libprocess.Sequence

open Concurrency

namespace SequenceProcess

variable {sequence next later : SequenceProcess} {turn : Nat} {holder : Option (Nat × Hook)}

/-- The invariants of the sequence. -/
structure Consistent (sequence : SequenceProcess) : Prop where
  turn : ∃ turn holder, sequence.Turn turn holder
  recorded : sequence.Recorded
  requests : sequence.Requests
  forwarded : sequence.Forwarded
  storm : ∃ low active, sequence.Storm low active

theorem Consistent.init : init.Consistent :=
  ⟨⟨0, none, .init⟩, .init, .init, .init, ⟨0, false, .init⟩⟩

theorem Consistent.step {event : SequenceEvent} (consistent : sequence.Consistent)
    (stepped : sequence.step event = some next) : next.Consistent := by
  obtain ⟨⟨turn, holder, isTurn⟩, recorded, requests, forwarded, ⟨low, active, storm⟩⟩ :=
    consistent
  exact ⟨isTurn.step (fun number associated pending =>
      ((recorded.entries number).invoked ((recorded.entries number).associated associated)).trans
        pending) stepped,
    recorded.step isTurn stepped, requests.step stepped, forwarded.step isTurn stepped,
    storm.step isTurn requests stepped⟩

theorem consistent_of_reachable (reached : machine.Reachable sequence) : sequence.Consistent := by
  refine reached.invariant Consistent ?_ ?_
  · rintro state rfl
    exact .init
  · intro state event next consistent _ stepped
    exact consistent.step stepped

/-- A callback comes after the ones before it are complete. -/
theorem Turn.previous_done (isTurn : sequence.Turn turn holder) (recorded : sequence.Recorded)
    {number previous : Nat} (began : number ∈ sequence.invocations ∨
      (sequence.entry number).result ≠ none) (before : previous < number) :
    (sequence.entry previous).result ≠ none := by
  refine isTurn.done previous (Nat.lt_of_lt_of_le before (Nat.not_lt.mp fun beyond => ?_))
  have untouched := isTurn.later number (.inl beyond)
  rcases began with member | complete
  · have invoked := (recorded.mem_iff number).mp member
    simp [untouched.invoked] at invoked
  · exact complete untouched.result

/-- When no call is under way, the turn has come to every callback whose predecessors are
complete. -/
theorem Turn.of_idle (isTurn : sequence.Turn turn holder) (recorded : sequence.Recorded)
    (idle : ∀ thread, sequence.hooks thread = []) {number : Nat} (added : number < sequence.count)
    (previous : ∀ previous < number, (sequence.entry previous).result ≠ none) :
    number ∈ sequence.invocations ∨ (sequence.entry number).discard = true ∧
      (sequence.entry number).result = some .discarded := by
  have skipped (less : number < turn) : number ∈ sequence.invocations ∨
      (sequence.entry number).discard = true ∧
        (sequence.entry number).result = some .discarded := by
    cases invoked : (sequence.entry number).invoked with
    | true => exact .inl ((recorded.mem_iff number).mpr invoked)
    | false =>
        obtain ⟨result, discard⟩ := ((recorded.entries number).skipped invoked).2.resolve_left
          (isTurn.done number less)
        exact .inr ⟨discard, result⟩
  have current := isTurn.current
  cases holder with
  | some pair =>
      have holds := isTurn.holds pair.1
      rw [idle] at holds
      simp [held] at holds
  | none =>
      rcases current with last | ⟨-, associated, pending⟩
      · exact skipped (last ▸ added)
      · rcases Nat.lt_trichotomy number turn with less | same | more
        · exact skipped less
        · exact .inl ((recorded.mem_iff number).mpr
            ((recorded.entries number).associated (same ▸ associated)))
        · exact absurd pending (previous turn more)

/-- When `finalize` has returned, every future that is pending has a discard request. -/
theorem Consistent.discarded (consistent : sequence.Consistent)
    (finalized : sequence.finalized = true) (returned : sequence.hooks 0 = []) {number : Nat}
    (less : number < sequence.count) (pending : (sequence.entry number).result = none) :
    (sequence.entry number).discard = true := by
  obtain ⟨⟨turn, holder, isTurn⟩, -, -, -, ⟨low, active, storm⟩⟩ := consistent
  have inactive : active = false := by
    have known := storm.hooks 0
    rw [returned] at known
    cases active with
    | false => rfl
    | true => simp [storms] at known
  have least : low ≤ turn := by
    rcases storm.after finalized with isActive | zero | set
    · simp [inactive] at isActive
    · omega
    · have := (isTurn.set_iff (low - 1)).mp set
      omega
  have notBefore : turn ≤ number := Nat.not_lt.mp fun before => isTurn.done number before pending
  rcases storm.flagged number (Nat.le_trans least notBefore) less pending with flag | member
  · exact flag
  · rw [returned] at member
    cases member

/-- A callback is invoked by the thread that is about to call it. -/
theorem invocations_step {event : SequenceEvent} (stepped : sequence.step event = some next) :
    next.invocations = sequence.invocations ∨ ∃ thread number hooks,
      sequence.hooks thread = .invoke number :: hooks ∧
      next.invocations = sequence.invocations ++ [number] := by
  cases step_cases stepped with
  | add | finalize | discard | complete =>
      exact .inl rfl
  | run thread hook hooks returned top =>
      cases hook with
      | discardFuture | discardInner | discardNotifier =>
          exact .inl (call_of_stays sequence returned rfl).2.2.1
      | completed | associate => exact .inl rfl
      | notified number =>
          simp only [call, SequenceProcess.notified]
          split <;> exact .inl rfl
      | invoke number => exact .inr ⟨thread, number, hooks, top, rfl⟩

/-- A thread is about to call a callback after it has found no discard request. -/
theorem invoke_step {event : SequenceEvent} (stepped : sequence.step event = some next)
    {thread number : Nat} (member : .invoke number ∈ next.hooks thread) :
    .invoke number ∈ sequence.hooks thread ∨ (sequence.entry number).discard = false := by
  cases step_cases stepped with
  | add =>
      rw [SequenceProcess.add, setHooks_hooks] at member
      split at member
      · split at member <;> simp at member
      · exact .inl member
  | finalize =>
      rw [SequenceProcess.finalize, setHooks_hooks] at member
      split at member
      · split at member <;> simp at member
      · exact .inl member
  | discard other | complete other =>
      rw [setHooks_hooks] at member
      split at member
      · rename_i same
        exact .inl (same ▸ by simpa using member)
      · exact .inl member
  | run other hook hooks returned top =>
      rw [setHooks_hooks, call_hooks] at member
      split at member
      · rename_i same
        subst same
        rcases List.mem_append.mp member with new | rest
        · cases hook with
          | notified number =>
              simp only [call, SequenceProcess.notified] at new
              split at new
              · simp at new
              · rename_i unrequested
                obtain rfl := Hook.invoke.inj (List.mem_singleton.mp new)
                exact .inr (by simpa using unrequested)
          | discardNotifier number =>
              simp only [call] at new
              split at new
              · cases number <;> simp at new
              · cases new
          | discardFuture | discardInner | completed =>
              simp only [call] at new
              split at new
              · first
                  | (split at new <;> simp at new)
                  | simp at new
              · cases new
          | invoke => simp [call, SequenceProcess.invoke] at new
          | associate =>
              simp only [call, SequenceProcess.associate] at new
              split at new <;> split at new <;> simp at new
        · exact .inl (by simp [top, rest])
      · exact .inl member

/-- A request stays, and a result stays. -/
theorem entry_step {event : SequenceEvent} (isTurn : sequence.Turn turn holder)
    (stepped : sequence.step event = some next) {number : Nat} (added : number < sequence.count) :
    number < next.count ∧
      ((sequence.entry number).discard = true → (next.entry number).discard = true) ∧
      ((next.entry number).result = none → (sequence.entry number).result = none) := by
  cases step_cases stepped with
  | add =>
      have same : sequence.add.entry number = sequence.entry number :=
        Function.update_of_ne (Nat.ne_of_lt added) _ _
      rw [same]
      exact ⟨Nat.lt_succ_of_lt added, id, id⟩
  | finalize | discard =>
      exact ⟨added, id, id⟩
  | complete thread other outcome =>
      refine ⟨added, ?_⟩
      simp only [setHooks, setEntry_entry]
      split <;> simp_all
  | run thread hook hooks returned top =>
      refine ⟨?_, call_discard sequence returned hook number,
        (call_entry isTurn returned top number).2.2⟩
      change number < (sequence.call returned hook).1.count
      rwa [call_count]

/-- A callback that was cancelled before its future was tested. -/
structure Cancelled (sequence : SequenceProcess) (number : Nat) : Prop where
  added : number < sequence.count
  discard : (sequence.entry number).discard = true
  uninvoked : number ∉ sequence.invocations
  waits : ∀ thread, .invoke number ∉ sequence.hooks thread

theorem Cancelled.step {number : Nat} {event : SequenceEvent} (cancelled : sequence.Cancelled number)
    (isTurn : sequence.Turn turn holder) (stepped : sequence.step event = some next) :
    next.Cancelled number := by
  obtain ⟨added, discard, -⟩ := entry_step isTurn stepped cancelled.added
  refine ⟨added, discard cancelled.discard, fun member => ?_, fun thread member => ?_⟩
  · rcases invocations_step stepped with same | ⟨thread, other, hooks, top, grown⟩
    · exact cancelled.uninvoked (same ▸ member)
    · rw [grown, List.mem_append, List.mem_singleton] at member
      obtain rfl := member.resolve_left cancelled.uninvoked
      exact cancelled.waits thread (by simp [top])
  · rcases invoke_step stepped member with before | unrequested
    · exact cancelled.waits thread before
    · simp [cancelled.discard] at unrequested

theorem Cancelled.leads {number : Nat} (reached : machine.Reachable sequence)
    (cancelled : sequence.Cancelled number) (path : machine.Leads sequence later) :
    later.Cancelled number := by
  refine path.preserves (Cancelled · number) reached cancelled ?_
  intro state event next reached cancelled stepped
  obtain ⟨turn, holder, isTurn⟩ := (consistent_of_reachable reached).turn
  exact cancelled.step isTurn stepped

theorem Recorded.of_cancelled {number : Nat} (recorded : sequence.Recorded)
    (uninvoked : number ∉ sequence.invocations) :
    (sequence.entry number).result = none ∨
      (sequence.entry number).result = some .discarded ∧ (sequence.entry number).discard = true :=
  ((recorded.entries number).skipped (Bool.eq_false_iff.mpr fun invoked =>
    uninvoked ((recorded.mem_iff number).mpr invoked))).2

/-- No callback will be invoked: the sequence is finalized, and all that were not are cancelled. -/
structure Silent (sequence : SequenceProcess) : Prop where
  finalized : sequence.finalized = true
  cancelled : ∀ number < sequence.count, number ∉ sequence.invocations → sequence.Cancelled number

/-- When `finalize` has returned, only a thread that has tested a future can call a callback. -/
theorem Consistent.silent (consistent : sequence.Consistent) (finalized : sequence.finalized = true)
    (returned : sequence.hooks 0 = [])
    (past : ∀ thread number, .invoke number ∉ sequence.hooks thread) : sequence.Silent := by
  refine ⟨finalized, fun number less uninvoked => ⟨less, ?_, uninvoked, fun thread => past thread _⟩⟩
  rcases consistent.recorded.of_cancelled uninvoked with pending | skipped
  · exact consistent.discarded finalized returned less pending
  · exact skipped.2

theorem Silent.step {event : SequenceEvent} (silent : sequence.Silent)
    (isTurn : sequence.Turn turn holder) (recorded : sequence.Recorded)
    (stepped : sequence.step event = some next) :
    next.Silent ∧ next.invocations = sequence.invocations := by
  have rest : next.finalized = true ∧ next.count = sequence.count := by
    cases step_cases stepped with
    | add live | finalize live => simp [silent.finalized] at live
    | discard | complete =>
        exact ⟨silent.finalized, rfl⟩
    | run thread hook hooks returned top =>
        exact ⟨(call_requests sequence returned hook).2.1.trans silent.finalized,
          call_count sequence returned hook⟩
  have same : next.invocations = sequence.invocations := by
    rcases invocations_step stepped with same | ⟨thread, number, hooks, top, -⟩
    · exact same
    · obtain ⟨-, -, less, rfl, untouched⟩ := isTurn.top top rfl
      have uninvoked : number ∉ sequence.invocations := fun member => by
        simpa [untouched.invoked] using (recorded.mem_iff number).mp member
      exact absurd (by simp [top]) ((silent.cancelled number less uninvoked).waits thread)
  refine ⟨⟨rest.1, fun number less uninvoked => ?_⟩, same⟩
  exact (silent.cancelled number (rest.2 ▸ less) (same ▸ uninvoked)).step isTurn stepped

theorem Silent.leads (reached : machine.Reachable sequence) (silent : sequence.Silent)
    (path : machine.Leads sequence later) : later.invocations = sequence.invocations := by
  refine (path.preserves (fun later => later.Silent ∧ later.invocations = sequence.invocations)
    reached ⟨silent, rfl⟩ ?_).2
  intro state event next reached kept stepped
  obtain ⟨⟨turn, holder, isTurn⟩, recorded, -⟩ := consistent_of_reachable reached
  obtain ⟨silent, same⟩ := kept.1.step isTurn recorded stepped
  exact ⟨silent, same.trans kept.2⟩

/-- A thread makes the calls above one of its calls, if they request discards of futures only. -/
theorem leads_top {thread : Nat} {hook : Hook} {above rest : List Hook}
    (plain : ∀ call ∈ above, ∃ number, call = .discardFuture number ∨ call = .discardInner number)
    (top : sequence.hooks thread = above ++ hook :: rest) :
    ∃ later, machine.Leads sequence later ∧ later.hooks thread = hook :: rest ∧
      later.invocations = sequence.invocations := by
  induction above generalizing sequence with
  | nil => exact ⟨sequence, .refl, top, rfl⟩
  | cons first above ih =>
      have moves (state : SequenceProcess) {call : Hook} {hooks : List Hook}
          (known : state.hooks thread = call :: hooks) (stays : call.passesTurn = false) :
          ∃ next, machine.Leads state next ∧
            next.hooks thread = (state.call none call).2 ++ hooks ∧
            next.invocations = state.invocations := by
        have stepped : machine.step state (.run thread none) =
            some ((state.call none call).1.setHooks thread ((state.call none call).2 ++ hooks)) := by
          simp only [machine, SequenceProcess.step, known]
        exact ⟨_, .step .refl stepped, by simp, (call_of_stays state none stays).2.2.1⟩
      have inner (state : SequenceProcess) {number : Nat} (known : state.hooks thread =
          .discardInner number :: (above ++ hook :: rest)) : ∃ later, machine.Leads state later ∧
            later.hooks thread = hook :: rest ∧ later.invocations = state.invocations := by
        obtain ⟨next, path, hooks, same⟩ := moves state known rfl
        have none : (state.call none (.discardInner number)).2 = [] := by
          simp only [call]
          split <;> rfl
        obtain ⟨later, further, found, kept⟩ := ih
          (fun call member => plain call (List.mem_cons_of_mem _ member))
          (hooks.trans (by rw [none]; rfl))
        exact ⟨later, path.trans further, found, kept.trans same⟩
      obtain ⟨number, rfl | rfl⟩ := plain first List.mem_cons_self
      · obtain ⟨next, path, hooks, same⟩ := moves sequence top rfl
        have calls : (sequence.call none (.discardFuture number)).2 = [] ∨
            (sequence.call none (.discardFuture number)).2 = [.discardInner number] := by
          simp only [call]
          split
          · split <;> simp
          · exact .inl rfl
        obtain ⟨later, further, found, kept⟩ : ∃ later, machine.Leads next later ∧
            later.hooks thread = hook :: rest ∧ later.invocations = next.invocations := by
          rcases calls with none | passed
          · exact ih (fun call member => plain call (List.mem_cons_of_mem _ member))
              (hooks.trans (by rw [none]; rfl))
          · exact inner next (hooks.trans (by rw [passed]; rfl))
        exact ⟨later, path.trans further, found, kept.trans same⟩
      · exact inner sequence top

/-- A thread that has tested the future of a callback can call it, also when `finalize` has
returned. -/
theorem Consistent.calls (consistent : sequence.Consistent) (returned : sequence.hooks 0 = [])
    {thread number : Nat} (member : .invoke number ∈ sequence.hooks thread) :
    ∃ later, machine.Leads sequence later ∧
      later.invocations = sequence.invocations ++ [number] := by
  obtain ⟨⟨turn, holder, isTurn⟩, -, -, -, ⟨low, active, storm⟩⟩ := consistent
  obtain ⟨above, rest, split⟩ := List.append_of_mem member
  have other : thread ≠ 0 := by
    rintro rfl
    simp [returned] at member
  have holds := isTurn.holds thread
  obtain ⟨rfl, -⟩ := isTurn.of_mem member rfl
  rw [split, List.filter_append, List.filter_cons_of_pos rfl, held, if_pos rfl] at holds
  have aside : above.filter Hook.passesTurn = [] := by
    have sizes := congrArg List.length holds
    simp only [List.length_append, List.length_cons, List.length_nil] at sizes
    exact List.length_eq_zero_iff.mp (by omega)
  have calm := storm.hooks thread
  rw [if_neg fun both => other both.1, split, storms_append] at calm
  obtain ⟨later, path, top, same⟩ := leads_top (fun call listed => by
    have stays := List.filter_eq_nil_iff.mp aside call listed
    cases call with
    | discardFuture number => exact ⟨number, .inl rfl⟩
    | discardInner number => exact ⟨number, .inr rfl⟩
    | discardNotifier number =>
        have none := List.filterMap_eq_nil_iff.mp (List.append_eq_nil_iff.mp calm).1 _ listed
        cases none
    | completed | notified | invoke | associate => exact absurd rfl stays) split
  have stepped : machine.step later (.run thread none) =
      some ((later.invoke number).1.setHooks thread ((later.invoke number).2 ++ rest)) := by
    simp only [machine, SequenceProcess.step, top, SequenceProcess.call]
  exact ⟨_, path.step stepped, congrArg (· ++ [number]) same⟩

end SequenceProcess

/-- The callback that a call is about. -/
def Hook.number : Hook → Nat
  | .discardFuture number | .discardInner number | .discardNotifier number
  | .completed number | .notified number | .invoke number | .associate number => number

namespace SequenceProcess

variable {sequence next : SequenceProcess}

/-- A call changes the entry of its own callback only. -/
theorem call_other (sequence : SequenceProcess) (returned : Option Outcome) (hook : Hook)
    {other : Nat} (different : other ≠ hook.number) :
    (sequence.call returned hook).1.entry other = sequence.entry other := by
  cases hook with
  | discardFuture number | discardInner number | discardNotifier number =>
      simp only [call]
      split
      · rw [setEntry_entry]
        exact if_neg different
      · rfl
  | completed number | invoke number | associate number =>
      simp only [call, SequenceProcess.invoke, SequenceProcess.associate, setEntry_entry]
      exact if_neg different
  | notified number =>
      simp only [call, SequenceProcess.notified]
      split
      · simp only [setEntry_entry]
        exact if_neg different
      · rfl

/-- What a call does to the callback that it is about. -/
theorem invocations_run {thread : Nat} {hook : Hook} {hooks : List Hook}
    {returned : Option Outcome} (top : sequence.hooks thread = hook :: hooks)
    (stepped : sequence.step (.run thread returned) = some next) :
    (∀ other ≠ hook.number, next.entry other = sequence.entry other) ∧
      next.invocations = (if hook = .invoke hook.number
        then sequence.invocations ++ [hook.number] else sequence.invocations) ∧
      (hook = .notified hook.number → (sequence.entry hook.number).discard = true →
        (next.entry hook.number).result = some .discarded) := by
  simp only [SequenceProcess.step, top] at stepped
  cases stepped
  refine ⟨fun other different => call_other sequence returned hook different, ?_, ?_⟩
  · cases hook with
    | discardFuture | discardInner | discardNotifier =>
        exact (call_of_stays sequence returned rfl).2.2.1.trans (if_neg (by simp)).symm
    | completed | associate => exact (if_neg (by simp)).symm
    | notified number =>
        simp only [call, SequenceProcess.notified]
        split <;> exact (if_neg (by simp)).symm
    | invoke number => exact (if_pos rfl).symm
  · intro isNotified requested
    generalize hook.number = number at isNotified requested ⊢
    simp [isNotified, call, SequenceProcess.notified, requested, setHooks]

/-- What a sequence promises about its callbacks. -/
structure Serialized (sequence : SequenceProcess) : Prop where
  /-- They are invoked in the order in which they were added, each once at most, -/
  increasing : sequence.invocations.Pairwise (· < ·)
  /-- and each is invoked or skipped after the futures of the ones before it are complete. -/
  previous : ∀ number, number ∈ sequence.invocations ∨ (sequence.entry number).result ≠ none →
    ∀ previous < number, (sequence.entry previous).result ≠ none
  result : ∀ number ∈ sequence.invocations,
    (sequence.entry number).result = (sequence.entry number).inner
  skipped : ∀ number ∉ sequence.invocations, (sequence.entry number).result = none ∨
    (sequence.entry number).result = some .discarded ∧ (sequence.entry number).discard = true
  requests : ∀ number, (sequence.entry number).discard = true →
    number ∈ sequence.requested ∨ sequence.finalized = true
  /-- A discard and a call touch no other callback. -/
  discards : ∀ thread number next, sequence.step (.discard thread number) = some next →
    next.entry = sequence.entry ∧ next.invocations = sequence.invocations
  calls : ∀ thread hook hooks returned next, sequence.hooks thread = hook :: hooks →
    sequence.step (.run thread returned) = some next →
      (∀ other ≠ hook.number, next.entry other = sequence.entry other) ∧
      next.invocations = (if hook = .invoke hook.number
        then sequence.invocations ++ [hook.number] else sequence.invocations) ∧
      (hook = .notified hook.number → (sequence.entry hook.number).discard = true →
        (next.entry hook.number).result = some .discarded)
  /-- When nothing is under way, the turn has come to all whose predecessors are complete. -/
  served : (∀ thread, sequence.hooks thread = []) → ∀ number < sequence.count,
    (∀ previous < number, (sequence.entry previous).result ≠ none) →
      number ∈ sequence.invocations ∨ (sequence.entry number).discard = true ∧
        (sequence.entry number).result = some .discarded
  /-- A callback that is discarded before its turn, in which a thread tests its future and then
  calls it, is never invoked. -/
  cancelled : ∀ number < sequence.count, (sequence.entry number).discard = true →
    number ∉ sequence.invocations → (∀ thread, .invoke number ∉ sequence.hooks thread) →
      ∀ later, machine.Leads sequence later → number ∉ later.invocations ∧
        ((later.entry number).result = none ∨ (later.entry number).result = some .discarded)
  /-- When `finalize` has returned, the callback in progress has a discard request, which has
  reached the future that it has returned, or is on the way to it, -/
  progress : sequence.finalized = true → sequence.hooks 0 = [] →
    ∀ number ∈ sequence.invocations, (sequence.entry number).result = none →
      (sequence.entry number).discard = true ∧ ((sequence.entry number).innerDiscard = true ∨
        ∃ thread, .discardInner number ∈ sequence.hooks thread ∨
          .associate number ∈ sequence.hooks thread)
  /-- and no callback is invoked any more. -/
  silent : sequence.finalized = true → sequence.hooks 0 = [] →
    ∀ later, machine.Leads sequence later → later.invocations = sequence.invocations

/-- When `finalize` has returned, no thread is between the test whether the future of a callback has
a discard request and the call of the callback. -/
def Settled (sequence : SequenceProcess) : Prop :=
  sequence.finalized = true → sequence.hooks 0 = [] →
    ∀ thread number, .invoke number ∉ sequence.hooks thread

/-- The future of a callback in progress is discarded, or will be when it is associated. -/
theorem Consistent.progress (consistent : sequence.Consistent)
    (finalized : sequence.finalized = true) (returned : sequence.hooks 0 = []) {number : Nat}
    (invoked : (sequence.entry number).invoked = true)
    (pending : (sequence.entry number).result = none) :
    (sequence.entry number).discard = true ∧ ((sequence.entry number).innerDiscard = true ∨
      ∃ thread, .discardInner number ∈ sequence.hooks thread ∨
        .associate number ∈ sequence.hooks thread) := by
  have ⟨⟨turn, holder, isTurn⟩, recorded, _, forwarded, _⟩ := consistent
  have added : number < sequence.count := Nat.not_le.mp fun beyond => by
    simp [(isTurn.later number (.inr beyond)).invoked] at invoked
  have discard := consistent.discarded finalized returned added pending
  have inner := ((recorded.entries number).invoked invoked).symm.trans pending
  cases associated : (sequence.entry number).associated with
  | true =>
      exact ⟨discard, (forwarded.forwarded number associated discard inner).imp id
        fun ⟨thread, member⟩ => ⟨thread, .inl member⟩⟩
  | false =>
      obtain rfl : number = turn := by
        rcases Nat.lt_trichotomy number turn with before | same | after
        · exact absurd pending (isTurn.done number before)
        · exact same
        · simp [(isTurn.later number (.inl after)).invoked] at invoked
      have current := isTurn.current
      cases holder with
      | none =>
          rcases current with last | ⟨-, known, -⟩
          · omega
          · simp [associated] at known
      | some pair =>
          obtain ⟨thread, hook⟩ := pair
          have member : hook ∈ sequence.hooks thread := by
            have listed := isTurn.holds thread
            rw [held, if_pos rfl] at listed
            exact (List.mem_filter.mp (listed ▸ List.mem_singleton_self hook)).1
          cases hook with
          | associate other =>
              obtain ⟨rfl, -⟩ := current.2
              exact ⟨discard, .inr ⟨thread, .inr member⟩⟩
          | notified | invoke => simp [current.2.2.invoked] at invoked
          | completed => exact absurd pending current.2.2
          | discardFuture | discardInner | discardNotifier => exact absurd current.2 id

/-- The callbacks of a sequence are serialized if and only if no thread is about to call one that it
has tested when `finalize` has returned. -/
theorem callbacks_serialized_iff (reached : machine.Reachable sequence) :
    sequence.Serialized ↔ sequence.Settled := by
  have consistent := consistent_of_reachable reached
  have ⟨⟨turn, holder, isTurn⟩, recorded, requests, _, _⟩ := consistent
  constructor
  · intro serialized finalized returned thread number member
    obtain ⟨later, path, grown⟩ := consistent.calls returned member
    have same := serialized.silent finalized returned later path
    simp [grown] at same
  · intro settled
    refine ⟨recorded.increasing, fun number began previous before =>
        isTurn.previous_done recorded began before, fun number member =>
        (recorded.entries number).invoked ((recorded.mem_iff number).mp member),
      fun number => recorded.of_cancelled, requests.discarded,
      fun thread number next stepped => ?_, fun _ _ _ _ _ top stepped => invocations_run top stepped,
      fun idle number added previous => isTurn.of_idle recorded idle added previous,
      fun number added discard uninvoked waits later path => ?_,
      fun finalized returned number member =>
        consistent.progress finalized returned ((recorded.mem_iff number).mp member),
      fun finalized returned later path =>
        (consistent.silent finalized returned (settled finalized returned)).leads reached path⟩
    · simp only [SequenceProcess.step] at stepped
      split at stepped <;> cases stepped
      exact ⟨rfl, rfl⟩
    · have cancelled := Cancelled.leads reached ⟨added, discard, uninvoked, waits⟩ path
      have laterRecorded := (consistent_of_reachable (reached.leads path)).recorded
      exact ⟨cancelled.uninvoked, (laterRecorded.of_cancelled cancelled.uninvoked).imp id And.left⟩

/-- Three callbacks are added and the second one is discarded before its turn.  Then the
sequence is finalized while the third one is in progress. -/
def finalizedSchedule : List SequenceEvent :=
  List.flatten [[.add, .run 0 none, .run 0 none, .run 0 none, .add, .add, .discard 1 1,
     .run 1 none, .complete 2 0 .ready], List.replicate 6 (.run 2 none), [.finalize],
    List.replicate 4 (.run 0 none)]

theorem callbacks_serialized_iff_finalized : ∃ sequence, machine.run .init finalizedSchedule =
    some sequence ∧ sequence.invocations = [0, 2] ∧ sequence.finalized = true ∧
      sequence.hooks 0 = [] ∧ (sequence.entry 1).result = some .discarded ∧
      (sequence.entry 2).innerDiscard = true ∧ sequence.Serialized := by
  obtain ⟨sequence, ran, invocations, finalized, returned, skipped, third⟩ :
      ∃ sequence ∈ machine.run .init finalizedSchedule,
      sequence.invocations = [0, 2] ∧ sequence.finalized = true ∧ sequence.hooks 0 = [] ∧
      (sequence.entry 1).result = some .discarded ∧
      sequence.entry 2 = ⟨true, none, true, false, true, true, true, none⟩ := by
    decide +kernel
  have reached : machine.Reachable sequence := .of_run rfl ran
  refine ⟨sequence, ran, invocations, finalized, returned, skipped, by rw [third],
    (callbacks_serialized_iff reached).mpr fun _ _ thread number member => ?_⟩
  obtain ⟨⟨turn, holder, isTurn⟩, -⟩ := consistent_of_reachable reached
  have associated : (sequence.entry 2).associated = true := by rw [third]
  obtain ⟨-, rfl, -⟩ := isTurn.of_associated associated (by rw [third])
  cases (isTurn.of_mem member rfl).1

/-- The thread that completes the first future finds no discard request for the second one, and is
about to call its callback while `finalize` discards the future and returns. -/
def overtakenSchedule : List SequenceEvent :=
  [.add, .run 0 none, .run 0 none, .run 0 none, .add, .complete 2 0 .ready, .run 2 none,
    .run 2 none, .finalize] ++ List.replicate 3 (.run 0 none)

/-- The second callback is called after `finalize` has returned. -/
theorem not_callbacks_serialized : ∃ sequence later, machine.Reachable sequence ∧
    sequence.finalized = true ∧ sequence.hooks 0 = [] ∧ sequence.invocations = [0] ∧
      (sequence.entry 1).discard = true ∧ sequence.step (.run 2 none) = some later ∧
      later.invocations = [0, 1] ∧ ¬ sequence.Serialized := by
  obtain ⟨sequence, ran, finalized, returned, invocations, discard, top⟩ :
      ∃ sequence ∈ machine.run .init overtakenSchedule,
      sequence.finalized = true ∧ sequence.hooks 0 = [] ∧ sequence.invocations = [0] ∧
      (sequence.entry 1).discard = true ∧ sequence.hooks 2 = [.invoke 1] := by
    decide +kernel
  have stepped : machine.step sequence (.run 2 none) =
      some ((sequence.invoke 1).1.setHooks 2 ((sequence.invoke 1).2 ++ [])) := by
    simp only [machine, SequenceProcess.step, top, SequenceProcess.call]
  have grown : ((sequence.invoke 1).1.setHooks 2 ((sequence.invoke 1).2 ++ [])).invocations =
      [0, 1] := congrArg (· ++ [1]) invocations
  refine ⟨sequence, _, .of_run rfl ran, finalized, returned, invocations, discard, stepped, grown,
    fun serialized => ?_⟩
  have same := serialized.silent finalized returned _ (.step .refl stepped)
  rw [grown, invocations] at same
  cases same

end SequenceProcess

end Libprocess.Sequence
