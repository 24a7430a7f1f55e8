import Libprocess.Sequence.Process
import Mathlib.Tactic.Common

/-!
# The turns of the callbacks

The notifiers are set in order.  The first one that is not set belongs to the callback whose
turn it is: the call `notified` is under way, or the callback was invoked and its future is
associated and pending, or the call `completed` is under way.  There is one such call at most,
on one thread.  The callbacks behind have not been touched.
-/

namespace Libprocess.Sequence

/-- The calls that pass the turn on. -/
def Hook.passesTurn : Hook → Bool
  | .completed _ | .notified _ | .invoke _ | .associate _ => true
  | .discardFuture _ | .discardInner _ | .discardNotifier _ => false

/-- The calls under way that pass the turn on, if one thread at most makes one. -/
def held (holder : Option (Nat × Hook)) (thread : Nat) : List Hook :=
  match holder with
  | none => []
  | some (owner, hook) => if thread = owner then [hook] else []

/-- A callback that has no result, and whose future is not associated. -/
structure Entry.Waits (entry : Entry) (invoked : Bool) : Prop where
  invoked : entry.invoked = invoked
  associated : entry.associated = false
  result : entry.result = none
  inner : entry.inner = none

/-- A callback whose turn has not come. -/
abbrev Entry.Untouched (entry : Entry) : Prop := entry.Waits false

/-- How far the callback whose turn it is has come. -/
def Hook.At (turn : Nat) (entry : Entry) : Hook → Prop
  | .notified number | .invoke number => number = turn ∧ entry.Untouched
  | .associate number => number = turn ∧ entry.Waits true
  | .completed number => number = turn ∧ entry.result ≠ none
  | .discardFuture _ | .discardInner _ | .discardNotifier _ => False

/-- Only the discard requests differ. -/
structure Entry.Keeps (entry next : Entry) : Prop where
  notifierSet : next.notifierSet = entry.notifierSet
  result : next.result = entry.result
  invoked : next.invoked = entry.invoked
  associated : next.associated = entry.associated
  inner : next.inner = entry.inner

theorem Entry.Keeps.rfl {entry : Entry} : entry.Keeps entry :=
  ⟨.refl _, .refl _, .refl _, .refl _, .refl _⟩

theorem Entry.Keeps.waits {entry next : Entry} (keeps : entry.Keeps next) {invoked : Bool}
    (waits : entry.Waits invoked) : next.Waits invoked :=
  ⟨keeps.invoked.trans waits.invoked, keeps.associated.trans waits.associated,
    keeps.result.trans waits.result, keeps.inner.trans waits.inner⟩

theorem Hook.At.keeps {entry next : Entry} (keeps : entry.Keeps next) {turn : Nat} {hook : Hook}
    (known : hook.At turn entry) : hook.At turn next := by
  cases hook with
  | notified | invoke | associate => exact ⟨known.1, keeps.waits known.2⟩
  | completed => exact ⟨known.1, keeps.result ▸ known.2⟩
  | discardFuture | discardInner | discardNotifier => exact known

namespace SequenceProcess

variable {sequence next : SequenceProcess} {turn : Nat} {holder : Option (Nat × Hook)}

@[simp] theorem setEntry_entry (sequence : SequenceProcess) (number other : Nat) (entry : Entry) :
    (sequence.setEntry number entry).entry other =
      if other = number then entry else sequence.entry other := by
  simp [setEntry, Function.update_apply]

@[simp] theorem setHooks_hooks (sequence : SequenceProcess) (thread other : Nat)
    (hooks : List Hook) :
    (sequence.setHooks thread hooks).hooks other =
      if other = thread then hooks else sequence.hooks other := by
  simp [setHooks, Function.update_apply]

/-- The callback whose turn it is, if there is one. -/
def Currently (sequence : SequenceProcess) (turn : Nat) : Option (Nat × Hook) → Prop
  | none => turn = sequence.count ∨ turn < sequence.count ∧
      (sequence.entry turn).associated = true ∧ (sequence.entry turn).result = none
  | some (_, hook) => turn < sequence.count ∧ hook.At turn (sequence.entry turn)

/-- Where the turn is. -/
structure Turn (sequence : SequenceProcess) (turn : Nat) (holder : Option (Nat × Hook)) :
    Prop where
  bound : turn ≤ sequence.count
  set_iff : ∀ number, (sequence.entry number).notifierSet = true ↔ number < turn
  done : ∀ number < turn, (sequence.entry number).result ≠ none
  later : ∀ number, turn < number ∨ sequence.count ≤ number → (sequence.entry number).Untouched
  holds : ∀ thread, (sequence.hooks thread).filter Hook.passesTurn = held holder thread
  current : sequence.Currently turn holder

theorem Turn.init : init.Turn 0 none :=
  ⟨Nat.le_refl 0, fun _ => by simp [SequenceProcess.init, Entry.init], nofun,
    fun _ _ => ⟨rfl, rfl, rfl, rfl⟩, fun _ => rfl, .inl rfl⟩

/-- What the turn depends on. -/
theorem Turn.frame (isTurn : sequence.Turn turn holder) (count : next.count = sequence.count)
    (entries : ∀ number, (sequence.entry number).Keeps (next.entry number))
    (hooks : ∀ thread, (next.hooks thread).filter Hook.passesTurn =
      (sequence.hooks thread).filter Hook.passesTurn) : next.Turn turn holder := by
  refine ⟨count ▸ isTurn.bound, fun number => ?_, fun number less => ?_,
    fun number beyond => (entries number).waits (isTurn.later number (count ▸ beyond)),
    fun thread => (hooks thread).trans (isTurn.holds thread), ?_⟩
  · rw [(entries number).notifierSet]
    exact isTurn.set_iff number
  · rw [(entries number).result]
    exact isTurn.done number less
  · have current := isTurn.current
    cases holder with
    | none =>
        simp only [Currently, count, (entries turn).associated, (entries turn).result] at current ⊢
        exact current
    | some held => exact ⟨count ▸ current.1, current.2.keeps (entries turn)⟩

/-- The thread that is to pass the turn on is the only one. -/
theorem Turn.of_mem (isTurn : sequence.Turn turn holder) {thread : Nat} {hook : Hook}
    (member : hook ∈ sequence.hooks thread) (passes : hook.passesTurn = true) :
    holder = some (thread, hook) ∧ turn < sequence.count ∧ hook.At turn (sequence.entry turn) := by
  have listed := List.mem_filter.mpr ⟨member, passes⟩
  rw [isTurn.holds thread] at listed
  cases holder with
  | none => cases listed
  | some pair =>
      obtain ⟨owner, other⟩ := pair
      simp only [held] at listed
      split at listed
      · rename_i same
        obtain rfl := List.mem_singleton.mp listed
        exact ⟨by rw [same], isTurn.current⟩
      · cases listed

theorem Turn.top (isTurn : sequence.Turn turn holder) {thread : Nat} {hook : Hook}
    {hooks : List Hook} (top : sequence.hooks thread = hook :: hooks)
    (passes : hook.passesTurn = true) :
    holder = some (thread, hook) ∧ hooks.filter Hook.passesTurn = [] ∧ turn < sequence.count ∧
      hook.At turn (sequence.entry turn) := by
  obtain ⟨rfl, current⟩ := isTurn.of_mem (top ▸ List.mem_cons_self) passes
  have holds := isTurn.holds thread
  rw [top, List.filter_cons_of_pos passes, held, if_pos rfl] at holds
  exact ⟨rfl, (List.cons.inj holds).2, current⟩

/-- A call that requests a discard sets flags only. -/
theorem call_of_stays (sequence : SequenceProcess) (returned : Option Outcome) {hook : Hook}
    (stays : hook.passesTurn = false) :
    (sequence.call returned hook).1.count = sequence.count ∧
      (sequence.call returned hook).1.hooks = sequence.hooks ∧
      (sequence.call returned hook).1.invocations = sequence.invocations ∧
      (sequence.call returned hook).2.filter Hook.passesTurn = [] ∧
      ∀ number, (sequence.entry number).Keeps ((sequence.call returned hook).1.entry number) := by
  cases hook with
  | completed | notified | invoke | associate => cases stays
  | discardFuture number | discardInner number | discardNotifier number =>
      simp only [call]
      split
      · refine ⟨rfl, rfl, rfl, ?_, fun other => ?_⟩
        · first
            | rfl
            | (split <;> rfl)
        · rw [setEntry_entry]
          split
          · rename_i same
            subst same
            constructor <;> rfl
          · exact .rfl
      · exact ⟨rfl, rfl, rfl, rfl, fun _ => .rfl⟩

/-- The calls of a thread that has made a call. -/
theorem filter_setHooks {thread other : Nat} {hooks calls : List Hook}
    (same : next.hooks = sequence.hooks) :
    ((next.setHooks thread (calls ++ hooks)).hooks other).filter Hook.passesTurn =
      if other = thread then calls.filter Hook.passesTurn ++ hooks.filter Hook.passesTurn
      else (sequence.hooks other).filter Hook.passesTurn := by
  rw [setHooks_hooks, same]
  split
  · rw [List.filter_append]
  · rfl

/-- A call that requests a discard leaves the turn where it is. -/
theorem Turn.discard (isTurn : sequence.Turn turn holder) {thread : Nat} {hook : Hook}
    {hooks : List Hook} {returned : Option Outcome} (top : sequence.hooks thread = hook :: hooks)
    (stays : hook.passesTurn = false) :
    ((sequence.call returned hook).1.setHooks thread
      ((sequence.call returned hook).2 ++ hooks)).Turn turn holder := by
  obtain ⟨count, same, -, none, entries⟩ := call_of_stays sequence returned stays
  refine isTurn.frame count entries fun other => ?_
  rw [filter_setHooks same]
  split
  · rename_i equal
    rw [equal, top, none, List.nil_append, List.filter_cons_of_neg (by simp [stays])]
  · rfl

/-- The callback whose turn it is makes progress. -/
theorem Turn.advance (isTurn : sequence.Turn turn holder) {after : Option (Nat × Hook)}
    (less : turn < sequence.count) (count : next.count = sequence.count)
    (others : ∀ other, other ≠ turn → next.entry other = sequence.entry other)
    (unset : (next.entry turn).notifierSet = false)
    (holds : ∀ thread, (next.hooks thread).filter Hook.passesTurn = held after thread)
    (current : next.Currently turn after) : next.Turn turn after := by
  refine ⟨count ▸ isTurn.bound, fun number => ?_, fun number before => ?_,
    fun number beyond => ?_, holds, current⟩
  · by_cases same : number = turn
    · rw [same, unset]
      simp
    · rw [others number same]
      exact isTurn.set_iff number
  · rw [others number (by omega)]
    exact isTurn.done number before
  · rw [others number (by omega)]
    exact isTurn.later number (count ▸ beyond)

theorem Turn.unset (isTurn : sequence.Turn turn holder) :
    (sequence.entry turn).notifierSet = false := by
  have known := isTurn.set_iff turn
  simpa using known

/-- The thread that held the turn makes its next calls. -/
theorem Turn.held_setHooks {thread : Nat} {hook : Hook} {hooks calls : List Hook}
    (isTurn : sequence.Turn turn (some (thread, hook)))
    (rest : hooks.filter Hook.passesTurn = []) (same : next.hooks = sequence.hooks)
    (after : Option Hook) (passes : calls.filter Hook.passesTurn = after.toList) (other : Nat) :
    ((next.setHooks thread (calls ++ hooks)).hooks other).filter Hook.passesTurn =
      held (after.map (thread, ·)) other := by
  rw [filter_setHooks same]
  split
  · rename_i equal
    rw [rest, List.append_nil, passes]
    cases after <;> simp [held, equal]
  · rename_i different
    rw [isTurn.holds other]
    cases after <;> simp [held, different]

/-- The thread that has the turn makes its call, which changes the entry of its callback. -/
theorem Turn.pass {thread : Nat} {hook : Hook} {hooks calls : List Hook} {entry : Entry}
    (isTurn : sequence.Turn turn (some (thread, hook)))
    (rest : hooks.filter Hook.passesTurn = []) (less : turn < sequence.count)
    (same : next.hooks = sequence.hooks) (count : next.count = sequence.count)
    (changed : next.entry = Function.update sequence.entry turn entry)
    (unset : entry.notifierSet = (sequence.entry turn).notifierSet) (after : Option Hook)
    (passes : calls.filter Hook.passesTurn = after.toList)
    (current : ∀ hook ∈ after, hook.At turn entry)
    (ends : after = none → entry.associated = true ∧ entry.result = none) :
    ∃ holder, (next.setHooks thread (calls ++ hooks)).Turn turn holder := by
  have own : (next.setHooks thread (calls ++ hooks)).entry turn = entry := by
    simp [setHooks, changed]
  refine ⟨_, isTurn.advance less count (fun other different => ?_) ?_
    (isTurn.held_setHooks rest same after passes) ?_⟩
  · exact (congrFun changed other).trans (Function.update_of_ne different _ _)
  · rw [own, unset]
    exact isTurn.unset
  · cases after with
    | none => exact .inr ⟨count ▸ less, own.symm ▸ ends rfl⟩
    | some following => exact ⟨count ▸ less, own.symm ▸ current following rfl⟩

section

variable (isTurn : sequence.Turn turn holder)

include isTurn

/-- The callback whose turn it is is skipped, or is about to be invoked. -/
theorem Turn.notified {thread number : Nat}
    {hooks : List Hook} (top : sequence.hooks thread = .notified number :: hooks) :
    ∃ after, ((sequence.notified number).1.setHooks thread
        ((sequence.notified number).2 ++ hooks)).Turn turn after := by
  obtain ⟨rfl, rest, less, rfl, untouched⟩ := isTurn.top top rfl
  unfold SequenceProcess.notified
  split
  · exact isTurn.pass rest less rfl rfl rfl rfl (some (.completed number)) rfl
      (by simp [Hook.At]) nofun
  · refine isTurn.pass rest less rfl rfl (Function.update_eq_self number sequence.entry).symm rfl
      (some (.invoke number)) rfl (fun hook member => ?_) nofun
    cases member
    exact ⟨rfl, untouched⟩

theorem Turn.invoke {thread number : Nat}
    {hooks : List Hook} (top : sequence.hooks thread = .invoke number :: hooks) :
    ∃ after, ((sequence.invoke number).1.setHooks thread
        ((sequence.invoke number).2 ++ hooks)).Turn turn after := by
  obtain ⟨rfl, rest, less, rfl, untouched⟩ := isTurn.top top rfl
  refine isTurn.pass rest less rfl rfl rfl rfl (some (.associate number)) rfl
    (fun hook member => ?_) nofun
  cases member
  exact ⟨rfl, rfl, untouched.associated, untouched.result, untouched.inner⟩

theorem Turn.associate {thread number : Nat}
    {hooks : List Hook} (returned : Option Outcome)
    (top : sequence.hooks thread = .associate number :: hooks) :
    ∃ after, ((sequence.associate number returned).1.setHooks thread
        ((sequence.associate number returned).2 ++ hooks)).Turn turn after := by
  obtain ⟨rfl, rest, less, rfl, -⟩ := isTurn.top top rfl
  have calls : (sequence.associate number returned).2.filter Hook.passesTurn =
      (returned.map fun _ => Hook.completed number).toList := by
    rw [SequenceProcess.associate, List.filter_append]
    cases returned <;> split <;> rfl
  refine isTurn.pass rest less rfl rfl rfl rfl _ calls (fun hook member => ?_) fun none => ?_
  · obtain ⟨outcome, rfl, rfl⟩ := Option.map_eq_some_iff.mp member
    exact ⟨rfl, by simp⟩
  · exact ⟨rfl, Option.map_eq_none_iff.mp none⟩

/-- The notifier is set, and the turn comes to the next callback. -/
theorem Turn.completed {thread number : Nat}
    {hooks : List Hook} (returned : Option Outcome)
    (top : sequence.hooks thread = .completed number :: hooks) :
    ∃ after, ((sequence.call returned (.completed number)).1.setHooks thread
        ((sequence.call returned (.completed number)).2 ++ hooks)).Turn (turn + 1) after := by
  obtain ⟨rfl, rest, less, rfl, result⟩ := isTurn.top top rfl
  simp only [call]
  refine ⟨_, less, fun other => ?_, fun other before => ?_, fun other beyond => ?_,
    isTurn.held_setHooks rest rfl
      (if number + 1 < sequence.count then some (.notified (number + 1)) else none) ?_, ?_⟩
  · have known := isTurn.set_iff other
    simp only [setHooks, setEntry_entry]
    split
    · simp only [true_iff]
      omega
    · rw [known]
      omega
  · simp only [setHooks, setEntry_entry]
    split
    · exact result
    · exact isTurn.done other (by omega)
  · simp only [setHooks, setEntry] at beyond
    simp only [setHooks, setEntry_entry]
    rw [if_neg (by omega)]
    exact isTurn.later other (by omega)
  · split <;> rfl
  · split
    · rename_i another
      refine ⟨another, rfl, ?_⟩
      simpa [setHooks] using isTurn.later (number + 1) (.inl (Nat.lt_succ_self number))
    · rename_i last
      left
      simp only [setHooks, setEntry]
      omega

/-- A future that is associated and pending belongs to the callback whose turn it is. -/
theorem Turn.of_associated {number : Nat}
    (associated : (sequence.entry number).associated = true)
    (pending : (sequence.entry number).result = none) :
    number = turn ∧ holder = none ∧ turn < sequence.count := by
  obtain rfl : number = turn := by
    rcases Nat.lt_trichotomy number turn with before | same | after
    · exact absurd pending (isTurn.done number before)
    · exact same
    · simp [(isTurn.later number (.inl after)).associated] at associated
  have current := isTurn.current
  cases holder with
  | none =>
      refine ⟨rfl, rfl, current.elim (fun last => ?_) And.left⟩
      simp [(isTurn.later number (.inr (Nat.le_of_eq last.symm))).associated] at associated
  | some pair =>
      have known := current.2
      generalize pair.2 = hook at known
      cases hook with
      | notified | invoke | associate => simp [known.2.associated] at associated
      | completed => exact absurd pending known.2
      | discardFuture | discardInner | discardNotifier => cases known

theorem Turn.complete {number : Nat}
    (outcome : Outcome) (thread : Nat) (associated : (sequence.entry number).associated = true)
    (pending : (sequence.entry number).result = none) :
    ∃ after, ((sequence.setEntry number { sequence.entry number with
        inner := some outcome
        result := some outcome }).setHooks thread (.completed number :: sequence.hooks thread)).Turn
      turn after := by
  obtain ⟨rfl, rfl, less⟩ := isTurn.of_associated associated pending
  refine ⟨some (thread, .completed number), isTurn.advance less rfl (fun other different => ?_) ?_
    (fun other => ?_) ⟨less, rfl, ?_⟩⟩
  · exact Function.update_of_ne different _ _
  · simpa [setHooks] using isTurn.unset
  · have free := isTurn.holds other
    rw [setHooks_hooks]
    split
    · rename_i same
      rw [List.filter_cons_of_pos rfl, ← same, free]
      simp [held, same]
    · rename_i different
      exact free.trans (if_neg different).symm
  · simp [setHooks]

theorem Turn.lastSet_iff :
    sequence.lastSet = true ↔ turn = sequence.count := by
  have bound := isTurn.bound
  unfold lastSet
  split
  · simp only [true_iff]
    omega
  · rename_i number equal
    rw [isTurn.set_iff number]
    omega

theorem Turn.add (free : sequence.hooks 0 = []) :
    ∃ after, sequence.add.Turn turn after := by
  have fresh : sequence.add.entry sequence.count = Entry.init := by
    simp [SequenceProcess.add, setHooks]
  have others {other : Nat} (different : other ≠ sequence.count) :
      sequence.add.entry other = sequence.entry other :=
    Function.update_of_ne different _ _
  have bound := isTurn.bound
  have set_iff (number : Nat) : (sequence.add.entry number).notifierSet = true ↔ number < turn := by
    by_cases new : number = sequence.count
    · rw [new, fresh]
      simpa [Entry.init] using bound
    · rw [others new]
      exact isTurn.set_iff number
  have done (number : Nat) (before : number < turn) :
      (sequence.add.entry number).result ≠ none := by
    rw [others (by omega)]
    exact isTurn.done number before
  have later (number : Nat) (beyond : turn < number ∨ sequence.count + 1 ≤ number) :
      (sequence.add.entry number).Untouched := by
    by_cases new : number = sequence.count
    · rw [new, fresh]
      exact ⟨rfl, rfl, rfl, rfl⟩
    · rw [others new]
      exact isTurn.later number (by omega)
  by_cases last : turn = sequence.count
  · obtain rfl : holder = none := by
      cases known : holder with
      | none => rfl
      | some pair =>
          have current := isTurn.current
          rw [known] at current
          exact absurd current.1 (by omega)
    refine ⟨some (0, .notified turn), Nat.le_succ_of_le bound, set_iff, done, later,
      fun thread => ?_, Nat.lt_succ_of_le bound, rfl, ?_⟩
    · rw [SequenceProcess.add, setHooks_hooks, if_pos (isTurn.lastSet_iff.mpr last)]
      split
      · rename_i same
        simp [held, same, Hook.passesTurn, last]
      · rename_i different
        exact (isTurn.holds thread).trans (if_neg different).symm
    · rw [last, fresh]
      exact ⟨rfl, rfl, rfl, rfl⟩
  · refine ⟨holder, Nat.le_succ_of_le bound, set_iff, done, later, fun thread => ?_, ?_⟩
    · rw [SequenceProcess.add, setHooks_hooks, if_neg (fun set => last (isTurn.lastSet_iff.mp set))]
      split
      · rename_i same
        rw [← isTurn.holds thread, same, free]
      · exact isTurn.holds thread
    · have current := isTurn.current
      have grown : sequence.add.count = sequence.count + 1 := rfl
      cases holder with
      | none =>
          simp only [Currently, others last, grown] at current ⊢
          exact .inr ⟨by omega, (current.resolve_left last).2⟩
      | some pair =>
          simp only [Currently, others last, grown] at current ⊢
          exact ⟨by omega, current.2⟩

end

/-- Every step leaves the turn with one callback. -/
theorem Turn.step {event : SequenceEvent} (isTurn : sequence.Turn turn holder)
    (settled : ∀ number, (sequence.entry number).associated = true →
      (sequence.entry number).inner = none → (sequence.entry number).result = none)
    (stepped : sequence.step event = some next) :
    ∃ turn holder, next.Turn turn holder := by
  cases step_cases stepped with
  | add live free =>
      obtain ⟨after, isTurn⟩ := isTurn.add free
      exact ⟨turn, after, isTurn⟩
  | finalize live free =>
      refine ⟨turn, holder, isTurn.frame rfl (fun _ => .rfl) fun thread => ?_⟩
      rw [SequenceProcess.finalize, setHooks_hooks]
      split
      · rename_i same
        rw [same, free]
        split <;> rfl
      · rfl
  | discard thread number =>
      refine ⟨turn, holder, isTurn.frame rfl (fun _ => .rfl) fun other => ?_⟩
      rw [setHooks_hooks]
      split
      · rename_i same
        rw [same, List.filter_cons_of_neg (by simp [Hook.passesTurn])]
      · rfl
  | complete thread number outcome added associated pending =>
      obtain ⟨after, isTurn⟩ := isTurn.complete outcome thread associated
        (settled number associated pending)
      exact ⟨turn, after, isTurn⟩
  | run thread hook hooks returned top =>
      cases hook with
      | completed number =>
          obtain ⟨after, isTurn⟩ := isTurn.completed returned top
          exact ⟨turn + 1, after, isTurn⟩
      | notified number =>
          exact ⟨turn, isTurn.notified top⟩
      | invoke number => exact ⟨turn, isTurn.invoke top⟩
      | associate number => exact ⟨turn, isTurn.associate returned top⟩
      | discardFuture | discardInner | discardNotifier =>
          exact ⟨turn, holder, isTurn.discard top rfl⟩

end SequenceProcess

end Libprocess.Sequence
