import Libprocess.Collect.Invariant
import Mathlib.Algebra.Order.Group.Multiset
import Mathlib.Data.List.TakeWhile
import Mathlib.Tactic.Abel

/-!
# The steps of a process keep its invariant

While the process is resumed no other frame runs it, so an event that is handled finds the promise
as it was made: a handler that completes the promise also terminates the process, and then the
remaining events are purged.
-/

namespace Libprocess

variable {T : Type}

namespace Gather

variable {before after : GatherSnapshot T} {name future : FutureId}
  {process served : GatherProcess T} {body frame : GatherBody T} {rest : Multiset (GatherBody T)}
  {made : Calls T} {entered : List (GatherBody T)} {event : GatherEvent}
  {events : List GatherEvent}

section Dequeue

/-- Only a terminated process skips events, up to the one that terminates it. -/
theorem dequeue_cases (next : dequeue process = some (event, events)) :
    event = .terminate ∧ .terminate ∈ process.events ∨
      process.termination = false ∧ process.events = event :: events := by
  unfold dequeue at next
  split at next
  · cases next
  · rename_i first others found
    cases next
    split at found
    · left
      have head := List.head?_dropWhile_not (fun event => event ≠ .terminate) process.events
      rw [found] at head
      have same : event = .terminate := by simpa using head
      refine ⟨same, ?_⟩
      rw [← same]
      apply (List.dropWhile_suffix fun event => event ≠ .terminate).mem
      rw [found]
      exact List.mem_cons_self
    · rename_i running
      exact .inr ⟨by simpa using running, found⟩

theorem dequeue_event (next : dequeue process = some (event, events)) (other : event ≠ .terminate) :
    process.termination = false ∧ process.events = event :: events :=
  (dequeue_cases next).resolve_left fun terminates => other terminates.1

theorem dequeue_none (nothing : dequeue process = none)
    (queued : process.termination = true → .terminate ∈ process.events) :
    process.termination = false ∧ process.events = [] := by
  unfold dequeue at nothing
  split at nothing
  · rename_i found
    split at found
    · rename_i terminates
      have kept := List.dropWhile_eq_nil_iff.mp found _ (queued terminates)
      simp at kept
    · rename_i running
      exact ⟨by simpa using running, found⟩
  · cases nothing

end Dequeue

section Alone

/-- The frame that runs the process is the only one. -/
theorem Staffed.alone (staffed : Staffed before name process)
    (running : before.bodies = body ::ₘ rest) (handled : handles name body = true) :
    process.stage = .running ∧ ∀ frame ∈ rest, handles name frame = false := by
  have count := staffed.handled
  rw [running, Multiset.countP_cons_of_pos (p := fun body => handles name body = true) _ handled]
    at count
  split at count
  · rename_i stage
    refine ⟨stage, fun frame member => ?_⟩
    have none := Multiset.countP_eq_zero.mp (Nat.succ.inj count) frame member
    simpa using none
  · cases count

theorem Staffed.constructed (staffed : Staffed before name process)
    (running : before.bodies = .spawn name ::ₘ rest) :
    process.stage = .constructed ∧ ∀ frame ∈ rest, spawns name frame = false := by
  have count := staffed.spawned
  rw [running, Multiset.countP_cons_of_pos (p := fun body => spawns name body = true) _
    (by simp [spawns])] at count
  split at count
  · rename_i stage
    refine ⟨stage, fun frame member => ?_⟩
    have none := Multiset.countP_eq_zero.mp (Nat.succ.inj count) frame member
    simpa using none
  · cases count

/-- A process that serves an event has not completed its promise. -/
theorem Tracked.undecided (tracked : Tracked before name process)
    (running : before.bodies = .serve name ::ₘ rest) (free : process.termination = false) :
    process.completions = [] := by
  obtain ⟨stage, alone⟩ := tracked.staffed.alone running (by simp [handles])
  by_contra decided
  obtain deleted | terminates | ⟨completion, member⟩ := tracked.ends.decided decided
  · rw [stage] at deleted
    cases deleted
  · rw [free] at terminates
    cases terminates
  · rw [running] at member
    cases Multiset.mem_cons.mp member with
    | inl same => cases same
    | inr other => exact absurd (alone _ other) (by simp [handles])

/-- What `waited` counts comes from the inputs. -/
theorem Tracked.heard_le (tracked : Tracked before name process) (sound : before.Sound)
    (running : before.bodies = .serve name ::ₘ rest)
    (next : dequeue process = some (.waited future, events)) :
    future ::ₘ (↑process.heard : Multiset FutureId) ≤ ↑process.inputs ∧
      (before.status future).state ≠ .pending := by
  obtain ⟨stage, -⟩ := tracked.staffed.alone running (by simp [handles])
  obtain ⟨free, queue⟩ := dequeue_event next (by simp)
  have undecided := tracked.undecided running free
  have answers := tracked.counted.answers (by simp [stage]) undecided
  have completes : CallbackKind.onAny ≠ .onDiscard := by decide
  have among := sound.notified_le completes (.waited name)
  have due : due process ≤ ↑process.inputs := by
    unfold Gather.due
    split
    · exact Multiset.zero_le _
    · exact le_refl _
  rw [tracked.registers.waited .onAny, if_pos rfl, ← answers, queue,
    List.filterMap_cons_some (show answered (.waited future) = some future from rfl)] at among
  have member : future ∈ before.notified .onAny (.waited name) := by
    rw [← answers, queue, List.filterMap_cons_some (show answered (.waited future) = some future
      from rfl)]
    simp
  constructor
  · refine le_trans ?_ (among.trans due)
    rw [← Multiset.cons_coe, Multiset.add_cons, Multiset.cons_add]
    exact Multiset.cons_le_cons _ (Multiset.le_add_left _ _)
  · simpa [Status.fires] using sound.fires_of_notified completes member

end Alone

section Registrations

theorem registrations_waited (name : FutureId) (futures : List FutureId) (kind : CallbackKind) :
    Snapshot.subscriptions (gathering T) (registrations name futures) kind (.waited name) =
      if kind = .onAny then ↑futures else 0 := by
  cases kind <;>
    simp [Snapshot.subscriptions, registrations, subscribing, List.filterMap_flatMap]

theorem registrations_abandoned (name : FutureId) (futures : List FutureId) (kind : CallbackKind) :
    Snapshot.subscriptions (gathering T) (registrations name futures) kind
      (.abandoned name) = if kind = .onAbandoned then ↑futures else 0 := by
  cases kind <;>
    simp [Snapshot.subscriptions, registrations, subscribing, List.filterMap_flatMap]

theorem registrations_discarded (name : FutureId) (futures : List FutureId) (kind : CallbackKind) :
    Snapshot.subscriptions (gathering T) (registrations name futures) kind
      (.discarded name) = if kind = .onDiscard then {name} else 0 := by
  cases kind <;>
    simp [Snapshot.subscriptions, registrations, subscribing, List.filterMap_flatMap]

end Registrations

section Waited

theorem Justified.congr {status : Statuses T} {completion : Completion (Value T)}
    (justified : Justified status name process completion)
    (gathering : served.gathering = process.gathering) (inputs : served.inputs = process.inputs)
    (asked : served.asked = process.asked) : Justified status name served completion := by
  cases justified with
  | collected collects found => exact .collected (gathering.trans collects) (inputs ▸ found)
  | awaited awaits completed =>
      rw [← inputs]
      exact .awaited (gathering.trans awaits) (inputs ▸ completed)
  | failed collects input failed error =>
      exact .failed (gathering.trans collects) (inputs ▸ input) failed error
  | discarded collects input discarded =>
      exact .discarded (gathering.trans collects) (inputs ▸ input) discarded
  | requested requested same completed =>
      exact .requested requested (by rw [asked, inputs, same]) (inputs ▸ completed)

/-- Handling an answer writes three members. -/
theorem Decides.members {status : Statuses T} {completion : Completion (Value T)}
    (decides : Decides status process future served completion) : ∃ futures ready heard,
      served = { process with futures := futures, ready := ready, heard := heard } := by
  cases decides with
  | failed | discarded => exact ⟨_, _, _, rfl⟩
  | collected | awaited => exact ⟨_, _, _, rfl⟩

variable {completion : Completion (Value T)}

/-- A future that is ready has a value. -/
theorem get_of_ready (sound : before.Sound) (ready : (before.status future).state = .ready) :
    ∃ value, get (before.status future) = some value := by
  have fits := sound.result future
  cases result : (before.status future).result with
  | some value => exact ⟨value, get_eq_some.mpr ⟨ready, result⟩⟩
  | none | error => simp [Result.Fits, ready, result] at fits

theorem gets_of_ready (sound : before.Sound) {futures : List FutureId}
    (ready : ∀ future ∈ futures, (before.status future).state = .ready) :
    ∃ values, gets before.status futures = some values := by
  induction futures with
  | nil => exact ⟨[], rfl⟩
  | cons future rest ih =>
      obtain ⟨value, found⟩ := get_of_ready sound (ready future List.mem_cons_self)
      obtain ⟨values, others⟩ := ih fun other member => ready other (List.mem_cons_of_mem _ member)
      exact ⟨value :: values, gets_eq_some.mpr (.cons found (gets_eq_some.mp others))⟩

/-- The last future that `waited` counts is the last of the inputs. -/
theorem Tracked.filled (tracked : Tracked before name process) (sound : before.Sound)
    (running : before.bodies = .serve name ::ₘ rest)
    (next : dequeue process = some (.waited future, events))
    (last : process.ready + 1 = process.futures.length) {other : FutureId}
    (input : other ∈ process.inputs) : other = future ∨ other ∈ process.heard := by
  obtain ⟨free, -⟩ := dequeue_event next (by simp)
  have undecided := tracked.undecided running free
  obtain ⟨among, -⟩ := tracked.heard_le sound running next
  have same := Multiset.eq_of_le_of_card_le among (by
    simp only [Multiset.card_cons, Multiset.coe_card]
    rw [← tracked.shaped.ready, last, (tracked.shaped.undecided undecided).1])
  have member : other ∈ (↑process.inputs : Multiset FutureId) := input
  rw [← same] at member
  simpa using member

/-- No `CHECK` of `waited` fails. -/
theorem Tracked.not_fails (tracked : Tracked before name process) (sound : before.Sound)
    (running : before.bodies = .serve name ::ₘ rest)
    (next : dequeue process = some (.waited future, events)) :
    ¬ Fails before.status process future := by
  obtain ⟨-, completed⟩ := tracked.heard_le sound running next
  intro fails
  cases fails with
  | pending pending => exact completed pending
  | message failed nothing =>
      have fits := sound.result future
      cases result : (before.status future).result with
      | error message => exact nothing message result
      | none | some => simp [Result.Fits, failed, result] at fits
  | value ready collects last nothing =>
      obtain ⟨free, -⟩ := dequeue_event next (by simp)
      have undecided := tracked.undecided running free
      have all : ∀ other ∈ process.futures, (before.status other).state = .ready := by
        rw [(tracked.shaped.undecided undecided).1]
        intro other input
        obtain rfl | heard := tracked.filled sound running next last input
        · exact ready
        · exact (tracked.counted.heard other heard).2 collects
      obtain ⟨values, found⟩ := gets_of_ready sound all
      rw [nothing] at found
      cases found

/-- What `waited` completes the promise with. -/
theorem Tracked.decides (tracked : Tracked before name process) (sound : before.Sound)
    (running : before.bodies = .serve name ::ₘ rest)
    (next : dequeue process = some (.waited future, events))
    (decides : Decides before.status { process with events := events } future served completion) :
    Justified before.status name process completion := by
  obtain ⟨free, -⟩ := dequeue_event next (by simp)
  have undecided := tracked.undecided running free
  have same := (tracked.shaped.undecided undecided).1
  obtain ⟨among, completed⟩ := tracked.heard_le sound running next
  have input : future ∈ process.inputs :=
    Multiset.mem_coe.mp (Multiset.mem_of_le among (Multiset.mem_cons_self _ _))
  cases decides with
  | failed collects failed error => exact .failed collects input failed error
  | discarded collects discarded => exact .discarded collects input discarded
  | collected collects ready last found =>
      refine .collected collects ?_
      rw [← same]
      exact found
  | awaited awaits completed last =>
      change Justified before.status name process (.set (.futures process.futures))
      rw [same]
      refine .awaited awaits fun other listed => ?_
      obtain rfl | heard := tracked.filled sound running next last listed
      · exact completed
      · exact (tracked.counted.heard other heard).1

end Waited

/-- A process that runs outside the loop of `discarded` has not asked anybody yet. -/
theorem Tracked.unasked (tracked : Tracked before name process)
    (running : before.bodies = body ::ₘ rest) (handled : handles name body = true)
    (discarding : ∀ loop, body ≠ .discarding name loop)
    (asking : ∀ future loop, body ≠ .asked name future loop)
    (undecided : process.completions = []) : process.asked = [] := by
  have alone := (tracked.staffed.alone running handled).2
  obtain none | ⟨loop, member⟩ | ⟨future, loop, member⟩ := tracked.ends.unasked undecided
  · exact none
  · rw [running] at member
    cases Multiset.mem_cons.mp member with
    | inl same => exact absurd same.symm (discarding loop)
    | inr other => exact absurd (alone _ other) (by simp [handles])
  · rw [running] at member
    cases Multiset.mem_cons.mp member with
    | inl same => exact absurd same.symm (asking future loop)
    | inr other => exact absurd (alone _ other) (by simp [handles])

theorem Ends.ended_of_popped (ends : Ends before name process)
    (queue : process.events = event :: events)
    (ending : .terminate ∈ events ∨ process.termination = true ∨ process.stage = .deleted) :
    process.terminated = true ∨ Lost before.status process ∨
      (before.status name).state ≠ .pending := by
  refine ends.ended ?_
  rw [queue]
  obtain queued | other := ending
  · exact .inl (List.mem_cons_of_mem _ queued)
  · exact .inr other

/-- The answers among the frames before and after a step. -/
theorem Executed.answers (executed : Executed before after body rest made entered) :
    after.bodies.filterMap (answer name) + ↑(answer name body).toList =
      ↑(entered.filterMap (answer name)) + before.bodies.filterMap (answer name) := by
  rw [executed.bodies, executed.running, Multiset.filterMap_add, Multiset.filterMap_coe]
  cases shown : answer name body with
  | none => simp [Multiset.filterMap_cons_none _ _ shown]
  | some future =>
      rw [Multiset.filterMap_cons_some _ _ _ shown, ← Multiset.singleton_add]
      simp only [Option.toList_some, Multiset.coe_singleton]
      abel

section Acts

variable (tracked : Tracked before name process)
  (executed : Executed before after body rest made entered)
  (acts : Acts before.status name body process served made entered)

include tracked executed acts

theorem Acts.shaped : Shaped served := by
  have shaped := tracked.shaped
  have running : body ∈ before.bodies := executed.mem_before.mpr (.inl rfl)
  cases acts with
  | spawn =>
      obtain ⟨stage, -⟩ := tracked.staffed.constructed executed.running
      exact ⟨shaped.nonempty, shaped.ready, shaped.undecided,
        fun _ => shaped.unstarted (.inl stage), shaped.single⟩
  | dispatch | lose | ask | terminated | terminate =>
      exact ⟨shaped.nonempty, shaped.ready, shaped.undecided, shaped.unstarted, shaped.single⟩
  | drop | request | stray => exact shaped
  | start | wake | block | delete =>
      exact ⟨shaped.nonempty, shaped.ready, shaped.undecided, by simp, shaped.single⟩
  | @decide _ members future events completion next decides =>
      obtain ⟨stage, -⟩ := tracked.staffed.alone executed.running (by simp [handles])
      obtain ⟨free, -⟩ := dequeue_event next (by simp)
      have undecided := tracked.undecided executed.running free
      cases decides with
      | failed | discarded =>
          exact ⟨shaped.nonempty, shaped.ready, by simp, by simp [stage], by simp [undecided]⟩
      | collected | awaited =>
          exact ⟨shaped.nonempty, by simp [Gather.counted, shaped.ready], by simp,
            by simp [Gather.counted, stage], by simp [Gather.counted, undecided]⟩
  | @count _ future events next counts =>
      obtain ⟨stage, -⟩ := tracked.staffed.alone executed.running (by simp [handles])
      obtain ⟨free, -⟩ := dequeue_event next (by simp)
      have undecided := tracked.undecided executed.running free
      obtain ⟨same, fewer⟩ := shaped.undecided undecided
      have more := counts.more
      rw [same, shaped.ready] at more
      refine ⟨shaped.nonempty, by simp [Gather.counted, shaped.ready], ?_,
        by simp [Gather.counted, stage], shaped.single⟩
      intro _
      refine ⟨same, ?_⟩
      simp only [Gather.counted, List.length_append, List.length_singleton]
      omega
  | discard =>
      obtain ⟨stage, -⟩ := tracked.staffed.alone executed.running (by simp [handles])
      have undecided := (tracked.ends.discarding [] running).undecided
      exact ⟨shaped.nonempty, shaped.ready, by simp, by simp [stage], by simp [undecided]⟩
  | asked => exact ⟨shaped.nonempty, shaped.ready, shaped.undecided, shaped.unstarted, shaped.single⟩

theorem Acts.staffed : Staffed after name served := by
  have handled := executed.exchange (handles name)
  have spawned := executed.exchange (spawns name)
  rw [tracked.staffed.handled] at handled
  rw [tracked.staffed.spawned] at spawned
  suffices counts : ∀ left right : Nat,
      left + (if handles name body then 1 else 0) =
        entered.countP (handles name) + (if process.stage = .running then 1 else 0) →
      right + (if spawns name body then 1 else 0) =
        entered.countP (spawns name) + (if process.stage = .constructed then 1 else 0) →
      left = (if served.stage = .running then 1 else 0) ∧
        right = if served.stage = .constructed then 1 else 0 from
    ⟨(counts _ _ handled spawned).1, (counts _ _ handled spawned).2⟩
  clear handled spawned
  intro left right handled spawned
  cases acts with
  | spawn =>
      have stage := (tracked.staffed.constructed executed.running).1
      simp_all [handles, spawns]
  | start stage | wake stage | dispatch | drop | terminated => simp_all [handles, spawns]
  | block | delete =>
      have stage := (tracked.staffed.alone executed.running (by simp [handles])).1
      simp_all [handles, spawns]
  | decide next decides =>
      have stage := (tracked.staffed.alone executed.running (by simp [handles])).1
      obtain ⟨futures, ready, heard, rfl⟩ := decides.members
      simp_all [handles, spawns]
  | count | lose | ask | discard | request | asked | terminate | stray =>
      have stage := (tracked.staffed.alone executed.running (by simp [handles])).1
      simp_all [handles, spawns, Gather.counted]

theorem Acts.registers : Registers after name served := by
  have added := Snapshot.subscribed_add executed.calls executed.registered
  -- Only `initialize` registers callbacks.
  have quiet : due served = due process →
      (∀ call ∈ made, ∀ kind callback, call.2 ≠ .on kind callback) → Registers after name served := by
    intro same plain
    have nothing : ∀ kind callback,
        after.subscribed kind callback = before.subscribed kind callback := by
      intro kind callback
      have none : Snapshot.subscriptions (gathering T) made kind callback = 0 := by
        refine (Multiset.coe_eq_zero _).mpr (List.filterMap_eq_nil_iff.mpr ?_)
        rintro ⟨future, op⟩ member
        cases op with
        | on registered other => exact absurd rfl (plain _ member registered other)
        | _ => rfl
      rw [added, none]
      exact Multiset.zero_add _
    constructor
    · intro kind
      rw [nothing, same]
      exact tracked.registers.waited kind
    · intro kind
      rw [nothing, same]
      exact tracked.registers.abandoned kind
    · intro kind
      rw [nothing]
      exact tracked.registers.discarded kind
  cases acts with
  | start stage =>
      have undecided := tracked.shaped.unstarted (.inr stage)
      obtain ⟨same, -⟩ := tracked.shaped.undecided undecided
      have none : due process = 0 := if_pos (.inr stage)
      constructor
      · intro kind
        rw [added, registrations_waited, tracked.registers.waited kind, none, same]
        cases kind <;> simp [due]
      · intro kind
        rw [added, registrations_abandoned, tracked.registers.abandoned kind, none, same]
        cases kind <;> simp [due]
      · intro kind future member
        rw [added, registrations_discarded] at member
        cases Multiset.mem_add.mp member with
        | inl new =>
            split at new
            · rename_i kinds
              exact ⟨Multiset.mem_singleton.mp new, kinds⟩
            · cases Multiset.notMem_zero _ new
        | inr old => exact tracked.registers.discarded kind future old
  | spawn =>
      have stage := (tracked.staffed.constructed executed.running).1
      exact quiet (by simp [due, stage]) (by simp)
  | wake stage => exact quiet (by simp [due, stage]) (by simp)
  | block | delete =>
      have stage := (tracked.staffed.alone executed.running (by simp [handles])).1
      exact quiet (by simp [due, stage]) (by simp)
  | @decide _ _ _ _ completion next decides =>
      obtain ⟨futures, ready, heard, rfl⟩ := decides.members
      refine quiet rfl ?_
      intro call member
      rw [List.mem_singleton.mp member]
      cases completion <;> simp [Completion.op]
  | dispatch | drop | terminated | count | lose | ask | discard | request | asked | terminate
  | stray => exact quiet rfl (by simp)

omit tracked in
/-- A step of the process neither adds nor drops answers. -/
theorem Acts.answers (alive : served.stage ≠ .deleted) (undecided : served.completions = []) :
    after.bodies.filterMap (answer name) + ↑(served.events.filterMap answered) + ↑served.heard =
      before.bodies.filterMap (answer name) + ↑(process.events.filterMap answered) +
        ↑process.heard := by
  have frames := @Executed.answers _ _ _ name _ _ _ _ executed
  cases acts with
  | dispatch =>
      rename_i event _
      have same : (answer name (.dispatch name event : GatherBody T)).toList =
          [event].filterMap answered := by
        cases event <;> simp [answer, answered]
      rw [same, List.filterMap_nil, Multiset.coe_nil, Multiset.zero_add] at frames
      rw [← frames, List.filterMap_append, ← Multiset.coe_add]
      abel
  | drop deleted => exact absurd deleted alive
  | delete => exact absurd rfl alive
  | decide next decides => simp at undecided
  | discard => simp at undecided
  | count next =>
      obtain ⟨-, queue⟩ := dequeue_event next (by simp)
      simp only [answer, List.filterMap_cons, List.filterMap_nil, Option.toList_none,
        Multiset.coe_nil, Multiset.add_zero, Multiset.zero_add] at frames
      simp only [frames, queue, List.filterMap_cons, answered, Gather.counted, ← Multiset.coe_add,
        ← Multiset.cons_coe, Multiset.coe_nil, ← Multiset.singleton_add, Multiset.add_zero]
      abel
  | lose next | ask next =>
      obtain ⟨-, queue⟩ := dequeue_event next (by simp)
      simp only [answer, List.filterMap_cons, List.filterMap_nil, Option.toList_none,
        Multiset.coe_nil, Multiset.add_zero, Multiset.zero_add] at frames
      simp only [frames, queue, List.filterMap_cons, answered]
  | terminated | terminate =>
      simp only [answer, List.filterMap_cons, List.filterMap_nil, Option.toList_none,
        Multiset.coe_nil, Multiset.add_zero, Multiset.zero_add] at frames
      simp only [frames, List.filterMap_append, List.filterMap_cons, answered, List.filterMap_nil,
        List.append_nil]
  | spawn | start | wake | block | request | asked | stray =>
      simp only [answer, List.filterMap_cons, List.filterMap_nil, Option.toList_none,
        Multiset.coe_nil, Multiset.add_zero, Multiset.zero_add] at frames
      rw [frames]

/-- The futures that were counted have completed. -/
theorem Acts.heard : ∀ future ∈ served.heard, (before.status future).state ≠ .pending ∧
    (served.gathering = .collect → (before.status future).state = .ready) := by
  have heard := tracked.counted.heard
  cases acts with
  | @count _ future events next counts =>
      intro other member
      cases List.mem_append.mp member with
      | inl old => exact heard other old
      | inr new =>
          rw [List.mem_singleton.mp new]
          exact ⟨counts.completed, counts.ready⟩
  | decide next decides =>
      cases decides with
      | failed | discarded => exact heard
      | collected collects ready =>
          intro other member
          cases List.mem_append.mp member with
          | inl old => exact heard other old
          | inr new =>
              rw [List.mem_singleton.mp new]
              exact ⟨by simp [ready], fun _ => ready⟩
      | awaited awaits completed =>
          intro other member
          cases List.mem_append.mp member with
          | inl old => exact heard other old
          | inr new =>
              rw [List.mem_singleton.mp new]
              refine ⟨completed, fun collects => ?_⟩
              exact absurd (awaits.symm.trans collects) (by simp)
  | _ => exact heard

theorem Acts.counted : Counted after name served := by
  constructor
  · intro alive undecided
    rw [acts.answers executed alive undecided, Snapshot.notified_congr executed.log]
    apply tracked.counted.answers
    · intro deleted
      cases acts with
      | spawn =>
          have stage := (tracked.staffed.constructed executed.running).1
          simp [stage] at deleted
      | start stage | wake stage => simp [stage] at deleted
      | decide next decides => simp at undecided
      | block =>
          have stage := (tracked.staffed.alone executed.running (by simp [handles])).1
          simp [stage] at deleted
      | delete => exact alive rfl
      | _ => exact alive deleted
    · cases acts with
      | decide next decides => simp at undecided
      | discard => simp at undecided
      | _ => exact undecided
  · rw [executed.status]
    exact acts.heard tracked executed

/-- The frames that run the process after a step: those of its own step, if it is resumed. -/
theorem Acts.mem_handles (handled : handles name frame = true) :
    frame ∈ after.bodies ↔ frame ∈ entered ∨ handles name body = false ∧ frame ∈ before.bodies := by
  rw [executed.mem_after, executed.mem_before]
  cases running : handles name body with
  | true =>
      have alone := (tracked.staffed.alone executed.running running).2
      constructor
      · rintro (enters | stays)
        · exact .inl enters
        · rw [alone frame stays] at handled
          cases handled
      · rintro (enters | ⟨absurd, -⟩)
        · exact .inl enters
        · cases absurd
  | false =>
      have other : frame ≠ body := by
        rintro rfl
        rw [running] at handled
        cases handled
      simp [other]

/-- A step that leaves the frames of the handlers keeps the reasons to end, if it gives one for
what it adds. -/
theorem Acts.ends_of_idle (idle : handles name body = false)
    (enters : ∀ frame ∈ entered, handles name frame = true → frame = .serve name)
    (completions : served.completions = process.completions)
    (asked : served.asked = process.asked) (inputs : served.inputs = process.inputs)
    (deleted : process.stage = .deleted → served.stage = .deleted)
    (terminates : process.termination = true → served.termination = true)
    (ended : .terminate ∈ served.events ∨ served.termination = true ∨ served.stage = .deleted →
      served.terminated = true ∨ Lost before.status process ∨
        (before.status name).state ≠ .pending)
    (queued : served.termination = true → served.stage ≠ .deleted → .terminate ∈ served.events) :
    Ends after name served := by
  have ends := tracked.ends
  have frames : ∀ frame, handles name frame = true → frame ≠ .serve name →
      (frame ∈ after.bodies ↔ frame ∈ before.bodies) := by
    intro frame handled other
    rw [acts.mem_handles tracked executed handled, idle]
    constructor
    · rintro (enter | ⟨-, stays⟩)
      · exact absurd (enters frame enter handled) other
      · exact stays
    · exact fun stays => .inr ⟨rfl, stays⟩
  have discards : ∀ rest, Discards before name process rest → Discards after name served rest := by
    intro rest loop
    refine ⟨completions.trans loop.undecided, ?_, ?_⟩
    · rw [asked, inputs]
      exact loop.asked
    · rw [executed.status]
      exact loop.requested
  constructor
  · rw [completions]
    intro decided
    obtain gone | terminating | ⟨completion, member⟩ := ends.decided decided
    · exact .inl (deleted gone)
    · exact .inr (.inl (terminates terminating))
    · exact .inr (.inr ⟨completion, (frames _ (by simp [handles]) (by simp)).mpr member⟩)
  · rw [completions]
    exact fun completion member =>
      ends.completing completion ((frames _ (by simp [handles]) (by simp)).mp member)
  · rw [completions, executed.status]
    intro member
    obtain ⟨undecided, lost⟩ := ends.losing ((frames _ (by simp [handles]) (by simp)).mp member)
    refine ⟨undecided, ?_⟩
    rw [Lost, inputs]
    exact lost
  · exact fun rest member => discards rest
      (ends.discarding rest ((frames _ (by simp [handles]) (by simp)).mp member))
  · exact fun future rest member => discards _
      (ends.asking future rest ((frames _ (by simp [handles]) (by simp)).mp member))
  · rw [asked, executed.status]
    exact ends.asked
  · rw [completions, asked]
    intro undecided
    obtain none | ⟨rest, member⟩ | ⟨future, rest, member⟩ := ends.unasked undecided
    · exact .inl none
    · exact .inr (.inl ⟨rest, (frames _ (by simp [handles]) (by simp)).mpr member⟩)
    · exact .inr (.inr ⟨future, rest, (frames _ (by simp [handles]) (by simp)).mpr member⟩)
  · rw [executed.status]
    intro ending
    obtain terminated | lost | completed := ended ending
    · exact .inl terminated
    · refine .inr (.inl ?_)
      rw [Lost, inputs]
      exact lost
    · exact .inr (.inr completed)
  · exact queued

/-- What the frame that runs the process says of the promise, or that there is none. -/
def Tells (snapshot : GatherSnapshot T) (name : FutureId) (process : GatherProcess T) :
    Option (GatherBody T) → Prop
  | some (.terminate _ (some completion)) => process.completions = [completion]
  | some (.terminate _ none) =>
      process.completions = [] ∧ process.asked = [] ∧ Lost snapshot.status process
  | some (.discarding _ rest) => Discards snapshot name process rest
  | some (.asked _ future rest) => Discards snapshot name process (future :: rest)
  | _ => (process.completions = [] → process.asked = []) ∧
      (process.completions ≠ [] → process.stage = .deleted ∨ process.termination = true)

/-- After a step of a handler the frame that runs the process is the one that it enters. -/
theorem Acts.ends_of_handled (handled : handles name body = true) (entry : Option (GatherBody T))
    (enters : entered = entry.toList) (own : ∀ frame ∈ entry, handles name frame = true)
    (tells : Tells before name served entry)
    (asked : ∀ future ∈ served.asked, (before.status future).discard = true ∨
      (before.status future).state ≠ .pending)
    (ended : .terminate ∈ served.events ∨ served.termination = true ∨ served.stage = .deleted →
      served.terminated = true ∨ Lost before.status served ∨ (before.status name).state ≠ .pending)
    (queued : served.termination = true → served.stage ≠ .deleted → .terminate ∈ served.events) :
    Ends after name served := by
  have frames : ∀ frame, handles name frame = true → (frame ∈ after.bodies ↔ entry = some frame) := by
    intro frame handles
    rw [acts.mem_handles tracked executed handles, handled, enters]
    simp
  have discards : ∀ rest, Discards before name served rest → Discards after name served rest := by
    intro rest loop
    exact ⟨loop.undecided, loop.asked, by rw [executed.status]; exact loop.requested⟩
  have told : ∀ frame, handles name frame = true → frame ∈ after.bodies →
      Tells before name served (some frame) := by
    intro frame handles member
    rwa [(frames frame handles).mp member] at tells
  refine ⟨fun decided => ?_, fun completion => told _ (by simp [handles]), fun member => ?_,
    fun rest member => discards rest (told _ (by simp [handles]) member),
    fun future rest member => discards _ (told _ (by simp [handles]) member), ?_,
    fun undecided => ?_, ?_, queued⟩
  · cases entry with
    | none => exact (tells.2 decided).imp id .inl
    | some frame =>
        have member := (frames frame (own frame rfl)).mpr rfl
        cases frame with
        | terminate other completion =>
            obtain rfl : other = name := by simpa [handles] using own _ rfl
            cases completion with
            | some completion => exact .inr (.inr ⟨completion, member⟩)
            | none => exact absurd tells.1 decided
        | discarding | asked => exact absurd tells.undecided decided
        | _ => exact (tells.2 decided).imp id .inl
  · rw [executed.status]
    have lost := told _ (by simp [handles]) member
    exact ⟨lost.1, lost.2.2⟩
  · rw [executed.status]
    exact asked
  · cases entry with
    | none => exact .inl (tells.1 undecided)
    | some frame =>
        have member := (frames frame (own frame rfl)).mpr rfl
        cases frame with
        | terminate other completion =>
            cases completion with
            | some completion => exact absurd (undecided.symm.trans tells) (by simp)
            | none => exact .inl tells.2.1
        | discarding other rest =>
            obtain rfl : other = name := by simpa [handles] using own _ rfl
            exact .inr (.inl ⟨rest, member⟩)
        | asked other future rest =>
            obtain rfl : other = name := by simpa [handles] using own _ rfl
            exact .inr (.inr ⟨future, rest, member⟩)
        | _ => exact .inl (tells.1 undecided)
  · rw [executed.status]
    exact ended

omit acts in
/-- Before a process serves an event its promise is untouched. -/
theorem Tracked.untouched (serving : body = .serve name) (free : process.termination = false) :
    process.completions = [] ∧ process.asked = [] := by
  subst serving
  have undecided := tracked.undecided executed.running free
  exact ⟨undecided,
    tracked.unasked executed.running (by simp [handles]) (by simp) (by simp) undecided⟩

/-- An event is served. -/
theorem Acts.ends_served (serving : body = .serve name) : Ends after name served := by
  have ends := tracked.ends
  have untouched := tracked.untouched executed serving
  have handled := acts.ends_of_handled tracked executed (by simp [serving, handles])
  cases acts with
  | block nothing =>
      have stage := (tracked.staffed.alone executed.running (by simp [handles])).1
      obtain ⟨free, queue⟩ := dequeue_none nothing fun terminates =>
        ends.queued terminates (by simp [stage])
      refine handled none rfl (by simp) ⟨fun _ => (untouched free).2, ?_⟩ ends.asked ?_ ?_
      · exact fun decided => absurd (untouched free).1 decided
      · simp [queue, free]
      · simp [free]
  | @decide _ _ future events completion next decides =>
      obtain ⟨free, queue⟩ := dequeue_event next (by simp)
      obtain ⟨futures, ready, heard, rfl⟩ := decides.members
      refine handled (some _) rfl (by simp [handles]) ?_ ends.asked (ends.ended_of_popped queue) ?_
      · simp [Tells, (untouched free).1]
      · simp [free]
  | count next =>
      obtain ⟨free, queue⟩ := dequeue_event next (by simp)
      refine handled (some _) rfl (by simp [handles]) ⟨fun _ => (untouched free).2, ?_⟩ ends.asked
        (ends.ended_of_popped queue) ?_
      · exact fun decided => absurd (untouched free).1 decided
      · simp [Gather.counted, free]
  | lose next =>
      obtain ⟨free, queue⟩ := dequeue_event next (by simp)
      have lost := tracked.heeds.lost (.inl (queue ▸ List.mem_cons_self))
      refine handled (some _) rfl (by simp [handles]) ?_ ends.asked (ends.ended_of_popped queue) ?_
      · exact ⟨(untouched free).1, (untouched free).2, lost⟩
      · simp [free]
  | ask next =>
      obtain ⟨free, queue⟩ := dequeue_event next (by simp)
      obtain ⟨undecided, none⟩ := untouched free
      have requested := tracked.heeds.requested (.inl (queue ▸ List.mem_cons_self))
      refine handled (some _) rfl (by simp [handles]) ⟨undecided, ?_, requested⟩ ends.asked
        (ends.ended_of_popped queue) ?_
      · change process.asked ++ process.futures = process.inputs
        rw [none, (tracked.shaped.undecided undecided).1]
        rfl
      · simp [free]
  | delete next =>
      have terminates : .terminate ∈ process.events := by
        obtain ⟨-, queued⟩ | ⟨-, queue⟩ := dequeue_cases next
        · exact queued
        · rw [queue]
          exact List.mem_cons_self
      refine handled none rfl (by simp) ⟨?_, fun _ => .inl rfl⟩ ends.asked
        (fun _ => ends.ended (.inl terminates)) ?_
      · exact tracked.unasked executed.running (by simp [handles]) (by simp) (by simp)
      · simp
  | _ => cases serving

section

variable (relied : ∀ call ∈ relies body, call.2.Done (before.status call.1))

include relied

/-- The inputs are discarded one after the other. -/
theorem Acts.ends_discarding {loop : List FutureId}
    (discarding : body = .discarding name loop ∨ ∃ future, body = .asked name future loop) :
    Ends after name served := by
  have ends := tracked.ends
  have running : body ∈ before.bodies := executed.mem_before.mpr (.inl rfl)
  have handled := acts.ends_of_handled tracked executed (by
    rcases discarding with rfl | ⟨future, rfl⟩ <;> simp [handles])
  cases acts with
  | discard =>
      refine handled (some _) rfl (by simp [handles]) ?_ ends.asked ends.ended ends.queued
      simp [Tells, (ends.discarding [] running).undecided]
  | request =>
      obtain ⟨undecided, asked, requested⟩ := ends.discarding _ running
      exact handled (some _) rfl (by simp [handles]) ⟨undecided, asked, requested⟩ ends.asked
        ends.ended ends.queued
  | @asked _ future loop =>
      obtain ⟨undecided, asked, requested⟩ := ends.asking future loop running
      have done := relied (future, .discard) List.mem_cons_self
      refine handled (some _) rfl (by simp [handles]) ⟨undecided, ?_, requested⟩ ?_ ends.ended
        ends.queued
      · rw [← asked, List.append_assoc]
        rfl
      · intro other member
        cases List.mem_append.mp member with
        | inl old => exact ends.asked other old
        | inr new =>
            rw [List.mem_singleton.mp new]
            exact done
  | _ => rcases discarding with same | ⟨future, same⟩ <;> cases same

/-- The process terminates itself after it has completed its promise, or because it is lost. -/
theorem Acts.ends_terminate
    {completion : Option (Completion (Value T))} (terminates : body = .terminate name completion) :
    Ends after name served := by
  have ends := tracked.ends
  have running : body ∈ before.bodies := executed.mem_before.mpr (.inl rfl)
  have handled := acts.ends_of_handled tracked executed (by simp [terminates, handles])
  cases acts with
  | terminate alive =>
      cases terminates
      refine handled (some _) rfl (by simp [handles]) ⟨?_, fun _ => .inr rfl⟩ ends.asked ?_ ?_
      · exact tracked.unasked executed.running (by simp [handles]) (by simp) (by simp)
      · intro _
        cases completion with
        | none => exact .inr (.inl (ends.losing running).2)
        | some completion =>
            have done := relied (name, completion.op) List.mem_cons_self
            refine .inr (.inr ?_)
            cases completion <;> exact done
      · exact fun _ _ => List.mem_append_right _ List.mem_cons_self
  | stray deleted =>
      have stage := (tracked.staffed.alone executed.running (by simp [handles])).1
      rw [stage] at deleted
      cases deleted
  | _ => cases terminates

theorem Acts.ends :
    Ends after name served := by
  have ends := tracked.ends
  have running : body ∈ before.bodies := executed.mem_before.mpr (.inl rfl)
  have idle := acts.ends_of_idle tracked executed
  have whole := acts
  cases acts with
  | spawn =>
      have stage := (tracked.staffed.constructed executed.running).1
      refine idle rfl (by simp) rfl rfl rfl (by simp [stage]) id ?_ ?_
      · intro ending
        exact ends.ended (by simpa [stage] using ending)
      · exact fun terminates _ => ends.queued terminates (by simp [stage])
  | dispatch alive =>
      rename_i event
      refine idle rfl (by simp) rfl rfl rfl id id ?_ ?_
      · intro ending
        refine ends.ended ?_
        obtain queued | other := ending
        · cases List.mem_append.mp queued with
          | inl old => exact .inl old
          | inr new =>
              rw [← List.mem_singleton.mp new] at running
              exact absurd running tracked.heeds.dispatches
        · exact .inr other
      · exact fun terminates alive => List.mem_append_left _ (ends.queued terminates alive)
  | drop => exact idle rfl (by simp) rfl rfl rfl id id ends.ended ends.queued
  | start stage | wake stage =>
      refine idle rfl (by simp [handles]) rfl rfl rfl (by simp [stage]) id ?_ ?_
      · intro ending
        exact ends.ended (by simpa [stage] using ending)
      · exact fun terminates _ => ends.queued terminates (by simp [stage])
  | terminated alive =>
      refine idle rfl (by simp [handles]) rfl rfl rfl id (by simp +contextual) (fun _ => .inl rfl) ?_
      exact fun _ _ => List.mem_append_right _ List.mem_cons_self
  | block | decide | count | lose | ask | delete => exact whole.ends_served tracked executed rfl
  | discard | request => exact whole.ends_discarding tracked executed relied (.inl rfl)
  | asked => exact whole.ends_discarding tracked executed relied (.inr ⟨_, rfl⟩)
  | terminate | stray => exact whole.ends_terminate tracked executed relied rfl

end

/-- A process that was deleted stays so. -/
theorem Acts.deleted (deleted : process.stage = .deleted) : served.stage = .deleted := by
  cases acts with
  | spawn =>
      have stage := (tracked.staffed.constructed executed.running).1
      exact absurd (deleted.symm.trans stage) (by simp)
  | start stage | wake stage => exact absurd (deleted.symm.trans stage) (by simp)
  | block =>
      have stage := (tracked.staffed.alone executed.running (by simp [handles])).1
      exact absurd (deleted.symm.trans stage) (by simp)
  | decide next decides =>
      obtain ⟨futures, ready, heard, rfl⟩ := decides.members
      exact deleted
  | delete => rfl
  | _ => exact deleted

omit tracked executed in
theorem Acts.termination (terminates : process.termination = true) : served.termination = true := by
  cases acts with
  | terminated => simp [terminates]
  | decide next decides =>
      obtain ⟨futures, ready, heard, rfl⟩ := decides.members
      exact terminates
  | terminate => rfl
  | _ => exact terminates

omit tracked in
/-- An event of `abandoned` stays until the process terminates. -/
theorem Acts.losing (queued : .abandoned ∈ process.events) : served.stage = .deleted ∨
    .terminate name none ∈ after.bodies ∨ .abandoned ∈ served.events := by
  cases acts with
  | dispatch | terminated | terminate => exact .inr (.inr (List.mem_append_left _ queued))
  | count next | ask next =>
      rw [(dequeue_event next (by simp)).2] at queued
      exact .inr (.inr ((List.mem_cons.mp queued).resolve_left (by simp)))
  | decide next decides =>
      obtain ⟨futures, ready, heard, rfl⟩ := decides.members
      rw [(dequeue_event next (by simp)).2] at queued
      exact .inr (.inr ((List.mem_cons.mp queued).resolve_left (by simp)))
  | lose => exact .inr (.inl (executed.mem_after.mpr (.inl List.mem_cons_self)))
  | delete => exact .inl rfl
  | _ => exact .inr (.inr queued)

theorem Acts.heeds : Heeds after name served := by
  have heeds := tracked.heeds
  have running : body ∈ before.bodies := executed.mem_before.mpr (.inl rfl)
  have dispatches : ∀ event, .dispatch name event ∈ after.bodies →
      .dispatch name event ∈ before.bodies := by
    intro event member
    cases executed.mem_after.mp member with
    | inl enters => cases acts <;> simp at enters
    | inr stays => exact executed.mem_before.mpr (.inr stays)
  have inputs : served.inputs = process.inputs := acts.keeps.1
  have events : ∀ event, event ∈ served.events → event ≠ .terminate →
      event ∈ process.events ∨ .dispatch name event ∈ before.bodies := by
    intro event member other
    cases acts with
    | dispatch =>
        cases List.mem_append.mp member with
        | inl old => exact .inl old
        | inr new =>
            rw [List.mem_singleton.mp new]
            exact .inr running
    | terminated | terminate =>
        cases List.mem_append.mp member with
        | inl old => exact .inl old
        | inr new => exact absurd (List.mem_singleton.mp new) other
    | count next | lose next | ask next =>
        rw [(dequeue_event next (by simp)).2]
        exact .inl (List.mem_cons_of_mem _ member)
    | decide next decides =>
        obtain ⟨futures, ready, heard, rfl⟩ := decides.members
        rw [(dequeue_event next (by simp)).2]
        exact .inl (List.mem_cons_of_mem _ member)
    | delete => cases member
    | _ => exact .inl member
  constructor
  · rw [executed.status, Lost, inputs]
    rintro (queued | dispatch)
    · exact heeds.lost (events _ queued (by simp))
    · exact heeds.lost (.inr (dispatches _ dispatch))
  · rw [executed.status]
    rintro (queued | dispatch)
    · exact heeds.requested (events _ queued (by simp))
    · exact heeds.requested (.inr (dispatches _ dispatch))
  · exact fun dispatch => heeds.dispatches (dispatches _ dispatch)
  · rw [Snapshot.notified_congr executed.log]
    intro some
    have stays : ∀ frame, frame ≠ body → frame ∈ before.bodies → frame ∈ after.bodies := by
      intro frame other member
      exact executed.mem_after.mpr (.inr ((executed.mem_before.mp member).resolve_left other))
    obtain deleted | terminates | losing | queued | dispatch := heeds.abandoned some
    · exact .inl (acts.deleted tracked executed deleted)
    · exact .inr (.inl (acts.termination terminates))
    · by_cases same : .terminate name none = body
      · subst same
        cases acts with
        | terminate => exact .inr (.inl rfl)
        | stray deleted => exact .inl deleted
      · exact .inr (.inr (.inl (stays _ same losing)))
    · obtain deleted | losing | queued := acts.losing executed queued
      · exact .inl deleted
      · exact .inr (.inr (.inl losing))
      · exact .inr (.inr (.inr (.inl queued)))
    · by_cases same : .dispatch name .abandoned = body
      · subst same
        cases acts with
        | dispatch => exact .inr (.inr (.inr (.inl (List.mem_append_right _ List.mem_cons_self))))
        | drop deleted => exact .inl deleted
      · exact .inr (.inr (.inr (.inr (stays _ same dispatch))))

/-- The promise is completed by the handler that decides, and destroyed with the process. -/
theorem Acts.promises : Promises after name served := by
  have promises := tracked.promises
  have running : body ∈ before.bodies := executed.mem_before.mpr (.inl rfl)
  have undecided : ∀ completion, served.completions = process.completions ++ [completion] →
      process.completions = [] := by
    intro completion decides
    have single := (acts.shaped tracked executed).single
    rw [decides] at single
    simpa using single
  -- Either nothing was decided, or the call stands before the frame that terminates.
  have decided : served.completions = process.completions ∨ ∃ completion,
      process.completions = [] ∧ served.completions = [completion] ∧
        made = [(name, completion.op)] := by
    cases acts with
    | @decide _ _ _ _ completion next decides =>
        obtain ⟨futures, ready, heard, rfl⟩ := decides.members
        have none := undecided completion rfl
        exact .inr ⟨completion, none, by simp [none], rfl⟩
    | discard =>
        have none := undecided .discard rfl
        exact .inr ⟨.discard, none, by simp [none], rfl⟩
    | _ => exact .inl rfl
  have completes : ∀ op, (name, op) ∈ made → op.completes = true → ∃ completion,
      served.completions = [completion] ∧ op = completion.op := by
    intro op member completing
    obtain same | ⟨completion, none, single, rfl⟩ := decided
    · cases acts with
      | start =>
          cases List.mem_cons.mp member with
          | inl own =>
              cases own
              cases completing
          | inr rest =>
              obtain ⟨future, -, listed⟩ := List.mem_flatMap.mp rest
              simp only [List.mem_cons, Prod.mk.injEq, List.not_mem_nil, or_false] at listed
              obtain ⟨-, rfl⟩ | ⟨-, rfl⟩ := listed <;> cases completing
      | @decide _ _ _ _ completion next decides =>
          obtain ⟨futures, ready, heard, rfl⟩ := decides.members
          simp at same
      | discard => simp at same
      | request | delete =>
          have same := (Prod.mk.inj (List.mem_singleton.mp member)).2
          subst same
          cases completing
      | _ => cases member
    · refine ⟨completion, single, ?_⟩
      simpa using member
  constructor
  · intro op member completing
    cases executed.mem_calls.mp member with
    | inl new => exact completes op new completing
    | inr old =>
        obtain ⟨completion, single, same⟩ := promises.completes op old completing
        obtain keeps | ⟨-, none, -⟩ := decided
        · exact ⟨completion, keeps.trans single, same⟩
        · rw [none] at single
          cases single
  · intro propagating member
    cases executed.mem_calls.mp member with
    | inl new =>
        cases acts with
        | start => simp [registrations] at new
        | @decide _ _ _ _ completion next decides => cases completion <;> simp [Completion.op] at new
        | delete => rfl
        | discard | request => simp at new
        | _ => cases new
    | inr old => exact acts.deleted tracked executed (promises.abandons propagating old)
  · intro completion single
    rw [executed.status]
    obtain keeps | ⟨other, none, new, rfl⟩ := decided
    · obtain waits | completed := promises.decided completion (keeps.symm.trans single)
      · exact .inl (executed.mem_calls.mpr (.inr waits))
      · exact .inr completed
    · rw [new, List.cons.injEq] at single
      rw [← single.1]
      exact .inl (executed.mem_calls.mpr (.inl List.mem_cons_self))
  · rw [executed.status]
    intro completed
    obtain ⟨completion, single, settles⟩ := promises.settled completed
    obtain keeps | ⟨-, none, -⟩ := decided
    · exact ⟨completion, keeps.trans single, settles⟩
    · rw [none] at single
      cases single
  · rw [executed.status, Lost, acts.keeps.1]
    intro abandoned
    obtain terminated | lost := promises.abandoned abandoned
    · left
      cases acts with
      | terminated => rfl
      | decide next decides =>
          obtain ⟨futures, ready, heard, rfl⟩ := decides.members
          exact terminated
      | _ => exact terminated
    · exact .inr lost

theorem Acts.justified (sound : before.Sound) (completion : Completion (Value T))
    (single : served.completions = [completion]) :
    Justified after.status name served completion := by
  rw [executed.status]
  cases acts with
  | decide next decides =>
      have justified := tracked.decides sound executed.running next decides
      obtain ⟨free, -⟩ := dequeue_event next (by simp)
      obtain ⟨futures, ready, heard, rfl⟩ := decides.members
      rw [tracked.undecided executed.running free] at single
      cases single
      exact justified.congr rfl rfl rfl
  | discard =>
      have loop := tracked.ends.discarding [] (executed.mem_before.mpr (.inl rfl))
      rw [loop.undecided] at single
      cases single
      have asked : process.asked = process.inputs := by simpa using loop.asked
      refine .requested loop.requested asked fun future input => ?_
      exact tracked.ends.asked future (asked ▸ input)
  | asked =>
      have loop := tracked.ends.asking _ _ (executed.mem_before.mpr (.inl rfl))
      exact absurd (single.symm.trans loop.undecided) (by simp)
  | _ => exact (tracked.justified completion single).congr rfl rfl rfl

/-- A step of the process keeps its invariant. -/
theorem Acts.preserves (sound : before.Sound)
    (relied : ∀ call ∈ relies body, call.2.Done (before.status call.1)) :
    Tracked after name served where
  shaped := acts.shaped tracked executed
  staffed := acts.staffed tracked executed
  registers := acts.registers tracked executed
  counted := acts.counted tracked executed
  ends := acts.ends tracked executed relied
  heeds := acts.heeds tracked executed
  promises := acts.promises tracked executed
  justified := acts.justified tracked executed sound

end Acts

end Gather

end Libprocess
