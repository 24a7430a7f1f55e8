import Libprocess.Collect.Tracking

/-!
# The invariant of a process

Calls and callbacks only move the futures on, and give the process events; the steps of the process
handle one event each.
-/

namespace Libprocess

variable {T : Type}

open Snapshot (Entered Ran)

namespace Gather

/-- The futures of one moment at a later one. -/
structure Onward (before after : Statuses T) : Prop where
  later : ∀ future, (before future).Later (after future)
  discard : ∀ future, (before future).discard = true → (after future).discard = true
  fixed : ∀ future, (before future).state ≠ .pending → after future = before future

section Onward

variable {before after : GatherSnapshot T} {status next : Statuses T} {future name : FutureId}
  {process : GatherProcess T}

theorem onward_of_entered {op : Op (Value T) GatherCallback}
    (entered : Entered before after future op) : Onward before.status after.status := by
  refine ⟨entered.later, ?_, ?_⟩
  · intro other requested
    rw [entered.status]
    by_cases same : other = future
    · subst same
      rw [Function.update_self]
      exact Status.enter_discard _ op requested
    · rwa [Function.update_of_ne same]
  · intro other completed
    rw [entered.status]
    by_cases same : other = future
    · subst same
      rw [Function.update_self]
      exact Status.enter_of_not_pending completed op
    · rw [Function.update_of_ne same]

theorem Onward.state (onward : Onward status next) (completed : (status future).state ≠ .pending) :
    (next future).state = (status future).state :=
  ((onward.later future).completed completed).1

theorem Onward.result (onward : Onward status next) (completed : (status future).state ≠ .pending) :
    (next future).result = (status future).result :=
  ((onward.later future).completed completed).2.1

theorem Onward.completed (onward : Onward status next)
    (completed : (status future).state ≠ .pending) : (next future).state ≠ .pending := by
  rw [onward.state completed]
  exact completed

theorem Onward.asked (onward : Onward status next)
    (asked : (status future).discard = true ∨ (status future).state ≠ .pending) :
    (next future).discard = true ∨ (next future).state ≠ .pending := by
  cases asked with
  | inl requested => exact .inl (onward.discard future requested)
  | inr completed => exact .inr (onward.completed completed)

theorem get_eq_some {status : Status (Value T)} {value : Value T} :
    get status = some value ↔ status.state = .ready ∧ status.result = .some value := by
  unfold get
  split
  · rename_i ready found
    simp [ready, found]
  · rename_i other
    simp only [reduceCtorEq, false_iff, not_and]
    exact fun ready found => other value ready found

theorem Onward.get (onward : Onward status next) {value : Value T}
    (found : Gather.get (status future) = some value) : Gather.get (next future) = some value := by
  obtain ⟨ready, result⟩ := get_eq_some.mp found
  have completed : (status future).state ≠ .pending := by simp [ready]
  exact get_eq_some.mpr ⟨(onward.state completed).trans ready,
    (onward.result completed).trans result⟩

theorem gets_eq_some {futures : List FutureId} {values : List (Value T)} :
    gets status futures = some values ↔
      List.Forall₂ (fun future value => get (status future) = some value) futures values := by
  induction futures generalizing values with
  | nil => cases values <;> simp [gets]
  | cons future rest ih =>
      simp only [gets, List.mapM_cons, Option.bind_eq_bind, Option.bind_eq_some_iff,
        Option.pure_def, Option.some.injEq] at ih ⊢
      cases values with
      | nil => simp
      | cons value values =>
          rw [List.forall₂_cons, ← ih]
          constructor
          · rintro ⟨_, found, _, others, same⟩
            cases same
            exact ⟨found, others⟩
          · rintro ⟨found, others⟩
            exact ⟨value, found, values, others, rfl⟩

theorem Onward.gets (onward : Onward status next) {futures : List FutureId}
    {values : List (Value T)} (found : Gather.gets status futures = some values) :
    Gather.gets next futures = some values :=
  gets_eq_some.mpr ((gets_eq_some.mp found).imp fun _ _ => onward.get)

theorem Onward.lost (onward : Onward status next) (lost : Lost status process) :
    Lost next process := by
  obtain ⟨future, input, abandoned⟩ := lost
  exact ⟨future, input, (onward.later future).abandoned abandoned⟩

theorem Onward.justified (onward : Onward status next) {completion : Completion (Value T)}
    (justified : Justified status name process completion) :
    Justified next name process completion := by
  cases justified with
  | collected collects found => exact .collected collects (onward.gets found)
  | awaited awaits completed =>
      exact .awaited awaits fun future input => onward.completed (completed future input)
  | @failed future message collects input failed error =>
      have completed : (status future).state ≠ .pending := by simp [failed]
      exact .failed collects input ((onward.state completed).trans failed)
        ((onward.result completed).trans error)
  | @discarded future collects input discarded =>
      have completed : (status future).state ≠ .pending := by simp [discarded]
      exact .discarded collects input ((onward.state completed).trans discarded)
  | requested requested same asked =>
      exact .requested (onward.discard name requested) same
        fun future input => onward.asked (asked future input)

end Onward

section Entered

variable {before after : GatherSnapshot T} {future name : FutureId} {process : GatherProcess T}
  {op : Op (Value T) GatherCallback}

theorem Counted.of_entered (counted : Counted before name process)
    (entered : Entered before after future op) : Counted after name process := by
  have onward := onward_of_entered entered
  constructor
  · rw [entered.bodies, Snapshot.notified_congr entered.log]
    exact counted.answers
  · intro other heard
    obtain ⟨completed, ready⟩ := counted.heard other heard
    exact ⟨onward.completed completed,
      fun collects => (onward.state completed).trans (ready collects)⟩

theorem Ends.of_entered (ends : Ends before name process)
    (entered : Entered before after future op) : Ends after name process := by
  have onward := onward_of_entered entered
  have discards : ∀ rest, Discards before name process rest → Discards after name process rest :=
    fun rest loop => ⟨loop.undecided, loop.asked, onward.discard name loop.requested⟩
  constructor
  · rw [entered.bodies]
    exact ends.decided
  · rw [entered.bodies]
    exact ends.completing
  · rw [entered.bodies]
    intro losing
    exact ⟨(ends.losing losing).1, onward.lost (ends.losing losing).2⟩
  · rw [entered.bodies]
    exact fun rest loop => discards rest (ends.discarding rest loop)
  · rw [entered.bodies]
    exact fun other rest loop => discards _ (ends.asking other rest loop)
  · exact fun other asked => onward.asked (ends.asked other asked)
  · rw [entered.bodies]
    exact ends.unasked
  · intro ending
    obtain terminated | lost | completed := ends.ended ending
    · exact .inl terminated
    · exact .inr (.inl (onward.lost lost))
    · exact .inr (.inr (onward.completed completed))
  · exact ends.queued

theorem Heeds.of_entered (heeds : Heeds before name process)
    (entered : Entered before after future op) : Heeds after name process := by
  have onward := onward_of_entered entered
  constructor
  · rw [entered.bodies]
    exact fun event => onward.lost (heeds.lost event)
  · rw [entered.bodies]
    exact fun event => onward.discard name (heeds.requested event)
  · rw [entered.bodies]
    exact heeds.dispatches
  · rw [entered.bodies, Snapshot.notified_congr entered.log]
    exact heeds.abandoned

theorem Promises.of_entered (promises : Promises before name process)
    (ends : Ends before name process) (entered : Entered before after future op) :
    Promises after name process := by
  have onward := onward_of_entered entered
  have called : (future, op) ∈ before.calls := by
    rw [entered.calls]
    exact Multiset.mem_cons_self _ _
  have earlier : ∀ call ∈ after.calls, call ∈ before.calls := by
    intro call member
    rw [entered.calls]
    exact Multiset.mem_cons_of_mem member
  constructor
  · exact fun op member => promises.completes op (earlier _ member)
  · exact fun propagating member => promises.abandons propagating (earlier _ member)
  · intro completion decided
    obtain waits | completed := promises.decided completion decided
    · obtain ⟨rfl, rfl⟩ | waits := entered.remains waits
      · exact .inr (entered.completed (by cases completion <;> rfl))
      · exact .inl waits
    · exact .inr (onward.completed completed)
  · intro completed
    by_cases pending : (before.status name).state = .pending
    · obtain ⟨rfl, completes, settles, -⟩ := entered.completes pending completed
      obtain ⟨completion, decided, rfl⟩ := promises.completes op called completes
      exact ⟨completion, decided, settles⟩
    · obtain ⟨completion, decided, settles⟩ := promises.settled pending
      exact ⟨completion, decided, settles.later (onward.later name)⟩
  · intro abandoned
    by_cases already : (before.status name).abandoned = true
    · obtain terminated | lost := promises.abandoned already
      · exact .inl terminated
      · exact .inr (onward.lost lost)
    · obtain ⟨rfl, propagating, rfl, pending⟩ := entered.abandons already abandoned
      obtain terminated | lost | completed :=
        ends.ended (.inr (.inr (promises.abandons propagating called)))
      · exact .inl terminated
      · exact .inr (onward.lost lost)
      · exact absurd pending completed

theorem Tracked.of_entered (tracked : Tracked before name process)
    (entered : Entered before after future op) : Tracked after name process := by
  refine ⟨tracked.shaped, ?_, ?_, tracked.counted.of_entered entered,
    tracked.ends.of_entered entered, tracked.heeds.of_entered entered,
    tracked.promises.of_entered tracked.ends entered, ?_⟩
  · constructor
    · rw [entered.bodies]
      exact tracked.staffed.handled
    · rw [entered.bodies]
      exact tracked.staffed.spawned
  · constructor
    · intro kind
      rw [entered.subscribed]
      exact tracked.registers.waited kind
    · intro kind
      rw [entered.subscribed]
      exact tracked.registers.abandoned kind
    · intro kind
      rw [entered.subscribed]
      exact tracked.registers.discarded kind
  · exact fun completion decided =>
      (onward_of_entered entered).justified (tracked.justified completion decided)

end Entered

section Ran

variable {before after : GatherSnapshot T} {future name : FutureId} {process : GatherProcess T}
  {kind : CallbackKind} {registration : Registration GatherCallback}

theorem invoke_free (name future : FutureId) (argument : Argument (Value T))
    (callback : GatherCallback) : handles name (invoke future argument callback) = false ∧
      spawns name (invoke future argument callback) = false := by
  cases callback <;> exact ⟨rfl, rfl⟩

/-- A frame in which the process runs was there before. -/
theorem mem_of_ran (name : FutureId) (ran : Ran before after future kind registration)
    {body : GatherBody T} (member : body ∈ after.bodies) (handled : handles name body = true) :
    body ∈ before.bodies := by
  rw [ran.bodies] at member
  cases Multiset.mem_cons.mp member with
  | inl new =>
      rw [new, (invoke_free name future _ _).1] at handled
      cases handled
  | inr old => exact old

theorem Registers.kind_of_waited (registers : Registers before name process)
    (filed : (future, kind, registration) ∈ before.registered)
    (own : registration.callback = .waited name) : kind = .onAny ∧ future ∈ process.inputs := by
  have member := Snapshot.mem_subscribed filed
  rw [own, registers.waited kind] at member
  split at member
  · rename_i same
    rw [due] at member
    split at member
    · cases Multiset.notMem_zero _ member
    · exact ⟨same, member⟩
  · cases Multiset.notMem_zero _ member

theorem Registers.kind_of_abandoned (registers : Registers before name process)
    (filed : (future, kind, registration) ∈ before.registered)
    (own : registration.callback = .abandoned name) :
    kind = .onAbandoned ∧ future ∈ process.inputs := by
  have member := Snapshot.mem_subscribed filed
  rw [own, registers.abandoned kind] at member
  split at member
  · rename_i same
    rw [due] at member
    split at member
    · cases Multiset.notMem_zero _ member
    · exact ⟨same, member⟩
  · cases Multiset.notMem_zero _ member

theorem Counted.of_ran (counted : Counted before name process)
    (registers : Registers before name process)
    (ran : Ran before after future kind registration) : Counted after name process := by
  constructor
  · intro alive undecided
    have answers := counted.answers alive undecided
    rw [ran.notified, ran.bodies]
    by_cases own : registration.callback = .waited name
    · obtain ⟨rfl, -⟩ := registers.kind_of_waited ran.filed own
      have answers' : answer name ((gathering T).invoke future
          (argument future .onAny (before.status future).result) registration.callback) =
          some future := by
        simp [own, invoke, answer]
      rw [if_pos ⟨rfl, own⟩, Multiset.filterMap_cons_some _ _ _ answers', Multiset.cons_add,
        Multiset.cons_add, answers]
    · have none : answer name ((gathering T).invoke future
          (argument future kind (before.status future).result) registration.callback) = none := by
        cases callback : registration.callback with
        | waited other =>
            have different : other ≠ name := by
              rintro rfl
              exact own callback
            simp [invoke, answer, different]
        | _ => rfl
      rw [if_neg fun same => own same.2, Multiset.filterMap_cons_none _ _ none, answers]
  · rw [ran.status]
    exact counted.heard

theorem Ends.of_ran (ends : Ends before name process)
    (ran : Ran before after future kind registration) : Ends after name process := by
  constructor
  · intro completed
    obtain deleted | terminates | ⟨completion, member⟩ := ends.decided completed
    · exact .inl deleted
    · exact .inr (.inl terminates)
    · refine .inr (.inr ⟨completion, ?_⟩)
      rw [ran.bodies]
      exact Multiset.mem_cons_of_mem member
  · exact fun completion member =>
      ends.completing completion (mem_of_ran name ran member (by simp [handles]))
  · intro member
    rw [ran.status]
    exact ends.losing (mem_of_ran name ran member (by simp [handles]))
  · intro rest member
    obtain ⟨undecided, asked, requested⟩ :=
      ends.discarding rest (mem_of_ran name ran member (by simp [handles]))
    exact ⟨undecided, asked, by rwa [ran.status]⟩
  · intro other rest member
    obtain ⟨undecided, asked, requested⟩ :=
      ends.asking other rest (mem_of_ran name ran member (by simp [handles]))
    exact ⟨undecided, asked, by rwa [ran.status]⟩
  · rw [ran.status]
    exact ends.asked
  · rw [ran.bodies]
    intro undecided
    obtain none | ⟨loop, member⟩ | ⟨other, loop, member⟩ := ends.unasked undecided
    · exact .inl none
    · exact .inr (.inl ⟨loop, Multiset.mem_cons_of_mem member⟩)
    · exact .inr (.inr ⟨other, loop, Multiset.mem_cons_of_mem member⟩)
  · rw [ran.status]
    exact ends.ended
  · exact ends.queued

theorem Heeds.of_ran (heeds : Heeds before name process) (registers : Registers before name process)
    (ran : Ran before after future kind registration) : Heeds after name process := by
  have fires := ran.fires fun _ => ordered.disciplined future
  constructor
  · rw [ran.status]
    rintro (event | dispatch)
    · exact heeds.lost (.inl event)
    · rw [ran.bodies] at dispatch
      cases Multiset.mem_cons.mp dispatch with
      | inl new =>
          have own : registration.callback = .abandoned name := by
            cases callback : registration.callback <;> rw [callback] at new <;> cases new
            rfl
          obtain ⟨rfl, input⟩ := registers.kind_of_abandoned ran.filed own
          exact ⟨future, input, fires⟩
      | inr old => exact heeds.lost (.inr old)
  · rw [ran.status]
    rintro (event | dispatch)
    · exact heeds.requested (.inl event)
    · rw [ran.bodies] at dispatch
      cases Multiset.mem_cons.mp dispatch with
      | inl new =>
          have own : registration.callback = .discarded name := by
            cases callback : registration.callback <;> rw [callback] at new <;> cases new
            rfl
          have member := Snapshot.mem_subscribed ran.filed
          rw [own] at member
          obtain ⟨rfl, rfl⟩ := registers.discarded kind future member
          exact fires
      | inr old => exact heeds.requested (.inr old)
  · rw [ran.bodies]
    intro dispatch
    cases Multiset.mem_cons.mp dispatch with
    | inl new => cases callback : registration.callback <;> rw [callback] at new <;> cases new
    | inr old => exact heeds.dispatches old
  · rw [ran.notified, ran.bodies]
    intro some
    by_cases own : kind = .onAbandoned ∧ registration.callback = .abandoned name
    · refine .inr (.inr (.inr (.inr (Multiset.mem_cons.mpr (.inl ?_)))))
      rw [own.2]
      rfl
    · rw [if_neg own] at some
      obtain deleted | terminates | losing | event | dispatch := heeds.abandoned some
      · exact .inl deleted
      · exact .inr (.inl terminates)
      · exact .inr (.inr (.inl (Multiset.mem_cons_of_mem losing)))
      · exact .inr (.inr (.inr (.inl event)))
      · exact .inr (.inr (.inr (.inr (Multiset.mem_cons_of_mem dispatch))))

theorem Tracked.of_ran (tracked : Tracked before name process)
    (ran : Ran before after future kind registration) : Tracked after name process := by
  obtain ⟨handled, spawned⟩ := invoke_free name future
    (argument future kind (before.status future).result) registration.callback
  refine ⟨tracked.shaped, ?_, ?_, tracked.counted.of_ran tracked.registers ran,
    tracked.ends.of_ran ran, tracked.heeds.of_ran tracked.registers ran, ?_, ?_⟩
  · constructor
    · rw [ran.bodies, Multiset.countP_cons_of_neg _ (by simpa using handled)]
      exact tracked.staffed.handled
    · rw [ran.bodies, Multiset.countP_cons_of_neg _ (by simpa using spawned)]
      exact tracked.staffed.spawned
  · constructor
    · intro kind
      rw [ran.subscribed]
      exact tracked.registers.waited kind
    · intro kind
      rw [ran.subscribed]
      exact tracked.registers.abandoned kind
    · intro kind
      rw [ran.subscribed]
      exact tracked.registers.discarded kind
  · constructor
    · rw [ran.calls]
      exact tracked.promises.completes
    · rw [ran.calls]
      exact tracked.promises.abandons
    · rw [ran.calls, ran.status]
      exact tracked.promises.decided
    · rw [ran.status]
      exact tracked.promises.settled
    · rw [ran.status]
      exact tracked.promises.abandoned
  · rw [ran.status]
    exact tracked.justified

end Ran

section Elsewhere

variable {before after : GatherSnapshot T} {name : FutureId} {process : GatherProcess T}
  {body : GatherBody T} {rest : Multiset (GatherBody T)} {made : Calls T}
  {entered : List (GatherBody T)}

section

variable (executed : Executed before after body rest made entered)

include executed

theorem Executed.mem_before
    {frame : GatherBody T} : frame ∈ before.bodies ↔ frame = body ∨ frame ∈ rest := by
  rw [executed.running, Multiset.mem_cons]

theorem Executed.mem_after
    {frame : GatherBody T} : frame ∈ after.bodies ↔ frame ∈ entered ∨ frame ∈ rest := by
  rw [executed.bodies, Multiset.mem_add, Multiset.mem_coe]

theorem Executed.mem_calls {call : FutureId × Op (Value T) GatherCallback} :
    call ∈ after.calls ↔ call ∈ made ∨ call ∈ before.calls := by
  rw [executed.calls, Multiset.mem_add, Multiset.mem_coe]

/-- The selected frames before and after a step. -/
theorem Executed.exchange (selected : GatherBody T → Bool) :
    (after.bodies.countP fun frame => selected frame = true) + (if selected body then 1 else 0) =
      entered.countP selected + before.bodies.countP fun frame => selected frame = true := by
  rw [executed.bodies, executed.running, Multiset.countP_add, Multiset.countP_cons,
    Multiset.coe_countP, Nat.add_assoc]
  congr 1
  exact List.countP_congr fun _ _ => by simp

/-- A step that neither runs nor enters selected frames leaves them. -/
theorem Executed.countP (selected : GatherBody T → Bool) (outside : selected body = false)
    (enters : ∀ frame ∈ entered, selected frame = false) :
    after.bodies.countP (fun frame => selected frame = true) =
      before.bodies.countP fun frame => selected frame = true := by
  rw [executed.bodies, executed.running, Multiset.countP_add,
    Multiset.countP_cons_of_neg _ (by simpa using outside), Multiset.coe_countP,
    List.countP_eq_zero.mpr (fun frame member => by simpa using enters frame member),
    Nat.zero_add]

end

theorem Executed.filterMap {Seen : Type} (executed : Executed before after body rest made entered)
    (view : GatherBody T → Option Seen) (outside : view body = none)
    (enters : ∀ frame ∈ entered, view frame = none) :
    after.bodies.filterMap view = before.bodies.filterMap view := by
  rw [executed.bodies, executed.running, Multiset.filterMap_add,
    Multiset.filterMap_cons_none _ _ outside, Multiset.filterMap_coe,
    List.filterMap_eq_nil_iff.mpr enters]
  exact Multiset.zero_add _

section About

variable {frame : GatherBody T}

theorem handles_of_about (outside : about name frame = false) : handles name frame = false := by
  cases frame <;> first | rfl | (simp_all [about, spawns, handles])

theorem spawns_of_about (outside : about name frame = false) : spawns name frame = false := by
  cases frame <;> first | rfl | (simp_all [about, spawns, handles])

theorem answer_of_about (outside : about name frame = false) : answer name frame = none := by
  cases frame with
  | dispatch other event =>
      have different : other ≠ name := by simpa [about] using outside
      cases event <;> simp [answer, different]
  | _ => rfl

end About

section

variable (elsewhere : Elsewhere name process body after.env made entered)
  (executed : Executed before after body rest made entered)

include elsewhere executed

/-- A frame of the process is there after a step of everybody else just if it was before. -/
theorem Elsewhere.mem_iff {frame : GatherBody T}
    (own : about name frame = true) : frame ∈ after.bodies ↔ frame ∈ before.bodies := by
  rw [executed.mem_after, executed.mem_before]
  constructor
  · rintro (enters | stays)
    · rw [elsewhere.entered frame enters] at own
      cases own
    · exact .inr stays
  · rintro (rfl | stays)
    · rw [elsewhere.body] at own
      cases own
    · exact .inr stays

theorem Elsewhere.mem_calls
    {call : FutureId × Op (Value T) GatherCallback} (own : touches name call = true) :
    call ∈ after.calls ↔ call ∈ before.calls := by
  rw [executed.mem_calls, or_iff_right]
  intro calls
  rw [elsewhere.made call calls] at own
  cases own

theorem Elsewhere.subscribed (kind : CallbackKind)
    {callback : GatherCallback} (own : notifies name callback = true) :
    after.subscribed kind callback = before.subscribed kind callback := by
  have none : Snapshot.subscriptions (gathering T) made kind callback = 0 := by
    apply Snapshot.subscriptions_eq_zero
    rintro ⟨future, op⟩ calls registered same
    have outside := elsewhere.made _ calls
    simp only at same
    rw [same] at outside
    exact absurd own (by simpa [touches] using outside)
  rw [Snapshot.subscribed_add executed.calls executed.registered, none]
  exact Multiset.zero_add _

theorem Elsewhere.ends (ends : Ends before name process) :
    Ends after name process := by
  have frames : ∀ frame, handles name frame = true →
      (frame ∈ after.bodies ↔ frame ∈ before.bodies) := by
    intro frame handled
    apply elsewhere.mem_iff executed
    cases frame <;> simp_all [about, handles]
  constructor
  · intro completed
    obtain deleted | terminates | ⟨completion, member⟩ := ends.decided completed
    · exact .inl deleted
    · exact .inr (.inl terminates)
    · exact .inr (.inr ⟨completion, (frames _ (by simp [handles])).mpr member⟩)
  · exact fun completion member =>
      ends.completing completion ((frames _ (by simp [handles])).mp member)
  · intro member
    rw [executed.status]
    exact ends.losing ((frames _ (by simp [handles])).mp member)
  · intro loop member
    obtain ⟨undecided, asked, requested⟩ :=
      ends.discarding loop ((frames _ (by simp [handles])).mp member)
    exact ⟨undecided, asked, by rwa [executed.status]⟩
  · intro other loop member
    obtain ⟨undecided, asked, requested⟩ :=
      ends.asking other loop ((frames _ (by simp [handles])).mp member)
    exact ⟨undecided, asked, by rwa [executed.status]⟩
  · rw [executed.status]
    exact ends.asked
  · intro undecided
    obtain none | ⟨loop, member⟩ | ⟨other, loop, member⟩ := ends.unasked undecided
    · exact .inl none
    · exact .inr (.inl ⟨loop, (frames _ (by simp [handles])).mpr member⟩)
    · exact .inr (.inr ⟨other, loop, (frames _ (by simp [handles])).mpr member⟩)
  · rw [executed.status]
    exact ends.ended
  · exact ends.queued

theorem Elsewhere.heeds (heeds : Heeds before name process) :
    Heeds after name process := by
  have frames : ∀ event, .dispatch name event ∈ after.bodies ↔
      .dispatch name event ∈ before.bodies := by
    intro event
    apply elsewhere.mem_iff executed
    simp [about]
  have losing : .terminate name none ∈ after.bodies ↔ .terminate name none ∈ before.bodies := by
    apply elsewhere.mem_iff executed
    simp [about, handles]
  constructor
  · rw [executed.status, frames]
    exact heeds.lost
  · rw [executed.status, frames]
    exact heeds.requested
  · rw [frames]
    exact heeds.dispatches
  · rw [frames, losing, Snapshot.notified_congr executed.log]
    exact heeds.abandoned

theorem Elsewhere.tracked (tracked : Tracked before name process) :
    Tracked after name process := by
  refine ⟨tracked.shaped, ?_, ?_, ?_, elsewhere.ends executed tracked.ends,
    elsewhere.heeds executed tracked.heeds, ?_, ?_⟩
  · constructor
    · rw [executed.countP _ (handles_of_about elsewhere.body)
        fun frame member => handles_of_about (elsewhere.entered frame member)]
      exact tracked.staffed.handled
    · rw [executed.countP _ (spawns_of_about elsewhere.body)
        fun frame member => spawns_of_about (elsewhere.entered frame member)]
      exact tracked.staffed.spawned
  · constructor
    · intro kind
      rw [elsewhere.subscribed executed kind (by simp [notifies])]
      exact tracked.registers.waited kind
    · intro kind
      rw [elsewhere.subscribed executed kind (by simp [notifies])]
      exact tracked.registers.abandoned kind
    · intro kind
      rw [elsewhere.subscribed executed kind (by simp [notifies])]
      exact tracked.registers.discarded kind
  · constructor
    · rw [executed.filterMap _ (answer_of_about elsewhere.body)
        (fun frame member => answer_of_about (elsewhere.entered frame member)),
        Snapshot.notified_congr executed.log]
      exact tracked.counted.answers
    · rw [executed.status]
      exact tracked.counted.heard
  · constructor
    · intro op member completes
      refine tracked.promises.completes op ?_ completes
      exact (elsewhere.mem_calls executed (by cases op <;> simp_all [touches, Op.completes])).mp
        member
    · intro propagating member
      refine tracked.promises.abandons propagating ?_
      exact (elsewhere.mem_calls executed (by simp [touches])).mp member
    · intro completion decided
      rw [executed.status]
      obtain waits | completed := tracked.promises.decided completion decided
      · refine .inl ((elsewhere.mem_calls executed ?_).mpr waits)
        cases completion <;> simp [touches, Completion.op]
      · exact .inr completed
    · rw [executed.status]
      exact tracked.promises.settled
    · rw [executed.status]
      exact tracked.promises.abandoned
  · rw [executed.status]
    exact tracked.justified

end

end Elsewhere

end Gather

end Libprocess
