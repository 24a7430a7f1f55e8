import Libprocess.Future.Settled
import Mathlib.Data.List.Nodup

/-!
# Completion and exactly-once callbacks

Every step of every frame keeps the invariant of every future, so it holds along
every interleaving.  The contract of a future follows: its state leaves `PENDING`
at most once, and each registered callback is invoked exactly once if its event
happens and never otherwise.
-/

namespace Libprocess

open Concurrency

variable {α : Type}

namespace Memory

variable {code : Code α} {memory next : Memory code} {future : FutureId}
  {frame : code.Frame} {frames continuation after : List code.Frame}

section

variable (settled : Settled (code.Disciplined future) future (memory.view future) frames)

include settled

theorem completed_settled {target : FutureState} {own : CallbackKind} {result : Result α}
    (owns : Settled.OwnKind target own)
    (fits : (memory.data future).state = .pending → result.Fits target)
    {op : Op α code.Callback}
    (perm : (.enter future op :: after).Perm
      ((memory.completed future own ((memory.data future).complete target result)).2 ++ frames)) :
    Settled (code.Disciplined future) future
      ((memory.completed future own
        ((memory.data future).complete target result)).1.view future) after := by
  by_cases pending : (memory.data future).state = .pending
  · simp only [completed, Data.complete, pending, if_true] at perm ⊢
    rw [view_store_self]
    exact settled.complete pending owns (fits pending) perm
  · simp only [completed, Data.complete, pending, if_false, Bool.false_eq_true] at perm ⊢
    rw [view_returns_self]
    refine (settled.refuse pending).reframe perm (memory.data future)
      ⟨rfl, rfl, rfl, fun _ => rfl, fun _ _ => rfl⟩ rfl ?_
    intro kind selected _
    rfl

theorem discard_settled {op : Op α code.Callback}
    (perm : (.enter future op :: after).Perm
      ((memory.swappedOut future .onDiscard (memory.data future).requestDiscard).2 ++ frames)) :
    Settled (code.Disciplined future) future
      ((memory.swappedOut future .onDiscard
        (memory.data future).requestDiscard).1.view future) after := by
  unfold Data.requestDiscard at perm ⊢
  split at perm
  next takes =>
    simp only [swappedOut, if_pos takes] at perm ⊢
    rw [view_store_self]
    refine settled.swap takes.2 (by simpa [Status.fires] using takes.1) ?_ perm
    exact ⟨rfl, rfl, rfl, rfl, fun other different => by cases other <;> simp_all [Status.fires]⟩
  next refuses =>
    simp only [swappedOut, if_neg refuses] at perm ⊢
    refine settled.reframe perm (memory.data future)
      ⟨rfl, rfl, rfl, fun _ => rfl, fun _ _ => rfl⟩ rfl ?_
    intro kind selected _
    rfl

theorem abandon_settled {op : Op α code.Callback} {propagating : Bool}
    (perm : (.enter future op :: after).Perm
      ((memory.swappedOut future .onAbandoned
        ((memory.data future).abandon propagating)).2 ++ frames)) :
    Settled (code.Disciplined future) future
      ((memory.swappedOut future .onAbandoned
        ((memory.data future).abandon propagating)).1.view future) after := by
  unfold Data.abandon at perm ⊢
  split at perm
  next takes =>
    simp only [swappedOut, if_pos takes] at perm ⊢
    rw [view_store_self]
    refine settled.swap takes.2.1 (by simpa [Status.fires] using takes.1) ?_ perm
    exact ⟨rfl, rfl, rfl, rfl, fun other different => by cases other <;> simp_all [Status.fires]⟩
  next refuses =>
    simp only [swappedOut, if_neg refuses] at perm ⊢
    refine settled.reframe perm (memory.data future)
      ⟨rfl, rfl, rfl, fun _ => rfl, fun _ _ => rfl⟩ rfl ?_
    intro kind selected _
    rfl

theorem register_settled {kind : CallbackKind} {callback : code.Callback} {op : Op α code.Callback}
    (perm : (.enter future op :: after).Perm
      ((memory.register future kind callback).2 ++ frames)) :
    Settled (code.Disciplined future) future
      ((memory.register future kind callback).1.view future) after := by
  rw [view_register_self]
  by_cases fires : (memory.data future).fires kind = true
  · simp only [register, Data.register, if_pos fires, if_true] at perm ⊢
    exact settled.registerNow fires ⟨memory.tickets, callback⟩ perm
  · have unfires : (memory.data future).fires kind = false := by simpa using fires
    by_cases pending : (memory.data future).state = .pending
    · simp only [register, Data.register, if_neg fires, if_pos pending, Bool.false_eq_true,
        if_false] at perm ⊢
      exact settled.registerLater unfires pending ⟨memory.tickets, callback⟩ perm
    · simp only [register, Data.register, if_neg fires, if_neg pending, Bool.false_eq_true,
        if_false] at perm ⊢
      refine (settled.registerNever unfires pending ⟨memory.tickets, callback⟩).reframe perm
        (memory.data future) ⟨rfl, rfl, rfl, fun _ => rfl, fun _ _ => rfl⟩ rfl ?_
      intro kind selected _
      rfl

theorem iterate_settled {kind : CallbackKind} {index : Nat}
    (perm : (.running future kind index :: after).Perm
      ((memory.iterate future kind index).2 ++ frames)) :
    Settled (code.Disciplined future) future
      ((memory.iterate future kind index).1.view future) after := by
  unfold iterate at perm ⊢
  split at perm
  next registration found =>
    rw [view_record_self]
    have rest : ((memory.data future).callbacks kind).drop index =
        registration :: ((memory.data future).callbacks kind).drop (index + 1) := by
      obtain ⟨bound, rfl⟩ := List.getElem?_eq_some_iff.mp found
      exact List.drop_eq_getElem_cons bound
    refine settled.invoke perm (by simp [callback]) ?_
    intro other selected tracked
    simp only [callback, outstanding_cons, outstanding_nil, Frame.owed, view_data,
      occurrences_nil, Nat.zero_add, Nat.add_zero, if_true]
    by_cases same : kind = other
    · subst other
      simp [rest]
    · simp [same]
  next exhausted =>
    have rest : ((memory.data future).callbacks kind).drop index = [] := by
      simpa using exhausted
    refine settled.reframe perm (memory.data future)
      ⟨rfl, rfl, rfl, fun _ => rfl, fun _ _ => rfl⟩ ?_ ?_
    · split <;> simp
    · intro other selected tracked
      by_cases any : kind = .onAny
      · subst kind
        by_cases same : CallbackKind.onAny = other
        · subst other
          simp [Frame.owed, rest]
        · simp [Frame.owed, same, Ne.symm same]
      · by_cases same : kind = other
        · subst other
          simp [Frame.owed, rest, any, Ne.symm any]
        · by_cases otherAny : other = .onAny
          · subst other
            simp [Frame.owed, any]
          · simp [Frame.owed, same, any, otherAny, Ne.symm otherAny]

/-- Every step of every frame keeps the invariant of every future. -/
theorem step_settled (member : frame ∈ frames) {choice : code.Choice}
    (stepped : memory.step frame choice = some (next, continuation))
    (perm : (frame :: after).Perm (continuation ++ frames)) :
    Settled (code.Disciplined future) future (next.view future) after := by
  by_cases elsewhere : frame.subject ≠ some future
  · obtain ⟨⟨flags, disciplined, same⟩, idle⟩ := step_other elsewhere stepped
    rw [same]
    exact settled.elsewhere perm flags disciplined
      ⟨Frame.completes_of_subject_ne elsewhere, fun _ _ => Frame.owed_of_subject_ne elsewhere⟩
      idle
  · push Not at elsewhere
    cases frame with
    | enter other op =>
        simp only [Frame.subject] at elsewhere
        cases elsewhere
        simp only [step, Option.some.injEq, Prod.ext_iff] at stepped
        obtain ⟨rfl, rfl⟩ := stepped
        cases op with
        | set value => exact completed_settled settled .ready (fun _ => ⟨value, rfl⟩) perm
        | fail message =>
            exact completed_settled settled .failed (fun _ => ⟨message, rfl⟩) perm
        | discarded =>
            refine completed_settled settled .discarded ?_ perm
            intro pending
            have stored := settled.result
            simp only [view_data, pending] at stored
            exact stored
        | discard => exact discard_settled settled perm
        | abandon propagating => exact abandon_settled settled perm
        | on kind callback => exact register_settled settled perm
    | running other kind index =>
        simp only [Frame.subject] at elsewhere
        cases elsewhere
        simp only [step, Option.some.injEq, Prod.ext_iff] at stepped
        obtain ⟨rfl, rfl⟩ := stepped
        exact iterate_settled settled perm
    | clearing other =>
        simp only [Frame.subject] at elsewhere
        cases elsewhere
        cases stepped
        rw [view_returns_self, view_store_self]
        exact settled.clear member perm
    | swapped other kind rest =>
        simp only [Frame.subject] at elsewhere
        cases elsewhere
        cases rest with
        | nil =>
            cases stepped
            refine settled.reframe perm (memory.data future)
              ⟨rfl, rfl, rfl, fun _ => rfl, fun _ _ => rfl⟩ (by simp) ?_
            intro other selected _
            simp [Frame.owed]
        | cons registration rest =>
            cases stepped
            rw [view_record_self]
            refine settled.invoke perm (by simp [callback]) ?_
            intro other selected _
            by_cases same : kind = other <;> simp [Frame.owed, callback, same]
    | invoking other kind registration =>
        simp only [Frame.subject] at elsewhere
        cases elsewhere
        cases stepped
        rw [view_record_self]
        refine settled.invoke perm (by simp [callback]) ?_
        intro other selected _
        by_cases same : kind = other <;> simp [Frame.owed, callback, same]
    | body frame => simp [Frame.subject] at elsewhere

/-! ## What never changes after completion -/

end

section

variable (notPending : (memory.data future).state ≠ .pending)

include notPending

theorem completed_of_not_pending (own : CallbackKind) (target : FutureState) (result : Result α) :
    (memory.completed future own
      ((memory.data future).complete target result)).1.data = memory.data := by
  simp [completed, Data.complete, notPending, returns]

/-- Once a future is completed, only the completing call's own
`clearAllCallbacks` touches more of its data than the flags. -/
theorem step_data_of_not_pending (notClearing : frame ≠ .clearing future) {choice : code.Choice}
    (stepped : memory.step frame choice = some (next, continuation)) :
    ∃ flags, next.data future = { memory.data future with toFlags := flags } := by
  by_cases elsewhere : frame.subject ≠ some future
  · obtain ⟨⟨flags, _, same⟩, _⟩ := step_other elsewhere stepped
    exact ⟨flags, congrArg View.data same⟩
  · push Not at elsewhere
    refine ⟨(memory.data future).toFlags, ?_⟩
    cases frame with
    | enter other op =>
        simp only [Frame.subject] at elsewhere
        cases elsewhere
        simp only [step, Option.some.injEq, Prod.ext_iff] at stepped
        obtain ⟨rfl, -⟩ := stepped
        cases op with
        | set value | fail message | discarded =>
            exact congrFun (completed_of_not_pending notPending _ _ _) future
        | discard => simp [enter, swappedOut, Data.requestDiscard, notPending]
        | abandon propagating => simp [enter, swappedOut, Data.abandon, notPending]
        | on kind callback =>
            by_cases fires : (memory.data future).fires kind = true <;>
              simp [enter, register, store, Data.register, notPending, fires]
    | running other kind index =>
        simp only [Frame.subject] at elsewhere
        cases elsewhere
        simp only [step, iterate, Option.some.injEq, Prod.ext_iff] at stepped
        obtain ⟨rfl, -⟩ := stepped
        split <;> rfl
    | clearing other =>
        simp only [Frame.subject, Option.some.injEq] at elsewhere
        exact absurd (congrArg Frame.clearing elsewhere) notClearing
    | swapped other kind rest =>
        cases rest with
        | nil | cons registration rest =>
            cases stepped
            rfl
    | invoking other kind registration =>
        cases stepped
        rfl
    | body frame => simp [Frame.subject] at elsewhere

theorem step_state_of_not_pending
    {choice : code.Choice} (stepped : memory.step frame choice = some (next, continuation)) :
    (next.data future).state = (memory.data future).state ∧
      (next.data future).result = (memory.data future).result := by
  by_cases clearing : frame = .clearing future
  · subst frame
    cases stepped
    simp [returns, store, Data.clearAllCallbacks]
  · obtain ⟨flags, same⟩ := step_data_of_not_pending notPending clearing stepped
    simp [same]

end

/-- Tickets are handed out once. -/
structure TicketsUnique (memory : Memory code) : Prop where
  issued : ∀ entry ∈ memory.registered, entry.2.2.ticket < memory.tickets
  unique : (memory.registered.map (·.2.2.ticket)).Nodup

theorem TicketsUnique.issue (tickets : TicketsUnique memory) {kind : CallbackKind}
    {callback : code.Callback}
    (entries : next.registered =
      (future, kind, ⟨memory.tickets, callback⟩) :: memory.registered)
    (advanced : next.tickets = memory.tickets + 1) : TicketsUnique next where
  issued := by
    rw [entries, advanced]
    intro entry member
    rcases List.mem_cons.mp member with rfl | earlier
    · simp
    · exact Nat.lt_succ_of_lt (tickets.issued entry earlier)
  unique := by
    rw [entries, List.map_cons]
    refine List.nodup_cons.mpr ⟨?_, tickets.unique⟩
    intro present
    obtain ⟨entry, member, same⟩ := List.mem_map.mp present
    have issued := tickets.issued entry member
    simp only at same
    omega

theorem step_tickets {choice : code.Choice} (tickets : TicketsUnique memory)
    (stepped : memory.step frame choice = some (next, continuation)) :
    TicketsUnique next := by
  cases frame with
  | enter other op =>
      simp only [step, Option.some.injEq, Prod.ext_iff] at stepped
      obtain ⟨rfl, -⟩ := stepped
      cases op with
      | set value | fail message | discarded =>
          simp only [enter, completed]
          split <;> exact ⟨tickets.issued, tickets.unique⟩
      | discard | abandon propagating =>
          simp only [enter, swappedOut]
          split <;> exact ⟨tickets.issued, tickets.unique⟩
      | on kind callback => exact tickets.issue rfl rfl
  | running other kind index =>
      simp only [step, iterate, Option.some.injEq, Prod.ext_iff] at stepped
      obtain ⟨rfl, -⟩ := stepped
      split <;> exact ⟨tickets.issued, tickets.unique⟩
  | clearing other | invoking other kind registration =>
      cases stepped
      exact ⟨tickets.issued, tickets.unique⟩
  | swapped other kind rest =>
      cases rest with
      | nil =>
          cases stepped
          exact tickets
      | cons registration rest =>
          cases stepped
          exact ⟨tickets.issued, tickets.unique⟩
  | body frame =>
      simp only [step, execute, Option.map_eq_some_iff, Prod.mk.injEq] at stepped
      obtain ⟨effect, _, rfl, -⟩ := stepped
      exact ⟨tickets.issued, tickets.unique⟩

end Memory

/-! ## The contract -/

namespace Machine

variable {code : Code α} {machine : Machine code}

/-- No function of the future is being executed. -/
def Quiescent (machine : Machine code) (future : FutureId) : Prop :=
  ∀ frame ∈ machine.threads.frames, frame.subject ≠ some future

/-- How often one registration has been invoked. -/
def invocations (machine : Machine code) (future : FutureId) (kind : CallbackKind)
    (ticket : Nat) : Nat :=
  (machine.memory.view future).invoked kind fun registration => registration.ticket = ticket

/-- The results that completing calls on one future have returned. -/
def completions (machine : Machine code) (future : FutureId) : List Bool :=
  (machine.memory.view future).returned

/-- What the runs of the machine preserve. -/
structure Invariant (machine : Machine code) : Prop where
  settled : ∀ future,
    Settled (code.Disciplined future) future (machine.memory.view future) machine.threads.frames
  tickets : machine.memory.TicketsUnique

theorem Initial.invariant (initial : Initial machine) : Invariant machine := by
  obtain ⟨fresh, -, registered, log, returned, threads⟩ := initial
  refine ⟨fun future => ?_, by simp [registered], by simp [registered]⟩
  obtain ⟨abandoned, data⟩ := fresh future
  exact
    { completion := by simp [Memory.view, returned, threads, data, Data.fresh]
      refused := by simp [Memory.view, returned]
      result := by simp [data, Data.fresh, Result.Fits]
      fired := by
        intro kind selected _ _
        simp [View.invoked, View.registrations, Memory.view, log, registered, threads]
      unfired := by
        intro kind selected _ _
        simp [View.invoked, Memory.view, log, threads]
      waiting := by
        intro kind selected _ _ _
        simp [View.registrations, Memory.view, data, Data.fresh, registered]
      arguments := by simp [Memory.view, log] }

/-- The parts of one step of one thread. -/
theorem step_advance {machine next : Machine code} {thread : Nat} {choice : code.Choice}
    (stepped : machine.step (.advance thread choice) = some next) :
    ∃ frame continuation, machine.threads.top? thread = some frame ∧
      machine.memory.step frame choice = some (next.memory, continuation) ∧
      next.threads = machine.threads.resume thread continuation := by
  simp only [step, Option.bind_eq_bind, Option.bind_eq_some_iff] at stepped
  obtain ⟨frame, running, ⟨memory, continuation⟩, moved, result⟩ := stepped
  simp only [Option.pure_def] at result
  cases result
  exact ⟨frame, continuation, running, moved, rfl⟩

theorem Invariant.step {next : Machine code} {move : Move code}
    (invariant : Invariant machine) (stepped : machine.step move = some next) :
    Invariant next := by
  cases move with
  | spawn =>
      simp only [Machine.step] at stepped
      cases stepped
      refine ⟨fun future => ?_, invariant.tickets⟩
      have settled := invariant.settled future
      have perm : (.body code.main :: (machine.threads.spawn (.body code.main)).frames).Perm
          ([.body code.main, .body code.main] ++ machine.threads.frames) := by
        simp
      exact settled.elsewhere perm (machine.memory.data future).toFlags (fun _ => rfl)
        (by simp [Frame.owed]) (by simp [Frame.owed])
  | advance thread choice =>
      obtain ⟨frame, continuation, running, moved, threads⟩ := step_advance stepped
      refine ⟨fun future => ?_, Memory.step_tickets invariant.tickets moved⟩
      rw [threads]
      have exchange := Threads.exchange running continuation
      exact Memory.step_settled (invariant.settled future) exchange.member moved exchange.perm

theorem Invariant.of_reachable (reached : (futures code).Reachable machine) :
    Invariant machine :=
  reached.invariant Invariant (fun _ initial => Initial.invariant initial)
    fun _ _ _ invariant _ stepped => invariant.step stepped

/-- The contract of one future in one state of a run. -/
structure Contract (machine : Machine code) (future : FutureId) : Prop where
  /-- State and result never change after the future has left `PENDING`. -/
  final : (machine.memory.data future).state ≠ .pending →
    ∀ later, (futures code).Leads machine later →
      (later.memory.data future).state = (machine.memory.data future).state ∧
        (later.memory.data future).result = (machine.memory.data future).result
  /-- At no time has more than one completing call returned true. -/
  winners : (machine.completions future).count true ≤ 1
  /-- Of the completing calls that were made exactly one returns true. -/
  winner : machine.Quiescent future →
    (machine.completions future).count true =
        (if (machine.memory.data future).state = .pending then 0 else 1) ∧
      (machine.completions future ≠ [] → (machine.completions future).count true = 1)
  any : machine.Quiescent future →
    ∀ registration, (future, .onAny, registration) ∈ machine.memory.registered →
      machine.invocations future .onAny registration.ticket =
        if (machine.memory.data future).state = .pending then 0 else 1
  ready : machine.Quiescent future →
    ∀ registration, (future, .onReady, registration) ∈ machine.memory.registered →
      machine.invocations future .onReady registration.ticket =
        if (machine.memory.data future).state = .ready then 1 else 0
  failed : machine.Quiescent future →
    ∀ registration, (future, .onFailed, registration) ∈ machine.memory.registered →
      machine.invocations future .onFailed registration.ticket =
        if (machine.memory.data future).state = .failed then 1 else 0
  discarded : machine.Quiescent future →
    ∀ registration, (future, .onDiscarded, registration) ∈ machine.memory.registered →
      machine.invocations future .onDiscarded registration.ticket =
        if (machine.memory.data future).state = .discarded then 1 else 0
  /-- `onReady` callbacks get the stored value. -/
  value : ∀ invocation ∈ machine.memory.log, invocation.future = future →
    invocation.kind = .onReady → ∃ value,
      (machine.memory.data future).result = .some value ∧
        invocation.argument = .value value
  /-- `onFailed` callbacks get the stored message. -/
  message : ∀ invocation ∈ machine.memory.log, invocation.future = future →
    invocation.kind = .onFailed → ∃ message,
      (machine.memory.data future).result = .error message ∧
        invocation.argument = .message message
  /-- No callback on completion runs while the future is pending. -/
  early : (machine.memory.data future).state = .pending →
    ∀ invocation ∈ machine.memory.log, invocation.future = future →
      invocation.kind = .onAbandoned ∨ invocation.kind = .onDiscard
  /-- No vector changes while the completing call iterates over one. -/
  vectors : ∀ kind index, .running future kind index ∈ machine.threads.frames →
    ∀ move next, machine.step move = some next →
      (next.memory.data future).callbacks = (machine.memory.data future).callbacks

namespace Invariant

variable {future : FutureId}

/-- A quiescent future owes nothing. -/
theorem nothing_outstanding (quiescent : machine.Quiescent future)
    (callbacks : CallbackKind → List (Registration code.Callback)) (kind : CallbackKind)
    (selected : Registration code.Callback → Bool) :
    outstanding callbacks future kind selected machine.threads.frames = 0 :=
  outstanding_of_subject_ne quiescent

theorem registered_once (invariant : Invariant machine) {kind : CallbackKind}
    {registration : Registration code.Callback}
    (member : (future, kind, registration) ∈ machine.memory.registered) :
    ((machine.memory.view future).registrations kind fun other =>
      other.ticket = registration.ticket) = 1 := by
  have unique : ((machine.memory.view future).registered.map (·.2.ticket)).Nodup := by
    have filtered : (machine.memory.registered.filter fun entry =>
        entry.1 = future).Sublist machine.memory.registered := List.filter_sublist
    simpa [Memory.view, Function.comp_def] using
      invariant.tickets.unique.sublist (filtered.map _)
  have present : (kind, registration) ∈ (machine.memory.view future).registered := by
    simpa [Memory.view] using member
  apply Nat.le_antisymm
  · calc (machine.memory.view future).registrations kind _
        ≤ (machine.memory.view future).registered.countP
            (fun entry => entry.2.ticket == registration.ticket) :=
          List.countP_mono_left (by simp)
      _ = ((machine.memory.view future).registered.map (·.2.ticket)).count
            registration.ticket := by
          rw [List.count, List.countP_map]
          rfl
      _ ≤ 1 := List.nodup_iff_count_le_one.mp unique _
  · exact List.countP_pos_iff.mpr ⟨_, present, by simp⟩

/-- Exactly once if the event has happened and never otherwise. -/
theorem invocations_eq (invariant : Invariant machine)
    (quiescent : machine.Quiescent future) {kind : CallbackKind}
    (tracked : kind = .onDiscard → code.Disciplined future) {registration : Registration code.Callback}
    (member : (future, kind, registration) ∈ machine.memory.registered) :
    machine.invocations future kind registration.ticket =
      if (machine.memory.data future).fires kind = true then 1 else 0 := by
  have settled := invariant.settled future
  split
  next fired =>
    have balanced := settled.fired kind
      (fun other => other.ticket = registration.ticket) tracked fired
    rw [nothing_outstanding quiescent, invariant.registered_once member] at balanced
    exact balanced
  next unfired =>
    have silent : (machine.memory.data future).fires kind = false := by simpa using unfired
    exact (settled.unfired kind _ tracked silent).1

theorem invoked_fires (invariant : Invariant machine) {invocation : Invocation α code.Callback}
    (member : invocation ∈ (machine.memory.view future).log)
    (tracked : invocation.kind = .onDiscard → code.Disciplined future) :
    (machine.memory.data future).fires invocation.kind = true := by
  by_contra unfired
  have silent : (machine.memory.data future).fires invocation.kind = false := by
    simpa using unfired
  have none := ((invariant.settled future).unfired _ (fun _ => true) tracked silent).1
  have absent := List.countP_eq_zero.mp none invocation member
  simp at absent

theorem final (reached : (futures code).Reachable machine)
    (completed : (machine.memory.data future).state ≠ .pending) {later : Machine code}
    (path : (futures code).Leads machine later) :
    (later.memory.data future).state = (machine.memory.data future).state ∧
      (later.memory.data future).result = (machine.memory.data future).result := by
  refine path.preserves
    (fun state => (state.memory.data future).state = (machine.memory.data future).state ∧
      (state.memory.data future).result = (machine.memory.data future).result)
    reached ⟨rfl, rfl⟩ ?_
  intro state move next _ same stepped
  have notPending : (state.memory.data future).state ≠ .pending := by
    rw [same.1]
    exact completed
  cases move with
  | spawn =>
      have moved : state.step .spawn = some next := stepped
      simp only [Machine.step] at moved
      cases moved
      exact same
  | advance thread choice =>
      obtain ⟨frame, continuation, _, moved, _⟩ := step_advance stepped
      have kept := Memory.step_state_of_not_pending notPending moved
      exact ⟨kept.1.trans same.1, kept.2.trans same.2⟩

/-- The completing call is alone with the vectors. -/
theorem vectors (invariant : Invariant machine) {kind : CallbackKind} {index : Nat}
    (loop : .running future kind index ∈ machine.threads.frames) {move : Move code}
    {next : Machine code} (stepped : machine.step move = some next) :
    (next.memory.data future).callbacks = (machine.memory.data future).callbacks := by
  have settled := invariant.settled future
  have notPending : (machine.memory.data future).state ≠ .pending := by
    intro pending
    have idle := settled.not_completes pending _ loop
    simp at idle
  cases move with
  | spawn =>
      simp only [Machine.step] at stepped
      cases stepped
      rfl
  | advance thread choice =>
      obtain ⟨frame, continuation, running, moved, _⟩ := step_advance stepped
      have notClearing : frame ≠ .clearing future := by
        rintro rfl
        have both : machine.threads.frames.countP (·.completes future) +
            (machine.completions future).count true = 1 := by
          simpa [completions, notPending] using settled.completion
        have exchange := Threads.exchange running []
        have other : .running future kind index ∈
            (machine.threads.resume thread []).frames :=
          exchange.kept loop (by simp)
        have positive : 0 <
            (machine.threads.resume thread []).frames.countP (·.completes future) :=
          List.countP_pos_iff.mpr ⟨_, other, by simp⟩
        have counts := exchange.countP (·.completes future)
        simp only [Frame.completes_clearing, decide_true, if_true, List.countP_nil] at counts
        omega
      obtain ⟨flags, same⟩ := Memory.step_data_of_not_pending notPending notClearing moved
      rw [same]

end Invariant

end Machine

/-- Exactly-once callbacks: whatever the code around the futures does, and
however the threads interleave, every future keeps its contract. -/
theorem callbacks_exactly_once (code : Code α) {machine : Machine code}
    (reached : (futures code).Reachable machine) (future : FutureId) :
    machine.Contract future := by
  have invariant := Machine.Invariant.of_reachable reached
  have settled := invariant.settled future
  have completion := settled.completion
  have idle : machine.Quiescent future →
      machine.threads.frames.countP (·.completes future) = 0 := by
    intro quiescent
    refine List.countP_eq_zero.mpr fun frame member => ?_
    simp [Frame.completes_of_subject_ne (quiescent frame member)]
  have result := settled.result
  refine
    { final := fun completed later path => Machine.Invariant.final reached completed path
      winners := ?_
      winner := ?_
      any := ?_
      ready := ?_
      failed := ?_
      discarded := ?_
      value := ?_
      message := ?_
      early := ?_
      vectors := fun kind index loop move next stepped => invariant.vectors loop stepped }
  · simp only [Machine.completions]
    split at completion <;> omega
  · intro quiescent
    have none := idle quiescent
    rw [none, Nat.zero_add] at completion
    refine ⟨completion, fun called => ?_⟩
    obtain ⟨answer, answers, list⟩ := List.exists_cons_of_ne_nil called
    cases answer with
    | true =>
        have positive : 0 < (machine.completions future).count true := by
          rw [list]
          simp
        simp only [Machine.completions] at positive ⊢
        split at completion <;> omega
    | false =>
        have refused : (machine.memory.data future).state ≠ .pending := by
          refine settled.refused ?_
          change false ∈ machine.completions future
          simp [list]
        simpa [Machine.completions, refused] using completion
  · intro quiescent registration member
    rw [invariant.invocations_eq quiescent (by simp) member]
    by_cases pending : (machine.memory.data future).state = .pending <;>
      simp [Status.fires, pending]
  · intro quiescent registration member
    rw [invariant.invocations_eq quiescent (by simp) member]
    simp [Status.fires]
  · intro quiescent registration member
    rw [invariant.invocations_eq quiescent (by simp) member]
    simp [Status.fires]
  · intro quiescent registration member
    rw [invariant.invocations_eq quiescent (by simp) member]
    simp [Status.fires]
  · intro invocation member of kind
    have present : invocation ∈ (machine.memory.view future).log := by
      simp [Memory.view, member, of]
    have fires := invariant.invoked_fires present (by simp [kind])
    have ready : (machine.memory.data future).state = .ready := by
      simpa [kind, Status.fires] using fires
    simp only [Memory.view_data, ready, Result.Fits] at result
    obtain ⟨value, stored⟩ := result
    refine ⟨value, stored, ?_⟩
    rw [settled.arguments invocation present, kind, Memory.view_data, stored]
    rfl
  · intro invocation member of kind
    have present : invocation ∈ (machine.memory.view future).log := by
      simp [Memory.view, member, of]
    have fires := invariant.invoked_fires present (by simp [kind])
    have failed : (machine.memory.data future).state = .failed := by
      simpa [kind, Status.fires] using fires
    simp only [Memory.view_data, failed, Result.Fits] at result
    obtain ⟨message, stored⟩ := result
    refine ⟨message, stored, ?_⟩
    rw [settled.arguments invocation present, kind, Memory.view_data, stored]
    rfl
  · intro pending invocation member of
    exact settled.invoked_pending pending (by simp [Memory.view, member, of])

/-- The most general client: every thread and every callback may call any
function of any future any number of times before it returns. -/
def client (α : Type) : Code α where
  Callback := Unit
  Body := Unit
  Env := Unit
  Choice := Option (FutureId × Op α Unit)
  initial := ()
  main := ()
  invoke _ _ _ := ()
  step status _ _ choice := some
    { flags := fun future => (status future).toFlags
      env := ()
      next := match choice with
        | none => []
        | some (future, op) => [.call future op, .body ()] }

/-- One thread registers an `onAny` callback, another sets the future, the
callback registers an `onReady` callback on it again, and the first thread then
fails to fail it. -/
def reentrantSchedule : List (Move (client Nat)) :=
  List.flatten [[.spawn, .advance 0 (some (0, .on .onAny ())), .advance 0 none, .spawn,
     .advance 1 (some (0, .set 7))], List.replicate 3 (.advance 1 none),
    [.advance 1 (some (0, .on .onReady ()))], List.replicate 7 (.advance 1 none),
    [.advance 0 (some (0, .fail "late")), .advance 0 none, .advance 0 none]]

theorem callbacks_exactly_once_reentrant : ∃ machine,
    (futures (client Nat)).run (Machine.new (client Nat) fun _ => false) reentrantSchedule =
        some machine ∧
      machine.Contract 0 ∧ machine.threads.frames.map Frame.subject = [] ∧
      machine.invocations 0 .onAny 0 = 1 ∧ machine.invocations 0 .onReady 1 = 1 ∧
      machine.completions 0 = [false, true] := by
  obtain ⟨machine, executed, observed⟩ : ∃ machine ∈ (futures (client Nat)).run
      (Machine.new _ fun _ => false) reentrantSchedule,
      machine.threads.frames.map Frame.subject = [] ∧
      machine.invocations 0 .onAny 0 = 1 ∧ machine.invocations 0 .onReady 1 = 1 ∧
      machine.completions 0 = [false, true] := by
    decide
  exact ⟨machine, executed,
    callbacks_exactly_once (client Nat)
      (.of_run (Machine.new_initial (client Nat) fun _ => false) executed) 0, observed⟩

end Libprocess
