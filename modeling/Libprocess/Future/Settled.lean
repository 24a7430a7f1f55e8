import Libprocess.Future.Accounting

/-!
# The invariant of one future

`Settled` relates the state of a future, its callback vectors and the frames of
all threads: one completing call owns the transition out of `PENDING`, and the
balance of registrations holds for every kind of callback.  Each way a step can
touch a future has one lemma.
-/

namespace Libprocess

open Concurrency

variable {α : Type}

/-- The result stored in each state. -/
def Result.Fits : FutureState → Result α → Prop
  | .pending, result => result = .none
  | .ready, result => ∃ value, result = .some value
  | .failed, result => ∃ message, result = .error message
  | .discarded, result => result = .none

/-- The invariant of one future.  It accounts for `onDiscard` callbacks if nothing but
`Future::discard` writes the `discard` flag. -/
structure Settled {Callback Body : Type} (disciplined : Prop) (future : FutureId)
    (view : View α Callback) (frames : List (Frame α Callback Body)) : Prop where
  completion : frames.countP (·.completes future) + view.returned.count true =
    if view.data.state = .pending then 0 else 1
  refused : false ∈ view.returned → view.data.state ≠ .pending
  result : view.data.result.Fits view.data.state
  fired : ∀ kind selected, (kind = .onDiscard → disciplined) → view.data.fires kind = true →
    view.invoked kind selected + outstanding view.data.callbacks future kind selected frames =
      view.registrations kind selected
  unfired : ∀ kind selected, (kind = .onDiscard → disciplined) → view.data.fires kind = false →
    view.invoked kind selected = 0 ∧
      outstanding view.data.callbacks future kind selected frames = 0
  waiting : ∀ kind selected, (kind = .onDiscard → disciplined) → view.data.fires kind = false →
    view.data.state = .pending →
    occurrences selected (view.data.callbacks kind) = view.registrations kind selected
  arguments : ∀ invocation ∈ view.log,
    invocation.argument = argument future invocation.kind view.data.result

section Exchange

variable {Callback Body : Type} {frame : Frame α Callback Body}
  {frames next after : List (Frame α Callback Body)}

theorem countP_exchange (perm : (frame :: after).Perm (next ++ frames))
    (selected : Frame α Callback Body → Bool) :
    after.countP selected + (if selected frame then 1 else 0) =
      next.countP selected + frames.countP selected := by
  simpa [List.countP_cons] using perm.countP_eq selected

theorem outstanding_exchange (perm : (frame :: after).Perm (next ++ frames))
    (callbacks : CallbackKind → List (Registration Callback)) (future : FutureId)
    (kind : CallbackKind) (selected : Registration Callback → Bool) :
    outstanding callbacks future kind selected after +
        occurrences selected (frame.owed callbacks future kind) =
      outstanding callbacks future kind selected next +
        outstanding callbacks future kind selected frames := by
  have total : outstanding callbacks future kind selected (frame :: after) =
      outstanding callbacks future kind selected (next ++ frames) := outstanding_perm perm
  simp only [outstanding_cons, outstanding_append] at total
  omega

end Exchange

namespace Settled

variable {Callback Body : Type} {disciplined : Prop} {future : FutureId}
  {view : View α Callback} {frame : Frame α Callback Body}
  {frames next after : List (Frame α Callback Body)}

/-- While a future is pending no call reads its vectors in place. -/
theorem not_completes (settled : Settled disciplined future view frames)
    (pending : view.data.state = .pending) :
    ∀ frame ∈ frames, frame.completes future = false := by
  have none := settled.completion
  rw [if_pos pending] at none
  intro frame member
  have zero : frames.countP (·.completes future) = 0 := by omega
  simpa using List.countP_eq_zero.mp zero frame member

/-- While a future is pending its vectors can change without changing what the
frames owe. -/
theorem outstanding_pending (settled : Settled disciplined future view frames)
    (pending : view.data.state = .pending)
    (callbacks : CallbackKind → List (Registration Callback)) (kind : CallbackKind)
    (selected : Registration Callback → Bool) :
    outstanding callbacks future kind selected frames =
      outstanding view.data.callbacks future kind selected frames :=
  outstanding_congr fun frame member =>
    Frame.owed_of_not_completes (settled.not_completes pending frame member) _ _ _

/-- Data that agree on everything the invariant looks at. -/
structure Agrees (disciplined : Prop) (left right : Data α Callback) : Prop where
  state : left.state = right.state
  abandoned : left.abandoned = right.abandoned
  result : left.result = right.result
  discard : disciplined → left.discard = right.discard
  callbacks : ∀ kind, (kind = .onDiscard → disciplined) →
    left.callbacks kind = right.callbacks kind

section

variable (settled : Settled disciplined future view frames)

include settled

/-- A step that invokes nothing: it may touch the flags and the `onDiscard`
vector, and exchanges a frame for frames with the same debt. -/
theorem reframe (perm : (frame :: after).Perm (next ++ frames)) (data : Data α Callback)
    (agrees : Agrees disciplined data view.data)
    (completes : next.countP (·.completes future) = if frame.completes future then 1 else 0)
    (owes : ∀ kind selected, (kind = .onDiscard → disciplined) →
      outstanding view.data.callbacks future kind selected next =
        occurrences selected (frame.owed view.data.callbacks future kind)) :
    Settled disciplined future { view with data := data } after := by
  have count : after.countP (·.completes future) = frames.countP (·.completes future) := by
    have exchanged := countP_exchange perm (·.completes future)
    omega
  have sameDebt : ∀ kind selected, (kind = .onDiscard → disciplined) →
      outstanding data.callbacks future kind selected after =
        outstanding view.data.callbacks future kind selected frames := by
    intro kind selected tracked
    have congr : outstanding data.callbacks future kind selected after =
        outstanding view.data.callbacks future kind selected after :=
      outstanding_congr fun other _ => Frame.owed_congr (agrees.callbacks kind tracked)
        (agrees.callbacks .onAny (by simp)) future other
    have exchanged := outstanding_exchange perm view.data.callbacks future kind selected
    have same := owes kind selected tracked
    omega
  have fires : ∀ kind, (kind = .onDiscard → disciplined) → data.fires kind = view.data.fires kind := by
    intro kind tracked
    cases kind <;> simp_all [Status.fires, agrees.state, agrees.abandoned, agrees.discard]
  exact
    { completion := by
        simp only [count, agrees.state]
        exact settled.completion
      refused := by
        simp only [agrees.state]
        exact settled.refused
      result := by
        simp only [agrees.state, agrees.result]
        exact settled.result
      fired := by
        intro kind selected tracked fired
        simp only [fires kind tracked] at fired
        simp only [sameDebt kind selected tracked]
        exact settled.fired kind selected tracked fired
      unfired := by
        intro kind selected tracked unfired
        simp only [fires kind tracked] at unfired
        simp only [sameDebt kind selected tracked]
        exact settled.unfired kind selected tracked unfired
      waiting := by
        intro kind selected tracked unfired pending
        simp only [fires kind tracked] at unfired
        simp only [agrees.state] at pending
        simp only [agrees.callbacks kind tracked]
        exact settled.waiting kind selected tracked unfired pending
      arguments := by
        simp only [agrees.result]
        exact settled.arguments }

/-- Steps of code that executes no function of this future. -/
theorem elsewhere (perm : (frame :: after).Perm (next ++ frames)) (flags : Flags)
    (same : disciplined → flags.discard = view.data.discard)
    (idle : frame.completes future = false ∧
      ∀ callbacks kind, frame.owed callbacks future kind = [])
    (idleNext : ∀ frame ∈ next, frame.completes future = false ∧
      ∀ callbacks kind, frame.owed callbacks future kind = []) :
    Settled disciplined future { view with data := { view.data with toFlags := flags } } after := by
  apply settled.reframe perm { view.data with toFlags := flags }
    ⟨rfl, rfl, rfl, same, fun _ _ => rfl⟩
  · rw [idle.1, List.countP_eq_zero.mpr]
    · rfl
    · intro other member
      simp [(idleNext other member).1]
  · intro kind selected _
    rw [idle.2]
    unfold outstanding
    rw [List.sum_eq_zero]
    · rfl
    · intro amount member
      simp only [List.mem_map] at member
      obtain ⟨other, present, rfl⟩ := member
      simp [(idleNext other present).2]

/-- A completing call that finds the future completed returns false. -/
theorem refuse (notPending : view.data.state ≠ .pending) :
    Settled disciplined future { view with returned := false :: view.returned } frames :=
  { settled with
    completion := by simpa using settled.completion
    refused := fun _ => notPending }

/-- A step that invokes one callback. -/
theorem invoke (perm : (frame :: after).Perm (next ++ frames)) {kind : CallbackKind}
    {registration : Registration Callback}
    (completes : next.countP (·.completes future) = if frame.completes future then 1 else 0)
    (owes : ∀ other selected, (other = .onDiscard → disciplined) →
      occurrences selected (frame.owed view.data.callbacks future other) =
        outstanding view.data.callbacks future other selected next +
          if kind = other ∧ selected registration = true then 1 else 0) :
    Settled disciplined future
      { view with
        log := ⟨future, kind, registration,
          argument future kind view.data.result⟩ :: view.log } after := by
  have count : after.countP (·.completes future) = frames.countP (·.completes future) := by
    have exchanged := countP_exchange perm (·.completes future)
    omega
  have debt : ∀ other selected, (other = .onDiscard → disciplined) →
      outstanding view.data.callbacks future other selected after +
          (if kind = other ∧ selected registration = true then 1 else 0) =
        outstanding view.data.callbacks future other selected frames := by
    intro other selected tracked
    have exchanged := outstanding_exchange perm view.data.callbacks future other selected
    have paid := owes other selected tracked
    omega
  have invoked : ∀ other selected, View.invoked
      { view with
        log := ⟨future, kind, registration,
          argument future kind view.data.result⟩ :: view.log } other selected =
      view.invoked other selected +
        if kind = other ∧ selected registration = true then 1 else 0 := by
    intro other selected
    simp [View.invoked, List.countP_cons]
  exact
    { settled with
      completion := by
        rw [count]
        exact settled.completion
      fired := by
        intro other selected tracked fired
        have balanced := settled.fired other selected tracked fired
        have moved := debt other selected tracked
        rw [invoked]
        change _ + outstanding view.data.callbacks future other selected after =
          view.registrations other selected
        omega
      unfired := by
        intro other selected tracked unfired
        have balanced := settled.unfired other selected tracked unfired
        have moved := debt other selected tracked
        rw [invoked]
        change _ ∧ outstanding view.data.callbacks future other selected after = 0
        omega
      arguments := by
        intro invocation member
        rcases List.mem_cons.mp member with rfl | earlier
        · rfl
        · exact settled.arguments invocation earlier }

/-- `clearAllCallbacks` at the end of the completing call. -/
theorem clear (member : .clearing future ∈ frames)
    (perm : (.clearing future :: after).Perm ([] ++ frames)) :
    Settled disciplined future
      { view with
        data := view.data.clearAllCallbacks
        returned := true :: view.returned } after := by
  have exchanged := countP_exchange perm (·.completes future)
  simp only [Frame.completes_clearing, decide_true, if_true, List.countP_nil,
    Nat.zero_add] at exchanged
  have before := settled.completion
  have notPending : view.data.state ≠ .pending := by
    intro pending
    have idle := settled.not_completes pending _ member
    simp at idle
  rw [if_neg notPending] at before
  have alone : ∀ other ∈ after, other.completes future = false := by
    have zero : after.countP (·.completes future) = 0 := by omega
    intro other present
    simpa using List.countP_eq_zero.mp zero other present
  have debt : ∀ kind selected,
      outstanding view.data.clearAllCallbacks.callbacks future kind selected after =
        outstanding view.data.callbacks future kind selected frames := by
    intro kind selected
    have congr : outstanding view.data.clearAllCallbacks.callbacks future kind selected after =
        outstanding view.data.callbacks future kind selected after :=
      outstanding_congr fun other present =>
        Frame.owed_of_not_completes (alone other present) _ _ _
    have paid := outstanding_exchange perm view.data.callbacks future kind selected
    simp only [Frame.owed, occurrences_nil, outstanding_nil] at paid
    omega
  exact
    { completion := by
        change after.countP _ + (true :: view.returned).count true =
          if view.data.state = .pending then 0 else 1
        rw [if_neg notPending, List.count_cons_self]
        omega
      refused := fun _ => notPending
      result := settled.result
      fired := by
        intro kind selected tracked fired
        simp only [debt]
        exact settled.fired kind selected tracked fired
      unfired := by
        intro kind selected tracked unfired
        simp only [debt]
        exact settled.unfired kind selected tracked unfired
      waiting := fun _ _ _ _ pending => absurd pending notPending
      arguments := settled.arguments }

end

/-- The vector a completing call runs first, by the state it stores. -/
inductive OwnKind : FutureState → CallbackKind → Prop where
  | ready : OwnKind .ready .onReady
  | failed : OwnKind .failed .onFailed
  | discarded : OwnKind .discarded .onDiscarded

/-- While a future is pending, only its `onAbandoned` and `onDiscard` callbacks
have been invoked. -/
theorem invoked_pending (settled : Settled disciplined future view frames)
    (pending : view.data.state = .pending) {invocation : Invocation α Callback}
    (member : invocation ∈ view.log) :
    invocation.kind = .onAbandoned ∨ invocation.kind = .onDiscard := by
  by_contra other
  push Not at other
  have unfired : view.data.fires invocation.kind = false := by
    cases kind : invocation.kind <;> simp_all [Status.fires]
  have none := (settled.unfired invocation.kind (fun _ => true)
    (fun same => absurd same other.2) unfired).1
  have absent := List.countP_eq_zero.mp none invocation member
  simp at absent

/-- The block of a completing call that finds the future pending. -/
theorem complete (settled : Settled disciplined future view frames)
    (pending : view.data.state = .pending) {target : FutureState} {own : CallbackKind}
    {result : Result α} (owns : OwnKind target own) (fits : result.Fits target)
    {op : Op α Callback}
    (perm : (.enter future op :: after).Perm ([.running future own 0] ++ frames)) :
    Settled disciplined future
      { view with data := { view.data with state := target, result := result } } after := by
  have notPending : target ≠ .pending := by cases owns <;> simp
  have owes : ∀ kind selected, outstanding view.data.callbacks future kind selected after =
      occurrences selected
        ((Frame.running future own 0 : Frame α Callback Body).owed
          view.data.callbacks future kind) +
        outstanding view.data.callbacks future kind selected frames := by
    intro kind selected
    have exchanged := outstanding_exchange perm view.data.callbacks future kind selected
    simpa [Frame.owed] using exchanged
  have stored : ∀ kind selected, kind ≠ .onDiscard → kind ≠ .onAbandoned →
      view.invoked kind selected = 0 ∧
      outstanding view.data.callbacks future kind selected frames = 0 ∧
      occurrences selected (view.data.callbacks kind) = view.registrations kind selected := by
    intro kind selected notDiscard notAbandoned
    have tracked : kind = .onDiscard → disciplined := fun same => absurd same notDiscard
    have unfired : view.data.fires kind = false := by
      cases kind <;> simp_all [Status.fires]
    have balanced := settled.unfired kind selected tracked unfired
    exact ⟨balanced.1, balanced.2, settled.waiting kind selected tracked unfired pending⟩
  refine
    { completion := ?_
      refused := fun _ => notPending
      result := fits
      fired := ?_
      unfired := ?_
      waiting := fun _ _ _ _ impossible => absurd impossible notPending
      arguments := ?_ }
  · have exchanged := countP_exchange perm (·.completes future)
    have before := settled.completion
    rw [if_pos pending] at before
    simp only [List.countP_singleton, Frame.completes_enter,
      Frame.completes_running, decide_true, if_true, Bool.false_eq_true, if_false] at exchanged
    simp only [if_neg notPending]
    omega
  · intro kind selected tracked fired
    change view.invoked kind selected + outstanding view.data.callbacks future kind selected after =
      view.registrations kind selected
    rw [owes]
    cases kind with
    | onAbandoned | onDiscard =>
        have balanced := settled.fired _ selected tracked fired
        cases owns <;> simpa [Frame.owed] using balanced
    | onAny =>
        have balanced := stored .onAny selected (by simp) (by simp)
        cases owns <;> simp [Frame.owed] <;> omega
    | onReady =>
        have balanced := stored .onReady selected (by simp) (by simp)
        cases owns <;> simp [Status.fires] at fired
        simp [Frame.owed]
        omega
    | onFailed =>
        have balanced := stored .onFailed selected (by simp) (by simp)
        cases owns <;> simp [Status.fires] at fired
        simp [Frame.owed]
        omega
    | onDiscarded =>
        have balanced := stored .onDiscarded selected (by simp) (by simp)
        cases owns <;> simp [Status.fires] at fired
        simp [Frame.owed]
        omega
  · intro kind selected tracked unfired
    change view.invoked kind selected = 0 ∧
      outstanding view.data.callbacks future kind selected after = 0
    rw [owes]
    cases kind with
    | onAbandoned | onDiscard =>
        have balanced := settled.unfired _ selected tracked unfired
        cases owns <;> simpa [Frame.owed] using balanced
    | onAny => simp [Status.fires, notPending] at unfired
    | onReady =>
        have balanced := stored .onReady selected (by simp) (by simp)
        cases owns <;> simp_all [Status.fires, Frame.owed]
    | onFailed =>
        have balanced := stored .onFailed selected (by simp) (by simp)
        cases owns <;> simp_all [Status.fires, Frame.owed]
    | onDiscarded =>
        have balanced := stored .onDiscarded selected (by simp) (by simp)
        cases owns <;> simp_all [Status.fires, Frame.owed]
  · intro invocation member
    rw [settled.arguments invocation member]
    rcases settled.invoked_pending pending member with kind | kind <;> simp [kind, argument]

/-- Data whose flag for one event has been set. -/
structure Flagged (kind : CallbackKind) (before flagged : Data α Callback) : Prop where
  state : flagged.state = before.state
  result : flagged.result = before.result
  callbacks : flagged.callbacks = before.callbacks
  fires : flagged.fires kind = true
  others : ∀ other, other ≠ kind → flagged.fires other = before.fires other

section

variable (settled : Settled disciplined future view frames)

include settled

/-- The block of `Future::abandon` or `Future::discard` when it takes effect: it sets the
flag of its event and swaps the vector out. -/
theorem swap
    (pending : view.data.state = .pending) {kind : CallbackKind} {flagged : Data α Callback}
    (unset : view.data.fires kind = false) (sets : Flagged kind view.data flagged)
    {op : Op α Callback}
    (perm : (.enter future op :: after).Perm
      ([.swapped future kind (view.data.callbacks kind)] ++ frames)) :
    Settled disciplined future { view with data := (flagged.take kind).1 } after := by
  have count : after.countP (·.completes future) = frames.countP (·.completes future) := by
    have exchanged := countP_exchange perm (·.completes future)
    simpa using exchanged
  have debt : ∀ other selected,
      outstanding (flagged.take kind).1.callbacks future other selected after =
        outstanding view.data.callbacks future other selected frames +
          if other = kind then occurrences selected (view.data.callbacks kind) else 0 := by
    intro other selected
    have exchanged := outstanding_exchange perm (flagged.take kind).1.callbacks future other
      selected
    rw [settled.outstanding_pending pending] at exchanged
    simp only [outstanding_cons, outstanding_nil, Frame.owed, occurrences_nil,
      Nat.add_zero, true_and] at exchanged
    rw [exchanged]
    by_cases same : other = kind
    · subst other
      simp [Nat.add_comm]
    · simp [same, Ne.symm same]
  refine
    { completion := by
        rw [count]
        simpa only [Data.take, sets.state] using settled.completion
      refused := by simpa only [Data.take, sets.state] using settled.refused
      result := by simpa only [Data.take, sets.state, sets.result] using settled.result
      fired := ?_
      unfired := ?_
      waiting := ?_
      arguments := by simpa only [Data.take, sets.result] using settled.arguments }
  · intro other selected tracked fired
    simp only [debt]
    by_cases same : other = kind
    · subst other
      have before := settled.unfired kind selected tracked unset
      have stored := settled.waiting kind selected tracked unset pending
      change view.invoked kind selected + _ = view.registrations kind selected
      rw [if_pos rfl]
      omega
    · rw [if_neg same]
      exact settled.fired other selected tracked ((sets.others other same).symm.trans fired)
  · intro other selected tracked unfired
    simp only [debt]
    by_cases same : other = kind
    · subst other
      exact absurd (sets.fires.symm.trans unfired) (by simp)
    · rw [if_neg same]
      exact settled.unfired other selected tracked ((sets.others other same).symm.trans unfired)
  · intro other selected tracked unfired _
    by_cases same : other = kind
    · subst other
      exact absurd (sets.fires.symm.trans unfired) (by simp)
    · have kept : (flagged.take kind).1.callbacks other = view.data.callbacks other := by
        simp [Data.take, same, sets.callbacks]
      change occurrences selected ((flagged.take kind).1.callbacks other) = _
      rw [kept]
      exact settled.waiting other selected tracked
        ((sets.others other same).symm.trans unfired) pending

/-- A registration that runs its callback at once. -/
theorem registerNow {kind : CallbackKind}
    (fires : view.data.fires kind = true) (registration : Registration Callback)
    {op : Op α Callback}
    (perm : (.enter future op :: after).Perm
      ([.invoking future kind registration] ++ frames)) :
    Settled disciplined future
      { view with registered := (kind, registration) :: view.registered } after := by
  have count : after.countP (·.completes future) = frames.countP (·.completes future) := by
    have exchanged := countP_exchange perm (·.completes future)
    simpa using exchanged
  have debt : ∀ other selected, outstanding view.data.callbacks future other selected after =
      outstanding view.data.callbacks future other selected frames +
        if kind = other ∧ selected registration = true then 1 else 0 := by
    intro other selected
    have exchanged := outstanding_exchange perm view.data.callbacks future other selected
    simp only [outstanding_cons, outstanding_nil, Frame.owed, occurrences_nil, true_and,
      Nat.add_zero] at exchanged
    rw [exchanged]
    by_cases same : kind = other <;> simp [same, Nat.add_comm]
  refine
    { completion := by rw [count]; exact settled.completion
      refused := settled.refused
      result := settled.result
      fired := ?_
      unfired := ?_
      waiting := ?_
      arguments := settled.arguments }
  · intro other selected tracked fired
    have balanced := settled.fired other selected tracked fired
    simp only [debt]
    simp only [View.registrations, List.countP_cons, decide_eq_true_eq] at balanced ⊢
    change view.invoked other selected + _ = _
    omega
  · intro other selected tracked unfired
    have different : kind ≠ other := by
      rintro rfl
      simp [fires] at unfired
    simp only [debt, different, false_and, if_false, Nat.add_zero]
    exact settled.unfired other selected tracked unfired
  · intro other selected tracked unfired pending
    have different : kind ≠ other := by
      rintro rfl
      simp [fires] at unfired
    simpa [View.registrations, List.countP_cons, different] using
      settled.waiting other selected tracked unfired pending

/-- A registration that stores its callback. -/
theorem registerLater {kind : CallbackKind}
    (unfires : view.data.fires kind = false) (pending : view.data.state = .pending)
    (registration : Registration Callback) {op : Op α Callback}
    (perm : (.enter future op :: after).Perm ([] ++ frames)) :
    Settled disciplined future
      { view with
        data := view.data.push kind registration
        registered := (kind, registration) :: view.registered } after := by
  have count : after.countP (·.completes future) = frames.countP (·.completes future) := by
    have exchanged := countP_exchange perm (·.completes future)
    simpa using exchanged
  have debt : ∀ other selected,
      outstanding (view.data.push kind registration).callbacks future other selected after =
        outstanding view.data.callbacks future other selected frames := by
    intro other selected
    have exchanged := outstanding_exchange perm
      (view.data.push kind registration).callbacks future other selected
    rw [settled.outstanding_pending pending] at exchanged
    simpa [Frame.owed] using exchanged
  have firesSame : ∀ other, (view.data.push kind registration).fires other =
      view.data.fires other := by
    intro other
    cases other <;> rfl
  refine
    { completion := by rw [count]; exact settled.completion
      refused := settled.refused
      result := settled.result
      fired := ?_
      unfired := ?_
      waiting := ?_
      arguments := settled.arguments }
  · intro other selected tracked fired
    simp only [firesSame] at fired
    have different : kind ≠ other := by
      rintro rfl
      simp [fired] at unfires
    simp only [debt]
    have balanced := settled.fired other selected tracked fired
    simpa [View.invoked, View.registrations, List.countP_cons, different] using balanced
  · intro other selected tracked unfired
    simp only [firesSame] at unfired
    simp only [debt]
    exact settled.unfired other selected tracked unfired
  · intro other selected tracked unfired _
    simp only [firesSame] at unfired
    have stored := settled.waiting other selected tracked unfired pending
    by_cases same : kind = other
    · subst other
      simp [View.registrations, List.countP_cons, Data.push] at stored ⊢
      omega
    · simpa [View.registrations, List.countP_cons, Data.push, same, Ne.symm same] using stored

/-- A registration whose event can no longer happen. -/
theorem registerNever {kind : CallbackKind}
    (unfires : view.data.fires kind = false) (notPending : view.data.state ≠ .pending)
    (registration : Registration Callback) :
    Settled disciplined future
      { view with registered := (kind, registration) :: view.registered } frames :=
  { settled with
    fired := by
      intro other selected' tracked fired
      have different : kind ≠ other := by
        rintro rfl
        simp [fired] at unfires
      have balanced := settled.fired other selected' tracked fired
      simpa [View.invoked, View.registrations, List.countP_cons, different] using balanced
    waiting := fun _ _ _ _ pending => absurd pending notPending }

end

end Settled

end Libprocess
