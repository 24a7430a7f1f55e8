import Libprocess.Future.Machine
import Mathlib.Algebra.BigOperators.Group.List.Basic
import Mathlib.Algebra.GroupWithZero.Nat

/-!
# Callback accounting

A registered callback is in exactly one place: in a vector, in a frame that will
still invoke it, in the log of invocations, or dropped because its event can no
longer happen.  This module counts registrations over all these places and shows
that every step of every frame keeps the balance.

The `onDiscard` callbacks are accounted for where the code leaves the `discard` flag
alone: `Future::recover` may reset it, and the event can then happen twice.
-/

namespace Libprocess

open Concurrency

variable {α : Type}

namespace Frame

variable {Callback Body : Type}

/-- The future whose function a frame executes. -/
def subject : Frame α Callback Body → Option FutureId
  | .enter future _ => some future
  | .running future _ _ => some future
  | .clearing future => some future
  | .swapped future _ _ => some future
  | .invoking future _ _ => some future
  | .body _ => none

/-- The frame is the call that completed a future and has not returned. -/
def completes (future : FutureId) : Frame α Callback Body → Bool
  | .running other _ _ => other = future
  | .clearing other => other = future
  | _ => false

section Completes

variable (future other : FutureId)

@[simp] theorem completes_enter (op : Op α Callback) :
    (.enter other op : Frame α Callback Body).completes future = false := rfl

@[simp] theorem completes_running (kind : CallbackKind) (index : Nat) :
    (.running other kind index : Frame α Callback Body).completes future =
      decide (other = future) := rfl

@[simp] theorem completes_clearing :
    (.clearing other : Frame α Callback Body).completes future = decide (other = future) := rfl

@[simp] theorem completes_swapped (kind : CallbackKind)
    (rest : List (Registration Callback)) :
    (.swapped other kind rest : Frame α Callback Body).completes future = false := rfl

@[simp] theorem completes_invoking (kind : CallbackKind)
    (registration : Registration Callback) :
    (.invoking other kind registration : Frame α Callback Body).completes future = false := rfl

@[simp] theorem completes_body (frame : Body) :
    (.body frame : Frame α Callback Body).completes future = false := rfl

end Completes

/-- The registrations of one kind that a frame will still invoke. -/
def owed (callbacks : CallbackKind → List (Registration Callback))
    (future : FutureId) (kind : CallbackKind) :
    Frame α Callback Body → List (Registration Callback)
  | .running other current index =>
      if other = future then
        if current = kind then (callbacks kind).drop index
        else if kind = .onAny then callbacks .onAny
        else []
      else []
  | .swapped other current rest =>
      if other = future ∧ current = kind then rest else []
  | .invoking other current registration =>
      if other = future ∧ current = kind then [registration] else []
  | _ => []

theorem owed_of_subject_ne {callbacks : CallbackKind → List (Registration Callback)}
    {future : FutureId} {kind : CallbackKind} {frame : Frame α Callback Body}
    (different : frame.subject ≠ some future) : frame.owed callbacks future kind = [] := by
  cases frame <;> simp_all [subject, owed]

theorem completes_of_subject_ne {future : FutureId} {frame : Frame α Callback Body}
    (different : frame.subject ≠ some future) : frame.completes future = false := by
  cases frame <;> simp_all [subject, completes]

/-- Only the completing call reads the vectors in place. -/
theorem owed_of_not_completes {future : FutureId} {frame : Frame α Callback Body}
    (idle : frame.completes future = false)
    (left right : CallbackKind → List (Registration Callback)) (kind : CallbackKind) :
    frame.owed left future kind = frame.owed right future kind := by
  cases frame <;> simp_all [completes, owed]

/-- The frame's debt depends on two vectors only. -/
theorem owed_congr {left right : CallbackKind → List (Registration Callback)}
    {kind : CallbackKind} (same : left kind = right kind)
    (sameAny : left .onAny = right .onAny) (future : FutureId)
    (frame : Frame α Callback Body) :
    frame.owed left future kind = frame.owed right future kind := by
  cases frame <;> simp [owed, same, sameAny]

end Frame

/-- How many of the registrations are selected. -/
def occurrences {Callback : Type} (selected : Registration Callback → Bool)
    (registrations : List (Registration Callback)) : Nat :=
  registrations.countP selected

section Occurrences

variable {Callback : Type} (selected : Registration Callback → Bool)

@[simp] theorem occurrences_nil :
    occurrences selected ([] : List (Registration Callback)) = 0 := rfl

@[simp] theorem occurrences_cons (registration : Registration Callback)
    (rest : List (Registration Callback)) :
    occurrences selected (registration :: rest) =
      occurrences selected rest + if selected registration then 1 else 0 := by
  simp [occurrences, List.countP_cons]

@[simp] theorem occurrences_append (left right : List (Registration Callback)) :
    occurrences selected (left ++ right) = occurrences selected left + occurrences selected right := by
  simp [occurrences]

end Occurrences

/-- The registrations of one kind that a list of frames will still invoke. -/
def outstanding {Callback Body : Type}
    (callbacks : CallbackKind → List (Registration Callback)) (future : FutureId)
    (kind : CallbackKind) (selected : Registration Callback → Bool)
    (frames : List (Frame α Callback Body)) : Nat :=
  (frames.map fun frame => occurrences selected (frame.owed callbacks future kind)).sum

section Outstanding

variable {Callback Body : Type} {callbacks : CallbackKind → List (Registration Callback)}
  {future : FutureId} {kind : CallbackKind} {selected : Registration Callback → Bool}

@[simp] theorem outstanding_nil :
    outstanding callbacks future kind selected ([] : List (Frame α Callback Body)) = 0 := rfl

@[simp] theorem outstanding_cons (frame : Frame α Callback Body)
    (rest : List (Frame α Callback Body)) :
    outstanding callbacks future kind selected (frame :: rest) =
      occurrences selected (frame.owed callbacks future kind) +
        outstanding callbacks future kind selected rest := by
  simp [outstanding]

@[simp] theorem outstanding_append (left right : List (Frame α Callback Body)) :
    outstanding callbacks future kind selected (left ++ right) =
      outstanding callbacks future kind selected left +
        outstanding callbacks future kind selected right := by
  simp [outstanding]

theorem outstanding_perm {left right : List (Frame α Callback Body)}
    (perm : left.Perm right) :
    outstanding callbacks future kind selected left =
      outstanding callbacks future kind selected right := by
  exact (perm.map _).sum_eq

theorem outstanding_congr {other : CallbackKind → List (Registration Callback)}
    {frames : List (Frame α Callback Body)}
    (same : ∀ frame ∈ frames,
      frame.owed callbacks future kind = frame.owed other future kind) :
    outstanding callbacks future kind selected frames =
      outstanding other future kind selected frames := by
  unfold outstanding
  congr 1
  apply List.map_congr_left
  intro frame member
  rw [same frame member]

theorem outstanding_of_subject_ne {frames : List (Frame α Callback Body)}
    (different : ∀ frame ∈ frames, frame.subject ≠ some future) :
    outstanding callbacks future kind selected frames = 0 := by
  induction frames with
  | nil => rfl
  | cons frame rest ih =>
      have headOwes : frame.owed callbacks future kind = [] :=
        Frame.owed_of_subject_ne (different frame (by simp))
      simp only [outstanding_cons, headOwes, occurrences_nil, Nat.zero_add]
      exact ih fun other member => different other (List.mem_cons_of_mem frame member)

end Outstanding

/-! ## The view of one future -/

/-- What the shared memory says about one future. -/
structure View (α Callback : Type) where
  data : Data α Callback
  registered : List (CallbackKind × Registration Callback)
  log : List (Invocation α Callback)
  returned : List Bool

namespace View

variable {Callback : Type}

/-- How often selected registrations have been invoked. -/
def invoked (view : View α Callback) (kind : CallbackKind)
    (selected : Registration Callback → Bool) : Nat :=
  view.log.countP fun invocation =>
    invocation.kind = kind ∧ selected invocation.registration

/-- How many selected registrations have been made. -/
def registrations (view : View α Callback) (kind : CallbackKind)
    (selected : Registration Callback → Bool) : Nat :=
  view.registered.countP fun entry => entry.1 = kind ∧ selected entry.2

end View

namespace Memory

variable {code : Code α}

def view (memory : Memory code) (future : FutureId) : View α code.Callback where
  data := memory.data future
  registered := (memory.registered.filter fun entry => entry.1 = future).map Prod.snd
  log := memory.log.filter fun invocation => invocation.future = future
  returned := (memory.returned.filter fun entry => entry.1 = future).map Prod.snd

variable (memory : Memory code)

@[simp] theorem view_data (future : FutureId) :
    (memory.view future).data = memory.data future := rfl

@[simp] theorem view_store_self (future : FutureId) (data : Data α code.Callback) :
    (memory.store future data).view future = { memory.view future with data := data } := by
  simp [view, store]

@[simp] theorem view_returns_self (future : FutureId) (result : Bool) :
    (memory.returns future result).view future =
      { memory.view future with returned := result :: (memory.view future).returned } := by
  simp [view, returns]

@[simp] theorem view_record_self (future : FutureId) (kind : CallbackKind)
    (registration : Registration code.Callback) :
    (memory.record future kind registration).view future =
      { memory.view future with
        log := ⟨future, kind, registration,
          argument future kind (memory.data future).result⟩ :: (memory.view future).log } := by
  simp [view, record]

@[simp] theorem view_register_self (future : FutureId) (kind : CallbackKind)
    (callback : code.Callback) :
    (memory.register future kind callback).1.view future =
      { memory.view future with
        data := ((memory.data future).register kind ⟨memory.tickets, callback⟩).1
        registered := (kind, ⟨memory.tickets, callback⟩) :: (memory.view future).registered } := by
  simp [view, register, store]

variable {memory} {future other : FutureId}

section

variable (different : other ≠ future)

include different

theorem view_store_ne (data : Data α code.Callback) :
    (memory.store other data).view future = memory.view future := by
  simp [view, store, different.symm]

theorem view_returns_ne (result : Bool) :
    (memory.returns other result).view future = memory.view future := by
  simp [view, returns, different]

theorem view_record_ne (kind : CallbackKind)
    (registration : Registration code.Callback) :
    (memory.record other kind registration).view future = memory.view future := by
  simp [view, record, different]

theorem view_completed_ne (own : CallbackKind)
    (block : Data α code.Callback × Bool) :
    (memory.completed other own block).1.view future = memory.view future := by
  unfold completed
  split
  · exact view_store_ne different _
  · exact view_returns_ne different _

theorem view_swappedOut_ne (kind : CallbackKind)
    (block : Option (Data α code.Callback × List (Registration code.Callback))) :
    (memory.swappedOut other kind block).1.view future = memory.view future := by
  unfold swappedOut
  split
  · exact view_store_ne different _
  · rfl

theorem view_enter_ne (op : Op α code.Callback) :
    (memory.enter other op).1.view future = memory.view future := by
  cases op with
  | set value | fail message | discarded => exact view_completed_ne different _ _
  | discard | abandon propagating => exact view_swappedOut_ne different _ _
  | on kind callback =>
      simp [enter, register, view, store, different, different.symm]

theorem view_iterate_ne (kind : CallbackKind) (index : Nat) :
    (memory.iterate other kind index).1.view future = memory.view future := by
  simp only [iterate]
  split
  · exact view_record_ne different kind _
  · rfl

end

/-- Frames that neither complete a future nor owe it an invocation. -/
def IdleOn (future : FutureId) (frames : List code.Frame) : Prop :=
  ∀ frame ∈ frames, frame.completes future = false ∧
    ∀ callbacks kind, frame.owed callbacks future kind = []

theorem idleOn_of_subject_ne {frames : List code.Frame}
    (different : ∀ frame ∈ frames, frame.subject ≠ some future) :
    IdleOn future frames := by
  intro frame member
  exact ⟨Frame.completes_of_subject_ne (different frame member),
    fun _ _ => Frame.owed_of_subject_ne (different frame member)⟩

theorem enter_subject (op : Op α code.Callback) :
    ∀ frame ∈ (memory.enter other op).2, frame.subject = some other := by
  cases op <;> simp only [enter, completed, swappedOut, register] <;> split <;>
    simp [Frame.subject]

theorem iterate_idle (different : other ≠ future) (kind : CallbackKind) (index : Nat) :
    IdleOn future (memory.iterate other kind index).2 := by
  apply idleOn_of_subject_ne
  simp only [iterate]
  split
  · simp [Frame.subject, callback, different]
  · split <;> simp [Frame.subject, different]

/-- A step of a frame that executes no function of `future` changes at most the
flags of `future`, and leaves it no new debt. -/
theorem step_other {frame : code.Frame} {choice : code.Choice} {next : Memory code}
    {continuation : List code.Frame} (different : frame.subject ≠ some future)
    (stepped : memory.step frame choice = some (next, continuation)) :
    (∃ flags : Flags,
      (code.Disciplined future → flags.discard = (memory.data future).discard) ∧
      next.view future =
        { memory.view future with data := { memory.data future with toFlags := flags } }) ∧
    IdleOn future continuation := by
  cases frame with
  | enter other op =>
      have distinct : other ≠ future := by simpa [Frame.subject] using different
      simp only [step, Option.some.injEq, Prod.ext_iff] at stepped
      obtain ⟨rfl, rfl⟩ := stepped
      refine ⟨⟨(memory.data future).toFlags, fun _ => rfl, view_enter_ne distinct op⟩,
        idleOn_of_subject_ne ?_⟩
      intro frame member
      rw [enter_subject op frame member]
      simpa using distinct
  | running other kind index =>
      have distinct : other ≠ future := by simpa [Frame.subject] using different
      simp only [step, Option.some.injEq, Prod.ext_iff] at stepped
      obtain ⟨rfl, rfl⟩ := stepped
      exact ⟨⟨(memory.data future).toFlags, fun _ => rfl, view_iterate_ne distinct kind index⟩,
        iterate_idle distinct kind index⟩
  | clearing other =>
      have distinct : other ≠ future := by simpa [Frame.subject] using different
      cases stepped
      refine ⟨⟨(memory.data future).toFlags, fun _ => rfl, ?_⟩, by simp [IdleOn]⟩
      rw [view_returns_ne distinct, view_store_ne distinct]
      rfl
  | swapped other kind rest =>
      have distinct : other ≠ future := by simpa [Frame.subject] using different
      cases rest with
      | nil =>
          cases stepped
          exact ⟨⟨(memory.data future).toFlags, fun _ => rfl, rfl⟩, by simp [IdleOn]⟩
      | cons registration rest =>
          cases stepped
          refine ⟨⟨(memory.data future).toFlags, fun _ => rfl,
            view_record_ne distinct kind registration⟩,
            idleOn_of_subject_ne ?_⟩
          simp [Frame.subject, callback, distinct]
  | invoking other kind registration =>
      have distinct : other ≠ future := by simpa [Frame.subject] using different
      cases stepped
      refine ⟨⟨(memory.data future).toFlags, fun _ => rfl, view_record_ne distinct kind registration⟩,
        idleOn_of_subject_ne ?_⟩
      simp [Frame.subject, callback]
  | body frame =>
      simp only [step, execute, Option.map_eq_some_iff, Prod.mk.injEq] at stepped
      obtain ⟨effect, moved, rfl, rfl⟩ := stepped
      refine ⟨⟨effect.flags future, fun disciplined => ?_, rfl⟩, ?_⟩
      · exact disciplined _ _ _ _ effect moved
      intro frame member
      simp only [List.mem_map] at member
      obtain ⟨activation, _, rfl⟩ := member
      cases activation <;> simp [Activation.frame, Frame.completes, Frame.owed]

end Memory

end Libprocess
