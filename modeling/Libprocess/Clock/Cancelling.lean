import Libprocess.Clock.Delivery

/-!
# Cancelling timers

`Clock::cancel` looks for the timers of a timeout, and takes one of them out.  What it returns is
whether there were any, not whether it has taken one out.
-/

namespace Libprocess.Timers

open Concurrency
open Containers (SortedMap)

namespace System

variable {system next : System} {timer other : Timer} {schedule : List Label}

/-- Created, and not delivered or taken out since. -/
def Pending (system : System) (timer : Timer) : Prop :=
  timer ∈ system.created ∧ timer ∉ system.deliveries ∧ timer ∉ system.cancelled ∧
    timer ∉ system.cleared

/-- A timer is created before it is cancelled. -/
def Known (system : System) : Label → Prop
  | .cancel timer => timer ∈ system.created
  | _ => True

instance known_decidable (system : System) (label : Label) : Decidable (system.Known label) := by
  unfold Known
  split <;> infer_instance

/-- `Clock::cancel` tells whether the timer was pending, and takes out this timer only. -/
def Truthful (system : System) : Label → Prop
  | .cancel timer =>
      ((system.clock.cancel timer).2 = true ↔ system.Pending timer) ∧
      ∀ next, system.step (.cancel timer) = some next →
        ∀ other, next.Pending other ↔ system.Pending other ∧ other ≠ timer
  | _ => True

/-- A timer that is cancelled is pending, or no timer with its timeout is. -/
def Unshared (system : System) : Label → Prop
  | .cancel timer =>
      system.Pending timer ∨ ∀ other, system.Pending other → other.timeout ≠ timer.timeout
  | _ => True

section

variable (accounted : system.Accounted)

include accounted

/-- The timers of the map are those that are pending. -/
theorem Accounted.pending_iff :
    system.Pending timer ↔ timer ∈ system.clock.timers.values := by
  have apart := accounted.apart
  have places := accounted.places.mem_iff (a := timer)
  simp only [List.mem_append] at places
  constructor
  · rintro ⟨created, undelivered, uncancelled, uncleared⟩
    simpa [undelivered, uncancelled, uncleared] using places.mpr created
  · intro inside
    rw [List.nodup_append] at apart
    obtain ⟨_, rest, delivered⟩ := apart
    rw [List.nodup_append] at rest
    obtain ⟨_, rest, cancelled⟩ := rest
    rw [List.nodup_append] at rest
    refine ⟨places.mp (by simp [inside]), fun was => ?_, fun was => ?_, fun was => ?_⟩
    · exact delivered timer was timer (by simp [inside]) rfl
    · exact cancelled timer was timer (by simp [inside]) rfl
    · exact rest.2.2 timer was timer inside rfl

/-- The map has timers with a timeout exactly if some are pending. -/
theorem Accounted.contains_iff {time : Time} :
    system.clock.timers.contains time = true ↔
      ∃ other, system.Pending other ∧ other.timeout = time := by
  simp only [accounted.pending_iff]
  constructor
  · intro found
    obtain ⟨entry, present, same⟩ := List.any_eq_true.mp found
    have filed := accounted.stored entry present
    obtain ⟨other, inside⟩ := List.exists_mem_of_ne_nil _ filed.nonempty
    refine ⟨other, List.mem_flatMap.mpr ⟨entry, present, inside⟩, ?_⟩
    exact (filed.timeout other inside).trans (of_decide_eq_true same)
  · rintro ⟨other, member, rfl⟩
    obtain ⟨entry, present, inside⟩ := List.mem_flatMap.mp member
    refine List.any_eq_true.mpr ⟨entry, present, decide_eq_true ?_⟩
    exact (accounted.stored.timeout_eq present inside).symm

/-- `Clock::cancel` returns whether a timer with the timeout is pending. -/
theorem Accounted.cancel_iff :
    (system.clock.cancel timer).2 = true ↔
      ∃ other, system.Pending other ∧ other.timeout = timer.timeout := by
  rw [← accounted.contains_iff, Clock.cancel]
  split
  · rename_i found
    simp [found]
  · rename_i missing
    simp [missing]

/-- A number belongs to one timer. -/
theorem Accounted.eq_of_id (first : timer ∈ system.created)
    (second : other ∈ system.created) (same : timer.id = other.id) : timer = other := by
  have distinct : (system.created.map Timer.id).Nodup := by
    rw [List.Nodup, List.pairwise_map]
    exact accounted.ordered.imp fun earlier => ne_of_lt earlier
  exact List.inj_on_of_nodup_map distinct first second same

/-- Cancelling a timer takes out this timer, and no other. -/
theorem Accounted.pending_cancel_iff
    (created : timer ∈ system.created) (stepped : system.step (.cancel timer) = some next) :
    next.Pending other ↔ system.Pending other ∧ other ≠ timer := by
  have after := accounted.step stepped
  have distinct : system.clock.timers.values.Nodup := by
    have apart := accounted.apart
    simp only [List.nodup_append] at apart
    exact apart.2.1.2.1.2.1
  have split := SortedMap.values_removeAt system.clock.timers timer.timeout (·.id = timer.id)
  have removed : next.clock.timers =
      system.clock.timers.removeAt timer.timeout (·.id = timer.id) := by
    cases stepped
    exact (cancel_eq system.clock timer).1
  rw [after.pending_iff, accounted.pending_iff, removed]
  constructor
  · intro left
    refine ⟨split.mem_iff.mp (List.mem_append_right _ left), ?_⟩
    rintro rfl
    have inside := split.mem_iff.mp (List.mem_append_right _ left)
    obtain ⟨entry, present, filed⟩ := List.mem_flatMap.mp inside
    have taken : other ∈ system.clock.timers.removedAt other.timeout (·.id = other.id) := by
      rw [accounted.stored.timeout_eq present filed]
      exact SortedMap.mem_removedValues system.clock.timers.sorted present filed (by simp)
    exact (List.nodup_append.mp (split.nodup_iff.mpr distinct)).2.2 _ taken _ left rfl
  · rintro ⟨inside, different⟩
    refine (List.mem_append.mp (split.mem_iff.mpr inside)).resolve_left fun taken => different ?_
    have same := SortedMap.of_mem_removedValues taken
    exact accounted.eq_of_id (accounted.mem_created inside) created (of_decide_eq_true same)

/-- A single call of `cancel` tells the truth exactly if the timeout is not that of another timer
which is pending while the timer is not. -/
theorem Accounted.truthful_iff {label : Label}
    (known : system.Known label) : system.Truthful label ↔ system.Unshared label := by
  cases label with
  | cancel timer =>
      have removes : ∀ next, system.step (.cancel timer) = some next → ∀ other,
          (next.Pending other ↔ system.Pending other ∧ other ≠ timer) :=
        fun next stepped other => accounted.pending_cancel_iff known stepped
      simp only [Truthful, Unshared, and_iff_left removes, accounted.cancel_iff]
      constructor
      · intro tells
        by_cases pending : system.Pending timer
        · exact .inl pending
        · exact .inr fun other member same => pending (tells.mp ⟨other, member, same⟩)
      · rintro (pending | none)
        · exact ⟨fun _ => pending, fun _ => ⟨timer, pending, rfl⟩⟩
        · constructor
          · rintro ⟨other, member, same⟩
            exact absurd same (none other member)
          · intro pending
            exact ⟨timer, pending, rfl⟩
  | timer | pause | resume | advance | advanceProcess | update | updateProcess | order | tick
    | settle | finalize => exact Iff.rfl

end

/-- In every run, `cancel` always tells the truth exactly if it is never called for a timer that is
not pending while another one with its timeout is. -/
theorem cancels_truthful_iff (known : machine.Along Known .new schedule) :
    machine.Along Truthful .new schedule ↔ machine.Along Unshared .new schedule :=
  known.congr (.start rfl) fun _ _ reached known =>
    (accounted_of_reachable reached).truthful_iff known

/-- Two timers with the same timeout, one of which is cancelled twice. -/
def twiceSchedule : List Label :=
  [.timer none 10 0 0, .timer none 10 0 0, .cancel ⟨1, 10⟩, .cancel ⟨1, 10⟩]

theorem known_twice : machine.Along Known .new twiceSchedule := by decide +kernel

theorem cancels_truthful_iff_twice :
    machine.Along Truthful .new twiceSchedule ↔ machine.Along Unshared .new twiceSchedule :=
  cancels_truthful_iff known_twice

/-- The second call returns true. -/
theorem not_cancels_truthful : machine.Along Known .new twiceSchedule ∧
    ¬ machine.Along Truthful .new twiceSchedule := by
  refine ⟨known_twice, ?_⟩
  rintro ⟨_, _, _, ⟨tells, _⟩, _⟩
  have pending := tells.mp (by decide +kernel)
  exact pending.2.2.1 (by decide +kernel)

end System

end Libprocess.Timers
