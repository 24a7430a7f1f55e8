import Libprocess.Clock.Cancelling

/-!
# The settling clock

A tick that takes out timers while the clock is paused raises `settling`, which is lowered when the
timers have been executed and no others are due.
-/

namespace Libprocess.Timers

/-- `Clock::settled`, which checks that the clock is paused. -/
def Clock.settled (clock : Clock) : Option Bool :=
  if clock.paused then some (if clock.settling then false else clock.quiet) else none

theorem Clock.of_settled {clock : Clock} (settled : clock.settled = some true) :
    clock.settling = false ∧ clock.quiet = true := by
  simp only [Clock.settled] at settled
  split at settled
  · split at settled
    · cases settled
    · rename_i lowered
      exact ⟨by simpa using lowered, Option.some.inj settled⟩
  · cases settled

theorem Clock.tick_settling {clock : Clock} {time reading : Time} (paused : clock.paused = true)
    (taken : (clock.tick time reading).2.2.1 ≠ []) :
    (clock.tick time reading).1.settling = true := by
  obtain ⟨timer, timedout⟩ := List.exists_mem_of_ne_nil _ taken
  obtain ⟨entry, due, -⟩ := List.mem_flatMap.mp timedout
  have present : entry ∈ clock.timers.entries := List.takeWhile_subset _ due
  have expired : clock.timers.entries.any (fun entry => entry.1 ≤ clock.globalNow reading) = true :=
    List.any_eq_true.mpr
      ⟨entry, present, decide_eq_true (Containers.SortedMap.le_of_mem_upTo_entries due)⟩
  simp only [Clock.tick]
  rw [Clock.scheduleTick_eq]
  simp only [paused, expired, Bool.and_self, Bool.or_true]

namespace System

variable {system next : System} {label : Label}

/-- Only `Clock::resume` and the end of a tick lower `settling`. -/
theorem step_settling (stepped : system.step label = some next)
    (paused : system.clock.paused = true) (stays : label ≠ .resume) :
    next.clock.paused = true ∧
      (label ≠ .settle → system.clock.settling = true → next.clock.settling = true) := by
  cases label with
  | resume => exact absurd rfl stays
  | timer process duration first second =>
      cases stepped
      obtain ⟨currents, read⟩ := system.clock.timeoutIn_eq process duration first second
      simp only [System.scheduled, Clock.timer, Clock.add, read]
      split
      · rw [Clock.scheduleTick_eq]
        exact ⟨paused, fun _ => id⟩
      · split
        · rw [Clock.scheduleTick_eq]
          exact ⟨paused, fun _ => id⟩
        · exact ⟨paused, fun _ => id⟩
  | cancel timer =>
      cases stepped
      simp only [Clock.cancel]
      split
      · exact ⟨paused, fun _ => id⟩
      · exact ⟨paused, fun _ => id⟩
  | pause reading =>
      cases stepped
      rw [Clock.pause, if_pos paused]
      exact ⟨paused, fun _ => id⟩
  | advance duration =>
      cases stepped
      simp only [System.scheduled, Clock.advance, paused, if_true]
      rw [Clock.scheduleTick_eq]
      exact ⟨rfl, fun _ => id⟩
  | update time =>
      cases stepped
      simp only [System.scheduled, Clock.update]
      split
      · rw [Clock.scheduleTick_eq]
        exact ⟨paused, fun _ => id⟩
      · exact ⟨paused, fun _ => id⟩
  | advanceProcess process duration =>
      cases stepped
      obtain ⟨currents, moved⟩ := system.clock.advanceProcess_eq process duration
      rw [moved]
      exact ⟨paused, fun _ => id⟩
  | updateProcess process time mode =>
      cases stepped
      obtain ⟨currents, moved⟩ := system.clock.updateProcess_eq process time mode
      rw [moved]
      exact ⟨paused, fun _ => id⟩
  | order source target reading =>
      cases stepped
      obtain ⟨currents, moved⟩ := system.clock.order_eq source target reading
      rw [moved]
      exact ⟨paused, fun _ => id⟩
  | tick time reading =>
      simp only [System.step] at stepped
      split at stepped
      · cases stepped
        simp only [System.scheduled, Clock.tick]
        rw [Clock.scheduleTick_eq]
        refine ⟨paused, fun _ settling => ?_⟩
        simp only [settling, Bool.true_or]
      · cases stepped
  | settle =>
      cases stepped
      simp only [Clock.settle]
      split
      · exact ⟨paused, fun lowered => absurd rfl lowered⟩
      · exact ⟨paused, fun _ => id⟩
  | finalize =>
      obtain ⟨⟨clock, timers⟩, finalized, rfl⟩ := Option.map_eq_some_iff.mp stepped
      simp [Clock.finalize, paused] at finalized

/-- If the first timer is not due, none of those that are pending is. -/
theorem Accounted.lt_of_quiet (accounted : system.Accounted) (quiet : system.clock.quiet = true)
    {timer : Timer} (pending : system.Pending timer) : system.clock.current < timer.timeout := by
  obtain ⟨entry, present, inside⟩ := List.mem_flatMap.mp (accounted.pending_iff.mp pending)
  rw [accounted.stored.timeout_eq present inside]
  simp only [Clock.quiet] at quiet
  split at quiet
  · rename_i none
    rw [Containers.SortedMap.first?, Option.map_eq_none_iff, List.head?_eq_none_iff] at none
    rw [none] at present
    cases present
  · rename_i first least
    exact lt_of_lt_of_le (of_decide_eq_true quiet) (Containers.SortedMap.first?_le least present)

end System

end Libprocess.Timers
