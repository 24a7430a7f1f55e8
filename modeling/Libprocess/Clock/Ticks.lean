import Libprocess.Clock.Delivery

/-!
# Wake-ups

A tick is recorded only if it is earlier than all ticks that are recorded, `pause` forgets the
ticks while their delays go on, and a tick that fires late removes a record that was made after
it.  A timer is not forgotten all the same: while the clock runs, a tick is recorded at the first
timeout or before, and every tick that is recorded has its delay.  When the clock is paused the
delay alone is enough, since it fires a tick for whatever has expired.
-/

namespace Libprocess.Timers

open Concurrency
open Containers (SortedMap)

namespace Clock

variable {clock : Clock}

/-- A tick that is recorded was recorded before, or is handed to the event loop. -/
theorem mem_scheduleTick {time : Time} (recorded : time ∈ clock.scheduleTick.1.ticks) :
    time ∈ clock.ticks ∨ clock.scheduleTick.2 = some time := by
  unfold scheduleTick at recorded ⊢
  split at recorded
  · exact .inl recorded
  · split at recorded
    · rename_i earlier
      rw [if_pos earlier]
      rcases Finset.mem_insert.mp recorded with rfl | old
      · exact .inr rfl
      · exact .inl old
    · exact .inl recorded

/-- Whatever is to fire next, a tick is recorded for it. -/
theorem scheduleTick_le {next : Time} (due : clock.next = some next) :
    ∃ tick ∈ clock.scheduleTick.1.ticks, tick ≤ next := by
  unfold scheduleTick
  simp only [due]
  split
  · exact ⟨next, Finset.mem_insert_self _ _, le_refl _⟩
  · rename_i scheduled
    push Not at scheduled
    exact scheduled

theorem next_of_running {first : Time} (running : clock.paused = false)
    (least : clock.timers.first? = some first) : clock.next = some first := by
  simp [next, least, running]

theorem next_of_expired {first : Time} (least : clock.timers.first? = some first)
    (expired : first ≤ clock.current) : clock.next = some first := by
  simp [next, least, expired]

end Clock

namespace System

variable {system next : System}

/-- The clock with the delays that have not fired. -/
structure Wakeful (clock : Clock) (delays : Multiset Time) : Prop where
  recorded : ∀ time ∈ clock.ticks, time ∈ delays
  running : clock.paused = false → ∀ first, clock.timers.first? = some first →
    ∃ tick ∈ clock.ticks, tick ≤ first
  expired : clock.paused = true → ∀ first, clock.timers.first? = some first →
    first ≤ clock.current → ∃ delay ∈ delays, delay ≤ first

variable {clock : Clock} {delays : Multiset Time}

/-- An operation that leaves the ticks alone, and the timers or at least the first of them. -/
theorem Wakeful.keep {after : Clock} (wakeful : Wakeful clock delays)
    (ticks : after.ticks = clock.ticks) (paused : after.paused = clock.paused)
    (current : after.current = clock.current)
    (timers : ∀ later, after.timers.first? = some later →
      ∃ first, clock.timers.first? = some first ∧ first ≤ later) : Wakeful after delays := by
  constructor
  · rw [ticks]
    exact wakeful.recorded
  · intro running later least
    obtain ⟨first, was, before⟩ := timers later least
    obtain ⟨tick, member, inTime⟩ := wakeful.running (paused ▸ running) first was
    exact ⟨tick, ticks ▸ member, le_trans inTime before⟩
  · intro isPaused later least expired
    obtain ⟨first, was, before⟩ := timers later least
    rw [current] at expired
    obtain ⟨delay, member, inTime⟩ :=
      wakeful.expired (paused ▸ isPaused) first was (le_trans before expired)
    exact ⟨delay, member, le_trans inTime before⟩

theorem Wakeful.same {after : Clock} (wakeful : Wakeful clock delays)
    (same : ∃ currents, after = { clock with currents }) : Wakeful after delays := by
  obtain ⟨currents, rfl⟩ := same
  exact wakeful.keep rfl rfl rfl fun later least => ⟨later, least, le_refl _⟩

/-- `scheduleTick` establishes what is needed, if the ticks are recorded. -/
theorem Wakeful.scheduleTick (recorded : ∀ time ∈ clock.ticks, time ∈ delays) :
    Wakeful clock.scheduleTick.1 (delays + ↑clock.scheduleTick.2.toList) := by
  have kept := clock.scheduleTick_eq
  have timers : clock.scheduleTick.1.timers = clock.timers := by rw [kept]
  have paused : clock.scheduleTick.1.paused = clock.paused := by rw [kept]
  have current : clock.scheduleTick.1.current = clock.current := by rw [kept]
  have covered : ∀ time ∈ clock.scheduleTick.1.ticks,
      time ∈ delays + ↑clock.scheduleTick.2.toList := by
    intro time member
    apply Multiset.mem_add.mpr
    rcases Clock.mem_scheduleTick member with old | handed
    · exact .inl (recorded time old)
    · right
      rw [handed]
      exact Multiset.mem_coe.mpr List.mem_cons_self
  constructor
  · exact covered
  · intro running first least
    rw [paused] at running
    rw [timers] at least
    exact Clock.scheduleTick_le (Clock.next_of_running running least)
  · intro _ first least expired
    rw [timers] at least
    rw [current] at expired
    obtain ⟨tick, member, inTime⟩ :=
      Clock.scheduleTick_le (Clock.next_of_expired least expired)
    exact ⟨tick, covered tick member, inTime⟩

section

variable (wakeful : Wakeful clock delays)

include wakeful

theorem Wakeful.add (timer : Timer) :
    Wakeful (clock.add timer).1 (delays + ↑(clock.add timer).2.toList) := by
  unfold Clock.add
  dsimp only
  split
  · exact Wakeful.scheduleTick wakeful.recorded
  · rename_i first least
    split
    · exact Wakeful.scheduleTick wakeful.recorded
    · rename_i notBefore
      rw [Option.toList_none, Multiset.coe_nil, Multiset.add_zero]
      refine wakeful.keep rfl rfl rfl fun later found => ?_
      rw [SortedMap.first?_pushAt_of_le least (not_lt.mp notBefore)] at found
      exact ⟨first, least, le_of_eq (Option.some.inj found)⟩

theorem Wakeful.cancel (timer : Timer) :
    Wakeful (clock.cancel timer).1 delays := by
  unfold Clock.cancel
  split
  · exact wakeful.keep rfl rfl rfl fun later least => SortedMap.first?_removeAt least
  · exact wakeful

/-- The ticks are forgotten, but not their delays. -/
theorem Wakeful.pause (reading : Time) :
    Wakeful (clock.pause reading) delays := by
  unfold Clock.pause
  split
  · exact wakeful
  · rename_i running
    constructor
    · intro time member
      cases member
    · intro notPaused
      cases notPaused
    · intro _ first least _
      obtain ⟨tick, member, inTime⟩ :=
        wakeful.running (Bool.eq_false_iff.mpr running) first least
      exact ⟨tick, wakeful.recorded tick member, inTime⟩

theorem Wakeful.resume :
    Wakeful clock.resume.1 (delays + ↑clock.resume.2.toList) := by
  unfold Clock.resume
  split
  · exact Wakeful.scheduleTick wakeful.recorded
  · simpa using wakeful

theorem Wakeful.advance (duration : Duration) :
    Wakeful (clock.advance duration).1 (delays + ↑(clock.advance duration).2.toList) := by
  unfold Clock.advance
  split
  · exact Wakeful.scheduleTick wakeful.recorded
  · simpa using wakeful

theorem Wakeful.update (time : Time) :
    Wakeful (clock.update time).1 (delays + ↑(clock.update time).2.toList) := by
  unfold Clock.update
  split
  · exact Wakeful.scheduleTick wakeful.recorded
  · simpa using wakeful

/-- The delay of a tick is gone, and so is its record. -/
theorem Wakeful.tick (time reading : Time) :
    Wakeful (clock.tick time reading).1
      (delays.erase time + ↑(clock.tick time reading).2.2.2.toList) := by
  apply Wakeful.scheduleTick
  intro other member
  obtain ⟨different, old⟩ := Finset.mem_erase.mp member
  exact (Multiset.mem_erase_of_ne different).mpr (wakeful.recorded other old)

theorem Wakeful.settle : Wakeful clock.settle delays := by
  unfold Clock.settle
  split
  · exact wakeful.keep rfl rfl rfl fun later least => ⟨later, least, le_refl _⟩
  · exact wakeful

end

theorem Wakeful.finalize {timers : List Timer} {after : Clock} (wakeful : Wakeful clock delays)
    (finalized : clock.finalize = some (after, timers)) : Wakeful after delays := by
  unfold Clock.finalize at finalized
  split at finalized
  · cases finalized
  · cases finalized
    exact wakeful.keep rfl rfl rfl nofun

theorem Wakeful.timer (wakeful : Wakeful clock delays) (process : Option ProcessId)
    (duration : Duration) (first second : Time) :
    Wakeful (clock.timer process duration first second).1
      (delays + ↑(clock.timer process duration first second).2.2.toList) := by
  obtain ⟨currents, read⟩ := clock.timeoutIn_eq process duration first second
  unfold Clock.timer
  dsimp only
  apply Wakeful.add
  rw [read]
  exact wakeful.keep rfl rfl rfl fun later least => ⟨later, least, le_refl _⟩

theorem Wakeful.new : Wakeful System.new.clock System.new.delays := by
  constructor
  · intro time member
    cases member
  · intro _ first least
    cases least
  · intro _ first least
    cases least

theorem Wakeful.step {label : Label} (wakeful : Wakeful system.clock system.delays)
    (stepped : system.step label = some next) : Wakeful next.clock next.delays := by
  cases label with
  | timer process duration first second =>
      cases stepped
      exact wakeful.timer process duration first second
  | cancel timer =>
      cases stepped
      exact wakeful.cancel timer
  | pause reading =>
      cases stepped
      exact wakeful.pause reading
  | resume =>
      cases stepped
      exact wakeful.resume
  | advance duration =>
      cases stepped
      exact wakeful.advance duration
  | advanceProcess process duration =>
      cases stepped
      exact wakeful.same (system.clock.advanceProcess_eq process duration)
  | update time =>
      cases stepped
      exact wakeful.update time
  | updateProcess process time update =>
      cases stepped
      exact wakeful.same (system.clock.updateProcess_eq process time update)
  | order source target reading =>
      cases stepped
      exact wakeful.same (system.clock.order_eq source target reading)
  | tick time reading =>
      simp only [System.step] at stepped
      split at stepped
      · cases stepped
        exact wakeful.tick time reading
      · cases stepped
  | settle =>
      cases stepped
      exact wakeful.settle
  | finalize =>
      obtain ⟨⟨after, timers⟩, finalized, rfl⟩ := Option.map_eq_some_iff.mp stepped
      exact wakeful.finalize finalized

theorem wakeful_of_reachable (reached : machine.Reachable system) :
    Wakeful system.clock system.delays := by
  apply reached.invariant fun system => Wakeful system.clock system.delays
  · rintro state rfl
    exact Wakeful.new
  · intro state label next wakeful _ stepped
    exact wakeful.step stepped

/-- While the clock runs, or a timer has expired, a delay is outstanding for the first timeout or
an earlier time; every tick that is recorded has a delay; and a tick leaves no timer that has
timed out. -/
theorem wakeups_kept (reached : machine.Reachable system) :
    (∀ first, system.clock.timers.first? = some first →
      system.clock.paused = false ∨ first ≤ system.clock.current →
      ∃ delay ∈ system.delays, delay ≤ first) ∧
    (∀ tick ∈ system.clock.ticks, tick ∈ system.delays) ∧
    ∀ time reading next, system.step (.tick time reading) = some next →
      ∀ timer ∈ next.clock.timers.values, system.clock.globalNow reading < timer.timeout := by
  have wakeful := wakeful_of_reachable reached
  refine ⟨fun first least awaited => ?_, wakeful.recorded,
    fun time reading next stepped timer member => ?_⟩
  · cases paused : system.clock.paused with
    | false =>
        obtain ⟨tick, recorded, inTime⟩ := wakeful.running paused first least
        exact ⟨tick, wakeful.recorded tick recorded, inTime⟩
    | true =>
        rw [paused] at awaited
        exact wakeful.expired paused first least (awaited.resolve_left nofun)
  · simp only [System.step] at stepped
    split at stepped
    · cases stepped
      have left : (system.clock.tick time reading).1.timers =
          system.clock.timers.after (system.clock.globalNow reading) :=
        (tick_eq system.clock time reading).1
      change timer ∈ (system.clock.tick time reading).1.timers.values at member
      rw [left] at member
      exact (accounted_of_reachable reached).stored.lt_timeout member
    · cases stepped

/-- The clock is paused while a tick is outstanding, so that its record is forgotten.  The clock
is advanced past the second timer, and the old delay fires. -/
def staleSchedule : List Label :=
  [.timer none 20 0 0, .pause 5, .timer none 10 0 0, .advance 12]

theorem wakeups_kept_stale : ∃ system, machine.Reachable system ∧
    system.clock.paused = true ∧ system.clock.ticks = {15} ∧ system.delays = {20, 15} ∧
    ∃ delay ∈ system.delays, delay ≤ 15 := by
  obtain ⟨system, ran, paused, ticks, delays, least, current⟩ :
      ∃ system ∈ machine.run .new staleSchedule,
      system.clock.paused = true ∧ system.clock.ticks = {15} ∧ system.delays = {20, 15} ∧
      system.clock.timers.first? = some 15 ∧ system.clock.current = 17 := by
    decide +kernel
  have reached : machine.Reachable system := .of_run rfl ran
  have due := (wakeups_kept reached).1 15 least (.inr (by rw [current]; decide))
  exact ⟨system, reached, paused, ticks, delays, due⟩

end System

end Libprocess.Timers
