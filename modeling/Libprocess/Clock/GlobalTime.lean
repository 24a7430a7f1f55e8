import Libprocess.Clock.Delivery
import Libprocess.Clock.Timeouts

/-!
# The global time

While the clock runs, its time is that of the event loop, shifted by all advances.  While it is
paused, `current` has been moved by the same advances since the time at which it was paused, so
resuming the clock does not turn it back.
-/

namespace Libprocess.Timers

open Concurrency

/-- The system with what was observed: the last time of the event loop, the results of
`Clock::now(nullptr)`, the newest one last, and the sum of the advances. -/
structure Observed where
  system : System
  eventLoop : Time
  reads : List Time
  advances : Duration

/-- An operation of the clock, or a call of `Clock::now(nullptr)` with what the event loop tells. -/
inductive Observation where
  | clock (label : Label)
  | now (reading : Time)
  deriving DecidableEq, Repr

namespace Clock

/-- By how much an operation advances the clock. -/
def advanceOf (clock : Clock) : Label → Duration
  | .advance duration => if clock.paused then duration else 0
  | .update time => if clock.paused ∧ clock.current < time then time - clock.current else 0
  | _ => 0

end Clock

namespace Observed

def new : Observed := ⟨.new, 0, [], 0⟩

/-- The last time of the event loop that an observation tells. -/
def readingOf (observed : Observed) : Observation → Time
  | .clock (.pause reading) => reading
  | .clock _ => observed.eventLoop
  | .now reading => reading

def step (observed : Observed) (observation : Observation) : Option Observed :=
  match observation with
  | .clock label =>
      (observed.system.step label).map fun system =>
        { observed with
          system
          eventLoop := observed.readingOf observation
          advances := observed.advances + observed.system.clock.advanceOf label }
  | .now reading =>
      some { observed with
        eventLoop := reading
        reads := observed.reads ++ [observed.system.clock.globalNow reading] }

def machine : Automaton Observed Observation where
  start := (· = new)
  step := step

/-- The time of the event loop does not go backwards, the clock is not advanced by a negative
duration, and no sum overflows. -/
def Forward (observed : Observed) : Observation → Prop
  | .clock (.pause reading) | .now reading =>
      (observed.eventLoop ≤ reading) ∧
        (observed.system.clock.paused = false →
          reading + observed.system.clock.advanced < 2 ^ 63)
  | .clock (.advance duration) =>
      0 ≤ duration ∧ (observed.system.clock.paused = true →
        observed.system.clock.current + duration < 2 ^ 63)
  | .clock (.update time) => time < 2 ^ 63
  | .clock _ => True

instance forward_decidable (observed : Observed) (observation : Observation) :
    Decidable (observed.Forward observation) := by
  unfold Forward
  split <;> infer_instance

end Observed

/-! ## The two clocks -/

/-- What decides the global time: whether the clock is paused, its time then, and the sum by which
the time of the event loop is shifted. -/
structure Clock.Aligned (clock : Clock) (eventLoop advances : Int) : Prop where
  epoch : 0 ≤ eventLoop
  positive : 0 ≤ advances
  advanced : clock.advanced = advances
  /-- The time at which the clock was paused has been moved by the advances. -/
  current : clock.paused = true → ∃ reading : Int, 0 ≤ reading ∧ reading ≤ eventLoop ∧
    clock.current = reading + advances ∧ reading + advances < 2 ^ 63

/-- The time that the clock does not fall behind. -/
def Clock.reached (clock : Clock) (eventLoop advances : Int) : Int :=
  if clock.paused then clock.current else eventLoop + advances

namespace Clock

variable {clock next : Clock} {eventLoop advances reading duration time : Int}

section

variable (aligned : clock.Aligned eventLoop advances)

include aligned

theorem Aligned.frame (paused : next.paused = clock.paused) (current : next.current = clock.current)
    (advanced : next.advanced = clock.advanced) :
    next.Aligned eventLoop advances ∧ next.reached eventLoop advances =
      clock.reached eventLoop advances := by
  refine ⟨⟨aligned.epoch, aligned.positive, advanced.trans aligned.advanced, fun isPaused => ?_⟩, ?_⟩
  · rw [current]
    exact aligned.current (paused ▸ isPaused)
  · rw [reached, paused, current]
    rfl

/-- A clock that runs shows the time of the event loop and the advances. -/
theorem Aligned.globalNow (forward : eventLoop ≤ reading)
    (fits : clock.paused = false → reading + clock.advanced < 2 ^ 63) :
    clock.globalNow reading = clock.reached reading advances := by
  unfold Clock.globalNow reached
  split
  · rfl
  · rename_i running
    have bounded := fits (by simpa using running)
    have epoch := aligned.epoch
    have positive := aligned.positive
    rw [aligned.advanced] at bounded
    rw [create, aligned.advanced]
    exact Duration.plus_of_representable ⟨by omega, bounded⟩

theorem Aligned.read (forward : eventLoop ≤ reading) :
    clock.Aligned reading advances ∧
      clock.reached eventLoop advances ≤ clock.reached reading advances := by
  refine ⟨⟨aligned.epoch.trans forward, aligned.positive, aligned.advanced, fun isPaused => ?_⟩, ?_⟩
  · obtain ⟨start, epoch, before, current, fits⟩ := aligned.current isPaused
    exact ⟨start, epoch, before.trans forward, current, fits⟩
  · unfold reached
    split
    · exact le_refl _
    · omega

theorem Aligned.pause (forward : eventLoop ≤ reading)
    (fits : clock.paused = false → reading + clock.advanced < 2 ^ 63) :
    (clock.pause reading).Aligned reading advances ∧
      clock.reached eventLoop advances ≤ (clock.pause reading).reached reading advances := by
  unfold Clock.pause
  split
  · exact aligned.read forward
  · rename_i running
    have bounded := fits (by simpa using running)
    have epoch := aligned.epoch
    have positive := aligned.positive
    rw [aligned.advanced] at bounded
    have created : clock.create reading = reading + advances := by
      rw [create, aligned.advanced]
      exact Duration.plus_of_representable ⟨by omega, bounded⟩
    refine ⟨⟨epoch.trans forward, positive, aligned.advanced, fun _ => ?_⟩, ?_⟩
    · exact ⟨reading, by omega, le_refl _, created, bounded⟩
    · simp only [reached, running, created]
      simpa using forward

theorem Aligned.resume :
    clock.resume.1.Aligned eventLoop advances ∧
      clock.reached eventLoop advances ≤ clock.resume.1.reached eventLoop advances := by
  unfold Clock.resume
  split
  · rename_i isPaused
    rw [scheduleTick_eq]
    refine ⟨⟨aligned.epoch, aligned.positive, aligned.advanced, nofun⟩, ?_⟩
    obtain ⟨start, _, before, current, _⟩ := aligned.current isPaused
    simp only [reached, isPaused, if_true, current, Bool.false_eq_true, if_false]
    omega
  · exact ⟨aligned, le_refl _⟩

/-- Moving a clock that is paused. -/
theorem Aligned.move (isPaused : clock.paused = true)
    (positive : 0 ≤ duration) (fits : clock.current + duration < 2 ^ 63)
    (paused : next.paused = true) (current : next.current = Duration.plus clock.current duration)
    (advanced : next.advanced = Duration.plus clock.advanced duration) :
    next.Aligned eventLoop (advances + duration) ∧
      clock.reached eventLoop advances ≤ next.reached eventLoop (advances + duration) := by
  have epoch := aligned.epoch
  have sum := aligned.positive
  obtain ⟨start, least, before, was, _⟩ := aligned.current isPaused
  replace fits : start + advances + duration < 2 ^ 63 := was ▸ fits
  have moved : next.current = start + (advances + duration) := by
    rw [current, was, Duration.plus_of_representable ⟨by omega, fits⟩, Int.add_assoc]
  refine ⟨⟨epoch, by omega, ?_, fun _ => ⟨start, least, before, moved, by omega⟩⟩, ?_⟩
  · rw [advanced, aligned.advanced]
    exact Duration.plus_of_representable ⟨by omega, by omega⟩
  · simp only [reached, isPaused, paused, if_true, was, moved]
    omega

theorem Aligned.advance (positive : 0 ≤ duration)
    (fits : clock.paused = true → clock.current + duration < 2 ^ 63) :
    (clock.advance duration).1.Aligned eventLoop
        (advances + clock.advanceOf (.advance duration)) ∧
      clock.reached eventLoop advances ≤ (clock.advance duration).1.reached eventLoop
        (advances + clock.advanceOf (.advance duration)) := by
  simp only [Clock.advance, advanceOf]
  split
  · rename_i isPaused
    rw [scheduleTick_eq]
    exact aligned.move isPaused positive (fits isPaused) isPaused rfl rfl
  · rw [Int.add_zero]
    exact ⟨aligned, le_refl _⟩

theorem Aligned.update (bounded : time < 2 ^ 63) :
    (clock.update time).1.Aligned eventLoop (advances + clock.advanceOf (.update time)) ∧
      clock.reached eventLoop advances ≤ (clock.update time).1.reached eventLoop
        (advances + clock.advanceOf (.update time)) := by
  simp only [Clock.update, advanceOf]
  split
  · rename_i later
    obtain ⟨isPaused, before⟩ := later
    obtain ⟨start, least, _, was, _⟩ := aligned.current isPaused
    have sum := aligned.positive
    replace before : start + advances < time := was ▸ before
    have fits : start + advances + (time - (start + advances)) = time := by omega
    have difference : Duration.minus time (start + advances) = time - (start + advances) := by
      rw [Duration.minus_eq]
      exact Duration.plus_of_representable ⟨by omega, by omega⟩
    have arrived : time = Duration.plus (start + advances) (time - (start + advances)) := by
      rw [Duration.plus_of_representable ⟨by omega, by omega⟩, fits]
    rw [scheduleTick_eq, was, difference]
    refine aligned.move isPaused (by omega) ?_ isPaused ?_ rfl
    · rw [was]
      exact lt_of_eq_of_lt fits bounded
    · rw [was]
      exact arrived
  · rw [Int.add_zero]
    exact ⟨aligned, le_refl _⟩

end

end Clock

/-! ## Runs -/

namespace System

/-- The operations that do not concern the global time. -/
theorem step_frame {system next : System} {label : Label}
    (stepped : system.step label = some next)
    (pause : ∀ reading, label ≠ .pause reading) (resume : label ≠ .resume)
    (advance : ∀ duration, label ≠ .advance duration) (update : ∀ time, label ≠ .update time) :
    next.clock.paused = system.clock.paused ∧ next.clock.current = system.clock.current ∧
      next.clock.advanced = system.clock.advanced := by
  cases label with
  | pause reading => exact absurd rfl (pause reading)
  | resume => exact absurd rfl resume
  | advance duration => exact absurd rfl (advance duration)
  | update time => exact absurd rfl (update time)
  | timer process duration first second =>
      cases stepped
      obtain ⟨currents, read⟩ := system.clock.timeoutIn_eq process duration first second
      simp only [System.scheduled, Clock.timer, Clock.add, read]
      split
      · rw [Clock.scheduleTick_eq]
        exact ⟨rfl, rfl, rfl⟩
      · split
        · rw [Clock.scheduleTick_eq]
          exact ⟨rfl, rfl, rfl⟩
        · exact ⟨rfl, rfl, rfl⟩
  | cancel timer =>
      cases stepped
      simp only [Clock.cancel]
      split
      · exact ⟨rfl, rfl, rfl⟩
      · exact ⟨rfl, rfl, rfl⟩
  | advanceProcess process duration =>
      cases stepped
      obtain ⟨currents, moved⟩ := system.clock.advanceProcess_eq process duration
      rw [moved]
      exact ⟨rfl, rfl, rfl⟩
  | updateProcess process time mode =>
      cases stepped
      obtain ⟨currents, moved⟩ := system.clock.updateProcess_eq process time mode
      rw [moved]
      exact ⟨rfl, rfl, rfl⟩
  | order source target reading =>
      cases stepped
      obtain ⟨currents, moved⟩ := system.clock.order_eq source target reading
      rw [moved]
      exact ⟨rfl, rfl, rfl⟩
  | tick time reading =>
      simp only [System.step] at stepped
      split at stepped
      · cases stepped
        simp only [System.scheduled, Clock.tick]
        rw [Clock.scheduleTick_eq]
        exact ⟨rfl, rfl, rfl⟩
      · cases stepped
  | settle =>
      cases stepped
      simp only [Clock.settle]
      split
      · exact ⟨rfl, rfl, rfl⟩
      · exact ⟨rfl, rfl, rfl⟩
  | finalize =>
      obtain ⟨⟨clock, timers⟩, finalized, rfl⟩ := Option.map_eq_some_iff.mp stepped
      simp only [Clock.finalize] at finalized
      split at finalized
      · cases finalized
      · cases finalized
        exact ⟨rfl, rfl, rfl⟩

end System

namespace Observed

variable {observed next : Observed} {observation : Observation}

/-- The two clocks agree, and no read is ahead of them. -/
structure Synchronized (observed : Observed) : Prop where
  aligned : observed.system.clock.Aligned observed.eventLoop observed.advances
  ordered : observed.reads.Pairwise (· ≤ ·)
  passed : ∀ read ∈ observed.reads,
    read ≤ observed.system.clock.reached observed.eventLoop observed.advances

theorem synchronized_new : new.Synchronized where
  aligned := ⟨le_refl _, le_refl _, rfl, nofun⟩
  ordered := .nil
  passed := nofun

/-- Whatever keeps the clocks aligned and does not turn back the time. -/
theorem Synchronized.keep (synchronized : observed.Synchronized)
    (reads : next.reads = observed.reads)
    (moved : next.system.clock.Aligned next.eventLoop next.advances ∧
      observed.system.clock.reached observed.eventLoop observed.advances ≤
        next.system.clock.reached next.eventLoop next.advances) : next.Synchronized := by
  refine ⟨moved.1, ?_, fun read member => ?_⟩
  · rw [reads]
    exact synchronized.ordered
  · rw [reads] at member
    exact le_trans (synchronized.passed read member) moved.2

theorem Synchronized.step (synchronized : observed.Synchronized)
    (forward : observed.Forward observation) (stepped : observed.step observation = some next) :
    next.Synchronized := by
  have aligned := synchronized.aligned
  cases observation with
  | now reading =>
      cases stepped
      obtain ⟨kept, later⟩ := aligned.read forward.1
      have shown := aligned.globalNow forward.1 forward.2
      refine ⟨kept, ?_, fun read member => ?_⟩
      · refine List.pairwise_append.mpr ⟨synchronized.ordered, List.pairwise_singleton _ _, ?_⟩
        intro read member new isNew
        rw [List.mem_singleton.mp isNew]
        exact (le_trans (synchronized.passed read member) later).trans_eq shown.symm
      · cases List.mem_append.mp member with
        | inl old => exact le_trans (synchronized.passed read old) later
        | inr isNew =>
            rw [List.mem_singleton.mp isNew]
            exact le_of_eq shown
  | clock label =>
      obtain ⟨system, moved, rfl⟩ := Option.map_eq_some_iff.mp stepped
      refine synchronized.keep rfl ?_
      cases label with
      | pause reading =>
          cases moved
          have unmoved : observed.advances + observed.system.clock.advanceOf (.pause reading) =
            observed.advances := Int.add_zero _
          simp only [unmoved]
          exact aligned.pause forward.1 forward.2
      | resume =>
          cases moved
          have unmoved : observed.advances + observed.system.clock.advanceOf .resume =
            observed.advances := Int.add_zero _
          simp only [unmoved]
          exact aligned.resume
      | advance duration =>
          cases moved
          exact aligned.advance forward.1 forward.2
      | update time =>
          cases moved
          exact aligned.update forward
      | timer | cancel | advanceProcess | updateProcess | order | tick | settle | finalize =>
          obtain ⟨paused, current, advanced⟩ :=
            System.step_frame moved nofun nofun nofun nofun
          obtain ⟨kept, same⟩ := aligned.frame paused current advanced
          simp only [Clock.advanceOf]
          have unmoved : observed.advances + 0 = observed.advances := Int.add_zero _
          rw [unmoved]
          exact ⟨kept, le_of_eq same.symm⟩

theorem synchronized_of_reaches (reached : machine.Reaches Forward observed) :
    observed.Synchronized := by
  apply reached.invariant Synchronized
  · rintro state rfl
    exact synchronized_new
  · intro state label next synchronized forward stepped
    exact synchronized.step forward stepped

/-- The global time does not go backwards, however often the clock is paused and resumed, and a
clock that runs shows the time of the event loop and the sum of all advances. -/
theorem globalTime_forward (reached : machine.Reaches Forward observed) :
    observed.reads.Pairwise (· ≤ ·) ∧
    (∀ reading, observed.Forward (.now reading) →
      ∀ read ∈ observed.reads, read ≤ observed.system.clock.globalNow reading) ∧
    (observed.system.clock.paused = false → ∀ reading, observed.Forward (.now reading) →
      observed.system.clock.globalNow reading = reading + observed.advances) := by
  have synchronized := synchronized_of_reaches reached
  have aligned := synchronized.aligned
  refine ⟨synchronized.ordered, fun reading forward read member => ?_,
    fun running reading forward => ?_⟩
  · rw [aligned.globalNow forward.1 forward.2]
    exact le_trans (synchronized.passed read member) (aligned.read forward.1).2
  · rw [aligned.globalNow forward.1 forward.2, Clock.reached, running]
    rfl

/-- A pause with an advance and an update. -/
def pausedSchedule : List Observation :=
  [.now 3, .clock (.pause 5), .clock (.advance 10), .now 6, .clock (.update 20), .clock .resume,
    .now 8]

theorem globalTime_forward_paused : ∃ observed, machine.Reaches Forward observed ∧
    observed.reads = [3, 15, 23] ∧ observed.advances = 15 ∧
    ∀ reading, observed.Forward (.now reading) →
      observed.system.clock.globalNow reading = reading + observed.advances := by
  have permitted : machine.Along Forward new pausedSchedule := by decide +kernel
  obtain ⟨observed, ran, reads, advances, running⟩ : ∃ observed ∈ machine.run new pausedSchedule,
      observed.reads = [3, 15, 23] ∧ observed.advances = 15 ∧
      observed.system.clock.paused = false := by
    decide +kernel
  have reached : machine.Reaches Forward observed := .of_along (.start rfl) permitted ran
  exact ⟨observed, reached, reads, advances, (globalTime_forward reached).2.2 running⟩

end Observed

end Libprocess.Timers
