import Libprocess.Concurrency.Automaton
import Libprocess.Containers.SortedMap
import Mathlib.Data.Finset.Basic
import Mathlib.Algebra.Group.Int.Defs
import Mathlib.Algebra.Group.Nat.Defs

/-!
# The clock

`Clock` keeps the timers in a map that is sorted by timeout, and asks the event loop for a
`tick` at the earliest of them.  It may be paused, and then its time moves only when it is
advanced or updated.

Each `synchronized` block is one step.  What `EventLoop::time` returns, and when the event loop
fires a delay, is up to the environment.  Times and durations are numbers of nanoseconds, and
their arithmetic is that of 64-bit integers.
-/

namespace Libprocess.Timers

open Concurrency
open Containers (SortedMap)

abbrev Time := Int
abbrev Duration := Int
abbrev ProcessId := Nat

/-- `Duration::operator+` -/
def Duration.plus (left right : Duration) : Duration := (left + right).bmod (2 ^ 64)

/-- `Duration::operator-` -/
def Duration.minus (left right : Duration) : Duration := (left - right).bmod (2 ^ 64)

/-- `Duration::max()` -/
def Duration.max : Duration := 2 ^ 63 - 1

/-- `Time::max()` -/
def Time.max : Time := Duration.max

structure Timer where
  id : Nat
  timeout : Time
  deriving DecidableEq, Repr

/-- `Clock::Update` -/
inductive Update where
  | safe
  | force
  deriving DecidableEq, Repr

/-- The variables of the clock.  `timerId` is the static variable of `Clock::timer`. -/
structure Clock where
  timers : SortedMap Time Timer
  currents : ProcessId → Option Time
  initial : Time
  current : Time
  advanced : Duration
  paused : Bool
  settling : Bool
  ticks : Finset Time
  timerId : Nat

namespace Clock

def new : Clock :=
  ⟨.empty, fun _ => none, 0, 0, 0, false, false, ∅, 1⟩

/-- `Time::create` of what `EventLoop::time` returns. -/
def create (clock : Clock) (reading : Time) : Time := Duration.plus reading clock.advanced

/-- `Clock::now(nullptr)` -/
def globalNow (clock : Clock) (reading : Time) : Time :=
  if clock.paused then clock.current else clock.create reading

/-- `Clock::now(process)`, which remembers the time of a process it has not seen before. -/
def now (clock : Clock) (process : Option ProcessId) (reading : Time) : Clock × Time :=
  match process with
  | none => (clock, clock.globalNow reading)
  | some process =>
      if clock.paused then
        match clock.currents process with
        | some time => (clock, time)
        | none =>
            ({ clock with currents := Function.update clock.currents process clock.initial },
              clock.initial)
      else (clock, clock.create reading)

/-- `clock::next` -/
def next (clock : Clock) : Option Time :=
  match clock.timers.first? with
  | none => none
  | some first => if clock.paused ∧ clock.current < first then none else some first

/-- `clock::scheduleTick`, with the time whose `tick` is handed to `EventLoop::delay`. -/
def scheduleTick (clock : Clock) : Clock × Option Time :=
  match clock.next with
  | none => (clock, none)
  | some next =>
      -- There is no tick, or `next` is before the first one.
      if ∀ tick ∈ clock.ticks, next < tick then
        ({ clock with ticks := insert next clock.ticks }, some next)
      else (clock, none)

/-- The block of `clock::tick`: the time it uses, the timers that timed out, and the tick it
schedules. -/
def tick (clock : Clock) (time reading : Time) : Clock × Time × List Timer × Option Time :=
  let now := clock.globalNow reading
  let timedout := clock.timers.upTo now
  let block :=
    { clock with
      settling := clock.settling ||
        (clock.paused && clock.timers.entries.any fun entry => entry.1 ≤ now)
      timers := clock.timers.after now
      ticks := clock.ticks.erase time }.scheduleTick
  (block.1, now, timedout, block.2)

/-- No timer will expire before the time at which the clock is paused. -/
def quiet (clock : Clock) : Bool :=
  match clock.timers.first? with
  | none => true
  | some first => clock.current < first

/-- The last block of `clock::tick`, after the timers were executed. -/
def settle (clock : Clock) : Clock :=
  if clock.paused ∧ clock.quiet then { clock with settling := false } else clock

/-- `Clock::finalize`; a paused clock fails its check. -/
def finalize (clock : Clock) : Option (Clock × List Timer) :=
  if clock.paused then none else some ({ clock with timers := .empty }, clock.timers.values)

/-- `Timeout::in`, which calls `Clock::now` twice. -/
def timeoutIn (clock : Clock) (process : Option ProcessId) (duration : Duration)
    (first second : Time) : Clock × Time :=
  let block := clock.now process first
  if block.2 < Duration.minus Duration.max duration then
    let again := block.1.now process second
    (again.1, Duration.plus again.2 duration)
  else (block.1, Time.max)

/-- The block of `Clock::timer`. -/
def add (clock : Clock) (timer : Timer) : Clock × Option Time :=
  let added := { clock with timers := clock.timers.pushAt timer.timeout timer }
  match clock.timers.first? with
  | none => added.scheduleTick
  | some first => if timer.timeout < first then added.scheduleTick else (added, none)

/-- `Clock::timer` -/
def timer (clock : Clock) (process : Option ProcessId) (duration : Duration)
    (first second : Time) : Clock × Timer × Option Time :=
  let timeout := clock.timeoutIn process duration first second
  let timer : Timer := ⟨timeout.1.timerId, timeout.2⟩
  let block := { timeout.1 with timerId := timer.id + 1 }.add timer
  (block.1, timer, block.2)

/-- `Clock::cancel`; timers are equal if their numbers are. -/
def cancel (clock : Clock) (timer : Timer) : Clock × Bool :=
  if clock.timers.contains timer.timeout then
    ({ clock with timers := clock.timers.removeAt timer.timeout (·.id = timer.id) }, true)
  else (clock, false)

/-- `Clock::pause` -/
def pause (clock : Clock) (reading : Time) : Clock :=
  if clock.paused then clock
  else
    { clock with
      initial := clock.create reading
      current := clock.create reading
      paused := true
      ticks := ∅ }

/-- `Clock::resume` -/
def resume (clock : Clock) : Clock × Option Time :=
  if clock.paused then
    { clock with
      paused := false
      settling := false
      currents := fun _ => none }.scheduleTick
  else (clock, none)

/-- `Clock::advance(duration)` -/
def advance (clock : Clock) (duration : Duration) : Clock × Option Time :=
  if clock.paused then
    { clock with
      advanced := Duration.plus clock.advanced duration
      current := Duration.plus clock.current duration }.scheduleTick
  else (clock, none)

/-- `Clock::advance(process, duration)` -/
def advanceProcess (clock : Clock) (process : ProcessId) (duration : Duration) : Clock :=
  if clock.paused then
    let current := clock.now (some process) 0
    { current.1 with
      currents := Function.update current.1.currents process
        (some (Duration.plus current.2 duration)) }
  else clock

/-- `Clock::update(time)` -/
def update (clock : Clock) (time : Time) : Clock × Option Time :=
  if clock.paused ∧ clock.current < time then
    { clock with
      advanced := Duration.plus clock.advanced (Duration.minus time clock.current)
      current := time }.scheduleTick
  else (clock, none)

/-- `Clock::update(process, time, update)` -/
def updateProcess (clock : Clock) (process : ProcessId) (time : Time) (update : Update) : Clock :=
  if clock.paused then
    let current := clock.now (some process) 0
    if current.2 < time ∨ update = .force then
      { current.1 with currents := Function.update current.1.currents process (some time) }
    else current.1
  else clock

/-- `Clock::order` -/
def order (clock : Clock) (source target : ProcessId) (reading : Time) : Clock :=
  let time := clock.now (some source) reading
  time.1.updateProcess target time.2 .safe

/-! ## What the operations leave alone -/

/-- `Clock::now` changes nothing but the times of the processes. -/
theorem now_eq (clock : Clock) (process : Option ProcessId) (reading : Time) :
    ∃ currents, (clock.now process reading).1 = { clock with currents } := by
  unfold now
  split
  · exact ⟨_, rfl⟩
  · split
    · split
      · exact ⟨_, rfl⟩
      · exact ⟨_, rfl⟩
    · exact ⟨_, rfl⟩

theorem timeoutIn_eq (clock : Clock) (process : Option ProcessId) (duration : Duration)
    (first second : Time) :
    ∃ currents, (clock.timeoutIn process duration first second).1 = { clock with currents } := by
  obtain ⟨currents, once⟩ := clock.now_eq process first
  unfold timeoutIn
  dsimp only
  split
  · obtain ⟨again, twice⟩ := (clock.now process first).1.now_eq process second
    refine ⟨again, ?_⟩
    rw [twice, once]
  · exact ⟨currents, once⟩

theorem advanceProcess_eq (clock : Clock) (process : ProcessId) (duration : Duration) :
    ∃ currents, clock.advanceProcess process duration = { clock with currents } := by
  obtain ⟨currents, read⟩ := clock.now_eq (some process) 0
  unfold advanceProcess
  split
  · dsimp only
    rw [read]
    exact ⟨_, rfl⟩
  · exact ⟨_, rfl⟩

theorem updateProcess_eq (clock : Clock) (process : ProcessId) (time : Time) (update : Update) :
    ∃ currents, clock.updateProcess process time update = { clock with currents } := by
  obtain ⟨currents, read⟩ := clock.now_eq (some process) 0
  unfold updateProcess
  split
  · dsimp only
    rw [read]
    split
    · exact ⟨_, rfl⟩
    · exact ⟨_, rfl⟩
  · exact ⟨_, rfl⟩

theorem order_eq (clock : Clock) (source target : ProcessId) (reading : Time) :
    ∃ currents, clock.order source target reading = { clock with currents } := by
  obtain ⟨currents, read⟩ := clock.now_eq (some source) reading
  obtain ⟨updated, wrote⟩ := (clock.now (some source) reading).1.updateProcess_eq target
    (clock.now (some source) reading).2 .safe
  refine ⟨updated, wrote.trans ?_⟩
  rw [read]

/-- `scheduleTick` changes nothing but the ticks. -/
theorem scheduleTick_eq (clock : Clock) :
    clock.scheduleTick.1 = { clock with ticks := clock.scheduleTick.1.ticks } := by
  unfold scheduleTick
  split
  · rfl
  · split
    · rfl
    · rfl

end Clock

/-- The clock, the ticks that the event loop has still to fire, and the history: the timers that
were created, those that every tick has passed to the callback with the time it used, those
that `cancel` took out of the map and those that `finalize` cleared. -/
structure System where
  clock : Clock
  delays : Multiset Time
  created : List Timer
  delivered : List (Time × List Timer)
  cancelled : List Timer
  cleared : List Timer

inductive Label where
  | timer (process : Option ProcessId) (duration : Duration) (first second : Time)
  | cancel (timer : Timer)
  | pause (reading : Time)
  | resume
  | advance (duration : Duration)
  | advanceProcess (process : ProcessId) (duration : Duration)
  | update (time : Time)
  | updateProcess (process : ProcessId) (time : Time) (update : Update)
  | order (source target : ProcessId) (reading : Time)
  /-- The event loop fires a delay. -/
  | tick (time reading : Time)
  /-- A tick has executed its timers. -/
  | settle
  | finalize
  deriving DecidableEq, Repr

namespace System

def new : System := ⟨.new, 0, [], [], [], []⟩

/-- The clock after a block, with the tick it has handed to the event loop. -/
def scheduled (system : System) (block : Clock × Option Time) : System :=
  { system with
    clock := block.1
    delays := system.delays + ↑block.2.toList }

def step (system : System) : Label → Option System
  | .timer process duration first second =>
      let block := system.clock.timer process duration first second
      some { system.scheduled (block.1, block.2.2) with
        created := system.created ++ [block.2.1] }
  | .cancel timer =>
      some { system with
        clock := (system.clock.cancel timer).1
        cancelled := system.cancelled ++
          system.clock.timers.removedAt timer.timeout (·.id = timer.id) }
  | .pause reading => some { system with clock := system.clock.pause reading }
  | .resume => some (system.scheduled system.clock.resume)
  | .advance duration => some (system.scheduled (system.clock.advance duration))
  | .advanceProcess process duration =>
      some { system with clock := system.clock.advanceProcess process duration }
  | .update time => some (system.scheduled (system.clock.update time))
  | .updateProcess process time update =>
      some { system with clock := system.clock.updateProcess process time update }
  | .order source target reading =>
      some { system with clock := system.clock.order source target reading }
  | .tick time reading =>
      if time ∈ system.delays then
        let block := system.clock.tick time reading
        some { { system with
            delays := system.delays.erase time }.scheduled (block.1, block.2.2.2) with
          delivered := system.delivered ++ [(block.2.1, block.2.2.1)] }
      else none
  | .settle => some { system with clock := system.clock.settle }
  | .finalize =>
      system.clock.finalize.map fun (clock, timers) =>
        { system with
          clock
          cleared := system.cleared ++ timers }

def machine : Automaton System Label where
  start := (· = new)
  step := step

end System

end Libprocess.Timers
