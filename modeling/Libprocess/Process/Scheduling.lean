import Libprocess.Process.Tokens

/-!
# Mutual exclusion and wake-ups

In every interleaving at most one thread runs a process, a runnable process has
exactly one token, and a blocked process with events has a thread that is going
to make it runnable.
-/

namespace Libprocess

open Concurrency

namespace ManagerFrame

/-- A thread that has seen, or will see, an event of a blocked process and then
exchanges its state. -/
def wakes (process : ProcessId) : ManagerFrame → Bool
  | .enqueueTermination other => other = process
  | .enqueueReload other => other = process
  | .enqueueExchange other => other = process
  | .retestEmpty other => other = process
  | .exchangeBack other => other = process
  | _ => false

/-- A thread that executes code of a process. -/
def executes (process : ProcessId) : ManagerFrame → Bool
  | .initializing other => other = process
  | .serve other _ => other = process
  | _ => false

end ManagerFrame

/-- No wake-up is lost: a thread is going to exchange the state of a blocked
process that has events. -/
def Wakeful (manager : Manager) (frames : List ManagerFrame) (process : ProcessId) : Prop :=
  (manager.process process).state = .blocked →
    (manager.process process).events.empty = false →
    ∃ frame ∈ frames, frame.wakes process = true

/-- It suffices that a step which lets a process stay blocked with events keeps
the thread that wakes it, or starts one. -/
theorem Wakeful.keep {manager next : Manager} {process : ProcessId} {frame : ManagerFrame}
    {continuation before after : List ManagerFrame} (wakeful : Wakeful manager before process)
    (exchange : Exchange frame continuation before after)
    (kept : (next.process process).state = .blocked →
      (next.process process).events.empty = false →
      (∃ other ∈ continuation, other.wakes process = true) ∨
        (frame.wakes process = false ∧ (manager.process process).state = .blocked ∧
          (manager.process process).events.empty = false)) :
    Wakeful next after process := by
  intro blocked pending
  rcases kept blocked pending with ⟨other, entered, wakes⟩ | ⟨idle, wasBlocked, wasPending⟩
  · exact ⟨other, exchange.entered other entered, wakes⟩
  · obtain ⟨other, member, wakes⟩ := wakeful wasBlocked wasPending
    refine ⟨other, exchange.kept member ?_, wakes⟩
    rintro rfl
    simp [idle] at wakes

namespace Manager

variable {manager next : Manager} {process : ProcessId} {frame : ManagerFrame}
  {continuation before after : List ManagerFrame} {choice : ManagerChoice}

/-- An event that remains after `dequeue` was there before it. -/
theorem dequeue_pending {other : ProcessId} {event : Event} {rest : List Event}
    (first : (manager.process other).events.events = event :: rest)
    (pending : ((manager.storeEvents other
      { (manager.process other).events with events := rest }).process process).events.empty =
        false) :
    (manager.process process).events.empty = false := by
  by_cases same : process = other
  · subst other
    simp [EventQueue.empty, first]
  · simpa [same] using pending

/-- Every step of the manager keeps wake-ups. -/
theorem step_wakeful (wakeful : Wakeful manager before process)
    (stepped : manager.step frame choice = some (next, continuation))
    (exchange : Exchange frame continuation before after) :
    Wakeful next after process := by
  refine wakeful.keep exchange fun blocked pending => ?_
  cases step_cases stepped with
  | returns returns =>
      refine .inr ⟨?_, blocked, pending⟩
      cases returns with
      | enqueueReload other awake | enqueueExchange other awake | exchangeBack other awake =>
          refine decide_eq_false ?_
          rintro rfl
          exact awake blocked
      | retestEmpty other empty =>
          refine decide_eq_false ?_
          rintro rfl
          simp [empty] at pending
      | _ => rfl
  | leads leads =>
      cases leads with
      | enqueueReload other | exchangeBack other =>
          by_cases same : other = process
          · exact .inl ⟨_, List.mem_singleton.mpr rfl, by simp [ManagerFrame.wakes, same]⟩
          · exact .inr ⟨by simp [ManagerFrame.wakes, same], blocked, pending⟩
      | _ => exact .inr ⟨rfl, blocked, pending⟩
  | call code _ called =>
      have idle : frame.wakes process = false := by
        cases frame <;> first | rfl | cases code
      obtain ⟨fields, -⟩ := call_cases called
      rw [fields] at blocked pending
      exact .inr ⟨idle, blocked, pending⟩
  | wake other | back other | storeReady other | storeTerminating other =>
      by_cases same : process = other
      · simp [same] at blocked
      · exact .inr ⟨by simp [ManagerFrame.wakes, Ne.symm same], by simpa [same] using blocked,
          by simpa using pending⟩
  | inject other | storeBlocked other =>
      by_cases same : process = other
      · exact .inl ⟨_, List.mem_singleton.mpr rfl, by simp [ManagerFrame.wakes, same]⟩
      · exact .inr ⟨by simp [ManagerFrame.wakes, Ne.symm same], by simpa [same] using blocked,
          by simpa using pending⟩
  | accept other event =>
      by_cases same : process = other
      · exact .inl ⟨_, List.mem_singleton.mpr rfl, by split <;> simp [ManagerFrame.wakes, same]⟩
      · exact .inr ⟨rfl, by simpa using blocked, by simpa [same] using pending⟩
  | dequeue _ _ _ first | purge _ _ _ _ _ first =>
      exact .inr ⟨rfl, by simpa using blocked, dequeue_pending first pending⟩
  | decomission other =>
      refine .inr ⟨rfl, by simpa using blocked, ?_⟩
      by_cases same : process = other
      · simp [same, EventQueue.decomission, EventQueue.empty] at pending
      · simpa [same] using pending
  | _ => exact .inr ⟨rfl, blocked, pending⟩

end Manager

namespace Tokens

variable {manager : Manager} {frames : List ManagerFrame} {process : ProcessId}

/-- A new thread holds no token. -/
theorem spawn (tokens : Tokens manager frames process) {frame : ManagerFrame}
    (free : frame.holder = none) (past : ∀ process, frame.spawns process = false) :
    Tokens manager (frames ++ [frame]) process := by
  have same : manager.tokens (frames ++ [frame]) process = manager.tokens frames process := by
    simp [Manager.tokens, ManagerFrame.holds, free]
  exact
    { atMost := by rw [same]; exact tokens.atMost
      runnable := by rw [same]; exact tokens.runnable
      blocked := by rw [same]; exact tokens.blocked
      unspawned := by rw [same]; exact tokens.unspawned
      queued := tokens.queued
      phases := by
        intro other member held
        rcases List.mem_append.mp member with old | new
        · exact tokens.phases other old held
        · rw [List.mem_singleton.mp new, free] at held
          cases held
      spawning := by simpa [past] using tokens.spawning }

/-- Two threads do not execute code of one process. -/
theorem executes_le_one (tokens : Tokens manager frames process) :
    frames.countP (·.executes process) ≤ 1 := by
  have bound : frames.countP (·.executes process) ≤ frames.countP (·.holds process) := by
    refine List.countP_mono_left fun frame _ executes => ?_
    cases frame <;> simp_all [ManagerFrame.executes, ManagerFrame.holds, ManagerFrame.holder]
  have atMost := tokens.atMost
  unfold Manager.tokens at atMost
  omega

/-- A process that has been spawned and is neither blocked nor terminating is in
the run queue or has a thread that holds its token. -/
theorem queued_or_held (tokens : Tokens manager frames process)
    (spawned : manager.spawned process = true)
    (runnable : (manager.process process).state = .bottom ∨
      (manager.process process).state = .ready) :
    process ∈ manager.runq ∨ ∃ frame ∈ frames, frame.holds process = true := by
  have one := tokens.runnable spawned runnable
  by_cases queued : process ∈ manager.runq
  · exact .inl queued
  · rw [Manager.tokens, List.count_eq_zero.mpr queued, Nat.zero_add] at one
    have positive : 0 < frames.countP (·.holds process) := by omega
    exact .inr (List.countP_pos_iff.mp positive)

end Tokens

/-- A new thread wakes nobody. -/
theorem Wakeful.spawn {manager : Manager} {frames : List ManagerFrame} {process : ProcessId}
    (wakeful : Wakeful manager frames process) (frame : ManagerFrame) :
    Wakeful manager (frames ++ [frame]) process := by
  intro blocked pending
  obtain ⟨other, member, wakes⟩ := wakeful blocked pending
  exact ⟨other, List.mem_append_left _ member, wakes⟩

/-- The scheduling contract of one process. -/
structure Scheduler.Scheduled (scheduler : Scheduler) (process : ProcessId) : Prop where
  /-- Its entries in the run queue and the threads that hold it are at most one. -/
  atMost : scheduler.manager.tokens scheduler.threads.frames process ≤ 1
  /-- They are exactly one once it is inserted and while it can run. -/
  runnable : scheduler.manager.spawned process = true →
    (scheduler.manager.process process).state = .bottom ∨
      (scheduler.manager.process process).state = .ready →
    scheduler.manager.tokens scheduler.threads.frames process = 1
  /-- A blocked process has none. -/
  blocked : (scheduler.manager.process process).state = .blocked →
    scheduler.manager.tokens scheduler.threads.frames process = 0
  /-- At most one thread executes its code. -/
  exclusive : scheduler.threads.frames.countP (·.executes process) ≤ 1
  /-- The state which `resume` and `cleanup` check. -/
  checked : ∀ frame ∈ scheduler.threads.frames, frame.holder = some process →
    frame.phase (scheduler.manager.process process).state = true
  /-- No wake-up is lost. -/
  wakeup : (scheduler.manager.process process).state = .blocked →
    (scheduler.manager.process process).events.empty = false →
    ∃ frame ∈ scheduler.threads.frames, frame.wakes process = true
  /-- Once every call of `enqueue` is past its exchange, a process with events is
  queued or held by a thread, unless it terminates. -/
  settled : scheduler.manager.spawned process = true →
    (scheduler.manager.process process).events.empty = false →
    (scheduler.manager.process process).state ≠ .terminating →
    (∀ frame ∈ scheduler.threads.frames, frame.wakes process = false) →
    process ∈ scheduler.manager.runq ∨
      ∃ frame ∈ scheduler.threads.frames, frame.holds process = true

/-- The invariant of the scheduler. -/
def Scheduler.Invariant (scheduler : Scheduler) : Prop :=
  ∀ process, Tokens scheduler.manager scheduler.threads.frames process ∧
    Wakeful scheduler.manager scheduler.threads.frames process

theorem Scheduler.new_invariant : Scheduler.new.Invariant := by
  intro process
  refine ⟨?_, ?_⟩
  · constructor <;>
      simp [Scheduler.new, Manager.new, Manager.tokens, Threads.frames, ProcessBase.new]
  · simp [Wakeful, Scheduler.new, Manager.new, ProcessBase.new]

theorem Scheduler.step_invariant {scheduler next : Scheduler} {move : SchedulerMove}
    (invariant : scheduler.Invariant) (stepped : scheduler.step move = some next) :
    next.Invariant := by
  intro process
  obtain ⟨tokens, wakeful⟩ := invariant process
  cases move with
  | user | worker =>
      cases stepped
      simp only [Threads.frames_spawn]
      exact ⟨tokens.spawn rfl fun _ => rfl, wakeful.spawn _⟩
  | advance thread choice =>
      simp only [step, Option.bind_eq_bind, Option.bind_eq_some_iff, Prod.exists,
        Option.pure_def, Option.some.injEq] at stepped
      obtain ⟨frame, running, manager, continuation, moved, rfl⟩ := stepped
      have exchange := Threads.exchange running continuation
      exact ⟨Manager.step_tokens tokens moved exchange,
        Manager.step_wakeful wakeful moved exchange⟩

theorem Scheduler.Invariant.scheduled {scheduler : Scheduler} (invariant : scheduler.Invariant)
    (process : ProcessId) : scheduler.Scheduled process := by
  obtain ⟨tokens, wakeful⟩ := invariant process
  exact
    { atMost := tokens.atMost
      runnable := tokens.runnable
      blocked := tokens.blocked
      exclusive := tokens.executes_le_one
      checked := tokens.phases
      wakeup := wakeful
      settled := by
        intro spawned pending live idle
        cases state : (scheduler.manager.process process).state with
        | bottom => exact tokens.queued_or_held spawned (.inl state)
        | ready => exact tokens.queued_or_held spawned (.inr state)
        | blocked =>
            obtain ⟨frame, member, wakes⟩ := wakeful state pending
            rw [idle frame member] at wakes
            cases wakes
        | terminating => exact absurd state live }

/-- In every interleaving of enqueuing threads, workers, spawns and donating
waiters a process is run by one thread at a time and no wake-up is lost. -/
theorem scheduling_exclusive_and_wakeful {scheduler : Scheduler}
    (reachable : scheduling.Reachable scheduler) (process : ProcessId) :
    scheduler.Scheduled process := by
  refine Scheduler.Invariant.scheduled (reachable.invariant Scheduler.Invariant ?_ ?_) process
  · rintro state rfl
    exact Scheduler.new_invariant
  · intro state move next invariant _ stepped
    exact Scheduler.step_invariant invariant stepped

/-- A worker has stored `BLOCKED` when another thread enqueues an event. -/
def handoffSchedule : List SchedulerMove :=
  List.flatten [[.user, .worker, .advance 0 (.call (.spawn 0))],
    List.replicate 4 (.advance 0 .proceed), List.replicate 10 (.advance 1 .proceed),
    [.advance 0 (.call (.enqueue 0 (.ordinary 1)))], List.replicate 2 (.advance 0 .proceed)]

theorem scheduling_exclusive_and_wakeful_handoff : ∃ scheduler,
    scheduling.run .new handoffSchedule = some scheduler ∧ scheduler.Scheduled 0 ∧
      (scheduler.manager.process 0).state = .blocked ∧
      (scheduler.manager.process 0).events.empty = false ∧
      scheduler.threads = [[.enqueueReload 0, .user], [.retestEmpty 0, .workerIdle]] := by
  obtain ⟨scheduler, executed, observed⟩ : ∃ scheduler ∈ scheduling.run .new handoffSchedule,
      (scheduler.manager.process 0).state = .blocked ∧
      (scheduler.manager.process 0).events.empty = false ∧
      scheduler.threads = [[.enqueueReload 0, .user], [.retestEmpty 0, .workerIdle]] := by
    decide
  exact ⟨scheduler, executed,
    scheduling_exclusive_and_wakeful (.of_run rfl executed) 0, observed⟩

end Libprocess
