import Libprocess.Process.Scheduling

/-!
# The consumer of an event queue

`EventQueue` requires a single consumer: one thread at a time may call `empty`,
`dequeue` or `decomission`, and none may after `decomission`.  The threads that
hold the token of a process respect this among themselves.  The thread that has
stored `BLOCKED` has given the token up, however, and still calls `empty` once
more.
-/

namespace Libprocess

open Concurrency

namespace ManagerFrame

/-- The next step of a thread is a consumer operation on the queue of a process. -/
def consumes (process : ProcessId) : ManagerFrame → Bool
  | .testEmpty other => other = process
  | .dequeue other => other = process
  | .purge other event => other = process ∧ ¬ event.isTerminate
  | .retestEmpty other => other = process
  | .decomission other => other = process
  | _ => false

/-- The call of `empty` after `BLOCKED` was stored. -/
def rechecks (process : ProcessId) : ManagerFrame → Bool
  | .retestEmpty other => other = process
  | _ => false

/-- A thread that resumes a process and holds its token. -/
def resumes (process : ProcessId) : ManagerFrame → Bool
  | .push _ => false
  | .resumeLoad _ => false
  | frame => frame.holds process

def decomissions (process : ProcessId) : ManagerFrame → Bool
  | .decomission other => other = process
  | _ => false

/-- Only a thread that has not yet closed the queue of a terminating process uses it. -/
theorem not_consumes {process : ProcessId} {frame : ManagerFrame}
    (phase : frame.holder = some process → frame.phase .terminating = true)
    (unchecked : frame.rechecks process = false) (done : frame.decomissions process = false) :
    frame.consumes process = false := by
  cases frame with
  | testEmpty | dequeue => simpa [consumes, holder, ManagerFrame.phase] using phase
  | purge other event =>
      have different : other ≠ process := by simpa [holder, ManagerFrame.phase] using phase
      simp [consumes, different]
  | retestEmpty => exact unchecked
  | decomission => exact done
  | _ => rfl

end ManagerFrame

/-- A step by which a thread begins to resume a process: it took the token off
the run queue, or it wins the exchange back to `READY`. -/
def Manager.takesOver (manager : Manager) (process : ProcessId) : ManagerFrame → Bool
  | .resumeLoad other => other = process
  | .exchangeBack other => other = process ∧ (manager.process process).state = .blocked
  | _ => false

/-- The consumers of the queue of one process. -/
structure Consumers (manager : Manager) (frames : List ManagerFrame) (process : ProcessId) :
    Prop where
  sole : frames.countP (·.rechecks process) + frames.countP (·.resumes process) ≤ 1
  started : (manager.process process).state = .bottom → frames.countP (·.rechecks process) = 0
  closed : (manager.process process).events.comissioned = false →
    (manager.process process).state = .terminating ∧
      frames.countP (·.rechecks process) = 0 ∧ frames.countP (·.decomissions process) = 0

namespace Consumers

variable {manager next : Manager} {process : ProcessId} {frame : ManagerFrame}
  {entry : ManagerFrame} {continuation before after : List ManagerFrame}

/-- A step that leaves the state of the process and its queue's flag alone, and
starts no consumer. -/
theorem keep (consumers : Consumers manager before process)
    (exchange : Exchange frame continuation before after)
    (state : (next.process process).state = (manager.process process).state)
    (comissioned : (next.process process).events.comissioned =
      (manager.process process).events.comissioned)
    (rechecks : continuation.countP (·.rechecks process) ≤
      if frame.rechecks process then 1 else 0)
    (resumes : continuation.countP (·.resumes process) ≤
      if frame.resumes process then 1 else 0)
    (decomissions : continuation.countP (·.decomissions process) ≤
      if frame.decomissions process then 1 else 0) :
    Consumers next after process := by
  have recheckCounts := exchange.countP (·.rechecks process)
  have resumeCounts := exchange.countP (·.resumes process)
  have decomissionCounts := exchange.countP (·.decomissions process)
  constructor
  · have sole := consumers.sole
    omega
  · rw [state]
    intro bottom
    have none := consumers.started bottom
    omega
  · rw [state, comissioned]
    intro closed
    obtain ⟨terminating, unchecked, undone⟩ := consumers.closed closed
    exact ⟨terminating, by omega, by omega⟩

/-- A consumer may change its role. -/
theorem hand (consumers : Consumers manager before process)
    (exchange : Exchange frame continuation before after)
    (roles : continuation.countP (·.rechecks process) +
        continuation.countP (·.resumes process) ≤
      (if frame.rechecks process then 1 else 0) + if frame.resumes process then 1 else 0) :
    after.countP (·.rechecks process) + after.countP (·.resumes process) ≤ 1 := by
  have rechecks := exchange.countP (·.rechecks process)
  have resumes := exchange.countP (·.resumes process)
  have sole := consumers.sole
  omega

/-- A new thread consumes nothing. -/
theorem spawn (consumers : Consumers manager before process)
    (rechecks : frame.rechecks process = false) (resumes : frame.resumes process = false)
    (decomissions : frame.decomissions process = false) :
    Consumers manager (before ++ [frame]) process := by
  constructor
  · simpa [rechecks, resumes] using consumers.sole
  · simpa [rechecks] using consumers.started
  · simpa [rechecks, decomissions] using consumers.closed

/-- The resuming threads hold the token. -/
theorem resumes_le_holds (frames : List ManagerFrame) (process : ProcessId) :
    frames.countP (·.resumes process) ≤ frames.countP (·.holds process) := by
  refine List.countP_mono_left fun frame _ resumes => ?_
  cases frame <;> simp_all [ManagerFrame.resumes]

/-- Before the holder of the token resumes the process, nobody else does. -/
theorem resumes_eq_zero (tokens : Tokens manager before process) (member : frame ∈ before)
    (held : frame.holds process = true) (idle : frame.resumes process = false) :
    before.countP (·.resumes process) = 0 := by
  have perm := List.perm_cons_erase member
  have holding := perm.countP_eq (·.holds process)
  have resuming := perm.countP_eq (·.resumes process)
  have rest := resumes_le_holds (before.erase frame) process
  have atMost := tokens.atMost
  unfold Manager.tokens at atMost
  simp only [List.countP_cons, held, idle, if_true, Bool.false_eq_true, if_false]
    at holding resuming
  omega

/-- The holder of the token begins to resume the process. -/
theorem resume (consumers : Consumers manager before process)
    (exchange : Exchange frame [entry] before after)
    (live : (manager.process process).state ≠ .terminating)
    (unchecked : before.countP (·.rechecks process) = 0)
    (alone : before.countP (·.resumes process) = 0)
    (idle : entry.rechecks process = false)
    (events : (next.process process).events = (manager.process process).events) :
    Consumers next after process := by
  have rechecks := exchange.countP (·.rechecks process)
  have resumes := exchange.countP (·.resumes process)
  simp only [List.countP_cons, List.countP_nil, idle, Bool.false_eq_true, if_false]
    at rechecks resumes
  have atMost : (if entry.resumes process then 1 else 0) ≤ 1 := by split <;> omega
  refine ⟨by omega, fun _ => by omega, ?_⟩
  rw [events]
  intro closed
  exact absurd (consumers.closed closed).1 live

theorem consumes_le_one (consumers : Consumers manager before process) :
    before.countP (·.consumes process) ≤ 1 := by
  have roles : ∀ frame : ManagerFrame, frame.consumes process = true →
      frame.rechecks process = true ∨ frame.resumes process = true := by
    intro frame consumes
    cases frame <;>
      simp_all [ManagerFrame.consumes, ManagerFrame.rechecks, ManagerFrame.resumes,
        ManagerFrame.holds, ManagerFrame.holder]
  have split : ∀ frames : List ManagerFrame, frames.countP (·.consumes process) ≤
      frames.countP (·.rechecks process) + frames.countP (·.resumes process) := by
    intro frames
    induction frames with
    | nil => simp
    | cons frame rest ih =>
        simp only [List.countP_cons]
        by_cases consumes : frame.consumes process = true
        · rcases roles frame consumes with rechecks | resumes
          · simp only [consumes, rechecks, if_true]
            omega
          · simp only [consumes, resumes, if_true]
            omega
        · simp only [consumes, Bool.false_eq_true, if_false]
          omega
  exact Nat.le_trans (split before) consumers.sole

end Consumers

namespace Manager

variable {manager next : Manager} {process : ProcessId} {frame : ManagerFrame}
  {continuation before after : List ManagerFrame} {choice : ManagerChoice}

theorem entry_idle (request : Request) (process : ProcessId) :
    request.entry.rechecks process = false ∧ request.entry.resumes process = false ∧
      request.entry.decomissions process = false := by
  cases request <;> exact ⟨rfl, rfl, rfl⟩

/-- A step that stores the state of a process that is not terminating. -/
theorem storeState_consumers (consumers : Consumers manager before process)
    {other : ProcessId} {state : ProcessState}
    (exchange : Exchange frame continuation before after)
    (live : process = other → (manager.process other).state ≠ .terminating)
    (stored : state ≠ .bottom)
    (sole : process = other → after.countP (·.rechecks process) +
      after.countP (·.resumes process) ≤ 1)
    (rechecks : process ≠ other → continuation.countP (·.rechecks process) = 0)
    (resumes : process ≠ other → continuation.countP (·.resumes process) = 0)
    (decomissions : process ≠ other → continuation.countP (·.decomissions process) = 0) :
    Consumers (manager.storeState other state) after process := by
  by_cases same : process = other
  · refine ⟨sole same, ?_, ?_⟩
    · simp [same, stored]
    · intro closed
      rw [storeState_events] at closed
      have terminating := (consumers.closed closed).1
      rw [same] at terminating
      exact absurd terminating (live same)
  · refine consumers.keep exchange (by simp [same]) (by simp) ?_ ?_ ?_
    · rw [rechecks same]
      exact Nat.zero_le _
    · rw [resumes same]
      exact Nat.zero_le _
    · rw [decomissions same]
      exact Nat.zero_le _

attribute [local simp] ManagerFrame.rechecks ManagerFrame.resumes ManagerFrame.decomissions
  ManagerFrame.holds ManagerFrame.holder

/-- Events come and go while the queue stays open. -/
theorem storeEvents_comissioned {other : ProcessId} {events : List Event} :
    ((manager.storeEvents other { (manager.process other).events with events := events }).process
      process).events.comissioned = (manager.process process).events.comissioned := by
  by_cases same : process = other <;> simp [same]

section

variable (tokens : Tokens manager before process)

include tokens

section

variable (consumers : Consumers manager before process)

include consumers

/-- `decomission` is the last consumer operation. -/
theorem decomission_consumers
    (exchange : Exchange (.decomission process) [.removeHelp process] before after)
    {events : EventQueue Event} :
    Consumers (manager.storeEvents process events) after process := by
  have terminating : (manager.process process).state = .terminating := by
    simpa [ManagerFrame.phase] using tokens.phases _ exchange.member rfl
  have rechecks := exchange.countP (·.rechecks process)
  have decomissions := exchange.countP (·.decomissions process)
  have bound : before.countP (·.decomissions process) ≤ before.countP (·.resumes process) := by
    refine List.countP_mono_left fun frame _ decomissions => ?_
    cases frame <;>
      simp_all [ManagerFrame.decomissions, ManagerFrame.resumes, ManagerFrame.holds,
        ManagerFrame.holder]
  have sole := consumers.sole
  have own : (ManagerFrame.decomission process).decomissions process = true := by
    simp [ManagerFrame.decomissions]
  have left : (ManagerFrame.removeHelp process).decomissions process = false := rfl
  have looked : (ManagerFrame.decomission process).rechecks process = false := rfl
  have looking : (ManagerFrame.removeHelp process).rechecks process = false := rfl
  simp only [List.countP_cons, List.countP_nil, own, left, looked, looking, if_true,
    Bool.false_eq_true, if_false] at rechecks decomissions
  refine ⟨consumers.hand exchange ?_, ?_, ?_⟩
  · simp [ManagerFrame.rechecks, ManagerFrame.resumes, ManagerFrame.holds, ManagerFrame.holder]
  · simp [terminating]
  · intro _
    exact ⟨by simpa using terminating, by omega, by omega⟩

/-- The thread that runs the process begins to resume it. -/
theorem resumeLoad_consumers {other : ProcessId} {entered : ManagerFrame}
    (rechecked : manager.takesOver process (.resumeLoad other) = true →
      before.countP (·.rechecks process) = 0)
    (alive : (manager.process other).state ≠ .terminating)
    (idle : entered.rechecks process = false)
    (foreign : process ≠ other →
      entered.resumes process = false ∧ entered.decomissions process = false)
    (exchange : Exchange (.resumeLoad other) [entered] before after) :
    Consumers manager after process := by
  by_cases same : process = other
  · subst other
    exact consumers.resume exchange alive (rechecked (by simp [takesOver]))
      (Consumers.resumes_eq_zero tokens exchange.member (by simp) rfl) idle rfl
  · obtain ⟨resumes, decomissions⟩ := foreign same
    refine consumers.keep exchange rfl rfl ?_ ?_ ?_
    · simp only [List.countP_cons, idle]
      exact Nat.zero_le _
    · simp only [List.countP_cons, resumes]
      exact Nat.zero_le _
    · simp only [List.countP_cons, decomissions]
      exact Nat.zero_le _

/-- The thread that wins the exchange back resumes the process again. -/
theorem exchangeBack_consumers {other : ProcessId}
    (rechecked : manager.takesOver process (.exchangeBack other) = true →
      before.countP (·.rechecks process) = 0)
    (blocked : (manager.process other).state = .blocked)
    (exchange : Exchange (.exchangeBack other) [.testEmpty other] before after) :
    Consumers (manager.storeState other .ready) after process := by
  by_cases same : process = other
  · subst other
    have alone : before.countP (·.resumes process) = 0 := by
      have none := tokens.blocked blocked
      have bound := Consumers.resumes_le_holds before process
      unfold Manager.tokens at none
      omega
    exact consumers.resume exchange (by simp [blocked]) (rechecked (by simp [takesOver, blocked]))
      alone rfl (by simp)
  · refine consumers.keep exchange (by simp [same]) (by simp) ?_ ?_ ?_ <;> simp [Ne.symm same]

/-- Every step of the manager keeps the consumers apart, if the thread that
stored `BLOCKED` is done with its second look before the process is resumed. -/
theorem step_consumers (rechecked : manager.takesOver process frame = true →
      before.countP (·.rechecks process) = 0)
    (stepped : manager.step frame choice = some (next, continuation))
    (exchange : Exchange frame continuation before after) :
    Consumers next after process := by
  cases step_cases stepped with
  | returns returns =>
      refine consumers.keep exchange rfl rfl ?_ ?_ ?_ <;> simp
  | leads leads =>
      cases leads with
      | initializing other state | resume other state =>
          exact resumeLoad_consumers tokens consumers rechecked (by simp [state]) rfl
            (fun different => by simp [Ne.symm different]) exchange
      | _ =>
          refine consumers.keep exchange rfl rfl ?_ ?_ ?_ <;> simp
  | call _ _ called =>
      obtain ⟨fields, -⟩ := call_cases called
      obtain ⟨rechecks, resumes, decomissions⟩ := entry_idle ‹Request› process
      refine consumers.keep exchange (by rw [fields]) (by rw [fields]) ?_ ?_ ?_
      · simp only [List.countP_cons, rechecks]
        simp
      · simp only [List.countP_cons, resumes]
        simp
      · simp only [List.countP_cons, decomissions]
        simp
  | user | initializing | removeHelp | exited | filter | workerStart | workerIdle | workerWoken
  | waitRunning | waitDone | epoch | take | extract | insert | push | inject | erase =>
      refine consumers.keep exchange (by simp) (by simp) ?_ ?_ ?_ <;> simp
  | serve | filtered =>
      refine consumers.keep exchange rfl rfl ?_ ?_ ?_ <;> split <;> simp
  | accept =>
      refine consumers.keep exchange (by simp) storeEvents_comissioned ?_ ?_ ?_ <;> split <;> simp
  | dequeue | purge =>
      refine consumers.keep exchange (by simp) storeEvents_comissioned ?_ ?_ ?_ <;> simp
  | wake _ blocked =>
      refine storeState_consumers consumers exchange (by simp [blocked]) (by simp)
        (fun _ => consumers.hand exchange ?_) ?_ ?_ ?_ <;> simp
  | back _ blocked => exact exchangeBack_consumers tokens consumers rechecked blocked exchange
  | storeReady | storeBlocked | storeTerminating =>
      refine storeState_consumers consumers exchange ?_ (by simp) ?_ ?_ ?_ ?_
      · rintro rfl
        have phase := tokens.phases _ exchange.member rfl
        simp only [ManagerFrame.phase, decide_eq_true_eq] at phase
        simp [phase]
      · rintro rfl
        exact consumers.hand exchange (by simp)
      all_goals
        intro different
        simp [Ne.symm different]
  | decomission other =>
      by_cases same : process = other
      · subst other
        exact decomission_consumers tokens consumers exchange
      · refine consumers.keep exchange (by simp) (by simp [same]) ?_ ?_ ?_ <;> simp

end

end

end Manager

namespace Scheduler

/-- A thread is about to execute a consumer operation on the queue of a process. -/
def consuming (scheduler : Scheduler) (process : ProcessId) (thread : Nat) : Bool :=
  (scheduler.threads.top? thread).any (·.consumes process)

/-- What `EventQueue` requires of its users. -/
structure SingleConsumer (scheduler : Scheduler) (process : ProcessId) : Prop where
  exclusive : ∀ first second, scheduler.consuming process first = true →
    scheduler.consuming process second = true → first = second
  closed : (scheduler.manager.process process).events.comissioned = false →
    ∀ thread, scheduler.consuming process thread = false

/-- A thread begins to resume the process only when no thread has yet to look at
the queue again after storing `BLOCKED`. -/
def rechecked (process : ProcessId) (scheduler : Scheduler) : SchedulerMove → Bool
  | .user => true
  | .worker => true
  | .advance thread _ =>
      (scheduler.threads.top? thread).any (scheduler.manager.takesOver process) →
        scheduler.threads.frames.countP (·.rechecks process) = 0

theorem new_consumers (process : ProcessId) :
    Consumers Scheduler.new.manager Scheduler.new.threads.frames process := by
  constructor <;> simp [Scheduler.new, Manager.new, ProcessBase.new, EventQueue.new]

theorem step_consumers {scheduler next : Scheduler} {process : ProcessId}
    {move : SchedulerMove} (invariant : scheduler.Invariant)
    (consumers : Consumers scheduler.manager scheduler.threads.frames process)
    (permitted : scheduler.rechecked process move = true)
    (stepped : scheduler.step move = some next) :
    Consumers next.manager next.threads.frames process := by
  cases move with
  | user | worker =>
      cases stepped
      simp only [Threads.frames_spawn]
      exact consumers.spawn rfl rfl rfl
  | advance thread choice =>
      simp only [step, Option.bind_eq_bind, Option.bind_eq_some_iff, Prod.exists,
        Option.pure_def, Option.some.injEq] at stepped
      obtain ⟨frame, running, manager, continuation, moved, rfl⟩ := stepped
      simp only [rechecked, running, Option.any_some, decide_eq_true_eq] at permitted
      exact Manager.step_consumers (invariant process).1 consumers permitted moved
        (Threads.exchange running continuation)

theorem singleConsumer {scheduler : Scheduler} {process : ProcessId}
    (invariant : scheduler.Invariant)
    (consumers : Consumers scheduler.manager scheduler.threads.frames process) :
    scheduler.SingleConsumer process := by
  constructor
  · intro first second one other
    simp only [consuming, Option.any_eq_true] at one other
    obtain ⟨frame, runs, consumes⟩ := one
    obtain ⟨otherFrame, otherRuns, otherConsumes⟩ := other
    exact Threads.top?_unique consumers.consumes_le_one runs consumes otherRuns otherConsumes
  · intro closed thread
    obtain ⟨terminating, unchecked, undone⟩ := consumers.closed closed
    by_contra consuming
    simp only [Scheduler.consuming, Bool.not_eq_false, Option.any_eq_true] at consuming
    obtain ⟨frame, runs, consumes⟩ := consuming
    have member := Threads.top?_mem_frames runs
    have phase := (invariant process).1.phases frame member
    rw [terminating] at phase
    have idle := List.countP_eq_zero.mp unchecked frame member
    have past := List.countP_eq_zero.mp undone frame member
    rw [ManagerFrame.not_consumes phase (by simpa using idle) (by simpa using past)] at consumes
    cases consumes

end Scheduler

/-- The event queue of a process has a single consumer in every run in which the
process is not resumed before the thread that stored `BLOCKED` has looked at the
queue again. -/
theorem consumer_single_of_rechecked {scheduler : Scheduler} {process : ProcessId}
    (reached : scheduling.Reaches
      (fun scheduler move => scheduler.rechecked process move = true) scheduler) :
    scheduler.SingleConsumer process := by
  have both := reached.invariant
    (fun scheduler => scheduler.Invariant ∧
      Consumers scheduler.manager scheduler.threads.frames process)
    (by
      rintro state rfl
      exact ⟨Scheduler.new_invariant, Scheduler.new_consumers process⟩)
    (by
      rintro state move next ⟨invariant, consumers⟩ permitted stepped
      exact ⟨Scheduler.step_invariant invariant stepped,
        Scheduler.step_consumers invariant consumers permitted stepped⟩)
  exact Scheduler.singleConsumer both.1 both.2

/-- A worker looks at the queue again, finds it empty, and only then another
thread enqueues an event and a second worker resumes the process. -/
def orderlySchedule : List SchedulerMove :=
  List.flatten [[.user, .worker, .worker, .advance 0 (.call (.spawn 0))],
    List.replicate 4 (.advance 0 .proceed), List.replicate 11 (.advance 1 .proceed),
    [.advance 0 (.call (.enqueue 0 (.terminate 1 false)))], List.replicate 5 (.advance 0 .proceed),
    List.replicate 6 (.advance 2 .proceed)]

theorem consumer_single_of_rechecked_orderly : ∃ scheduler,
    scheduling.run .new orderlySchedule = some scheduler ∧ scheduler.SingleConsumer 0 ∧
      scheduler.threads = [[.epoch, .user], [.workerIdle], [.testEmpty 0, .workerIdle]] := by
  obtain ⟨scheduler, executed, observed⟩ : ∃ scheduler ∈ scheduling.run .new orderlySchedule,
      scheduler.threads = [[.epoch, .user], [.workerIdle], [.testEmpty 0, .workerIdle]] := by
    decide
  have permitted : scheduling.Along
      (fun scheduler move => scheduler.rechecked 0 move = true) .new orderlySchedule := by
    decide
  exact ⟨scheduler, executed,
    consumer_single_of_rechecked (.of_along (.start rfl) permitted executed), observed⟩

/-- The first worker stays between storing `BLOCKED` and looking at the queue
again, while the event is enqueued and the second worker resumes the process. -/
def overtakingSchedule : List SchedulerMove :=
  List.flatten [[.user, .worker, .worker, .advance 0 (.call (.spawn 0))],
    List.replicate 4 (.advance 0 .proceed), List.replicate 10 (.advance 1 .proceed),
    [.advance 0 (.call (.enqueue 0 (.terminate 1 false)))], List.replicate 5 (.advance 0 .proceed),
    List.replicate 6 (.advance 2 .proceed)]

/-- Two threads are about to call `empty` on one queue, and the first of them
can still do so after the second has decomissioned it. -/
theorem consumer_not_single :
    (∃ scheduler, scheduling.Reachable scheduler ∧ ¬ scheduler.SingleConsumer 0 ∧
      scheduler.threads =
        [[.epoch, .user], [.retestEmpty 0, .workerIdle], [.testEmpty 0, .workerIdle]]) ∧
    ∃ scheduler, scheduling.Reachable scheduler ∧ ¬ scheduler.SingleConsumer 0 ∧
      (scheduler.manager.process 0).events.comissioned = false ∧
      scheduler.threads.top? 1 = some (.retestEmpty 0) := by
  constructor
  · obtain ⟨scheduler, executed, observed⟩ : ∃ scheduler ∈ scheduling.run .new overtakingSchedule,
        scheduler.threads =
          [[.epoch, .user], [.retestEmpty 0, .workerIdle], [.testEmpty 0, .workerIdle]] := by
      decide
    refine ⟨scheduler, .of_run rfl executed, ?_, observed⟩
    intro single
    have same := single.exclusive 1 2
      (by rw [Scheduler.consuming, observed]; decide)
      (by rw [Scheduler.consuming, observed]; decide)
    cases same
  · obtain ⟨scheduler, executed, observed⟩ : ∃ scheduler ∈ scheduling.run .new
        (overtakingSchedule ++ List.replicate 8 (.advance 2 .proceed)),
        (scheduler.manager.process 0).events.comissioned = false ∧
        scheduler.threads.top? 1 = some (.retestEmpty 0) := by
      decide
    refine ⟨scheduler, .of_run rfl executed, ?_, observed⟩
    intro single
    have idle := single.closed observed.1 1
    simp [Scheduler.consuming, observed.2, ManagerFrame.consumes] at idle

end Libprocess
