import Libprocess.Concurrency.Automaton
import Libprocess.Concurrency.Threads
import Mathlib.Data.Multiset.Filter

/-!
# The run queue and its semaphore

`RunQueue` is a list of processes behind a mutex with a semaphore, on which the worker threads
wait.  Which semaphore is decided when the program is compiled, so the semaphore is a parameter
here: its memory, the program points of its functions and their steps.  The loop of `decomission`
is the same in both implementations.

Worker threads call `wait` and then `dequeue`; they and all other threads may call `enqueue`,
`extract` and, once, `decomission` in between.
-/

namespace Libprocess.Semaphores

open Concurrency

abbrev ThreadId := Nat
abbrev ProcessId := Nat

/-- A semaphore that can be decommissioned.  A step of `wait` is `none` while the thread is
blocked, and has no next program point when the call returns. -/
structure Semaphore where
  Memory : Type
  Wait : Type
  Signal : Type
  new : Memory
  /-- Where `wait` begins. -/
  wait : Wait
  /-- Where `signal` begins. -/
  signal : Signal
  waitStep : Memory → ThreadId → Wait → Option (Memory × Option Wait)
  signalStep : Memory → Signal → Memory × Option Signal
  /-- `comissioned.store(false)` -/
  close : Memory → Memory
  /-- `waiters.load()` -/
  waiters : Memory → Nat
  decomissioned : Memory → Bool

/-- Program points, named after what comes next. -/
inductive Frame (semaphore : Semaphore) where
  /-- A thread that is no worker, outside the run queue. -/
  | user
  /-- A worker thread outside `wait` and `dequeue`. -/
  | worker (self : ThreadId)
  /-- `RunQueue::enqueue` -/
  | push (process : ProcessId)
  | epoch
  | signal (frame : semaphore.Signal)
  /-- `RunQueue::extract` -/
  | extract (process : ProcessId)
  /-- `RunQueue::wait` -/
  | wait (self : ThreadId) (frame : semaphore.Wait)
  /-- `RunQueue::dequeue` -/
  | dequeue (self : ThreadId)
  /-- `RunQueue::decomission`, with the number of signals that are left. -/
  | close
  | load
  | release (remaining : Nat)
  | releasing (remaining : Nat) (frame : semaphore.Signal)

/-- The run queue.  `signals` and `returns` count the calls of `signal` and the returns of
`wait`; `called` and `released` record that `decomission` was called and has returned. -/
structure RunQueue (semaphore : Semaphore) where
  processes : List ProcessId
  epoch : Nat
  semaphore : semaphore.Memory
  signals : Nat
  returns : Nat
  called : Bool
  released : Bool

/-- What code outside the run queue does next. -/
inductive Choice where
  | proceed
  | wait
  | enqueue (process : ProcessId)
  | extract (process : ProcessId)
  | decomission
  deriving DecidableEq, Repr

namespace RunQueue

variable {semaphore : Semaphore}

def new (semaphore : Semaphore) : RunQueue semaphore := ⟨[], 0, semaphore.new, 0, 0, false, false⟩

/-- Code outside the run queue calls one of its functions and continues with `here`. -/
def call (queue : RunQueue semaphore) (here : Frame semaphore) :
    Choice → Option (RunQueue semaphore × List (Frame semaphore))
  | .enqueue process => some (queue, [.push process, here])
  | .extract process => some (queue, [.extract process, here])
  | .decomission =>
      if queue.called then none else some ({ queue with called := true }, [.close, here])
  | .proceed => some (queue, [])
  | .wait => none

/-- One step of a thread at a program point. -/
def step (queue : RunQueue semaphore) (frame : Frame semaphore) (choice : Choice) :
    Option (RunQueue semaphore × List (Frame semaphore)) :=
  match frame with
  | .user => queue.call .user choice
  | .worker self =>
      if choice = .wait then some (queue, [.wait self semaphore.wait])
      else queue.call (.worker self) choice
  | .push process => some ({ queue with processes := queue.processes ++ [process] }, [.epoch])
  | .epoch =>
      some ({ queue with
        epoch := queue.epoch + 1
        signals := queue.signals + 1 }, [.signal semaphore.signal])
  | .signal frame =>
      let block := semaphore.signalStep queue.semaphore frame
      some ({ queue with semaphore := block.1 }, block.2.toList.map .signal)
  | .extract process => some ({ queue with processes := queue.processes.erase process }, [])
  | .wait self frame =>
      match semaphore.waitStep queue.semaphore self frame with
      | none => none
      | some (memory, some next) => some ({ queue with semaphore := memory }, [.wait self next])
      | some (memory, none) =>
          some ({ queue with
            semaphore := memory
            returns := queue.returns + 1 }, [.dequeue self])
  | .dequeue self =>
      some ({ queue with processes := queue.processes.tail }, [.worker self])
  | .close => some ({ queue with semaphore := semaphore.close queue.semaphore }, [.load])
  | .load => some (queue, [.release (semaphore.waiters queue.semaphore)])
  | .release 0 => some ({ queue with released := true }, [])
  | .release (remaining + 1) =>
      some ({ queue with signals := queue.signals + 1 }, [.releasing remaining semaphore.signal])
  | .releasing remaining frame =>
      let block := semaphore.signalStep queue.semaphore frame
      some ({ queue with semaphore := block.1 },
        [match block.2 with
          | some next => .releasing remaining next
          | none => .release remaining])

/-- `decomission` is called once. -/
theorem called_of_step {queue next : RunQueue semaphore} {frame : Frame semaphore}
    {choice : Choice} {continuation : List (Frame semaphore)}
    (stepped : queue.step frame choice = some (next, continuation))
    (called : queue.called = true) : next.called = true := by
  have calls : ∀ here, queue.call here choice = some (next, continuation) →
      next.called = true := by
    intro here stepped
    cases choice with
    | decomission => simp [call, called] at stepped
    | wait => cases stepped
    | proceed | enqueue process | extract process =>
        cases stepped
        exact called
  cases frame with
  | user => exact calls .user stepped
  | worker self =>
      simp only [step] at stepped
      split at stepped
      · cases stepped
        exact called
      · exact calls _ stepped
  | wait self frame =>
      simp only [step] at stepped
      split at stepped <;> cases stepped
      all_goals exact called
  | release remaining =>
      cases remaining <;> cases stepped
      all_goals exact called
  | push process | epoch | signal frame | extract process | dequeue self | close | load
  | releasing remaining frame =>
      cases stepped
      exact called

end RunQueue

/-- The run queue and the threads over it. -/
structure Workers (semaphore : Semaphore) where
  queue : RunQueue semaphore
  threads : Threads (Frame semaphore)

/-- Start a thread, or let a thread move. -/
inductive Move where
  | user
  | worker
  | advance (thread : ThreadId) (choice : Choice)
  deriving DecidableEq, Repr

namespace Workers

variable {semaphore : Semaphore}

def new (semaphore : Semaphore) : Workers semaphore := ⟨.new semaphore, []⟩

def step (workers : Workers semaphore) : Move → Option (Workers semaphore)
  | .user => some { workers with threads := workers.threads.spawn .user }
  | .worker =>
      some { workers with threads := workers.threads.spawn (.worker workers.threads.length) }
  | .advance thread choice => do
      let frame ← workers.threads.top? thread
      let block ← workers.queue.step frame choice
      return ⟨block.1, workers.threads.resume thread block.2⟩

/-- All interleavings of the threads of a run queue. -/
def machine (semaphore : Semaphore) : Automaton (Workers semaphore) Move where
  start workers := workers = new semaphore
  step := step

variable {workers next : Workers semaphore}

theorem step_advance {thread : ThreadId} {choice : Choice}
    (stepped : workers.step (.advance thread choice) = some next) :
    ∃ frame continuation, workers.threads.top? thread = some frame ∧
      workers.queue.step frame choice = some (next.queue, continuation) ∧
      next.threads = workers.threads.resume thread continuation := by
  simp only [step, Option.bind_eq_bind, Option.bind_eq_some_iff, Option.pure_def,
    Option.some.injEq] at stepped
  obtain ⟨frame, running, block, moved, rfl⟩ := stepped
  exact ⟨frame, block.2, running, moved, rfl⟩

/-- Every frame of every thread. -/
def frames (workers : Workers semaphore) : Multiset (Frame semaphore) :=
  (workers.threads.frames : Multiset (Frame semaphore))

theorem mem_frames_of_top? {thread : ThreadId} {frame : Frame semaphore}
    (running : workers.threads.top? thread = some frame) : frame ∈ workers.frames := by
  rw [frames, Multiset.mem_coe]
  exact Threads.top?_mem_frames running

/-- A move of a thread exchanges its running frame. -/
theorem frames_resume {thread : ThreadId} {frame : Frame semaphore}
    (running : workers.threads.top? thread = some frame)
    (continuation : List (Frame semaphore)) :
    ∃ rest : Multiset (Frame semaphore), workers.frames = frame ::ₘ rest ∧
      ((workers.threads.resume thread continuation).frames : Multiset (Frame semaphore)) =
        ↑continuation + rest := by
  obtain ⟨rest, before, after⟩ := (Threads.exchange running continuation).split
  refine ⟨(rest : Multiset (Frame semaphore)), ?_, ?_⟩
  · rw [frames, Multiset.cons_coe]
    exact Multiset.coe_eq_coe.mpr before
  · rw [Multiset.coe_add]
    exact Multiset.coe_eq_coe.mpr after

/-- The invariant rule for a property of the queue and of the frames of all threads, in runs in
which `permitted` holds of the frame that moves. -/
theorem invariant_of_reaches {allowed : Workers semaphore → Move → Prop}
    (permitted : RunQueue semaphore → Multiset (Frame semaphore) → Frame semaphore → Prop)
    (allows : ∀ workers thread choice frame, (machine semaphore).Reachable workers →
      allowed workers (.advance thread choice) → workers.threads.top? thread = some frame →
      permitted workers.queue workers.frames frame)
    (holds : RunQueue semaphore → Multiset (Frame semaphore) → Prop)
    (initial : holds (.new semaphore) 0)
    (user : ∀ queue frames, holds queue frames → holds queue (.user ::ₘ frames))
    (worker : ∀ queue frames self, holds queue frames → holds queue (.worker self ::ₘ frames))
    (moved : ∀ queue next frame continuation choice rest, holds queue (frame ::ₘ rest) →
      permitted queue (frame ::ₘ rest) frame →
      queue.step frame choice = some (next, continuation) → holds next (↑continuation + rest))
    (reached : (machine semaphore).Reaches allowed workers) :
    holds workers.queue workers.frames := by
  induction reached with
  | start started =>
      cases started
      exact initial
  | @step before after move reached permits stepped held =>
      cases move with
      | user =>
          cases stepped
          rw [frames, Threads.frames_spawn, ← Multiset.coe_add, Multiset.add_comm]
          exact user _ _ held
      | worker =>
          cases stepped
          rw [frames, Threads.frames_spawn, ← Multiset.coe_add, Multiset.add_comm]
          exact worker _ _ _ held
      | advance thread choice =>
          obtain ⟨frame, continuation, running, stepped, threads⟩ := step_advance stepped
          obtain ⟨rest, whole, exchanged⟩ := frames_resume running continuation
          have licence := allows before thread choice frame reached.reachable permits running
          rw [whole] at held licence
          rw [frames, threads, exchanged]
          exact moved _ _ frame continuation choice rest held licence stepped

/-- The invariant rule for all runs. -/
theorem invariant_of_reachable (holds : RunQueue semaphore → Multiset (Frame semaphore) → Prop)
    (initial : holds (.new semaphore) 0)
    (user : ∀ queue frames, holds queue frames → holds queue (.user ::ₘ frames))
    (worker : ∀ queue frames self, holds queue frames → holds queue (.worker self ::ₘ frames))
    (moved : ∀ queue next frame continuation choice rest, holds queue (frame ::ₘ rest) →
      queue.step frame choice = some (next, continuation) → holds next (↑continuation + rest))
    (reached : (machine semaphore).Reachable workers) :
    holds workers.queue workers.frames := by
  apply invariant_of_reaches (fun _ _ _ => True) _ holds initial user worker _ reached
  · intros
    exact True.intro
  · intro queue next frame continuation choice rest held _ stepped
    exact moved queue next frame continuation choice rest held stepped

end Workers

section Tally

variable {α : Type} (selected : α → Bool) (call : α) (calls : Multiset α)

/-- The number of calls at certain program points. -/
def tally (selected : α → Bool) (calls : Multiset α) : Nat :=
  calls.countP fun call => selected call

@[simp] theorem tally_zero : tally selected 0 = 0 := rfl

@[simp] theorem tally_cons :
    tally selected (call ::ₘ calls) = tally selected calls + (selected call).toNat := by
  rw [tally, Multiset.countP_cons, tally]
  cases selected call <;> rfl

theorem tally_add (more : Multiset α) :
    tally selected (calls + more) = tally selected calls + tally selected more :=
  Multiset.countP_add _ _ _

@[simp] theorem tally_coe (list : List α) :
    tally selected (list : Multiset α) = list.countP selected := by
  rw [tally, Multiset.coe_countP]
  simp

variable {selected call calls}

theorem tally_mono {wider : α → Bool} (implied : ∀ call, selected call = true → wider call = true) :
    tally selected calls ≤ tally wider calls := by
  induction calls using Multiset.induction with
  | empty => exact Nat.le_refl _
  | cons call calls ih =>
      rw [tally_cons, tally_cons]
      apply Nat.add_le_add ih
      cases known : selected call with
      | false => exact Nat.zero_le _
      | true => rw [implied call known]

theorem tally_pos (member : call ∈ calls) (chosen : selected call = true) :
    0 < tally selected calls := by
  obtain ⟨rest, rfl⟩ := Multiset.exists_cons_of_mem member
  rw [tally_cons, chosen]
  exact Nat.succ_pos _

theorem tally_eq_zero_iff :
    tally selected calls = 0 ↔ ∀ call ∈ calls, selected call = false := by
  simp [tally, Multiset.countP_eq_zero]

theorem exists_of_tally_pos (positive : 0 < tally selected calls) :
    ∃ call ∈ calls, selected call = true :=
  Multiset.countP_pos.mp positive

/-- A call goes on, or returns. -/
def goOn (next : Option α) (rest : Multiset α) : Multiset α := next.elim rest (· ::ₘ rest)

@[simp] theorem goOn_none (rest : Multiset α) : goOn none rest = rest := rfl

@[simp] theorem goOn_some (next : α) (rest : Multiset α) :
    goOn (some next) rest = next ::ₘ rest := rfl

theorem tally_goOn (next : Option α) :
    tally selected (goOn next calls) =
      tally selected calls + next.elim 0 fun next => (selected next).toNat := by
  cases next with
  | none => rfl
  | some next => exact tally_cons selected next calls

/-- A new value in a slot of an array. -/
theorem exists_coe_set {slots : List α} {index : Nat} {old : α} (found : slots[index]? = some old)
    (new : α) : ∃ rest : Multiset α, (slots : Multiset α) = old ::ₘ rest ∧
      ((slots.set index new : List α) : Multiset α) = new ::ₘ rest := by
  induction slots generalizing index with
  | nil => cases found
  | cons first slots ih =>
      cases index with
      | zero =>
          cases found
          exact ⟨slots, rfl, rfl⟩
      | succ index =>
          obtain ⟨rest, was, becomes⟩ := ih found
          refine ⟨first ::ₘ rest, ?_, ?_⟩
          · rw [← Multiset.cons_coe, was, Multiset.cons_swap]
          · rw [List.set_cons_succ, ← Multiset.cons_coe, becomes, Multiset.cons_swap]

end Tally

section Calls

variable {semaphore : Semaphore}

/-- The call of `wait` that a thread is in. -/
@[simp] def Frame.waiting : Frame semaphore → Option (ThreadId × semaphore.Wait)
  | .wait self frame => some (self, frame)
  | _ => none

/-- The call of `signal` that a thread is in. -/
@[simp] def Frame.signalling : Frame semaphore → Option semaphore.Signal
  | .signal frame => some frame
  | .releasing _ frame => some frame
  | _ => none

/-- The running calls of `wait`, with their threads. -/
def waits (frames : Multiset (Frame semaphore)) : Multiset (ThreadId × semaphore.Wait) :=
  frames.filterMap Frame.waiting

/-- The running calls of `signal`. -/
def signals (frames : Multiset (Frame semaphore)) : Multiset semaphore.Signal :=
  frames.filterMap Frame.signalling

variable (frame : Frame semaphore) (rest : Multiset (Frame semaphore))

@[simp] theorem waits_zero : waits (0 : Multiset (Frame semaphore)) = 0 := rfl

@[simp] theorem signals_zero : signals (0 : Multiset (Frame semaphore)) = 0 := rfl

@[simp] theorem waits_cons : waits (frame ::ₘ rest) = goOn frame.waiting (waits rest) := by
  cases called : frame.waiting with
  | none => exact Multiset.filterMap_cons_none _ _ called
  | some call => exact Multiset.filterMap_cons_some _ _ _ called

@[simp] theorem signals_cons :
    signals (frame ::ₘ rest) = goOn frame.signalling (signals rest) := by
  cases called : frame.signalling with
  | none => exact Multiset.filterMap_cons_none _ _ called
  | some call => exact Multiset.filterMap_cons_some _ _ _ called

variable {frame rest}

theorem mem_waits {self : ThreadId} {call : semaphore.Wait} :
    (self, call) ∈ waits rest ↔ .wait self call ∈ rest := by
  rw [waits, Multiset.mem_filterMap]
  constructor
  · rintro ⟨frame, member, waiting⟩
    cases frame with
    | wait self call =>
        cases waiting
        exact member
    | _ => cases waiting
  · intro member
    exact ⟨_, member, rfl⟩

theorem signals_eq_zero (nobody : ∀ frame ∈ rest, frame.signalling = none) : signals rest = 0 := by
  apply Multiset.eq_zero_of_forall_notMem
  intro call member
  obtain ⟨frame, present, calling⟩ := (Multiset.mem_filterMap _ _).mp member
  rw [nobody frame present] at calling
  cases calling

variable (frame rest)

@[simp] theorem nil_add :
    (([] : List (Frame semaphore)) : Multiset (Frame semaphore)) + rest = rest :=
  Multiset.zero_add rest

@[simp] theorem cons_add (continuation : List (Frame semaphore)) :
    ((frame :: continuation : List (Frame semaphore)) : Multiset (Frame semaphore)) + rest =
      frame ::ₘ (↑continuation + rest) := by
  rw [← Multiset.cons_coe, Multiset.cons_add]

end Calls

/-- The invariant rule for a property of the memory of a semaphore and of the calls of `wait` and
`signal` that are running. -/
theorem Workers.semaphore_invariant {semaphore : Semaphore} {workers : Workers semaphore}
    (holds : semaphore.Memory → Multiset (ThreadId × semaphore.Wait) →
      Multiset semaphore.Signal → Prop)
    (initial : holds semaphore.new 0 0)
    (waitCalled : ∀ memory self waits signals, holds memory waits signals →
      holds memory ((self, semaphore.wait) ::ₘ waits) signals)
    (signalCalled : ∀ memory waits signals, holds memory waits signals →
      holds memory waits (semaphore.signal ::ₘ signals))
    (waited : ∀ memory self call waits signals after outcome,
      holds memory ((self, call) ::ₘ waits) signals →
      semaphore.waitStep memory self call = some (after, outcome) →
      holds after (goOn (outcome.map (self, ·)) waits) signals)
    (signalled : ∀ memory waits call signals, holds memory waits (call ::ₘ signals) →
      holds (semaphore.signalStep memory call).1 waits
        (goOn (semaphore.signalStep memory call).2 signals))
    (closed : ∀ memory waits signals, holds memory waits signals →
      holds (semaphore.close memory) waits signals)
    (reached : (machine semaphore).Reachable workers) :
    holds workers.queue.semaphore (waits workers.frames) (signals workers.frames) := by
  apply invariant_of_reachable
    (fun queue frames => holds queue.semaphore (waits frames) (signals frames)) initial
    _ _ _ reached
  · intro queue frames held
    simpa using held
  · intro queue frames self held
    simpa using held
  · intro queue next frame continuation choice rest held stepped
    cases frame with
    | user =>
        cases choice with
        | decomission =>
            simp only [RunQueue.step, RunQueue.call] at stepped
            split at stepped
            · cases stepped
            · cases stepped
              simpa using held
        | wait => cases stepped
        | proceed | enqueue process | extract process =>
            cases stepped
            simpa using held
    | worker self =>
        cases choice with
        | decomission =>
            simp only [RunQueue.step, RunQueue.call, reduceCtorEq, if_false] at stepped
            split at stepped
            · cases stepped
            · cases stepped
              simpa using held
        | wait =>
            cases stepped
            simpa using
              waitCalled _ self _ _ (by simpa using held)
        | proceed | enqueue process | extract process =>
            cases stepped
            simpa using held
    | push process | extract process | dequeue self | load =>
        cases stepped
        simpa using held
    | epoch =>
        cases stepped
        simpa using
          signalCalled _ _ _ (by simpa using held)
    | signal call | releasing remaining call =>
        cases stepped
        have kept := signalled _ _ call _ (by
          simpa using held)
        cases outcome : (semaphore.signalStep queue.semaphore call).2 with
        | none | some further => simpa [outcome] using kept
    | wait self call =>
        simp only [RunQueue.step] at stepped
        have kept := fun after outcome => waited queue.semaphore self call (waits rest)
          (signals rest) after outcome (by simpa using held)
        split at stepped
        · cases stepped
        · rename_i waitStepped
          cases stepped
          simpa using kept _ _ waitStepped
        · rename_i waitStepped
          cases stepped
          simpa using kept _ _ waitStepped
    | close =>
        cases stepped
        simpa using
          closed _ _ _ (by simpa using held)
    | release remaining =>
        cases remaining with
        | zero =>
            cases stepped
            simpa using held
        | succ remaining =>
            cases stepped
            simpa using
              signalCalled _ _ _ (by simpa using held)

end Libprocess.Semaphores
