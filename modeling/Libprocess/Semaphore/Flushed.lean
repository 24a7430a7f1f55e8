import Libprocess.Semaphore.Kernel
import Libprocess.Semaphore.LastInFirstOut

/-!
# Decommissioning releases the waiters

With the kernel semaphore every waiter is released.  In the last-in-first-out semaphore a thread
that comes late can take the unit that `decomission` has just added, and then `signal` returns
although a thread still sleeps.
-/

namespace Libprocess.Semaphores

open Concurrency

/-- The thread is going to sleep unless it finds that `count` is positive. -/
def LifoWait.enters : LifoWait → Bool
  | .scan _ | .recheck _ | .register _ => true
  | .load | .exchange _ | .announce | .check | .withdraw | .retreat _ | .sleep => false

namespace LifoSignal

/-- The call is going to wake a thread that it has not found yet. -/
def pending : LifoSignal → Nat
  | .decrement _ | .post _ => 0
  | .add | .loadWaiters | .loadCount | .recheckWaiters _ | .recheckCount _ | .load _
  | .exchange _ _ => 1

/-- The call is about to read `count`. -/
def readsCount : LifoSignal → Bool
  | .loadCount | .recheckCount _ => true
  | .add | .loadWaiters | .recheckWaiters _ | .load _ | .exchange _ _ | .decrement _
  | .post _ => false

end LifoSignal

namespace LifoMemory

/-- The threads that have found the semaphore commissioned and that no call of `signal` has
taken. -/
def exposed (memory : LifoMemory) (waits : Multiset (ThreadId × LifoWait)) : Nat :=
  tally (·.2.enters) waits + tally Option.isSome (memory.semaphores : Multiset (Option ThreadId))

variable {memory after : LifoMemory} {self : ThreadId} {call : LifoWait}
  {outcome : Option LifoWait} {waits : Multiset (ThreadId × LifoWait)}
  {signals : Multiset LifoSignal}

/-- A step of `wait` that enters no slot. -/
theorem exposed_wait_inside (slots : after.semaphores = memory.semaphores)
    (fewer : (outcome.elim 0 fun next => next.enters.toNat) ≤ call.enters.toNat) :
    after.exposed (goOn (outcome.map (self, ·)) waits) ≤
      memory.exposed ((self, call) ::ₘ waits) := by
  rw [exposed, exposed, tally_goOn, tally_cons, slots]
  cases outcome <;> simp only [Option.map_none, Option.map_some, Option.elim_none,
    Option.elim_some] at fewer ⊢ <;> omega

theorem exposed_waitStep (closed : memory.comissioned = false)
    (stepped : memory.waitStep self call = some (after, outcome)) :
    after.exposed (goOn (outcome.map (self, ·)) waits) ≤
      memory.exposed ((self, call) ::ₘ waits) := by
  have tries : ∀ old, (tryTake old).enters = false := by
    intro old
    rw [tryTake]
    split <;> rfl
  cases call with
  | load =>
      cases stepped
      apply exposed_wait_inside rfl
      simp [tries]
  | exchange old =>
      simp only [waitStep] at stepped
      split at stepped
      · cases stepped
        exact exposed_wait_inside rfl (Nat.zero_le _)
      · cases stepped
        apply exposed_wait_inside rfl
        simp [tries]
  | announce | withdraw | retreat old =>
      cases stepped
      exact exposed_wait_inside rfl (Nat.zero_le _)
  | check =>
      cases stepped
      apply exposed_wait_inside rfl
      simp [closed, LifoWait.enters]
  | scan index =>
      simp only [waitStep] at stepped
      split at stepped
      · cases stepped
        exact exposed_wait_inside rfl (Nat.le_refl _)
      · cases stepped
        exact exposed_wait_inside rfl (Bool.toNat_le _)
  | recheck index =>
      simp only [waitStep] at stepped
      split at stepped
      · cases stepped
        exact exposed_wait_inside rfl (Nat.zero_le _)
      · cases stepped
        exact exposed_wait_inside rfl (Nat.le_refl _)
  | register index =>
      simp only [waitStep] at stepped
      split at stepped
      · rename_i vacant
        cases stepped
        obtain ⟨rest, was, becomes⟩ := exists_coe_set vacant (some self)
        rw [exposed, exposed, was, becomes]
        simp only [Option.map_some, goOn_some, tally_cons, Option.isSome_some, Option.isSome_none,
          Bool.toNat_true, Bool.toNat_false]
        change tally _ waits + 0 + _ ≤ tally _ waits + 1 + _
        omega
      · cases stepped
        exact exposed_wait_inside rfl (Bool.toNat_le _)
  | sleep =>
      simp only [waitStep] at stepped
      split at stepped
      · cases stepped
        exact exposed_wait_inside rfl (Nat.zero_le _)
      · cases stepped

/-- A call of `signal` that takes a semaphore exposes one thread less. -/
theorem exposed_take {index : Nat} (waits : Multiset (ThreadId × LifoWait))
    (found : memory.semaphores[index]? = some (some self)) :
    { memory with semaphores := memory.semaphores.set index none }.exposed waits + 1 =
      memory.exposed waits := by
  obtain ⟨rest, was, becomes⟩ := exists_coe_set found none
  rw [exposed, exposed, was, becomes]
  simp only [tally_cons, Option.isSome_some, Option.isSome_none, Bool.toNat_true,
    Bool.toNat_false]
  omega

theorem exposed_signalStep (memory : LifoMemory) (waits : Multiset (ThreadId × LifoWait))
    (call : LifoSignal) : (memory.signalStep call).1.exposed waits ≤ memory.exposed waits := by
  cases call with
  | exchange index semaphore =>
      simp only [signalStep]
      split
      · rename_i found
        rw [← exposed_take waits found]
        exact Nat.le_succ _
      · exact Nat.le_refl _
  | _ => exact Nat.le_refl _

theorem Consistent.exposed_le_waiters (consistent : memory.Consistent waits signals) :
    memory.exposed waits ≤ memory.waiters := by
  have fewer : tally (fun call : ThreadId × LifoWait => call.2.enters) waits ≤
      tally (fun call => call.2.announced) waits := by
    apply tally_mono
    intro call enters
    cases point : call.2 <;> rw [point] at enters <;> first | rfl | cases enters
  rw [exposed, consistent.counted]
  omega

theorem Consistent.provides {call : LifoSignal} {remaining : Nat}
    (consistent : memory.Consistent waits (call ::ₘ signals))
    (finds : ¬ (call.readsCount = true ∧ memory.count = 0))
    (bound : memory.exposed waits ≤ remaining + call.pending) :
    (memory.signalStep call).1.exposed waits ≤
      remaining + (memory.signalStep call).2.elim 0 LifoSignal.pending := by
  have few := consistent.exposed_le_waiters
  have waiter : ∀ index, (memory.nextWaiter index).pending = 1 := by
    intro index
    rw [nextWaiter]
    split <;> rfl
  cases call with
  | add => exact bound
  | loadWaiters =>
      simp only [signalStep]
      split
      · exact bound
      · simp only [Option.elim_none]
        omega
  | loadCount =>
      have positive : memory.count > 0 := by
        apply Nat.pos_of_ne_zero
        intro empty
        exact finds ⟨rfl, empty⟩
      simp only [signalStep, if_pos positive]
      exact bound
  | recheckWaiters index =>
      simp only [signalStep]
      split
      · simp only [Option.elim_none]
        omega
      · exact bound
  | recheckCount index =>
      have positive : ¬ memory.count = 0 := fun empty => finds ⟨rfl, empty⟩
      simp only [signalStep, if_neg positive]
      exact bound
  | load index =>
      simp only [signalStep, Option.elim_some]
      split
      · exact bound
      · rw [waiter]
        exact bound
  | exchange index semaphore =>
      simp only [signalStep]
      split
      · rename_i found
        rw [← exposed_take waits found] at bound
        exact Nat.le_of_succ_le_succ bound
      · rw [Option.elim_some, waiter]
        exact bound
  | decrement semaphore => exact bound
  | post semaphore => exact bound

end LifoMemory

/-- `signal` gives up when it finds that `count` is zero. -/
def lifoFlushing : Flushing lifoSemaphore where
  Consistent := LifoMemory.Consistent
  exposed := LifoMemory.exposed
  pending := LifoSignal.pending
  givesUp memory call := call.readsCount = true ∧ memory.count = 0
  consistent := lifo_consistent
  pending_signal := rfl
  decomissioned_new := rfl
  decomissioned_wait _ _ _ _ _ stepped := congrArg not (LifoMemory.comissioned_waitStep stepped)
  decomissioned_signal memory call := congrArg not (memory.comissioned_signalStep call)
  decomissioned_close _ := rfl
  exposed_wait memory self waits := by
    rw [LifoMemory.exposed, tally_cons]
    rfl
  exposed_close _ _ := rfl
  exposed_le_waiters _ _ _ consistent := consistent.exposed_le_waiters
  waited memory self call waits after outcome closed stepped :=
    LifoMemory.exposed_waitStep (by simpa using closed) stepped
  signalled := LifoMemory.exposed_signalStep
  provides _ _ _ _ _ consistent finds bound := consistent.provides finds bound

section Returns

variable {memory : LifoMemory} {self : ThreadId} {call : LifoWait}

theorem lifo_check_returns (closed : memory.comissioned = false) :
    lifoSemaphore.Returns self memory LifoWait.check := by
  have stepped : memory.waitStep self .check = some (memory, some .withdraw) := by
    rw [LifoMemory.waitStep, closed]
    rfl
  exact .step stepped (.last rfl)

theorem lifo_tryTake_returns (closed : memory.comissioned = false) :
    lifoSemaphore.Returns self memory (LifoMemory.tryTake memory.count) := by
  rw [LifoMemory.tryTake]
  split
  · have stepped : memory.waitStep self (.exchange memory.count) =
        some ({ memory with count := memory.count - 1 }, none) := by
      rw [LifoMemory.waitStep, if_pos rfl]
    exact .last stepped
  · exact .step rfl (lifo_check_returns closed)

theorem lifo_exchange_returns (old : Nat) (closed : memory.comissioned = false) :
    lifoSemaphore.Returns self memory (LifoWait.exchange old) := by
  by_cases current : memory.count = old
  · have stepped : memory.waitStep self (.exchange old) =
        some ({ memory with count := old - 1 }, none) := by
      rw [LifoMemory.waitStep, if_pos current]
    exact .last stepped
  · have stepped : memory.waitStep self (.exchange old) =
        some (memory, some (LifoMemory.tryTake memory.count)) := by
      rw [LifoMemory.waitStep, if_neg current]
    exact .step stepped (lifo_tryTake_returns closed)

/-- Once the semaphore is decommissioned, a thread that is not going to enter a slot returns from
`wait`, and one that sleeps does so if it has been posted. -/
theorem lifo_returns (closed : memory.comissioned = false) (outside : call.enters = false)
    (posted : call = .sleep → self ∈ memory.posts) :
    lifoSemaphore.Returns self memory call := by
  cases call with
  | load => exact .step rfl (lifo_tryTake_returns closed)
  | exchange old => exact lifo_exchange_returns old closed
  | announce => exact .step rfl (lifo_check_returns closed)
  | check => exact lifo_check_returns closed
  | withdraw => exact .last rfl
  | scan index | recheck index | register index => cases outside
  | retreat old => exact .step rfl (lifo_exchange_returns old closed)
  | sleep =>
      have stepped : memory.waitStep self .sleep =
          some ({ memory with posts := memory.posts.erase self }, some .load) := by
        rw [LifoMemory.waitStep, if_pos (posted rfl)]
      exact .step stepped (.step rfl (lifo_tryTake_returns closed))

end Returns

theorem kernel_releasesAll {workers : Workers kernelSemaphore}
    (reached : (Workers.machine kernelSemaphore).Reachable workers) : workers.ReleasesAll := by
  intro released quiet thread self call running
  have kept : (Workers.machine kernelSemaphore).Reaches kernelFlushing.Suffices workers := by
    apply reached.mono
    intro workers move _
    cases move with
    | advance thread choice =>
        intro call _ gives
        exact gives.elim
    | user => exact True.intro
    | worker => exact True.intro
  obtain ⟨closed, covered⟩ := Flushing.exposed_of_released kept released
  apply Workers.canReturn_of_returns _ running
  apply kernel_returns (by simpa using closed)
  rintro rfl
  have sleeping : 0 < tally (fun call : ThreadId × KernelWait => call.2.sleeps)
    (waits workers.frames) := tally_pos (mem_waits.mpr (Workers.mem_frames_of_top? running)) rfl
  have enough : tally (fun call : ThreadId × KernelWait => call.2.sleeps) (waits workers.frames) ≤
    workers.queue.semaphore.value := Nat.le_of_sub_eq_zero covered
  exact Nat.lt_of_lt_of_le sleeping enough

theorem lifo_releasesAll {workers : Workers lifoSemaphore}
    (reached : (Workers.machine lifoSemaphore).Reaches lifoFlushing.Suffices workers) :
    workers.ReleasesAll := by
  intro released quiet thread self call running
  obtain ⟨closed, covered⟩ := Flushing.exposed_of_released reached released
  have consistent := lifo_consistent reached.reachable
  rw [signals_eq_zero quiet] at consistent
  have member := mem_waits.mpr (Workers.mem_frames_of_top? running)
  obtain ⟨outside, empty⟩ := Nat.add_eq_zero_iff.mp covered
  apply Workers.canReturn_of_returns _ running
  apply lifo_returns (by simpa using closed)
  · exact tally_eq_zero_iff.mp outside _ member
  · rintro rfl
    -- The thread is in no slot and nobody is about to wake it, so it has been posted.
    have sleeping : 0 < tally (fun call : ThreadId × LifoWait => call.2.sleeps && call.1 = self)
        (waits workers.frames) := by
      apply tally_pos member
      simp [LifoWait.sleeps]
    have slotless : tally (fun slot : Option ThreadId => slot = some self)
        (workers.queue.semaphore.semaphores : Multiset (Option ThreadId)) ≤ 0 := by
      rw [← empty]
      apply tally_mono
      intro slot occupied
      rw [of_decide_eq_true occupied]
      rfl
    have slept := consistent.slept self
    rw [tally_zero] at slept
    have posted : 0 < tally (fun post => post = self) workers.queue.semaphore.posts := by omega
    obtain ⟨post, member, same⟩ := exists_of_tally_pos posted
    rwa [of_decide_eq_true same] at member

/-- Decommissioning the kernel semaphore releases every waiter, and so does decommissioning the
last-in-first-out semaphore if no `signal` of `decomission` finds `count` zero while there are
more threads to release than signals left. -/
theorem decomission_releasesAll (kernel : Workers kernelSemaphore) (lifo : Workers lifoSemaphore) :
    ((Workers.machine kernelSemaphore).Reachable kernel → kernel.ReleasesAll) ∧
    ((Workers.machine lifoSemaphore).Reaches lifoFlushing.Suffices lifo → lifo.ReleasesAll) := by
  constructor
  · intro reached
    exact kernel_releasesAll reached
  · intro reached
    exact lifo_releasesAll reached

section Schedules

/-- A thread goes to sleep, and another one calls `decomission` up to the first step of its only
`signal`. -/
def decomissionSchedule : List Move :=
  List.flatten [[.worker, .worker, .user],
    .advance 0 .wait :: List.replicate 6 (.advance 0 .proceed),
    .advance 2 .decomission :: List.replicate 4 (.advance 2 .proceed)]

/-- A third thread calls `wait` before `signal` looks for a sleeper, and takes the unit. -/
def lateSchedule : List Move :=
  List.flatten [decomissionSchedule, .advance 1 .wait :: List.replicate 2 (.advance 1 .proceed),
    List.replicate 3 (.advance 2 .proceed)]

/-- `signal` finds the sleeper, and `decomission` returns. -/
def promptSchedule : List Move :=
  decomissionSchedule ++ List.replicate 9 (.advance 2 .proceed)

/-- The first thread sleeps, no thread is inside `signal` and `decomission` has returned. -/
def sleepsAfter (workers : Workers lifoSemaphore) : Bool :=
  workers.queue.released && workers.threads.frames.all (·.signalling.isNone) &&
    match workers.threads.top? 0 with
    | some (.wait 0 .sleep) => true
    | _ => false

variable {workers : Workers lifoSemaphore}

theorem sleepsAfter_spec (found : sleepsAfter workers = true) :
    workers.queue.released = true ∧ (∀ frame ∈ workers.frames, frame.signalling = none) ∧
    workers.threads.top? 0 = some (.wait 0 LifoWait.sleep) := by
  simp only [sleepsAfter, Bool.and_eq_true, List.all_eq_true, Option.isNone_iff_eq_none] at found
  obtain ⟨⟨released, quiet⟩, asleep⟩ := found
  refine ⟨released, quiet, ?_⟩
  split at asleep
  · rename_i top
    exact top
  · cases asleep

/-- A thread that sleeps and has not been posted does not return. -/
theorem not_canReturn (asleep : workers.threads.top? 0 = some (.wait 0 LifoWait.sleep))
    (unposted : 0 ∉ workers.queue.semaphore.posts) : ¬ workers.CanReturn 0 := by
  rintro ⟨steps, next, self, executed, returned⟩
  cases steps with
  | zero =>
      cases executed
      rw [asleep] at returned
      cases returned
  | succ steps =>
      have stuck : (Workers.machine lifoSemaphore).step workers (.advance 0 .proceed) = none := by
        simp [Workers.machine, Workers.step, asleep, RunQueue.step, LifoMemory.waitStep, unposted]
      simp [Automaton.run, List.replicate_succ, stuck] at executed

theorem decomission_leavesSleeper :
    ¬ ∀ workers, (Workers.machine lifoSemaphore).Reachable workers → workers.ReleasesAll := by
  intro releases
  obtain ⟨workers, ran, found⟩ : ∃ workers ∈ (Workers.machine lifoSemaphore).run (.new _)
      lateSchedule, sleepsAfter workers = true ∧ 0 ∉ workers.queue.semaphore.posts := by
    decide +kernel
  obtain ⟨released, quiet, asleep⟩ := sleepsAfter_spec found.1
  exact not_canReturn asleep found.2
    (releases workers (.of_run rfl ran) released quiet 0 0 _ asleep)

instance (memory : LifoMemory) (call : LifoSignal) :
    Decidable (lifoFlushing.givesUp memory call) :=
  inferInstanceAs (Decidable (call.readsCount = true ∧ memory.count = 0))

theorem decomission_releasesSleeper : ∃ workers,
    (Workers.machine lifoSemaphore).Reaches lifoFlushing.Suffices workers ∧
    sleepsAfter workers = true ∧ workers.CanReturn 0 := by
  obtain ⟨workers, ran, found⟩ : ∃ workers ∈ (Workers.machine lifoSemaphore).run (.new _)
      promptSchedule, sleepsAfter workers = true := by
    decide +kernel
  have permitted : (Workers.machine lifoSemaphore).Along lifoFlushing.Suffices (.new _)
      promptSchedule := by
    decide +kernel
  have reached := Automaton.Reaches.of_along (.start rfl) permitted ran
  obtain ⟨released, quiet, asleep⟩ := sleepsAfter_spec found
  exact ⟨workers, reached, found,
    (decomission_releasesAll (.new _) workers).2 reached released quiet 0 0 _ asleep⟩

end Schedules

end Libprocess.Semaphores
