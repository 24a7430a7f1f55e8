import Libprocess.Semaphore.Decomission

/-!
# The decommissionable kernel semaphore

`DecomissionableKernelSemaphore` counts the threads in `wait` before they look whether the
semaphore was decommissioned.  A kernel semaphore is its value.
-/

namespace Libprocess.Semaphores

open Concurrency

/-- `DecomissionableKernelSemaphore`, with the value of the `KernelSemaphore` it extends. -/
structure KernelMemory where
  comissioned : Bool
  waiters : Nat
  value : Nat
  deriving DecidableEq, Repr

/-- `DecomissionableKernelSemaphore::wait` -/
inductive KernelWait where
  | announce
  | check
  | withdraw
  | sleep
  | leave
  deriving DecidableEq, Repr

/-- `KernelSemaphore::signal` -/
inductive KernelSignal where
  | post
  deriving DecidableEq, Repr

namespace KernelMemory

def waitStep (memory : KernelMemory) (_ : ThreadId) :
    KernelWait → Option (KernelMemory × Option KernelWait)
  | .announce => some ({ memory with waiters := memory.waiters + 1 }, some .check)
  | .check => some (memory, some (if memory.comissioned then .sleep else .withdraw))
  | .withdraw => some ({ memory with waiters := memory.waiters - 1 }, none)
  | .sleep =>
      if memory.value = 0 then none
      else some ({ memory with value := memory.value - 1 }, some .leave)
  | .leave => some ({ memory with waiters := memory.waiters - 1 }, none)

def signalStep (memory : KernelMemory) : KernelSignal → KernelMemory × Option KernelSignal
  | .post => ({ memory with value := memory.value + 1 }, none)

end KernelMemory

@[reducible] def kernelSemaphore : Semaphore where
  Memory := KernelMemory
  Wait := KernelWait
  Signal := KernelSignal
  new := ⟨true, 0, 0⟩
  wait := .announce
  signal := .post
  waitStep := KernelMemory.waitStep
  signalStep := KernelMemory.signalStep
  close memory := { memory with comissioned := false }
  waiters := KernelMemory.waiters
  decomissioned memory := !memory.comissioned

namespace KernelWait

/-- The call is counted in `waiters`. -/
def announced : KernelWait → Bool
  | .announce => false
  | .check | .withdraw | .sleep | .leave => true

/-- The call is inside the kernel semaphore. -/
def sleeps : KernelWait → Bool
  | .sleep => true
  | .announce | .check | .withdraw | .leave => false

end KernelWait

/-- The calls that `waiters` counts. -/
def KernelMemory.Counts (memory : KernelMemory) (waits : Multiset (ThreadId × KernelWait)) : Prop :=
  memory.waiters = tally (·.2.announced) waits

/-- The calls that the value of the semaphore does not let through. -/
def KernelMemory.exposed (memory : KernelMemory) (waits : Multiset (ThreadId × KernelWait)) :
    Nat :=
  tally (·.2.sleeps) waits - memory.value

namespace KernelMemory

variable {memory after : KernelMemory} {self : ThreadId} {call : KernelWait}
  {outcome : Option KernelWait} {waits : Multiset (ThreadId × KernelWait)}

theorem Counts.wait (counts : memory.Counts ((self, call) ::ₘ waits))
    (stepped : memory.waitStep self call = some (after, outcome)) :
    after.Counts (goOn (outcome.map (self, ·)) waits) := by
  rw [Counts, tally_cons] at counts
  rw [Counts]
  cases call with
  | announce | withdraw | leave =>
      cases stepped
      simp only [KernelWait.announced, Bool.toNat_false, Bool.toNat_true, Option.map_some,
        Option.map_none, goOn_some, goOn_none, tally_cons] at counts ⊢
      omega
  | check =>
      cases stepped
      cases memory.comissioned <;> simpa [KernelWait.announced] using counts
  | sleep =>
      simp only [waitStep] at stepped
      split at stepped
      · cases stepped
      · cases stepped
        simpa [KernelWait.announced] using counts

theorem comissioned_waitStep (stepped : memory.waitStep self call = some (after, outcome)) :
    after.comissioned = memory.comissioned := by
  cases call with
  | announce | withdraw | leave | check =>
      cases stepped
      rfl
  | sleep =>
      simp only [waitStep] at stepped
      split at stepped
      · cases stepped
      · cases stepped
        rfl

theorem exposed_waitStep (closed : memory.comissioned = false)
    (stepped : memory.waitStep self call = some (after, outcome)) :
    after.exposed (goOn (outcome.map (self, ·)) waits) ≤
      memory.exposed ((self, call) ::ₘ waits) := by
  cases call with
  | announce | withdraw | leave =>
      cases stepped
      simp [exposed, KernelWait.sleeps]
  | check =>
      cases stepped
      simp [exposed, KernelWait.sleeps, closed]
  | sleep =>
      simp only [waitStep] at stepped
      split at stepped
      · cases stepped
      · cases stepped
        simp only [exposed, KernelWait.sleeps, Option.map_some, goOn_some, tally_cons,
          Bool.toNat_false, Bool.toNat_true]
        omega

end KernelMemory

theorem kernel_counts {workers : Workers kernelSemaphore}
    (reached : (Workers.machine kernelSemaphore).Reachable workers) :
    KernelMemory.Counts workers.queue.semaphore (waits workers.frames) := by
  apply Workers.semaphore_invariant (fun memory waits _ => KernelMemory.Counts memory waits)
    _ _ _ _ _ _ reached
  · rfl
  · intro memory self waits signals counts
    rw [KernelMemory.Counts, tally_cons]
    exact counts
  · intro memory waits signals counts
    exact counts
  · intro memory self call waits signals after outcome counts stepped
    exact counts.wait stepped
  · intro memory waits call signals counts
    cases call
    exact counts
  · intro memory waits signals counts
    exact counts

/-- `KernelSemaphore::signal` gives its signal in one step. -/
def kernelFlushing : Flushing kernelSemaphore where
  Consistent memory waits _ := KernelMemory.Counts memory waits
  exposed := KernelMemory.exposed
  pending _ := 1
  givesUp _ _ := False
  consistent := kernel_counts
  pending_signal := rfl
  decomissioned_new := rfl
  decomissioned_wait memory self _ after _ stepped :=
    congrArg not (@KernelMemory.comissioned_waitStep memory after self _ _ stepped)
  decomissioned_signal _ call := by cases call; rfl
  decomissioned_close _ := rfl
  exposed_wait memory self waits := by
    simp [KernelMemory.exposed, kernelSemaphore, KernelWait.sleeps]
  exposed_close _ _ := rfl
  exposed_le_waiters memory waits signals counts := by
    have fewer : tally (fun call : ThreadId × KernelWait => call.2.sleeps) waits ≤
        tally (fun call => call.2.announced) waits := by
      apply tally_mono
      rintro ⟨self, call⟩ sleeps
      cases call with
      | announce => cases sleeps
      | _ => rfl
    exact Nat.le_trans (Nat.sub_le _ _) (Nat.le_trans fewer (Nat.le_of_eq counts.symm))
  waited memory self call waits after outcome closed stepped :=
    KernelMemory.exposed_waitStep (by simpa [kernelSemaphore] using closed) stepped
  signalled memory waits call := by
    cases call
    exact Nat.sub_le_sub_left (Nat.le_succ _) _
  provides memory waits call signals remaining _ _ bound := by
    cases call
    simp only [KernelMemory.signalStep, KernelMemory.exposed, Option.elim_none] at bound ⊢
    omega

/-- Once the semaphore is decommissioned, a call whose sleep is covered by the value returns. -/
theorem kernel_returns {memory : KernelMemory} {self : ThreadId} {call : KernelWait}
    (closed : memory.comissioned = false)
    (covered : call = .sleep → 0 < memory.value) :
    kernelSemaphore.Returns self memory call := by
  have withdraw : ∀ memory, kernelSemaphore.Returns self memory KernelWait.withdraw :=
    fun memory => .last rfl
  have check : ∀ memory : KernelMemory, memory.comissioned = false →
      kernelSemaphore.Returns self memory KernelWait.check := by
    intro memory closed
    apply Semaphore.Returns.step _ (withdraw memory)
    simp [KernelMemory.waitStep, closed]
  cases call with
  | announce => exact .step rfl (check _ closed)
  | check => exact check memory closed
  | withdraw => exact withdraw memory
  | sleep =>
      have positive := covered rfl
      apply Semaphore.Returns.step _ (.last rfl : kernelSemaphore.Returns self
        { memory with value := memory.value - 1 } KernelWait.leave)
      simp only [KernelMemory.waitStep, if_neg (by omega :
        ¬ memory.value = 0)]
  | leave => exact .last rfl

end Libprocess.Semaphores
