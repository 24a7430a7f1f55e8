import Libprocess.Semaphore.RunQueue

/-!
# Decommissioning a semaphore

`decomission` gives as many signals as there were waiters at one instant.  Both implementations
are analysed in the same way: some threads are exposed, as they will block unless they are given
a signal, and a call of `signal` has its signal pending until it exposes one thread less.
-/

namespace Libprocess.Semaphores

open Concurrency

variable {semaphore : Semaphore}

/-- A call of `wait` that returns if its thread runs alone. -/
inductive Semaphore.Returns (semaphore : Semaphore) (self : ThreadId) :
    semaphore.Memory → semaphore.Wait → Prop where
  | last {memory after : semaphore.Memory} {call : semaphore.Wait} :
      semaphore.waitStep memory self call = some (after, none) → Returns semaphore self memory call
  | step {memory after : semaphore.Memory} {call next : semaphore.Wait} :
      semaphore.waitStep memory self call = some (after, some next) →
      Returns semaphore self after next → Returns semaphore self memory call

namespace Workers

variable {workers next : Workers semaphore}

/-- Some number of steps of the thread, and of no other one, takes it out of `wait`. -/
def CanReturn (workers : Workers semaphore) (thread : ThreadId) : Prop :=
  ∃ steps next self, (machine semaphore).run workers
      (List.replicate steps (.advance thread .proceed)) = some next ∧
    next.threads.top? thread = some (.dequeue self)

/-- Once `decomission` has returned and no thread is inside `signal`, every thread that is in
`wait` can return. -/
def ReleasesAll (workers : Workers semaphore) : Prop :=
  workers.queue.released = true → (∀ frame ∈ workers.frames, frame.signalling = none) →
    ∀ thread self call, workers.threads.top? thread = some (.wait self call) →
      workers.CanReturn thread

theorem step_wait {thread self : ThreadId} {call : semaphore.Wait} {after : semaphore.Memory}
    {outcome : Option semaphore.Wait}
    (running : workers.threads.top? thread = some (.wait self call))
    (stepped : semaphore.waitStep workers.queue.semaphore self call = some (after, outcome)) :
    ∃ next, (machine semaphore).step workers (.advance thread .proceed) = some next ∧
      next.queue.semaphore = after ∧ next.threads.top? thread =
        some (outcome.elim (.dequeue self) (.wait self)) := by
  cases outcome with
  | none =>
      refine ⟨⟨{ workers.queue with semaphore := after, returns := workers.queue.returns + 1 },
        workers.threads.resume thread [.dequeue self]⟩, ?_, rfl, Threads.top?_resume running _ _⟩
      simp [machine, step, running, RunQueue.step, stepped]
  | some further =>
      refine ⟨⟨{ workers.queue with semaphore := after },
        workers.threads.resume thread [.wait self further]⟩, ?_, rfl,
        Threads.top?_resume running _ _⟩
      simp [machine, step, running, RunQueue.step, stepped]

theorem canReturn_of_returns {thread self : ThreadId} {call : semaphore.Wait}
    (returns : semaphore.Returns self workers.queue.semaphore call)
    (running : workers.threads.top? thread = some (.wait self call)) :
    workers.CanReturn thread := by
  generalize known : workers.queue.semaphore = memory at returns
  induction returns generalizing workers with
  | last stepped =>
      subst known
      obtain ⟨next, moved, -, returned⟩ := step_wait running stepped
      refine ⟨1, next, self, ?_, returned⟩
      simp [Automaton.run, moved]
  | step stepped _ ih =>
      subst known
      obtain ⟨next, moved, memory, waits⟩ := step_wait running stepped
      obtain ⟨steps, last, self, executed, returned⟩ := ih waits memory
      refine ⟨steps + 1, last, self, ?_, returned⟩
      simp [Automaton.run, List.replicate_succ, moved, executed]

end Workers

/-- How a semaphore is flushed. -/
structure Flushing (semaphore : Semaphore) where
  /-- What holds of the memory and the running calls in every reachable state. -/
  Consistent : semaphore.Memory → Multiset (ThreadId × semaphore.Wait) →
    Multiset semaphore.Signal → Prop
  /-- The number of threads that need one more signal. -/
  exposed : semaphore.Memory → Multiset (ThreadId × semaphore.Wait) → Nat
  /-- The signals that a call of `signal` is still going to give. -/
  pending : semaphore.Signal → Nat
  /-- The next step of a call of `signal` ends it although its signal is pending. -/
  givesUp : semaphore.Memory → semaphore.Signal → Prop
  consistent : ∀ {workers}, (Workers.machine semaphore).Reachable workers →
    Consistent workers.queue.semaphore (waits workers.frames) (signals workers.frames)
  pending_signal : pending semaphore.signal = 1
  decomissioned_new : semaphore.decomissioned semaphore.new = false
  decomissioned_wait : ∀ memory self call after outcome,
    semaphore.waitStep memory self call = some (after, outcome) →
    semaphore.decomissioned after = semaphore.decomissioned memory
  decomissioned_signal : ∀ memory call,
    semaphore.decomissioned (semaphore.signalStep memory call).1 =
      semaphore.decomissioned memory
  decomissioned_close : ∀ memory, semaphore.decomissioned (semaphore.close memory) = true
  exposed_wait : ∀ memory self waits,
    exposed memory ((self, semaphore.wait) ::ₘ waits) = exposed memory waits
  exposed_close : ∀ memory waits, exposed (semaphore.close memory) waits = exposed memory waits
  exposed_le_waiters : ∀ memory waits signals, Consistent memory waits signals →
    exposed memory waits ≤ semaphore.waiters memory
  /-- Nobody is exposed by waiting once the semaphore is decommissioned. -/
  waited : ∀ memory self call waits after outcome, semaphore.decomissioned memory = true →
    semaphore.waitStep memory self call = some (after, outcome) →
    exposed after (goOn (outcome.map (self, ·)) waits) ≤ exposed memory ((self, call) ::ₘ waits)
  signalled : ∀ memory waits call,
    exposed (semaphore.signalStep memory call).1 waits ≤ exposed memory waits
  /-- A call that does not give up keeps its signal pending or exposes one thread less. -/
  provides : ∀ memory waits call signals remaining, Consistent memory waits (call ::ₘ signals) →
    ¬ givesUp memory call → exposed memory waits ≤ remaining + pending call →
    exposed (semaphore.signalStep memory call).1 waits ≤
      remaining + (semaphore.signalStep memory call).2.elim 0 pending

namespace Flushing

variable (flushing : Flushing semaphore)

/-- The `signal` that `decomission` is in, and the number of calls after it. -/
def releasing : Frame semaphore → Option (Nat × semaphore.Signal)
  | .releasing remaining call => some (remaining, call)
  | _ => none

/-- When a `signal` of `decomission` gives up, the calls that are left suffice for the threads
that are exposed. -/
def Suffices (workers : Workers semaphore) : Move → Prop
  | .advance thread _ => ∀ call ∈ (workers.threads.top? thread).bind releasing,
      flushing.givesUp workers.queue.semaphore call.2 →
        flushing.exposed workers.queue.semaphore (waits workers.frames) ≤ call.1
  | .user | .worker => True

instance suffices_decidable
    [∀ memory call, Decidable (flushing.givesUp memory call)] (workers : Workers semaphore) :
    (move : Move) → Decidable (flushing.Suffices workers move)
  | .advance thread _ => inferInstanceAs (Decidable
      (∀ call ∈ (workers.threads.top? thread).bind releasing,
        flushing.givesUp workers.queue.semaphore call.2 →
          flushing.exposed workers.queue.semaphore (waits workers.frames) ≤ call.1))
  | .user | .worker => .isTrue True.intro

/-- The signals that a call of `decomission` is still going to give. -/
def budget : Frame semaphore → Option Nat
  | .release remaining => some remaining
  | .releasing remaining call => some (remaining + flushing.pending call)
  | _ => none

/-- The call of `decomission` has closed the semaphore. -/
def afterClose : Frame semaphore → Bool
  | .load => true
  | .release _ => true
  | .releasing _ _ => true
  | _ => false

theorem afterClose_of_budget {frame : Frame semaphore} {bound : Nat}
    (known : flushing.budget frame = some bound) : afterClose frame = true := by
  cases frame with
  | release remaining => rfl
  | releasing remaining call => rfl
  | _ => cases known

/-- Whoever is exposed is going to be given a signal. -/
structure Covered (queue : RunQueue semaphore) (frames : Multiset (Frame semaphore)) : Prop where
  closed : ∀ frame ∈ frames, afterClose frame = true →
    semaphore.decomissioned queue.semaphore = true
  released : queue.released = true → semaphore.decomissioned queue.semaphore = true
  bounded : ∀ frame ∈ frames, ∀ bound, flushing.budget frame = some bound →
    flushing.exposed queue.semaphore (waits frames) ≤ bound
  done : queue.released = true → flushing.exposed queue.semaphore (waits frames) = 0

variable {flushing} {queue next : RunQueue semaphore} {frame : Frame semaphore}
  {rest : Multiset (Frame semaphore)}

section

variable (covered : flushing.Covered queue (frame ::ₘ rest))

include covered

/-- A step keeps the cover if it exposes nobody and the frames it enters are covered. -/
theorem Covered.exchange {continuation : List (Frame semaphore)}
    (stays : semaphore.decomissioned queue.semaphore = true →
      semaphore.decomissioned next.semaphore = true)
    (exposes : semaphore.decomissioned queue.semaphore = true →
      flushing.exposed next.semaphore (waits (↑continuation + rest)) ≤
        flushing.exposed queue.semaphore (waits (frame ::ₘ rest)))
    (closes : ∀ entered ∈ continuation, afterClose entered = true →
      semaphore.decomissioned next.semaphore = true)
    (bounds : ∀ entered ∈ continuation, ∀ bound, flushing.budget entered = some bound →
      flushing.exposed next.semaphore (waits (↑continuation + rest)) ≤ bound)
    (released : next.released = true → queue.released = true ∨
      semaphore.decomissioned queue.semaphore = true ∧
        flushing.exposed queue.semaphore (waits (frame ::ₘ rest)) = 0) :
    flushing.Covered next (↑continuation + rest) := by
  constructor
  · intro other member shut
    cases Multiset.mem_add.mp member with
    | inl entered => exact closes other entered shut
    | inr kept => exact stays (covered.closed other (Multiset.mem_cons_of_mem kept) shut)
  · intro done
    apply stays
    cases released done with
    | inl earlier => exact covered.released earlier
    | inr now => exact now.1
  · intro other member bound known
    cases Multiset.mem_add.mp member with
    | inl entered => exact bounds other entered bound known
    | inr kept =>
        have old : other ∈ frame ::ₘ rest := Multiset.mem_cons_of_mem kept
        apply Nat.le_trans (exposes _) (covered.bounded other old bound known)
        exact covered.closed other old (flushing.afterClose_of_budget known)
  · intro done
    have before : semaphore.decomissioned queue.semaphore = true ∧
        flushing.exposed queue.semaphore (waits (frame ::ₘ rest)) = 0 := by
      cases released done with
      | inl earlier => exact ⟨covered.released earlier, covered.done earlier⟩
      | inr now => exact now
    have fewer := exposes before.1
    omega

/-- A step outside the semaphore. -/
theorem Covered.outside
    {continuation : List (Frame semaphore)} (memory : next.semaphore = queue.semaphore)
    (released : next.released = queue.released)
    (calls : waits ((continuation : Multiset (Frame semaphore)) + rest) =
      waits (frame ::ₘ rest))
    (before : ∀ entered ∈ continuation, afterClose entered = false) :
    flushing.Covered next (↑continuation + rest) := by
  apply covered.exchange
  · intro shut
    rwa [memory]
  · intro _
    rw [memory, calls]
  · intro entered member shut
    rw [before entered member] at shut
    cases shut
  · intro entered member bound known
    have shut := flushing.afterClose_of_budget known
    rw [before entered member] at shut
    cases shut
  · intro done
    exact .inl (released ▸ done)

/-- A call of a function of the run queue by code outside it. -/
theorem Covered.call {continuation : List (Frame semaphore)} {choice : Choice}
    (outer : frame = .user ∨ ∃ self, frame = .worker self)
    (stepped : queue.call frame choice = some (next, continuation)) :
    flushing.Covered next (↑continuation + rest) := by
  have outside : next.semaphore = queue.semaphore ∧ next.released = queue.released ∧
      (continuation = [] ∨ ∃ entered, continuation = [entered, frame] ∧
        afterClose entered = false ∧ entered.waiting = none) := by
    cases choice with
    | decomission =>
        simp only [RunQueue.call] at stepped
        split at stepped
        · cases stepped
        · cases stepped
          exact ⟨rfl, rfl, .inr ⟨_, rfl, rfl, rfl⟩⟩
    | wait => cases stepped
    | proceed =>
        cases stepped
        exact ⟨rfl, rfl, .inl rfl⟩
    | enqueue process | extract process =>
        cases stepped
        exact ⟨rfl, rfl, .inr ⟨_, rfl, rfl, rfl⟩⟩
  obtain ⟨memory, released, rfl | ⟨entered, rfl, before, waitsNot⟩⟩ := outside
  · apply covered.outside memory released
    · obtain rfl | ⟨self, rfl⟩ := outer <;> simp
    · simp
  · apply covered.outside memory released
    · rw [cons_add, waits_cons, waitsNot, goOn_none, cons_add, nil_add]
    · intro other member
      obtain rfl | ⟨self, rfl⟩ := outer <;> simp only [List.mem_cons, List.not_mem_nil, or_false]
        at member <;> obtain rfl | rfl := member <;> first | exact before | rfl

/-- A step of a call of `signal`, which goes on as `resume` says. -/
theorem Covered.signal {call : semaphore.Signal} {continuation : List (Frame semaphore)}
    (same : waits ((continuation : Multiset (Frame semaphore)) + rest) =
      waits (frame ::ₘ rest))
    (closes : ∀ entered ∈ continuation, afterClose entered = true → frame ∈ frame ::ₘ rest →
      afterClose frame = true)
    (bounds : ∀ entered ∈ continuation, ∀ bound, flushing.budget entered = some bound →
      flushing.exposed (semaphore.signalStep queue.semaphore call).1 (waits (frame ::ₘ rest)) ≤
        bound) :
    flushing.Covered { queue with semaphore := (semaphore.signalStep queue.semaphore call).1 }
      (↑continuation + rest) := by
  have known := flushing.decomissioned_signal queue.semaphore call
  apply covered.exchange
  · intro shut
    exact known.trans shut
  · intro _
    rw [same]
    exact flushing.signalled queue.semaphore _ call
  · intro entered member shut
    have here := Multiset.mem_cons_self frame rest
    exact known.trans (covered.closed frame here (closes entered member shut here))
  · intro entered member bound known
    rw [same]
    exact bounds entered member bound known
  · intro done
    exact .inl done

theorem Covered.step (consistent : flushing.Consistent queue.semaphore (waits (frame ::ₘ rest))
      (signals (frame ::ₘ rest)))
    (enough : ∀ remaining call, frame = .releasing remaining call →
      flushing.givesUp queue.semaphore call →
      flushing.exposed queue.semaphore (waits (frame ::ₘ rest)) ≤ remaining)
    {choice : Choice} {continuation : List (Frame semaphore)}
    (stepped : queue.step frame choice = some (next, continuation)) :
    flushing.Covered next (↑continuation + rest) := by
  cases frame with
  | user => exact covered.call (.inl rfl) stepped
  | worker self =>
      simp only [RunQueue.step] at stepped
      split at stepped
      · cases stepped
        refine covered.exchange id ?_ ?_ ?_ Or.inl
        · intro _
          simp [flushing.exposed_wait]
        · simp [afterClose]
        · simp [budget]
      · exact covered.call (.inr ⟨self, rfl⟩) stepped
  | push process | extract process | dequeue self | epoch =>
      cases stepped
      apply covered.outside
      · rfl
      · rfl
      · simp
      · simp [afterClose]
  | signal call =>
      cases stepped
      apply covered.signal
      · cases (semaphore.signalStep queue.semaphore call).2 <;> simp
      · cases (semaphore.signalStep queue.semaphore call).2 <;> simp [afterClose]
      · cases (semaphore.signalStep queue.semaphore call).2 <;> simp [budget]
  | wait self call =>
      have waited := fun after outcome shut =>
        flushing.waited queue.semaphore self call (waits rest) after outcome shut
      simp only [RunQueue.step] at stepped
      split at stepped
      · cases stepped
      · rename_i after further waitStepped
        cases stepped
        have known := flushing.decomissioned_wait _ _ _ _ _ waitStepped
        refine covered.exchange known.trans ?_ ?_ ?_ Or.inl
        · intro shut
          simpa using waited after (some further) shut waitStepped
        · simp [afterClose]
        · simp [budget]
      · rename_i after waitStepped
        cases stepped
        have known := flushing.decomissioned_wait _ _ _ _ _ waitStepped
        refine covered.exchange known.trans ?_ ?_ ?_ Or.inl
        · intro shut
          simpa using waited after none shut waitStepped
        · simp [afterClose]
        · simp [budget]
  | close =>
      cases stepped
      have shut := flushing.decomissioned_close queue.semaphore
      refine covered.exchange (fun _ => shut) ?_ (fun _ _ _ => shut) ?_ Or.inl
      · intro _
        simp [flushing.exposed_close]
      · simp [budget]
  | load =>
      cases stepped
      have shut := covered.closed .load (Multiset.mem_cons_self _ _) rfl
      have few := flushing.exposed_le_waiters _ _ _ consistent
      refine covered.exchange id ?_ (fun _ _ _ => shut) ?_ Or.inl
      · intro _
        simp
      · simpa [budget] using few
  | release remaining =>
      have here := Multiset.mem_cons_self (Frame.release remaining) rest
      have shut := covered.closed _ here rfl
      have bound := covered.bounded _ here remaining rfl
      cases remaining with
      | zero =>
          cases stepped
          refine covered.exchange id ?_ (fun _ _ _ => shut) ?_ ?_
          · intro _
            simp
          · simp
          · intro _
            exact .inr ⟨shut, Nat.le_zero.mp bound⟩
      | succ remaining =>
          cases stepped
          refine covered.exchange id ?_ (fun _ _ _ => shut) ?_ Or.inl
          · intro _
            simp
          · simpa [budget, flushing.pending_signal] using bound
  | releasing remaining call =>
      have here := Multiset.mem_cons_self (Frame.releasing remaining call) rest
      have bound := covered.bounded _ here _ rfl
      have provided : flushing.exposed (semaphore.signalStep queue.semaphore call).1
          (waits (.releasing remaining call ::ₘ rest)) ≤
            remaining + (semaphore.signalStep queue.semaphore call).2.elim 0 flushing.pending := by
        by_cases gives : flushing.givesUp queue.semaphore call
        · have left := enough remaining call rfl gives
          have fewer := flushing.signalled queue.semaphore
            (waits (.releasing remaining call ::ₘ rest)) call
          omega
        · rw [signals_cons] at consistent
          exact flushing.provides _ _ call (signals rest) remaining consistent gives bound
      cases stepped
      apply covered.signal
      · cases (semaphore.signalStep queue.semaphore call).2 <;> simp
      · intros
        rfl
      · cases outcome : (semaphore.signalStep queue.semaphore call).2 <;>
          simpa [budget, outcome] using provided

end

/-- Once `decomission` has returned, nobody needs a signal any more. -/
theorem exposed_of_released {workers : Workers semaphore}
    (reached : (Workers.machine semaphore).Reaches flushing.Suffices workers)
    (released : workers.queue.released = true) :
    semaphore.decomissioned workers.queue.semaphore = true ∧
      flushing.exposed workers.queue.semaphore (waits workers.frames) = 0 := by
  have covered : flushing.Covered workers.queue workers.frames := by
    apply Workers.invariant_of_reaches
      (fun queue frames frame =>
        flushing.Consistent queue.semaphore (waits frames) (signals frames) ∧
        ∀ remaining call, frame = .releasing remaining call →
          flushing.givesUp queue.semaphore call →
          flushing.exposed queue.semaphore (waits frames) ≤ remaining) _
      flushing.Covered _ _ _ _ reached
    · intro workers thread choice frame reached permits running
      constructor
      · exact flushing.consistent reached
      · intro remaining call same gives
        subst same
        rw [Suffices, running] at permits
        exact permits (remaining, call) rfl gives
    · constructor <;> simp [RunQueue.new]
    · intro queue frames covered
      obtain ⟨closed, released, budgets, done⟩ := covered
      constructor <;> simpa [afterClose, budget]
    · intro queue frames self covered
      obtain ⟨closed, released, budgets, done⟩ := covered
      constructor <;> simpa [afterClose, budget]
    · intro queue next frame continuation choice rest covered permitted stepped
      exact covered.step permitted.1 permitted.2 stepped
  exact ⟨covered.released released, covered.done released⟩

end Flushing

end Libprocess.Semaphores
