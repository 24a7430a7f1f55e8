import Libprocess.Semaphore.Decomission

/-!
# The last-in-first-out semaphore

`DecomissionableLastInFirstOutFixedSizeSemaphore` keeps its count itself.  A thread that has to
wait enters the kernel semaphore of its own into a slot of a fixed array and sleeps there; whoever
signals takes the first semaphore that it finds out of the array.  Each atomic access is one step.
The value of a thread's kernel semaphore is the multiplicity of the thread in `posts`.
-/

namespace Libprocess.Semaphores

open Concurrency

/-- `DecomissionableLastInFirstOutFixedSizeSemaphore`, and the kernel semaphores of the
threads. -/
structure LifoMemory where
  comissioned : Bool
  count : Nat
  waiters : Nat
  semaphores : List (Option ThreadId)
  posts : Multiset ThreadId
  deriving DecidableEq

/-- `DecomissionableLastInFirstOutFixedSizeSemaphore::wait` -/
inductive LifoWait where
  | load
  | exchange (old : Nat)
  | announce
  | check
  | withdraw
  | scan (index : Nat)
  | recheck (index : Nat)
  | retreat (old : Nat)
  | register (index : Nat)
  | sleep
  deriving DecidableEq, Repr

/-- `DecomissionableLastInFirstOutFixedSizeSemaphore::signal` -/
inductive LifoSignal where
  | add
  /-- The condition of the `while` loop. -/
  | loadWaiters
  | loadCount
  /-- The body of the `for` loop. -/
  | recheckWaiters (index : Nat)
  | recheckCount (index : Nat)
  | load (index : Nat)
  | exchange (index : Nat) (semaphore : ThreadId)
  | decrement (semaphore : ThreadId)
  | post (semaphore : ThreadId)
  deriving DecidableEq, Repr

namespace LifoMemory

/-- `THREADS` -/
def threads : Nat := 128

def new : LifoMemory := ⟨true, 0, 0, List.replicate threads none, 0⟩

/-- The head of `while (old > 0)`. -/
def tryTake (old : Nat) : LifoWait := if old > 0 then .exchange old else .announce

/-- The next index of the `for` loop, which is started again until a slot is found. -/
def nextSlot (memory : LifoMemory) (index : Nat) : LifoWait :=
  if index + 1 < memory.semaphores.length then .scan (index + 1) else .scan 0

/-- The next index of the `for` loop, or the `while` loop around it. -/
def nextWaiter (memory : LifoMemory) (index : Nat) : LifoSignal :=
  if index + 1 < memory.semaphores.length then .recheckWaiters (index + 1) else .loadWaiters

def waitStep (memory : LifoMemory) (self : ThreadId) :
    LifoWait → Option (LifoMemory × Option LifoWait)
  | .load => some (memory, some (tryTake memory.count))
  | .exchange old =>
      if memory.count = old then some ({ memory with count := old - 1 }, none)
      else some (memory, some (tryTake memory.count))
  | .announce => some ({ memory with waiters := memory.waiters + 1 }, some .check)
  | .check => some (memory, some (if memory.comissioned then .scan 0 else .withdraw))
  | .withdraw => some ({ memory with waiters := memory.waiters - 1 }, none)
  | .scan index =>
      if memory.semaphores[index]? = some none then some (memory, some (.recheck index))
      else some (memory, some (memory.nextSlot index))
  | .recheck index =>
      if memory.count > 0 then some (memory, some (.retreat memory.count))
      else some (memory, some (.register index))
  | .retreat old =>
      some ({ memory with waiters := memory.waiters - 1 }, some (.exchange old))
  | .register index =>
      if memory.semaphores[index]? = some none then
        some ({ memory with semaphores := memory.semaphores.set index (some self) },
          some .sleep)
      else some (memory, some (memory.nextSlot index))
  | .sleep =>
      if self ∈ memory.posts then
        some ({ memory with posts := memory.posts.erase self }, some .load)
      else none

def signalStep (memory : LifoMemory) : LifoSignal → LifoMemory × Option LifoSignal
  | .add => ({ memory with count := memory.count + 1 }, some .loadWaiters)
  | .loadWaiters => (memory, if memory.waiters > 0 then some .loadCount else none)
  | .loadCount => (memory, if memory.count > 0 then some (.recheckWaiters 0) else none)
  | .recheckWaiters index =>
      (memory, if memory.waiters = 0 then none else some (.recheckCount index))
  | .recheckCount index => (memory, if memory.count = 0 then none else some (.load index))
  | .load index =>
      (memory, some (match memory.semaphores[index]? with
        | some (some semaphore) => .exchange index semaphore
        | _ => memory.nextWaiter index))
  | .exchange index semaphore =>
      if memory.semaphores[index]? = some (some semaphore) then
        ({ memory with semaphores := memory.semaphores.set index none },
          some (.decrement semaphore))
      else (memory, some (memory.nextWaiter index))
  | .decrement semaphore =>
      ({ memory with waiters := memory.waiters - 1 }, some (.post semaphore))
  | .post semaphore => ({ memory with posts := semaphore ::ₘ memory.posts }, none)

end LifoMemory

@[reducible] def lifoSemaphore : Semaphore where
  Memory := LifoMemory
  Wait := LifoWait
  Signal := LifoSignal
  new := .new
  wait := .load
  signal := .add
  waitStep := LifoMemory.waitStep
  signalStep := LifoMemory.signalStep
  close memory := { memory with comissioned := false }
  waiters := LifoMemory.waiters
  decomissioned memory := !memory.comissioned

namespace LifoWait

/-- The call is counted in `waiters`. -/
def announced : LifoWait → Bool
  | .check | .withdraw | .scan _ | .recheck _ | .retreat _ | .register _ => true
  | .load | .exchange _ | .announce | .sleep => false

/-- The call is going to look at `count` again. -/
def looks : LifoWait → Bool
  | .load | .exchange _ | .announce | .check | .withdraw | .scan _ | .recheck _ | .retreat _ =>
      true
  | .register _ | .sleep => false

def registers : LifoWait → Bool
  | .register _ => true
  | .load | .exchange _ | .announce | .check | .withdraw | .scan _ | .recheck _ | .retreat _
  | .sleep => false

def withdraws : LifoWait → Bool
  | .withdraw => true
  | .load | .exchange _ | .announce | .check | .scan _ | .recheck _ | .retreat _ | .register _
  | .sleep => false

/-- The thread sleeps on its kernel semaphore. -/
def sleeps : LifoWait → Bool
  | .sleep => true
  | .load | .exchange _ | .announce | .check | .withdraw | .scan _ | .recheck _ | .retreat _
  | .register _ => false

end LifoWait

namespace LifoSignal

/-- The call has emptied a slot and not yet counted it out of `waiters`. -/
def decrements : LifoSignal → Bool
  | .decrement _ => true
  | .add | .loadWaiters | .loadCount | .recheckWaiters _ | .recheckCount _ | .load _
  | .exchange _ _ | .post _ => false

/-- The call has added to `count` and looks for a thread to wake. -/
def searches : LifoSignal → Bool
  | .add => false
  | .loadWaiters | .loadCount | .recheckWaiters _ | .recheckCount _ | .load _ | .exchange _ _
  | .decrement _ | .post _ => true

/-- The call is going to wake this thread. -/
def wakes (self : ThreadId) : LifoSignal → Bool
  | .decrement semaphore | .post semaphore => semaphore = self
  | .add | .loadWaiters | .loadCount | .recheckWaiters _ | .recheckCount _ | .load _
  | .exchange _ _ => false

end LifoSignal

/-- What the numbers of the semaphore mean.

A unit of `count` is not left behind: while a thread sleeps or is about to, there is for each unit
a thread that looks at `count` again, one that has been posted, or a call of `signal` that
searches. -/
structure LifoMemory.Consistent (memory : LifoMemory) (waits : Multiset (ThreadId × LifoWait))
    (signals : Multiset LifoSignal) : Prop where
  counted : memory.waiters = tally (·.2.announced) waits +
    tally Option.isSome (memory.semaphores : Multiset (Option ThreadId)) +
    tally (·.decrements) signals
  slept : ∀ self, tally (fun call => call.2.sleeps && call.1 = self) waits =
    tally (· = some self) (memory.semaphores : Multiset (Option ThreadId)) +
    tally (·.wakes self) signals + tally (· = self) memory.posts
  commissioned : memory.comissioned = true → tally (·.2.withdraws) waits = 0
  supplied : memory.comissioned = true →
    0 < tally Option.isSome (memory.semaphores : Multiset (Option ThreadId)) +
      tally (·.2.registers) waits →
    memory.count ≤ tally (·.2.looks) waits + memory.posts.card + tally (·.searches) signals

namespace LifoMemory

variable {memory after : LifoMemory} {self : ThreadId} {call : LifoWait}
  {outcome : Option LifoWait} {waits : Multiset (ThreadId × LifoWait)}
  {signals : Multiset LifoSignal}

theorem comissioned_waitStep (stepped : memory.waitStep self call = some (after, outcome)) :
    after.comissioned = memory.comissioned := by
  cases call with
  | load | announce | check | withdraw | retreat old =>
      cases stepped
      rfl
  | exchange old | scan index | recheck index | register index | sleep =>
      simp only [waitStep] at stepped
      split at stepped <;> cases stepped
      all_goals rfl

theorem comissioned_signalStep (memory : LifoMemory) (call : LifoSignal) :
    (memory.signalStep call).1.comissioned = memory.comissioned := by
  cases call with
  | exchange index semaphore =>
      simp only [signalStep]
      split <;> rfl
  | _ => rfl

theorem new_consistent : new.Consistent 0 0 where
  counted := by decide
  slept self := by
    have empty : tally (fun slot : Option ThreadId => slot = some self)
        (new.semaphores : Multiset (Option ThreadId)) = 0 := by
      rw [tally, Multiset.countP_eq_zero]
      intro slot member
      have vacant := List.eq_of_mem_replicate (Multiset.mem_coe.mp member)
      simp [vacant]
    exact (congrArg (· + 0 + 0) empty).symm
  commissioned _ := rfl
  supplied _ _ := Nat.zero_le _

/-- A step of `wait` that neither enters a slot nor uses a post. -/
theorem Consistent.wait_inside (after : LifoMemory) (outcome : Option LifoWait)
    (consistent : memory.Consistent ((self, call) ::ₘ waits) signals)
    (slots : after.semaphores = memory.semaphores) (posts : after.posts = memory.posts)
    (commission : after.comissioned = memory.comissioned)
    (awake : call.sleeps = false) (remains : outcome.any LifoWait.sleeps = false)
    (announced : after.waiters + call.announced.toNat =
      memory.waiters + outcome.elim 0 fun next => next.announced.toNat)
    (stays : memory.comissioned = true → outcome.any LifoWait.withdraws = false)
    (looks : memory.comissioned = true → after.count = 0 ∨
      outcome.any LifoWait.registers = false ∧ after.count + call.looks.toNat ≤
        memory.count + outcome.elim 0 fun next => next.looks.toNat) :
    after.Consistent (goOn (outcome.map (self, ·)) waits) signals := by
  constructor
  · have counted := consistent.counted
    simp only [tally_cons] at counted
    rw [slots, tally_goOn]
    cases outcome <;> simp only [Option.map_none, Option.map_some, Option.elim_none,
      Option.elim_some] at announced ⊢ <;> omega
  · intro other
    have slept := consistent.slept other
    rw [tally_cons, awake, Bool.false_and, Bool.toNat_false] at slept
    rw [slots, posts, tally_goOn, ← slept]
    cases outcome with
    | none => rfl
    | some next =>
        rw [Option.any_some] at remains
        simp [remains]
  · rw [commission]
    intro active
    have nobody := consistent.commissioned active
    rw [tally_cons] at nobody
    rw [tally_goOn]
    cases outcome with
    | none => exact Nat.eq_zero_of_add_eq_zero_right nobody
    | some next =>
        have stays := stays active
        rw [Option.any_some] at stays
        simp only [Option.map_some, Option.elim_some, stays, Bool.toNat_false]
        exact Nat.eq_zero_of_add_eq_zero_right nobody
  · rw [commission, slots, posts, tally_goOn, tally_goOn]
    intro active someone
    cases looks active with
    | inl nothing =>
        rw [nothing]
        exact Nat.zero_le _
    | inr looks =>
        have supplied := consistent.supplied active
        simp only [tally_cons] at supplied
        cases outcome with
        | none =>
            simp only [Option.map_none, Option.elim_none] at someone looks ⊢
            have bound := supplied (by omega)
            omega
        | some next =>
            rw [Option.any_some] at looks
            simp only [Option.map_some, Option.elim_some, looks.1, Bool.toNat_false]
              at someone looks ⊢
            have bound := supplied (by omega)
            omega

/-- A thread enters its semaphore and goes to sleep. -/
theorem Consistent.register {index : Nat}
    (consistent : memory.Consistent ((self, .register index) ::ₘ waits) signals)
    (vacant : memory.semaphores[index]? = some none) :
    { memory with semaphores := memory.semaphores.set index (some self) }.Consistent
      ((self, .sleep) ::ₘ waits) signals := by
  obtain ⟨counted, slept, commissioned, supplied⟩ := consistent
  obtain ⟨rest, was, becomes⟩ := exists_coe_set vacant (some self)
  rw [was] at counted supplied
  constructor
  · rw [becomes]
    simp only [tally_cons, LifoWait.announced, Option.isSome_none, Option.isSome_some,
      Bool.toNat_false, Bool.toNat_true] at counted ⊢
    omega
  · intro other
    have slept := slept other
    rw [was] at slept
    rw [becomes]
    simp only [tally_cons, LifoWait.sleeps, Bool.false_and, Bool.true_and, reduceCtorEq,
      Option.some.injEq, decide_false, Bool.toNat_false] at slept ⊢
    omega
  · simpa only [tally_cons, LifoWait.withdraws, Bool.toNat_false] using commissioned
  · intro active _
    have bound := supplied active (by
      simp only [tally_cons, LifoWait.registers, Bool.toNat_true]
      omega)
    simpa only [tally_cons, LifoWait.looks, Bool.toNat_false] using bound

/-- A thread that was posted wakes up. -/
theorem Consistent.wake (consistent : memory.Consistent ((self, .sleep) ::ₘ waits) signals)
    (posted : self ∈ memory.posts) :
    { memory with posts := memory.posts.erase self }.Consistent
      ((self, .load) ::ₘ waits) signals := by
  obtain ⟨counted, slept, commissioned, supplied⟩ := consistent
  obtain ⟨rest, posts⟩ := Multiset.exists_cons_of_mem posted
  have erased : memory.posts.erase self = rest := by rw [posts, Multiset.erase_cons_head]
  constructor
  · simpa only [tally_cons, LifoWait.announced] using counted
  · intro other
    have slept := slept other
    rw [posts] at slept
    change _ = _ + _ + tally _ (memory.posts.erase self)
    rw [erased]
    simp only [tally_cons, LifoWait.sleeps, Bool.false_and, Bool.true_and, Bool.toNat_false]
      at slept ⊢
    omega
  · simpa only [tally_cons, LifoWait.withdraws, Bool.toNat_false] using commissioned
  · intro active someone
    have bound := supplied active (by
      simpa only [tally_cons, LifoWait.registers, Bool.toNat_false] using someone)
    change memory.count ≤ _ + (memory.posts.erase self).card + _
    rw [posts, Multiset.card_cons] at bound
    rw [erased]
    simp only [tally_cons, LifoWait.looks, Bool.toNat_false, Bool.toNat_true] at bound ⊢
    omega

/-- A step of `wait` that leaves the memory as it is and goes on looking. -/
theorem Consistent.wait_looking {next : LifoWait}
    (consistent : memory.Consistent ((self, call) ::ₘ waits) signals)
    (awake : call.sleeps = false) (announced : next.announced = call.announced)
    (looks : next.looks = true) (stays : memory.comissioned = true → next.withdraws = false) :
    memory.Consistent ((self, next) ::ₘ waits) signals := by
  apply consistent.wait_inside memory (some next) rfl rfl rfl awake
  · cases next <;> first | rfl | cases looks
  · exact congrArg (memory.waiters + ·.toNat) announced.symm
  · exact stays
  · intro active
    right
    constructor
    · cases next <;> first | rfl | cases looks
    · rw [Option.elim_some, looks]
      exact Nat.add_le_add_left (Bool.toNat_le _) _

theorem Consistent.wait_tryTake (old : Nat)
    (consistent : memory.Consistent ((self, call) ::ₘ waits) signals)
    (awake : call.sleeps = false) (announced : call.announced = false) :
    memory.Consistent ((self, tryTake old) ::ₘ waits) signals := by
  rw [tryTake]
  split
  · exact consistent.wait_looking awake announced.symm rfl fun _ => rfl
  · exact consistent.wait_looking awake announced.symm rfl fun _ => rfl

theorem Consistent.wait_nextSlot (index : Nat)
    (consistent : memory.Consistent ((self, call) ::ₘ waits) signals)
    (awake : call.sleeps = false) (announced : call.announced = true) :
    memory.Consistent ((self, memory.nextSlot index) ::ₘ waits) signals := by
  rw [nextSlot]
  split
  · exact consistent.wait_looking awake announced.symm rfl fun _ => rfl
  · exact consistent.wait_looking awake announced.symm rfl fun _ => rfl

theorem Consistent.wait (consistent : memory.Consistent ((self, call) ::ₘ waits) signals)
    (stepped : memory.waitStep self call = some (after, outcome)) :
    after.Consistent (goOn (outcome.map (self, ·)) waits) signals := by
  cases call with
  | load =>
      cases stepped
      exact consistent.wait_tryTake memory.count rfl rfl
  | exchange old =>
      simp only [waitStep] at stepped
      split at stepped
      · rename_i current
        cases stepped
        refine consistent.wait_inside _ none rfl rfl rfl rfl rfl rfl (fun _ => rfl) ?_
        intro _
        change old - 1 = 0 ∨ _ ∧ old - 1 + 1 ≤ memory.count + 0
        by_cases empty : old = 0
        · exact .inl (by omega)
        · exact .inr ⟨rfl, by omega⟩
      · cases stepped
        exact consistent.wait_tryTake memory.count rfl rfl
  | announce =>
      cases stepped
      refine consistent.wait_inside _ (some .check) rfl rfl rfl rfl rfl rfl (fun _ => rfl) ?_
      intro _
      exact .inr ⟨rfl, Nat.le_refl _⟩
  | check =>
      cases stepped
      cases active : memory.comissioned with
      | true => exact consistent.wait_looking rfl rfl rfl fun _ => rfl
      | false => exact consistent.wait_looking rfl rfl rfl (by simp [active])
  | withdraw =>
      cases stepped
      have present : 0 < memory.waiters := by
        have counted := consistent.counted
        simp only [tally_cons, LifoWait.announced, Bool.toNat_true] at counted
        omega
      have closed : memory.comissioned = true → False := by
        intro active
        have nobody := consistent.commissioned active
        simp only [tally_cons, LifoWait.withdraws, Bool.toNat_true] at nobody
        cases nobody
      refine consistent.wait_inside _ none rfl rfl rfl rfl rfl ?_ (fun _ => rfl) ?_
      · exact Nat.sub_add_cancel present
      · intro active
        exact (closed active).elim
  | scan index =>
      simp only [waitStep] at stepped
      split at stepped
      · cases stepped
        exact consistent.wait_looking rfl rfl rfl fun _ => rfl
      · cases stepped
        exact consistent.wait_nextSlot index rfl rfl
  | recheck index =>
      simp only [waitStep] at stepped
      split at stepped
      · cases stepped
        exact consistent.wait_looking rfl rfl rfl fun _ => rfl
      · rename_i empty
        cases stepped
        refine consistent.wait_inside _ (some (.register index)) rfl rfl rfl rfl rfl rfl
          (fun _ => rfl) ?_
        intro _
        exact .inl (Nat.eq_zero_of_not_pos empty)
  | retreat old =>
      cases stepped
      have present : 0 < memory.waiters := by
        have counted := consistent.counted
        simp only [tally_cons, LifoWait.announced, Bool.toNat_true] at counted
        omega
      refine consistent.wait_inside _ (some (.exchange old)) rfl rfl rfl rfl rfl ?_
        (fun _ => rfl) ?_
      · exact Nat.sub_add_cancel present
      · intro _
        exact .inr ⟨rfl, Nat.le_refl _⟩
  | register index =>
      simp only [waitStep] at stepped
      split at stepped
      · rename_i vacant
        cases stepped
        exact consistent.register vacant
      · cases stepped
        exact consistent.wait_nextSlot index rfl rfl
  | sleep =>
      simp only [waitStep] at stepped
      split at stepped
      · rename_i posted
        cases stepped
        exact consistent.wake posted
      · cases stepped

/-- A step of `signal` that leaves the memory as it is and goes on searching. -/
theorem Consistent.signal_searching {call : LifoSignal} (next : LifoSignal)
    (consistent : memory.Consistent waits (call ::ₘ signals))
    (idle : call.decrements = false ∧ ∀ self, call.wakes self = false)
    (further : next.decrements = false ∧ ∀ self, next.wakes self = false)
    (searches : next.searches = true) :
    memory.Consistent waits (next ::ₘ signals) := by
  obtain ⟨counted, slept, commissioned, supplied⟩ := consistent
  constructor
  · rwa [tally_cons, idle.1, ← further.1, ← tally_cons] at counted
  · intro self
    have slept := slept self
    rwa [tally_cons, idle.2 self, ← further.2 self, ← tally_cons] at slept
  · exact commissioned
  · intro active someone
    have bound := supplied active someone
    have few := Bool.toNat_le call.searches
    simp only [tally_cons, searches, Bool.toNat_true] at bound ⊢
    omega

/-- A call of `signal` ends when there is nobody to wake or nothing to wake for. -/
theorem Consistent.signal_ends {call : LifoSignal}
    (consistent : memory.Consistent waits (call ::ₘ signals))
    (idle : call.decrements = false ∧ ∀ self, call.wakes self = false)
    (done : memory.waiters = 0 ∨ memory.count = 0) : memory.Consistent waits signals := by
  obtain ⟨counted, slept, commissioned, supplied⟩ := consistent
  constructor
  · rwa [tally_cons, idle.1] at counted
  · intro self
    have slept := slept self
    rwa [tally_cons, idle.2 self] at slept
  · exact commissioned
  · intro active someone
    cases done with
    | inr empty =>
        rw [empty]
        exact Nat.zero_le _
    | inl alone =>
        -- Whoever is in a slot or about to be is counted in `waiters`.
        have fewer : tally (fun call : ThreadId × LifoWait => call.2.registers) waits ≤
            tally (fun call => call.2.announced) waits := by
          apply tally_mono
          intro call registers
          cases point : call.2 <;> rw [point] at registers <;> first | rfl | cases registers
        omega

theorem Consistent.signal_nextWaiter {call : LifoSignal} (index : Nat)
    (consistent : memory.Consistent waits (call ::ₘ signals))
    (idle : call.decrements = false ∧ ∀ self, call.wakes self = false) :
    memory.Consistent waits (memory.nextWaiter index ::ₘ signals) := by
  rw [nextWaiter]
  split
  · exact consistent.signal_searching _ idle ⟨rfl, fun _ => rfl⟩ rfl
  · exact consistent.signal_searching _ idle ⟨rfl, fun _ => rfl⟩ rfl

/-- A call of `signal` takes a semaphore out of its slot. -/
theorem Consistent.take {index : Nat}
    (consistent : memory.Consistent waits (.exchange index self ::ₘ signals))
    (found : memory.semaphores[index]? = some (some self)) :
    { memory with semaphores := memory.semaphores.set index none }.Consistent waits
      (.decrement self ::ₘ signals) := by
  obtain ⟨counted, slept, commissioned, supplied⟩ := consistent
  obtain ⟨rest, was, becomes⟩ := exists_coe_set found none
  rw [was] at counted supplied
  constructor
  · rw [becomes]
    simp only [tally_cons, LifoSignal.decrements, Option.isSome_none, Option.isSome_some,
      Bool.toNat_false, Bool.toNat_true] at counted ⊢
    omega
  · intro other
    have slept := slept other
    rw [was] at slept
    rw [becomes]
    simp only [tally_cons, LifoSignal.wakes, reduceCtorEq, Option.some.injEq, decide_false,
      Bool.toNat_false] at slept ⊢
    omega
  · exact commissioned
  · intro active _
    have bound := supplied active (by
      simp only [tally_cons, Option.isSome_some, Bool.toNat_true]
      omega)
    simpa only [tally_cons, LifoSignal.searches] using bound

theorem Consistent.signal {call : LifoSignal}
    (consistent : memory.Consistent waits (call ::ₘ signals)) :
    (memory.signalStep call).1.Consistent waits (goOn (memory.signalStep call).2 signals) := by
  cases call with
  | add =>
      obtain ⟨counted, slept, commissioned, supplied⟩ := consistent
      constructor
      · simpa only [signalStep, goOn_some, tally_cons, LifoSignal.decrements] using counted
      · simpa only [signalStep, goOn_some, tally_cons, LifoSignal.wakes] using slept
      · exact commissioned
      · intro active someone
        have bound := supplied active someone
        simp only [signalStep, goOn_some, tally_cons, LifoSignal.searches, Bool.toNat_false,
          Bool.toNat_true] at bound ⊢
        omega
  | loadWaiters =>
      simp only [signalStep]
      split
      · exact consistent.signal_searching .loadCount ⟨rfl, fun _ => rfl⟩ ⟨rfl, fun _ => rfl⟩ rfl
      · rename_i alone
        exact consistent.signal_ends ⟨rfl, fun _ => rfl⟩ (.inl (Nat.eq_zero_of_not_pos alone))
  | loadCount =>
      simp only [signalStep]
      split
      · exact consistent.signal_searching (.recheckWaiters 0) ⟨rfl, fun _ => rfl⟩
          ⟨rfl, fun _ => rfl⟩ rfl
      · rename_i empty
        exact consistent.signal_ends ⟨rfl, fun _ => rfl⟩ (.inr (Nat.eq_zero_of_not_pos empty))
  | recheckWaiters index =>
      simp only [signalStep]
      split
      · rename_i alone
        exact consistent.signal_ends ⟨rfl, fun _ => rfl⟩ (.inl alone)
      · exact consistent.signal_searching (.recheckCount index) ⟨rfl, fun _ => rfl⟩
          ⟨rfl, fun _ => rfl⟩ rfl
  | recheckCount index =>
      simp only [signalStep]
      split
      · rename_i empty
        exact consistent.signal_ends ⟨rfl, fun _ => rfl⟩ (.inr empty)
      · exact consistent.signal_searching (.load index) ⟨rfl, fun _ => rfl⟩
          ⟨rfl, fun _ => rfl⟩ rfl
  | load index =>
      simp only [signalStep, goOn_some]
      split
      · exact consistent.signal_searching (.exchange index _) ⟨rfl, fun _ => rfl⟩
          ⟨rfl, fun _ => rfl⟩ rfl
      · exact consistent.signal_nextWaiter index ⟨rfl, fun _ => rfl⟩
  | exchange index semaphore =>
      simp only [signalStep]
      split
      · rename_i found
        exact consistent.take found
      · exact consistent.signal_nextWaiter index ⟨rfl, fun _ => rfl⟩
  | decrement semaphore =>
      obtain ⟨counted, slept, commissioned, supplied⟩ := consistent
      constructor
      · simp only [signalStep, goOn_some, tally_cons, LifoSignal.decrements, Bool.toNat_false,
          Bool.toNat_true] at counted ⊢
        omega
      · simpa only [signalStep, goOn_some, tally_cons, LifoSignal.wakes] using slept
      · exact commissioned
      · simpa only [signalStep, goOn_some, tally_cons, LifoSignal.searches] using supplied
  | post semaphore =>
      obtain ⟨counted, slept, commissioned, supplied⟩ := consistent
      constructor
      · simpa only [signalStep, goOn_none, tally_cons, LifoSignal.decrements, Bool.toNat_false,
          Nat.add_zero] using counted
      · intro self
        have slept := slept self
        simp only [signalStep, goOn_none, tally_cons, LifoSignal.wakes] at slept ⊢
        omega
      · exact commissioned
      · intro active someone
        have bound := supplied active someone
        simp only [signalStep, goOn_none, tally_cons, LifoSignal.searches, Bool.toNat_true,
          Multiset.card_cons] at bound ⊢
        omega

end LifoMemory

theorem lifo_consistent {workers : Workers lifoSemaphore}
    (reached : (Workers.machine lifoSemaphore).Reachable workers) :
    LifoMemory.Consistent workers.queue.semaphore (waits workers.frames)
      (signals workers.frames) := by
  apply Workers.semaphore_invariant LifoMemory.Consistent LifoMemory.new_consistent
    _ _ _ _ _ reached
  · intro memory self waits signals consistent
    obtain ⟨counted, slept, commissioned, supplied⟩ := consistent
    constructor
    · simpa only [tally_cons, LifoWait.announced, Bool.toNat_false, Nat.add_zero] using counted
    · simpa only [tally_cons, LifoWait.sleeps, Bool.false_and, Bool.toNat_false, Nat.add_zero]
        using slept
    · simpa only [tally_cons, LifoWait.withdraws, Bool.toNat_false, Nat.add_zero] using commissioned
    · intro active someone
      rw [tally_cons] at someone
      rw [tally_cons]
      have bound := supplied active someone
      omega
  · intro memory waits signals consistent
    obtain ⟨counted, slept, commissioned, supplied⟩ := consistent
    constructor
    · simpa only [tally_cons, LifoSignal.decrements, Bool.toNat_false, Nat.add_zero] using counted
    · simpa only [tally_cons, LifoSignal.wakes, Bool.toNat_false, Nat.add_zero] using slept
    · exact commissioned
    · simpa only [tally_cons, LifoSignal.searches, Bool.toNat_false, Nat.add_zero] using supplied
  · intro memory self call waits signals after outcome consistent stepped
    exact consistent.wait stepped
  · intro memory waits call signals consistent
    exact consistent.signal
  · intro memory waits signals consistent
    exact ⟨consistent.counted, consistent.slept, nofun, nofun⟩

end Libprocess.Semaphores
