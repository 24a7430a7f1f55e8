import Libprocess.Semaphore.LastInFirstOut

/-!
# The run queue strands no work

As long as the run queue is not decommissioned, every return of `wait` takes one unit of `count`,
and there is a unit, a thread about to dequeue or a thread about to add a unit for each process
in the queue.
-/

namespace Libprocess.Semaphores

open Concurrency

/-- The call is about to take a unit that it has not seen. -/
def LifoWait.blind : LifoWait → Bool
  | .exchange old | .retreat old => old = 0
  | .load | .announce | .check | .withdraw | .scan _ | .recheck _ | .register _ | .sleep => false

namespace LifoMemory

variable {memory after : LifoMemory} {self : ThreadId} {call : LifoWait}
  {outcome : Option LifoWait} {waits : Multiset (ThreadId × LifoWait)}
  {signals : Multiset LifoSignal}

theorem blind_waitStep (stepped : memory.waitStep self call = some (after, outcome))
    (sees : call.blind = false) : outcome.any LifoWait.blind = false := by
  have tries : ∀ old, (tryTake old).blind = false := by
    intro old
    rw [tryTake]
    split
    · rename_i positive
      exact decide_eq_false (Nat.ne_of_gt positive)
    · rfl
  have slots : ∀ index, (memory.nextSlot index).blind = false := by
    intro index
    rw [nextSlot]
    split <;> rfl
  cases call with
  | load =>
      cases stepped
      exact tries _
  | exchange old =>
      simp only [waitStep] at stepped
      split at stepped
      · cases stepped
        rfl
      · cases stepped
        exact tries _
  | announce | withdraw =>
      cases stepped
      rfl
  | check =>
      cases stepped
      cases memory.comissioned <;> rfl
  | scan index | register index =>
      simp only [waitStep] at stepped
      split at stepped
      · cases stepped
        rfl
      · cases stepped
        exact slots _
  | recheck index =>
      simp only [waitStep] at stepped
      split at stepped
      · rename_i positive
        cases stepped
        exact decide_eq_false (Nat.ne_of_gt positive)
      · cases stepped
        rfl
  | retreat old =>
      cases stepped
      exact sees
  | sleep =>
      simp only [waitStep] at stepped
      split at stepped
      · cases stepped
        rfl
      · cases stepped

/-- A call of `wait` returns with a unit, unless it withdraws, and changes `count` in no other
way. -/
theorem count_waitStep (stepped : memory.waitStep self call = some (after, outcome))
    (sees : call.blind = false) (stays : call.withdraws = false) :
    after.count + (if outcome = none then 1 else 0) = memory.count := by
  cases call with
  | load | announce | check | retreat old =>
      cases stepped
      rfl
  | withdraw => cases stays
  | exchange old =>
      simp only [waitStep] at stepped
      split at stepped
      · rename_i current
        cases stepped
        have positive : ¬ old = 0 := of_decide_eq_false sees
        change old - 1 + 1 = memory.count
        omega
      · cases stepped
        rfl
  | scan index | recheck index | register index | sleep =>
      simp only [waitStep] at stepped
      split at stepped <;> cases stepped
      all_goals rfl

theorem count_signalStep (memory : LifoMemory) (call : LifoSignal) :
    (memory.signalStep call).1.count + call.searches.toNat = memory.count + 1 := by
  cases call with
  | exchange index semaphore =>
      simp only [signalStep]
      split <;> rfl
  | _ => rfl

theorem searches_signalStep {call next : LifoSignal} (memory : LifoMemory)
    (stepped : (memory.signalStep call).2 = some next) : next.searches = true := by
  have waiters : ∀ index, (memory.nextWaiter index).searches = true := by
    intro index
    rw [nextWaiter]
    split <;> rfl
  cases call with
  | add | decrement semaphore =>
      cases stepped
      rfl
  | loadWaiters | loadCount | recheckWaiters index | recheckCount index =>
      simp only [signalStep] at stepped
      split at stepped <;> cases stepped
      rfl
  | load index =>
      simp only [signalStep] at stepped
      cases stepped
      split
      · rfl
      · exact waiters index
  | exchange index semaphore =>
      simp only [signalStep] at stepped
      split at stepped <;> cases stepped
      · rfl
      · exact waiters index
  | post semaphore => cases stepped

end LifoMemory

/-- No thread is about to take a unit that it has not seen. -/
theorem lifo_sees {workers : Workers lifoSemaphore}
    (reached : (Workers.machine lifoSemaphore).Reachable workers) :
    tally (fun call : ThreadId × LifoWait => call.2.blind) (waits workers.frames) = 0 := by
  apply Workers.semaphore_invariant (fun _ waits _ =>
    tally (fun call : ThreadId × LifoWait => call.2.blind) waits = 0) rfl _ _ _ _ _ reached
  · intro memory self waits signals sees
    rw [tally_cons]
    exact sees
  · intro memory waits signals sees
    exact sees
  · intro memory self call waits signals after outcome sees stepped
    rw [tally_cons] at sees
    obtain ⟨others, own⟩ := Nat.add_eq_zero_iff.mp sees
    have next := LifoMemory.blind_waitStep stepped (Bool.toNat_eq_zero.mp own)
    rw [tally_goOn, others]
    cases outcome with
    | none => rfl
    | some further =>
        rw [Nat.zero_add]
        exact Bool.toNat_eq_zero.mpr next
  · intro memory waits call signals sees
    exact sees
  · intro memory waits signals sees
    exact sees

namespace Frame

/-- The thread is inside `decomission`. -/
def decomissions : Frame lifoSemaphore → Bool
  | .close | .load | .release _ | .releasing _ _ => true
  | .user | .worker _ | .push _ | .epoch | .signal _ | .extract _ | .wait _ _ | .dequeue _ =>
      false

/-- The thread is about to add a unit for a call of `signal`. -/
def adds : Frame lifoSemaphore → Bool
  | .signal call => !call.searches
  | .user | .worker _ | .push _ | .epoch | .extract _ | .wait _ _ | .dequeue _ | .close | .load
  | .release _ | .releasing _ _ => false

/-- The thread has a unit and is about to dequeue, or is going to add a unit for a process that it
has pushed. -/
def supplies : Frame lifoSemaphore → Bool
  | .dequeue _ | .epoch => true
  | .signal call => !call.searches
  | .user | .worker _ | .push _ | .extract _ | .wait _ _ | .close | .load | .release _
  | .releasing _ _ => false

end Frame

/-- Units, signals and processes of a run queue that is not being decommissioned. -/
structure Balanced (queue : RunQueue lifoSemaphore) (frames : Multiset (Frame lifoSemaphore)) :
    Prop where
  active : queue.semaphore.comissioned = true
  idle : ∀ frame ∈ frames, frame.decomissions = false
  units : queue.semaphore.count + queue.returns + tally Frame.adds frames = queue.signals
  stocked : queue.processes.length ≤ queue.semaphore.count + tally Frame.supplies frames

section Balanced

variable {queue next : RunQueue lifoSemaphore} {frame : Frame lifoSemaphore}
  {rest : Multiset (Frame lifoSemaphore)} {continuation : List (Frame lifoSemaphore)}
  {choice : Choice}

theorem Balanced.spawn (balanced : Balanced queue rest) (away : frame.decomissions = false)
    (adds : frame.adds = false) (supplies : frame.supplies = false) :
    Balanced queue (frame ::ₘ rest) := by
  constructor
  · exact balanced.active
  · intro other member
    cases Multiset.mem_cons.mp member with
    | inl same => exact same ▸ away
    | inr old => exact balanced.idle other old
  · rw [tally_cons, adds]
    exact balanced.units
  · rw [tally_cons, supplies]
    exact balanced.stocked

section

variable (balanced : Balanced queue (frame ::ₘ rest))

include balanced

theorem Balanced.exchange (active : next.semaphore.comissioned = queue.semaphore.comissioned)
    (idle : ∀ entered ∈ continuation, entered.decomissions = false)
    (units : next.semaphore.count + next.returns +
        continuation.countP Frame.adds + queue.signals =
      queue.semaphore.count + queue.returns + frame.adds.toNat + next.signals)
    (stocked : next.processes.length ≠ 0 →
      next.processes.length + queue.semaphore.count + frame.supplies.toNat ≤
      queue.processes.length + next.semaphore.count + continuation.countP Frame.supplies) :
    Balanced next (↑continuation + rest) := by
  have unitsBefore := balanced.units
  have stockedBefore := balanced.stocked
  rw [tally_cons] at unitsBefore stockedBefore
  constructor
  · rw [active]
    exact balanced.active
  · intro other member
    cases Multiset.mem_add.mp member with
    | inl entered => exact idle other entered
    | inr kept => exact balanced.idle other (Multiset.mem_cons_of_mem kept)
  · rw [tally_add, tally_coe]
    omega
  · rw [tally_add, tally_coe]
    omega

/-- A call of a function of the run queue by code outside it. -/
theorem Balanced.call (outer : frame = .user ∨ ∃ self, frame = .worker self)
    (stepped : queue.call frame choice = some (next, continuation))
    (uncalled : next.called = false) : Balanced next (↑continuation + rest) := by
  have outside : next = queue ∧ (continuation = [] ∨ ∃ entered, continuation = [entered, frame] ∧
      entered.decomissions = false ∧ entered.adds = false ∧ entered.supplies = false) := by
    cases choice with
    | decomission =>
        simp only [RunQueue.call] at stepped
        split at stepped
        · cases stepped
        · cases stepped
          cases uncalled
    | wait => cases stepped
    | proceed =>
        cases stepped
        exact ⟨rfl, .inl rfl⟩
    | enqueue process | extract process =>
        cases stepped
        exact ⟨rfl, .inr ⟨_, rfl, rfl, rfl, rfl⟩⟩
  have plain : frame.decomissions = false ∧ frame.adds = false ∧ frame.supplies = false := by
    obtain rfl | ⟨self, rfl⟩ := outer
    · exact ⟨rfl, rfl, rfl⟩
    · exact ⟨rfl, rfl, rfl⟩
  obtain ⟨rfl, rfl | ⟨entered, rfl, away, adds, supplies⟩⟩ := outside
  · apply balanced.exchange rfl
    · simp
    · simp [plain]
    · simp [plain]
  · apply balanced.exchange rfl
    · simp [away, plain]
    · simp [adds, plain]
    · simp [supplies, plain]

theorem Balanced.step (consistent : LifoMemory.Consistent queue.semaphore (waits (frame ::ₘ rest))
      (signals (frame ::ₘ rest)))
    (sees : tally (fun call : ThreadId × LifoWait => call.2.blind) (waits (frame ::ₘ rest)) = 0)
    (stepped : queue.step frame choice = some (next, continuation))
    (uncalled : next.called = false) : Balanced next (↑continuation + rest) := by
  cases frame with
  | user => exact balanced.call (.inl rfl) stepped uncalled
  | worker self =>
      simp only [RunQueue.step] at stepped
      split at stepped
      · cases stepped
        exact balanced.exchange rfl (by simp [Frame.decomissions]) rfl fun _ => Nat.le_refl _
      · exact balanced.call (.inr ⟨self, rfl⟩) stepped uncalled
  | push process =>
      cases stepped
      refine balanced.exchange rfl (by simp [Frame.decomissions]) rfl fun _ => ?_
      simp only [List.length_append, List.length_singleton, Frame.supplies, Bool.toNat_false,
        List.countP_singleton, if_true]
      omega
  | epoch =>
      cases stepped
      refine balanced.exchange rfl (by simp [Frame.decomissions]) ?_ fun _ => Nat.le_refl _
      simp only [Frame.adds, LifoSignal.searches, Bool.not_false, Bool.toNat_false,
        List.countP_singleton, if_true]
      omega
  | signal call =>
      cases stepped
      have added := queue.semaphore.count_signalStep call
      have splits : (!call.searches).toNat + call.searches.toNat = 1 := by
        cases call.searches <;> rfl
      have entered : ∀ entered ∈ (queue.semaphore.signalStep call).2.toList.map Frame.signal,
          entered.decomissions = false ∧ entered.adds = false ∧ entered.supplies = false := by
        intro entered member
        obtain ⟨further, outcome, rfl⟩ := List.mem_map.mp member
        have searches := queue.semaphore.searches_signalStep (Option.mem_toList.mp outcome)
        exact ⟨rfl, congrArg not searches, congrArg not searches⟩
      have adds := List.countP_eq_zero.mpr fun frame member =>
        Bool.eq_false_iff.mp (entered frame member).2.1
      have supplies := List.countP_eq_zero.mpr fun frame member =>
        Bool.eq_false_iff.mp (entered frame member).2.2
      refine balanced.exchange (queue.semaphore.comissioned_signalStep call)
        (fun frame member => (entered frame member).1) ?_ fun _ => ?_
      · rw [adds, Frame.adds]
        simp only
        omega
      · rw [supplies, Frame.supplies]
        simp only
        omega
  | extract process =>
      cases stepped
      refine balanced.exchange rfl (by simp) rfl fun _ => ?_
      exact Nat.add_le_add_right List.length_erase_le _
  | wait self call =>
      have member : (self, call) ∈ waits (.wait self call ::ₘ rest) :=
        mem_waits.mpr (Multiset.mem_cons_self _ _)
      have sees := tally_eq_zero_iff.mp sees _ member
      have stays := tally_eq_zero_iff.mp (consistent.commissioned balanced.active) _ member
      simp only [RunQueue.step] at stepped
      split at stepped
      · cases stepped
      · rename_i after further waitStepped
        cases stepped
        have kept := LifoMemory.count_waitStep waitStepped sees stays
        refine balanced.exchange (LifoMemory.comissioned_waitStep waitStepped)
          (by simp [Frame.decomissions]) ?_ fun _ => ?_
        · simp only [Frame.adds, reduceCtorEq, Bool.false_eq_true, if_false, Bool.toNat_false,
            List.countP_singleton] at kept ⊢
          omega
        · simp only [Frame.supplies, reduceCtorEq, Bool.false_eq_true, if_false, Bool.toNat_false,
            List.countP_singleton] at kept ⊢
          omega
      · rename_i after waitStepped
        cases stepped
        have taken := LifoMemory.count_waitStep waitStepped sees stays
        refine balanced.exchange (LifoMemory.comissioned_waitStep waitStepped)
          (by simp [Frame.decomissions]) ?_ fun _ => ?_
        · simp only [Frame.adds, Bool.false_eq_true, if_true, if_false, Bool.toNat_false,
            List.countP_singleton] at taken ⊢
          omega
        · simp only [Frame.supplies, if_true, Bool.toNat_false, List.countP_singleton] at taken ⊢
          omega
  | dequeue self =>
      cases stepped
      refine balanced.exchange rfl (by simp [Frame.decomissions]) rfl ?_
      simp only [List.length_tail, Frame.supplies, Bool.toNat_true, List.countP_singleton]
      intro more
      change _ ≤ _ + 0
      omega
  | close | load | release remaining | releasing remaining call =>
      have away := balanced.idle _ (Multiset.mem_cons_self _ _)
      cases away

/-- A step keeps `count` or adds to it, or a call of `wait` returns and takes one unit. -/
theorem Balanced.takes_unit
    (consistent : LifoMemory.Consistent queue.semaphore (waits (frame ::ₘ rest))
      (signals (frame ::ₘ rest)))
    (sees : tally (fun call : ThreadId × LifoWait => call.2.blind) (waits (frame ::ₘ rest)) = 0)
    (stepped : queue.step frame choice = some (next, continuation)) :
    next.returns = queue.returns ∧ queue.semaphore.count ≤ next.semaphore.count ∨
    next.returns = queue.returns + 1 ∧ next.semaphore.count + 1 = queue.semaphore.count := by
  have calls : ∀ here, queue.call here choice = some (next, continuation) →
      next.returns = queue.returns ∧ queue.semaphore.count ≤ next.semaphore.count := by
    intro here stepped
    cases choice with
    | decomission =>
        simp only [RunQueue.call] at stepped
        split at stepped <;> cases stepped
        exact ⟨rfl, Nat.le_refl _⟩
    | wait => cases stepped
    | proceed | enqueue process | extract process =>
        cases stepped
        exact ⟨rfl, Nat.le_refl _⟩
  cases frame with
  | user => exact .inl (calls .user stepped)
  | worker self =>
      simp only [RunQueue.step] at stepped
      split at stepped
      · cases stepped
        exact .inl ⟨rfl, Nat.le_refl _⟩
      · exact .inl (calls _ stepped)
  | signal call =>
      cases stepped
      have added := queue.semaphore.count_signalStep call
      have few := Bool.toNat_le call.searches
      left
      constructor
      · rfl
      · change queue.semaphore.count ≤ (queue.semaphore.signalStep call).1.count
        omega
  | wait self call =>
      have member : (self, call) ∈ waits (.wait self call ::ₘ rest) :=
        mem_waits.mpr (Multiset.mem_cons_self _ _)
      have sees := tally_eq_zero_iff.mp sees _ member
      have stays := tally_eq_zero_iff.mp (consistent.commissioned balanced.active) _ member
      simp only [RunQueue.step] at stepped
      split at stepped
      · cases stepped
      · rename_i after further waitStepped
        cases stepped
        exact .inl ⟨rfl, Nat.le_of_eq (LifoMemory.count_waitStep waitStepped sees stays).symm⟩
      · rename_i after waitStepped
        cases stepped
        exact .inr ⟨rfl, LifoMemory.count_waitStep waitStepped sees stays⟩
  | push process | epoch | extract process | dequeue self =>
      cases stepped
      exact .inl ⟨rfl, Nat.le_refl _⟩
  | close | load | release remaining | releasing remaining call =>
      have away := balanced.idle _ (Multiset.mem_cons_self _ _)
      cases away

end

end Balanced

variable {workers : Workers lifoSemaphore}

theorem lifo_balanced (reached : (Workers.machine lifoSemaphore).Reachable workers)
    (uncalled : workers.queue.called = false) : Balanced workers.queue workers.frames := by
  revert uncalled
  apply Workers.invariant_of_reaches
    (fun queue frames _ =>
      LifoMemory.Consistent queue.semaphore (waits frames) (signals frames) ∧
      tally (fun call : ThreadId × LifoWait => call.2.blind) (waits frames) = 0) _
    (fun queue frames => queue.called = false → Balanced queue frames) _ _ _ _ reached
  · intro workers thread choice frame reached _ _
    exact ⟨lifo_consistent reached, lifo_sees reached⟩
  · intro _
    exact ⟨rfl, by simp, rfl, Nat.zero_le _⟩
  · intro queue frames kept uncalled
    exact (kept uncalled).spawn rfl rfl rfl
  · intro queue frames self kept uncalled
    exact (kept uncalled).spawn rfl rfl rfl
  · intro queue next frame continuation choice rest kept known stepped uncalled
    have before : queue.called = false := by
      apply Bool.eq_false_iff.mpr
      intro called
      rw [RunQueue.called_of_step stepped called] at uncalled
      cases uncalled
    exact (kept before).step known.1 known.2 stepped uncalled

/-- The thread is inside `enqueue` or `signal`. -/
def Frame.enqueues : Frame lifoSemaphore → Bool
  | .push _ | .epoch | .signal _ | .releasing _ _ => true
  | .user | .worker _ | .extract _ | .wait _ _ | .dequeue _ | .close | .load | .release _ => false

/-- The frame of a worker thread. -/
def Frame.ofWorker : Frame lifoSemaphore → Bool
  | .worker _ | .wait _ _ | .dequeue _ => true
  | .user | .push _ | .epoch | .signal _ | .extract _ | .close | .load | .release _
  | .releasing _ _ => false

/-- The thread sleeps on its kernel semaphore, whose value is zero. -/
def LifoMemory.Asleep (memory : LifoMemory) (frame : Frame lifoSemaphore) : Prop :=
  ∃ self, frame = .wait self LifoWait.sleep ∧ memory.posts.count self = 0

/-- When all workers sleep, nothing is left in the run queue. -/
theorem Balanced.processes_eq_nil (balanced : Balanced workers.queue workers.frames)
    (consistent : LifoMemory.Consistent workers.queue.semaphore (waits workers.frames)
      (signals workers.frames))
    (quiet : ∀ frame ∈ workers.frames, frame.enqueues = false)
    {worker : Frame lifoSemaphore} (present : worker ∈ workers.frames)
    (works : worker.ofWorker = true)
    (asleep : ∀ frame ∈ workers.frames, frame.ofWorker = true →
      workers.queue.semaphore.Asleep frame) : workers.queue.processes = [] := by
  have noSignal : signals workers.frames = 0 := by
    apply signals_eq_zero
    intro frame member
    have away := quiet frame member
    cases frame with
    | signal call | releasing remaining call => cases away
    | _ => rfl
  rw [noSignal] at consistent
  have sleeps : ∀ call ∈ waits workers.frames, call.2 = .sleep ∧
      workers.queue.semaphore.posts.count call.1 = 0 := by
    rintro ⟨self, call⟩ member
    obtain ⟨_, ⟨⟩, unposted⟩ := asleep _ (mem_waits.mp member) rfl
    exact ⟨rfl, unposted⟩
  have nobodyLooks : tally (fun call : ThreadId × LifoWait => call.2.looks)
      (waits workers.frames) = 0 := by
    apply tally_eq_zero_iff.mpr
    intro call member
    rw [(sleeps call member).1]
    rfl
  -- Whoever was posted has a call that sleeps, so nobody was.
  have noPosts : workers.queue.semaphore.posts = 0 := by
    apply Multiset.eq_zero_of_forall_notMem
    intro self posted
    have slept := consistent.slept self
    have positive : 0 < tally (fun post => post = self) workers.queue.semaphore.posts :=
      tally_pos posted (decide_eq_true rfl)
    obtain ⟨call, member, own⟩ := exists_of_tally_pos
      (by omega : 0 < tally (fun call : ThreadId × LifoWait => call.2.sleeps && call.1 = self)
        (waits workers.frames))
    have same : call.1 = self := of_decide_eq_true (Bool.and_eq_true_iff.mp own).2
    have unposted := (sleeps call member).2
    rw [same] at unposted
    exact Multiset.count_eq_zero.mp unposted posted
  have occupied : 0 < tally Option.isSome
      (workers.queue.semaphore.semaphores : Multiset (Option ThreadId)) := by
    obtain ⟨self, rfl, _⟩ := asleep worker present works
    have slept := consistent.slept self
    have positive : 0 < tally (fun call : ThreadId × LifoWait => call.2.sleeps && call.1 = self)
        (waits workers.frames) := by
      apply tally_pos (mem_waits.mpr present)
      simp [LifoWait.sleeps]
    rw [noPosts, tally_zero, tally_zero, Nat.add_zero] at slept
    rw [slept] at positive
    obtain ⟨slot, member, own⟩ := exists_of_tally_pos positive
    apply tally_pos member
    rw [of_decide_eq_true own]
    rfl
  have empty := consistent.supplied balanced.active (by omega)
  rw [nobodyLooks, noPosts, Multiset.card_zero, tally_zero] at empty
  have noSupply : tally Frame.supplies workers.frames = 0 := by
    apply tally_eq_zero_iff.mpr
    intro frame member
    have away := quiet frame member
    cases frame with
    | dequeue self =>
        obtain ⟨_, ⟨⟩, _⟩ := asleep _ member rfl
    | epoch | signal call => cases away
    | _ => rfl
  have stocked := balanced.stocked
  apply List.eq_nil_of_length_eq_zero
  omega

/-- Without `decomission`, a return of `wait` takes one unit and nothing else takes units, there
are at most as many returns as signals, and when no thread is inside `enqueue` or `signal` and the
queue is not empty, some worker does not sleep for good. -/
theorem runQueue_strandsNothing (reached : (Workers.machine lifoSemaphore).Reachable workers)
    (uncalled : workers.queue.called = false) :
    (∀ move next, (Workers.machine lifoSemaphore).step workers move = some next →
      next.queue.returns = workers.queue.returns ∧
        workers.queue.semaphore.count ≤ next.queue.semaphore.count ∨
      next.queue.returns = workers.queue.returns + 1 ∧
        next.queue.semaphore.count + 1 = workers.queue.semaphore.count) ∧
    workers.queue.returns ≤ workers.queue.signals ∧
    ((∀ frame ∈ workers.frames, frame.enqueues = false) →
      (∃ frame ∈ workers.frames, frame.ofWorker = true) → workers.queue.processes ≠ [] →
      ∃ frame ∈ workers.frames, frame.ofWorker = true ∧
        ¬ workers.queue.semaphore.Asleep frame) := by
  have balanced := lifo_balanced reached uncalled
  have consistent := lifo_consistent reached
  refine ⟨?_, ?_, ?_⟩
  · intro move next stepped
    cases move with
    | user | worker =>
        cases stepped
        exact .inl ⟨rfl, Nat.le_refl _⟩
    | advance thread choice =>
        have sees := lifo_sees reached
        obtain ⟨frame, continuation, running, stepped, -⟩ := Workers.step_advance stepped
        obtain ⟨rest, whole, -⟩ := Workers.frames_resume running continuation
        rw [whole] at balanced consistent sees
        exact balanced.takes_unit consistent sees stepped
  · have units := balanced.units
    omega
  · rintro quiet ⟨worker, present, works⟩ more
    apply Classical.byContradiction
    intro nobody
    apply more
    apply balanced.processes_eq_nil consistent quiet present works
    intro frame member works
    apply Classical.byContradiction
    intro awake
    exact nobody ⟨frame, member, works, awake⟩

/-- A worker sleeps, and another thread enqueues a process. -/
def wakeSchedule : List Move :=
  List.flatten [[.worker, .user], .advance 0 .wait :: List.replicate 6 (.advance 0 .proceed),
    .advance 1 (.enqueue 7) :: List.replicate 11 (.advance 1 .proceed)]

theorem runQueue_strandsNothing_woken : ∃ workers,
    (Workers.machine lifoSemaphore).Reachable workers ∧ workers.queue.processes = [7] ∧
    ∃ frame ∈ workers.frames, frame.ofWorker = true ∧
      ¬ workers.queue.semaphore.Asleep frame := by
  obtain ⟨workers, ran, uncalled, processes, frames⟩ :
      ∃ workers ∈ (Workers.machine lifoSemaphore).run (.new _) wakeSchedule,
      workers.queue.called = false ∧ workers.queue.processes = [7] ∧
      (workers.threads.frames.map fun frame => (frame.enqueues, frame.ofWorker)) =
        [(false, true), (false, false)] := by
    decide +kernel
  have reached : (Workers.machine lifoSemaphore).Reachable workers := .of_run rfl ran
  have known : ∀ frame ∈ workers.frames, (frame.enqueues, frame.ofWorker) ∈
      [(false, true), (false, false)] := by
    intro frame member
    rw [← frames]
    exact List.mem_map_of_mem member
  refine ⟨workers, reached, processes,
    (runQueue_strandsNothing reached uncalled).2.2 ?_ ?_ (by simp [processes])⟩
  · intro frame member
    have pair := known frame member
    simp only [List.mem_cons, Prod.mk.injEq, List.not_mem_nil, or_false] at pair
    obtain ⟨quiet, _⟩ | ⟨quiet, _⟩ := pair
    · exact quiet
    · exact quiet
  · have entry : (false, true) ∈ workers.threads.frames.map
        fun frame => (frame.enqueues, frame.ofWorker) := by
      rw [frames]
      exact List.mem_cons_self
    obtain ⟨frame, member, same⟩ := List.mem_map.mp entry
    simp only [Prod.mk.injEq] at same
    exact ⟨frame, member, same.2⟩

end Libprocess.Semaphores
