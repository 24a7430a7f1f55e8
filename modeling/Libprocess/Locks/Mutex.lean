import Mathlib.Data.List.Range
import Mathlib.Logic.Function.Basic
import Libprocess.Concurrency.Automaton
import Libprocess.Concurrency.Threads

/-!
# `Mutex`

The shared data of a mutex, the `synchronized` blocks of `lock` and `unlock`, and all interleavings
of these blocks with the steps that set the promises of the waiters and with discards of their
futures.  A callback of a future calls into the mutex between two steps, like any other code.  A
request is numbered when its block executes.  Only a holder unlocks.
-/

namespace Libprocess

open Concurrency

namespace Mutex

/-- `Mutex::Data`; the number of a request stands for its promise. -/
structure Data where
  locked : Bool
  waiters : List Nat
  deriving DecidableEq, Repr

namespace Data

def new : Data := ⟨false, []⟩

/-- The block of `lock`, and whether the future stays ready. -/
def lock (data : Data) (request : Nat) : Data × Bool :=
  if !data.locked then ({ data with locked := true }, true)
  else ({ data with waiters := data.waiters ++ [request] }, false)

/-- The block of `unlock`, with the local `waiter`. -/
def unlock (data : Data) : Data × Option Nat :=
  match data.waiters with
  | front :: rest => ({ data with waiters := rest }, some front)
  | [] => ({ data with locked := false }, none)

end Data

/-- A future that `lock` has returned. -/
structure LockFuture where
  ready : Bool
  /-- A discard was requested. -/
  discard : Bool
  deriving DecidableEq, Repr

namespace LockFuture

def pending : LockFuture := ⟨false, false⟩

/-- `Promise::set`, with whether the future was pending. -/
def set (future : LockFuture) : LockFuture × Bool :=
  if future.ready then (future, false) else ({ future with ready := true }, true)

/-- `Future::discard` -/
def requestDiscard (future : LockFuture) : LockFuture :=
  if future.ready then future else { future with discard := true }

end LockFuture

/-- The mutex with the futures, the holders, and the calls of `unlock` that have left their
block. -/
structure State where
  data : Data
  future : Nat → LockFuture
  /-- How many requests were made. -/
  requests : Nat
  holders : List Nat
  /-- The requests that were granted, in this order. -/
  granted : List Nat
  /-- The local variables of the calls of `unlock`. -/
  waiter : Threads Nat
  /-- The requests whose futures became ready, one entry for every time. -/
  readied : List Nat

inductive Action where
  | lock
  | unlock (holder : Nat)
  /-- A call of `unlock` sets the promise of its waiter. -/
  | set (call : Nat)
  | discard (request : Nat)
  deriving DecidableEq, Repr

namespace State

def new : State := ⟨.new, fun _ => .pending, 0, [], [], [], []⟩

/-- `lock` -/
def lock (state : State) : State :=
  let block := state.data.lock state.requests
  let requested := { state with data := block.1, requests := state.requests + 1 }
  if block.2 then
    { requested with
      future := Function.update state.future state.requests ⟨true, false⟩
      holders := state.requests :: state.holders
      granted := state.granted ++ [state.requests]
      readied := state.requests :: state.readied }
  else requested

/-- The block of `unlock`. -/
def unlock (state : State) (holder : Nat) : State :=
  let block := state.data.unlock
  { state with
    data := block.1
    holders := block.2.toList ++ state.holders.erase holder
    granted := state.granted ++ block.2.toList
    waiter := state.waiter ++ [block.2.toList] }

/-- `waiter->set(Nothing())` -/
def set (state : State) (call request : Nat) : State :=
  let block := (state.future request).set
  { state with
    future := Function.update state.future request block.1
    waiter := state.waiter.resume call []
    readied := if block.2 then request :: state.readied else state.readied }

def step (state : State) : Action → Option State
  | .lock => some state.lock
  | .unlock holder => if holder ∈ state.holders then some (state.unlock holder) else none
  | .set call => (state.waiter.top? call).map (state.set call)
  | .discard request =>
      if request < state.requests then
        some { state with
          future := Function.update state.future request (state.future request).requestDiscard }
      else none

end State

/-- All interleavings of the calls on one mutex. -/
def system : Automaton State Action where
  start := (· = .new)
  step := State.step

/-- What holds of a mutex between any two steps. -/
structure Fair (state : State) : Prop where
  single : state.holders.length = if state.data.locked then 1 else 0
  free : state.data.locked = false → state.data.waiters = []
  /-- Requests are granted in the order in which they were made. -/
  order : state.granted ++ state.data.waiters = List.range state.requests
  /-- A granted request is ready, or the call that granted it is about to make it so. -/
  satisfied : (state.readied ++ state.waiter.frames).Perm state.granted
  ready : ∀ request, (state.future request).ready = true ↔ request ∈ state.readied

variable {state next : State} {holder request call : Nat}

theorem Fair.initial : Fair .new where
  single := rfl
  free _ := rfl
  order := rfl
  satisfied := .refl _
  ready := by simp [State.new, LockFuture.pending]

section

variable (fair : Fair state)

include fair

theorem Fair.granted_nodup : state.granted.Nodup := by
  have distinct : (state.granted ++ state.data.waiters).Nodup := by
    rw [fair.order]
    exact List.nodup_range
  exact (List.nodup_append.mp distinct).1

/-- Another future becomes ready. -/
theorem Fair.ready_update {future : LockFuture} (isReady : future.ready = true)
    (request other : Nat) :
    (Function.update state.future request future other).ready = true ↔
      other ∈ request :: state.readied := by
  rw [Function.update_apply, List.mem_cons, ← fair.ready]
  split
  · simp [*]
  · simp [*]

/-- A promise that is about to be set has not been set, whether or not its future was asked to be
discarded. -/
theorem Fair.unready (present : state.waiter.top? call = some request) :
    (state.future request).ready = false := by
  have distinct := fair.satisfied.nodup_iff.mpr fair.granted_nodup
  rw [← Bool.not_eq_true, fair.ready]
  intro was
  exact (List.nodup_append.mp distinct).2.2 _ was _ (Threads.top?_mem_frames present) rfl

theorem Fair.lock : Fair state.lock := by
  unfold State.lock Data.lock
  cases locked : state.data.locked with
  | true =>
      simp only [Bool.not_true, Bool.false_eq_true, if_false]
      refine ⟨?_, ?_, ?_, fair.satisfied, fair.ready⟩
      · simpa [locked] using fair.single
      · simp
      · change state.granted ++ (state.data.waiters ++ [state.requests]) = _
        rw [← List.append_assoc, fair.order, List.range_succ]
  | false =>
      have nobody := fair.free locked
      have single := fair.single
      have order := fair.order
      rw [nobody, List.append_nil] at order
      simp only [locked, Bool.false_eq_true, if_false] at single
      simp only [Bool.not_false, if_true]
      refine ⟨by simp [single], by simp, ?_, ?_, ?_⟩
      · change (state.granted ++ [state.requests]) ++ state.data.waiters = _
        rw [nobody, List.append_nil, order, List.range_succ]
      · apply (List.Perm.cons state.requests fair.satisfied).trans
        exact (List.perm_append_singleton _ _).symm
      · exact fair.ready_update rfl state.requests

theorem Fair.locked (member : holder ∈ state.holders) :
    state.data.locked = true := by
  have single := fair.single
  have positive := List.length_pos_of_mem member
  by_contra unlocked
  rw [if_neg unlocked] at single
  omega

theorem Fair.unlock (member : holder ∈ state.holders) :
    Fair (state.unlock holder) := by
  have single := fair.single
  have locked := fair.locked member
  have released : (state.holders.erase holder).length = 0 := by
    rw [List.length_erase_of_mem member, single, if_pos locked]
  unfold State.unlock Data.unlock
  cases waiting : state.data.waiters with
  | nil =>
      simp only [Option.toList_none, List.nil_append, List.append_nil]
      refine ⟨by simp [released], fun _ => rfl, ?_, ?_, fair.ready⟩
      · simpa only [waiting] using fair.order
      · simpa [Threads.frames] using fair.satisfied
  | cons front rest =>
      simp only [Option.toList_some, List.singleton_append]
      refine ⟨by simp [released, locked], by simp [locked], ?_, ?_, fair.ready⟩
      · have order := fair.order
        rw [waiting] at order
        simpa using order
      · rw [Threads.frames, List.flatten_append, ← List.append_assoc]
        apply List.Perm.append fair.satisfied
        simp

theorem Fair.set (present : state.waiter.top? call = some request) :
    Fair (state.set call request) := by
  have unready := fair.unready present
  have moved := Threads.frames_resume_perm present []
  simp only [State.set, LockFuture.set, unready, Bool.false_eq_true, if_false, if_true]
  refine ⟨fair.single, fair.free, fair.order, ?_, fair.ready_update rfl request⟩
  refine List.Perm.trans ?_ fair.satisfied
  calc
    (request :: (state.readied ++ _)).Perm (state.readied ++ (request :: _)) :=
      List.perm_middle.symm
    _ |>.Perm (state.readied ++ state.waiter.frames) := moved.append_left state.readied

theorem Fair.discard (request : Nat) :
    Fair { state with
      future := Function.update state.future request (state.future request).requestDiscard } := by
  refine ⟨fair.single, fair.free, fair.order, fair.satisfied, fun other => ?_⟩
  rw [← fair.ready]
  change (Function.update state.future request _ other).ready = true ↔ _
  rw [Function.update_apply]
  split
  · rename_i same
    rw [same, LockFuture.requestDiscard]
    split
    · exact Iff.rfl
    · exact Iff.rfl
  · exact Iff.rfl

end

theorem Fair.step {action : Action} (fair : Fair state)
    (stepped : state.step action = some next) : Fair next := by
  cases action with
  | lock =>
      cases stepped
      exact fair.lock
  | unlock holder =>
      simp only [State.step] at stepped
      split at stepped
      · rename_i member
        cases stepped
        exact fair.unlock member
      · cases stepped
  | set call =>
      obtain ⟨request, present, rfl⟩ := Option.map_eq_some_iff.mp stepped
      exact fair.set present
  | discard request =>
      simp only [State.step] at stepped
      split at stepped
      · cases stepped
        exact fair.discard request
      · cases stepped

theorem Fair.hands (fair : Fair state) (member : holder ∈ state.holders) {front : Nat}
    {rest : List Nat} (waiting : state.data.waiters = front :: rest) :
    ∃ next, state.step (.unlock holder) = some next ∧ next.holders = [front] ∧
      next.granted = state.granted ++ [front] ∧ next.data = ⟨true, rest⟩ := by
  have locked := fair.locked member
  have single := fair.single
  rw [if_pos locked] at single
  obtain ⟨only, alone⟩ := List.length_eq_one_iff.mp single
  obtain rfl : holder = only := by simpa [alone] using member
  refine ⟨_, if_pos member, ?_, ?_, ?_⟩
  · simp [State.unlock, Data.unlock, waiting, alone]
  · simp [State.unlock, Data.unlock, waiting]
  · simp [State.unlock, Data.unlock, waiting, locked]

theorem Fair.satisfies (fair : Fair state) (present : state.waiter.top? call = some request) :
    (state.future request).ready = false ∧
      ∃ next, state.step (.set call) = some next ∧ (next.future request).ready = true ∧
        next.readied = request :: state.readied := by
  have unready := fair.unready present
  refine ⟨unready, state.set call request, ?_, ?_, ?_⟩
  · rw [State.step, present]
    rfl
  · simp [State.set, LockFuture.set, unready]
  · simp [State.set, LockFuture.set, unready]

theorem Fair.of_reachable (reached : system.Reachable state) : Fair state := by
  apply reached.invariant Fair
  · rintro state rfl
    exact .initial
  · intro state action next fair _ stepped
    exact fair.step stepped

/-- What a mutex guarantees in every state. -/
structure Sound (state : State) : Prop extends Fair state where
  exclusive : state.holders.length ≤ 1
  free_iff : state.data.locked = false ↔ state.holders = []
  granted_once : state.granted.Nodup ∧ state.readied.Nodup
  /-- A holder hands the mutex to the request that waits longest. -/
  hands : ∀ holder ∈ state.holders, ∀ front rest, state.data.waiters = front :: rest →
    ∃ next, state.step (.unlock holder) = some next ∧ next.holders = [front] ∧
      next.granted = state.granted ++ [front] ∧ next.data = ⟨true, rest⟩
  /-- A call of `unlock` makes the future of its waiter ready, even if it was asked to be
  discarded. -/
  satisfies : ∀ call request, state.waiter.top? call = some request →
    (state.future request).ready = false ∧
    ∃ next, state.step (.set call) = some next ∧ (next.future request).ready = true ∧
      next.readied = request :: state.readied

end Mutex

open Mutex in
/-- A mutex is exclusive, hands over in the order of the requests and is never lost, in every state
of every interleaving. -/
theorem mutex_sound {state : State} (reached : system.Reachable state) : Sound state := by
  have fair := Fair.of_reachable reached
  have distinct := fair.satisfied.nodup_iff.mpr fair.granted_nodup
  refine ⟨fair, ?_, ?_, ⟨fair.granted_nodup, (List.nodup_append.mp distinct).1⟩,
    fun holder member front rest waiting => fair.hands member waiting,
    fun call request present => fair.satisfies present⟩
  · rw [fair.single]
    split
    · exact le_refl _
    · exact Nat.zero_le _
  · rw [← List.length_eq_zero_iff, fair.single]
    simp

/-- A waiter whose future is discarded is granted in its turn. -/
def discardedSchedule : List Mutex.Action :=
  [.lock, .lock, .lock, .discard 1, .unlock 0, .unlock 1, .set 0, .set 1]

open Mutex in
theorem mutex_sound_discarded : ∃ state, system.run .new discardedSchedule = some state ∧
    Sound state ∧ state.granted = [0, 1, 2] ∧ state.readied = [2, 1, 0] ∧
    state.future 1 = ⟨true, true⟩ := by
  obtain ⟨state, executed, observed⟩ : ∃ state ∈ system.run .new discardedSchedule,
      state.granted = [0, 1, 2] ∧ state.readied = [2, 1, 0] ∧ state.future 1 = ⟨true, true⟩ := by
    decide
  exact ⟨state, executed, mutex_sound (.of_run rfl executed), observed⟩

end Libprocess
