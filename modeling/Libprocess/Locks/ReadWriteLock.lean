import Mathlib.Data.List.Count
import Mathlib.Data.List.Range
import Mathlib.Data.List.TakeWhile
import Libprocess.Concurrency.Automaton
import Libprocess.Concurrency.Threads

/-!
# `ReadWriteLock`

The shared data of a lock, the `synchronized` block of each of its four functions, and all
interleavings of these blocks with the steps that satisfy the futures of the waiters.  A request is
numbered when its block executes.  Only a holder unlocks.
-/

namespace Libprocess

open Concurrency

namespace ReadWriteLock

/-- `Waiter::type`. -/
inductive WaiterType where
  | read
  | write
  deriving DecidableEq, Repr

/-- `Waiter`; the number of the request stands for the promise. -/
structure Waiter where
  type : WaiterType
  request : Nat
  deriving DecidableEq, Repr

structure Data where
  readLocked : Nat
  writeLocked : Bool
  waiters : List Waiter
  deriving DecidableEq, Repr

namespace Data

def new : Data := ⟨0, false, []⟩

/-- The block of `write_lock`, and whether the future stays ready. -/
def writeLock (data : Data) (request : Nat) : Data × Bool :=
  if !data.writeLocked ∧ data.readLocked = 0 then
    ({ data with writeLocked := true }, true)
  else
    ({ data with waiters := data.waiters ++ [⟨.write, request⟩] }, false)

/-- The block of `read_lock`, and whether the future stays ready. -/
def readLock (data : Data) (request : Nat) : Data × Bool :=
  if !data.writeLocked ∧ data.waiters.isEmpty then
    ({ data with readLocked := data.readLocked + 1 }, true)
  else
    ({ data with waiters := data.waiters ++ [⟨.read, request⟩] }, false)

/-- The block of `write_unlock`, with the local `unblocked`.  A `CHECK` that fails has no
result. -/
def writeUnlock (data : Data) : Option (Data × List Waiter) :=
  if !data.writeLocked ∨ data.readLocked ≠ 0 then none
  else
    match data.waiters with
    | [] => some ({ data with writeLocked := false }, [])
    | ⟨.read, _⟩ :: _ =>
        let unblocked := data.waiters.takeWhile fun waiter => waiter.type = .read
        some
          ({ writeLocked := false
             readLocked := unblocked.length
             waiters := data.waiters.dropWhile fun waiter => waiter.type = .read },
            unblocked)
    | ⟨.write, request⟩ :: rest =>
        some ({ data with writeLocked := true, waiters := rest }, [⟨.write, request⟩])

/-- The block of `read_unlock`, with the local `waiter`. -/
def readUnlock (data : Data) : Option (Data × List Waiter) :=
  if data.writeLocked ∨ data.readLocked = 0 then none
  else
    let readLocked := data.readLocked - 1
    match data.waiters with
    | [] => some ({ data with readLocked := readLocked }, [])
    | front :: rest =>
        if readLocked = 0 then
          if front.type = .write then
            some ({ readLocked := readLocked, writeLocked := true, waiters := rest }, [front])
          else none
        else some ({ data with readLocked := readLocked }, [])

/-- The function that a holder calls to unlock. -/
def unlock (data : Data) : WaiterType → Option (Data × List Waiter)
  | .read => data.readUnlock
  | .write => data.writeUnlock

/-- The function that requests a lock. -/
def lock (data : Data) (type : WaiterType) (request : Nat) : Data × Bool :=
  match type with
  | .read => data.readLock request
  | .write => data.writeLock request

end Data

/-- The lock, who holds it, and the calls that have left their block. -/
structure State where
  data : Data
  /-- How many requests were made. -/
  requests : Nat
  holders : List Waiter
  /-- The requests that were granted, in this order. -/
  granted : List Nat
  /-- The local variables of the calls that satisfy futures. -/
  unblocked : Threads Waiter
  /-- The requests whose futures are ready. -/
  ready : List Nat
  /-- A `CHECK` has failed. -/
  aborted : Bool

inductive Action where
  | lock (type : WaiterType)
  | unlock (holder : Waiter)
  /-- An unlocking call satisfies the next future. -/
  | satisfy (call : Nat)
  deriving DecidableEq, Repr

namespace State

def new : State := ⟨.new, 0, [], [], [], [], false⟩

/-- Request a lock. -/
def request (state : State) (type : WaiterType) : State :=
  let block := state.data.lock type state.requests
  let requested := { state with data := block.1, requests := state.requests + 1 }
  if block.2 then
    { requested with
      holders := ⟨type, state.requests⟩ :: state.holders
      granted := state.granted ++ [state.requests]
      ready := state.requests :: state.ready }
  else requested

/-- Unlock what a holder has locked. -/
def release (state : State) (holder : Waiter) : State :=
  match state.data.unlock holder.type with
  | none => { state with aborted := true }
  | some (data, unblocked) =>
      { state with
        data := data
        holders := unblocked ++ state.holders.erase holder
        granted := state.granted ++ unblocked.map Waiter.request
        unblocked := state.unblocked ++ [unblocked] }

def step (state : State) : Action → Option State
  | .lock type => some (state.request type)
  | .unlock holder => if holder ∈ state.holders then some (state.release holder) else none
  | .satisfy call =>
      (state.unblocked.top? call).map fun waiter =>
        { state with
          unblocked := state.unblocked.resume call []
          ready := waiter.request :: state.ready }

end State

/-- All interleavings of the calls on one lock. -/
def system : Automaton State Action where
  start state := state = .new
  step := State.step

/-- What holds of a lock between any two steps. -/
structure Fair (state : State) : Prop where
  exclusive : state.data.writeLocked = true → state.data.readLocked = 0
  readers : state.data.readLocked = state.holders.countP fun holder => holder.type = .read
  writers : (state.holders.countP fun holder => holder.type = .write) =
    if state.data.writeLocked then 1 else 0
  front : state.data.writeLocked = false → ∀ waiter ∈ state.data.waiters.head?,
    0 < state.data.readLocked ∧ waiter.type = .write
  /-- Requests are granted in the order in which they were made. -/
  order : state.granted ++ state.data.waiters.map Waiter.request = List.range state.requests
  checks : state.aborted = false
  /-- A granted request is ready, or the call that granted it is about to make it so. -/
  satisfied : (state.ready ++ state.unblocked.frames.map Waiter.request).Perm state.granted

section Steps

variable {state : State} {type : WaiterType} {holder : Waiter}

theorem Fair.initial : Fair .new := by
  constructor <;> simp [State.new, Data.new]

/-- If the lock is free, nobody waits. -/
theorem Fair.free (fair : Fair state) (unlocked : state.data.writeLocked = false)
    (unread : state.data.readLocked = 0) : state.data.waiters = [] := by
  cases waiting : state.data.waiters with
  | nil => rfl
  | cons waiter rest =>
      have front := (fair.front unlocked waiter (by simp [waiting])).1
      rw [unread] at front
      cases front

/-- A request waits if the lock is taken, and a reader also if somebody else waits. -/
theorem Fair.enqueue (fair : Fair state)
    (taken : state.data.writeLocked = true ∨
      0 < state.data.readLocked ∧ (state.data.waiters = [] → type = .write)) :
    Fair { state with
      data := { state.data with waiters := state.data.waiters ++ [⟨type, state.requests⟩] }
      requests := state.requests + 1 } := by
  refine ⟨fair.exclusive, fair.readers, fair.writers, ?_, ?_, fair.checks, fair.satisfied⟩
  · intro unlocked waiter first
    obtain locked | ⟨positive, writer⟩ := taken
    · exact absurd (unlocked.symm.trans locked) Bool.false_ne_true
    · cases waiting : state.data.waiters with
      | nil =>
          simp only [waiting, List.nil_append, List.head?_cons, Option.mem_some_iff] at first
          subst first
          exact ⟨positive, writer waiting⟩
      | cons head rest =>
          simp only [waiting, List.cons_append, List.head?_cons, Option.mem_some_iff] at first
          subst first
          exact fair.front unlocked _ (by simp [waiting])
  · change state.granted ++ (state.data.waiters ++ [_]).map Waiter.request = _
    rw [List.map_append, ← List.append_assoc, fair.order, List.range_succ]
    rfl

theorem Fair.readGranted (fair : Fair state) (unlocked : state.data.writeLocked = false)
    (nobody : state.data.waiters = []) :
    Fair { state with
      data := { state.data with readLocked := state.data.readLocked + 1 }
      requests := state.requests + 1
      holders := ⟨.read, state.requests⟩ :: state.holders
      granted := state.granted ++ [state.requests]
      ready := state.requests :: state.ready } := by
  constructor
  · intro locked
    exact absurd (unlocked.symm.trans locked) Bool.false_ne_true
  · simp [fair.readers]
  · simpa using fair.writers
  · simp [nobody]
  · have order := fair.order
    simp only [nobody, List.map_nil, List.append_nil] at order
    simp [nobody, order, List.range_succ]
  · exact fair.checks
  · apply (List.Perm.cons state.requests fair.satisfied).trans
    exact (List.perm_append_singleton _ _).symm

theorem Fair.writeGranted (fair : Fair state) (unlocked : state.data.writeLocked = false)
    (unread : state.data.readLocked = 0) :
    Fair { state with
      data := { state.data with writeLocked := true }
      requests := state.requests + 1
      holders := ⟨.write, state.requests⟩ :: state.holders
      granted := state.granted ++ [state.requests]
      ready := state.requests :: state.ready } := by
  have nobody := fair.free unlocked unread
  have writers := fair.writers
  rw [unlocked] at writers
  constructor
  · exact fun _ => unread
  · simpa using fair.readers
  · simpa using writers
  · simp
  · have order := fair.order
    simp only [nobody, List.map_nil, List.append_nil] at order
    simp [nobody, order, List.range_succ]
  · exact fair.checks
  · apply (List.Perm.cons state.requests fair.satisfied).trans
    exact (List.perm_append_singleton _ _).symm

theorem Fair.request (fair : Fair state) (type : WaiterType) : Fair (state.request type) := by
  cases type with
  | read =>
      simp only [State.request, Data.lock, Data.readLock]
      by_cases free : !state.data.writeLocked ∧ state.data.waiters.isEmpty
      · simp only [if_pos free, if_true]
        exact fair.readGranted (by simpa using free.1) (by simpa using free.2)
      · simp only [if_neg free, Bool.false_eq_true, if_false]
        apply fair.enqueue
        cases locked : state.data.writeLocked with
        | true => exact .inl rfl
        | false =>
            right
            have waits : state.data.waiters ≠ [] := by simpa [locked] using free
            cases waiting : state.data.waiters with
            | nil => exact absurd waiting waits
            | cons waiter rest =>
                exact ⟨(fair.front locked waiter (by simp [waiting])).1, by simp⟩
  | write =>
      simp only [State.request, Data.lock, Data.writeLock]
      by_cases free : !state.data.writeLocked ∧ state.data.readLocked = 0
      · simp only [if_pos free, if_true]
        exact fair.writeGranted (by simpa using free.1) free.2
      · simp only [if_neg free, Bool.false_eq_true, if_false]
        apply fair.enqueue
        cases locked : state.data.writeLocked with
        | true => exact .inl rfl
        | false => exact .inr ⟨by simpa [locked, Nat.pos_iff_ne_zero] using free, fun _ => rfl⟩

/-- The holders of one kind after another one has unlocked. -/
theorem countP_erase_holder (member : holder ∈ state.holders) (type : WaiterType) :
    (state.holders.erase holder).countP (fun other => other.type = type) =
      (state.holders.countP fun other => other.type = type) -
        if holder.type = type then 1 else 0 := by
  rw [List.countP_erase]
  simp [member]

theorem Fair.holder_read (fair : Fair state) (member : holder ∈ state.holders)
    (reads : holder.type = .read) : state.data.writeLocked = false ∧ 0 < state.data.readLocked := by
  have positive : 0 < state.data.readLocked := by
    rw [fair.readers]
    exact List.countP_pos_iff.mpr ⟨holder, member, by simp [reads]⟩
  constructor
  · cases locked : state.data.writeLocked with
    | false => rfl
    | true =>
        rw [fair.exclusive locked] at positive
        cases positive
  · exact positive

theorem Fair.holder_write (fair : Fair state) (member : holder ∈ state.holders)
    (writes : holder.type = .write) : state.data.writeLocked = true := by
  have positive : 0 < state.holders.countP fun other => other.type = .write :=
    List.countP_pos_iff.mpr ⟨holder, member, by simp [writes]⟩
  rw [fair.writers] at positive
  cases locked : state.data.writeLocked with
  | true => rfl
  | false => simp [locked] at positive

/-- What an unlocking block does: it hands the lock to the front of the queue. -/
structure Handed (state : State) (holder : Waiter) (data : Data) (unblocked : List Waiter) :
    Prop where
  queue : state.data.waiters = unblocked ++ data.waiters
  exclusive : data.writeLocked = true → data.readLocked = 0
  readers : data.readLocked = (unblocked.countP fun other => other.type = .read) +
    (state.holders.erase holder).countP fun other => other.type = .read
  writers : ((unblocked.countP fun other => other.type = .write) +
    (state.holders.erase holder).countP fun other => other.type = .write) =
      if data.writeLocked then 1 else 0
  front : data.writeLocked = false → ∀ waiter ∈ data.waiters.head?,
    0 < data.readLocked ∧ waiter.type = .write

theorem Fair.readUnlock (fair : Fair state) (member : holder ∈ state.holders)
    (reads : holder.type = .read) : ∃ data unblocked,
      state.data.readUnlock = some (data, unblocked) ∧ Handed state holder data unblocked := by
  obtain ⟨unlocked, positive⟩ := fair.holder_read member reads
  have readers : ((state.holders.erase holder).countP fun other => other.type = .read) =
      state.data.readLocked - 1 := by
    rw [countP_erase_holder member, fair.readers, if_pos reads]
  have writers : ((state.holders.erase holder).countP fun other => other.type = .write) = 0 := by
    rw [countP_erase_holder member, fair.writers, unlocked]
    simp
  have permitted : ¬ (state.data.writeLocked ∨ state.data.readLocked = 0) := by
    simp [unlocked, Nat.pos_iff_ne_zero.mp positive]
  simp only [Data.readUnlock, if_neg permitted]
  cases waiting : state.data.waiters with
  | nil =>
      refine ⟨_, _, rfl, ?_⟩
      constructor <;> simp [waiting, unlocked, readers, writers]
  | cons front rest =>
      by_cases last : state.data.readLocked - 1 = 0
      · have writes := (fair.front unlocked front (by simp [waiting])).2
        simp only [if_pos last, if_pos writes]
        refine ⟨_, _, rfl, ?_⟩
        constructor <;> simp [waiting, last, writes, readers, writers]
      · simp only [if_neg last]
        refine ⟨_, _, rfl, ?_⟩
        constructor
        · simp [waiting]
        · simp [unlocked]
        · simp [readers]
        · simp [unlocked, writers]
        · intro _ waiter first
          rw [← waiting] at first
          exact ⟨Nat.pos_iff_ne_zero.mpr last, (fair.front unlocked waiter first).2⟩

theorem Fair.writeUnlock (fair : Fair state) (member : holder ∈ state.holders)
    (writes : holder.type = .write) : ∃ data unblocked,
      state.data.writeUnlock = some (data, unblocked) ∧ Handed state holder data unblocked := by
  have locked := fair.holder_write member writes
  have unread := fair.exclusive locked
  have readers : ((state.holders.erase holder).countP fun other => other.type = .read) = 0 := by
    rw [countP_erase_holder member, ← fair.readers, unread]
    simp
  have writers : ((state.holders.erase holder).countP fun other => other.type = .write) = 0 := by
    rw [countP_erase_holder member, fair.writers, locked, if_pos writes]
    simp
  have permitted : ¬ ((!state.data.writeLocked) = true ∨ state.data.readLocked ≠ 0) := by
    simp [locked, unread]
  simp only [Data.writeUnlock, if_neg permitted]
  cases waiting : state.data.waiters with
  | nil =>
      refine ⟨_, _, rfl, ?_⟩
      constructor <;> simp [waiting, unread, readers, writers]
  | cons front rest =>
      obtain ⟨type, request⟩ := front
      cases type with
      | write =>
          refine ⟨_, _, rfl, ?_⟩
          constructor <;> simp [waiting, unread, readers, writers]
      | read =>
          refine ⟨_, _, rfl, ?_⟩
          -- The group of readers at the front is unblocked.
          have group : ∀ waiter ∈ (⟨.read, request⟩ :: rest).takeWhile
              (fun waiter : Waiter => waiter.type = .read), waiter.type = .read := by
            intro waiter inside
            simpa using List.mem_takeWhile_imp inside
          constructor
          · rw [waiting]
            exact (List.takeWhile_append_dropWhile).symm
          · simp
          · rw [readers, List.countP_eq_length.mpr]
            · rfl
            · simpa using group
          · rw [writers, List.countP_eq_zero.mpr]
            · rfl
            · intro waiter inside
              simp [group waiter inside]
          · intro _ waiter first
            refine ⟨by simp, ?_⟩
            have stops := List.head?_dropWhile_not
              (fun waiter : Waiter => waiter.type = .read) (⟨.read, request⟩ :: rest)
            rw [Option.mem_def.mp first] at stops
            cases type : waiter.type with
            | write => rfl
            | read => simp [type] at stops

theorem Handed.fair (fair : Fair state) {data : Data} {unblocked : List Waiter}
    (handed : Handed state holder data unblocked) :
    Fair { state with
      data := data
      holders := unblocked ++ state.holders.erase holder
      granted := state.granted ++ unblocked.map Waiter.request
      unblocked := state.unblocked ++ [unblocked] } := by
  refine ⟨handed.exclusive, ?_, ?_, handed.front, ?_, fair.checks, ?_⟩
  · rw [List.countP_append]
    exact handed.readers
  · rw [List.countP_append]
    exact handed.writers
  · change (state.granted ++ _) ++ data.waiters.map Waiter.request = _
    rw [List.append_assoc, ← List.map_append, ← handed.queue]
    exact fair.order
  · change (state.ready ++ (state.unblocked ++ [unblocked]).flatten.map Waiter.request).Perm _
    rw [List.flatten_append, List.map_append, ← List.append_assoc]
    apply List.Perm.append fair.satisfied
    simp

theorem Fair.release (fair : Fair state) (member : holder ∈ state.holders) :
    Fair (state.release holder) := by
  have handed : ∃ data unblocked, state.data.unlock holder.type = some (data, unblocked) ∧
      Handed state holder data unblocked := by
    cases type : holder.type with
    | read => exact fair.readUnlock member type
    | write => exact fair.writeUnlock member type
  obtain ⟨data, unblocked, unlocked, handed⟩ := handed
  rw [State.release, unlocked]
  exact handed.fair fair

theorem Fair.satisfy (fair : Fair state) {call : Nat} {waiter : Waiter}
    (present : state.unblocked.top? call = some waiter) :
    Fair { state with
      unblocked := state.unblocked.resume call []
      ready := waiter.request :: state.ready } := by
  refine ⟨fair.exclusive, fair.readers, fair.writers, fair.front, fair.order, fair.checks, ?_⟩
  refine List.Perm.trans ?_ fair.satisfied
  have moved := (Threads.frames_resume_perm present []).map Waiter.request
  calc
    (waiter.request :: (state.ready ++ _)).Perm (state.ready ++ (waiter.request :: _)) :=
      List.perm_middle.symm
    _ |>.Perm (state.ready ++ state.unblocked.frames.map Waiter.request) :=
      moved.append_left state.ready

theorem Fair.step {action : Action} {next : State} (fair : Fair state)
    (stepped : state.step action = some next) : Fair next := by
  cases action with
  | lock type =>
      cases stepped
      exact fair.request type
  | unlock holder =>
      simp only [State.step] at stepped
      split at stepped
      · rename_i member
        cases stepped
        exact fair.release member
      · cases stepped
  | satisfy call =>
      obtain ⟨waiter, present, rfl⟩ := Option.map_eq_some_iff.mp stepped
      exact fair.satisfy present

end Steps

theorem Fair.of_reachable {state : State} (reached : system.Reachable state) : Fair state := by
  induction reached with
  | start started =>
      cases started
      exact .initial
  | step _ _ stepped ih => exact ih.step stepped

/-- What a lock guarantees in every state. -/
structure Sound (state : State) : Prop extends Fair state where
  /-- A writer holds the lock alone. -/
  alone : ∀ holder ∈ state.holders, holder.type = .write → state.holders = [holder]
  free : state.data.writeLocked = false → state.data.readLocked = 0 → state.data.waiters = []

theorem Fair.alone {state : State} (fair : Fair state) {holder : Waiter}
    (member : holder ∈ state.holders) (writes : holder.type = .write) :
    state.holders = [holder] := by
  have locked := fair.holder_write member writes
  have others : state.holders.countP (fun other => ¬ (decide (other.type = .write)) = true) =
      state.holders.countP fun other => other.type = .read := by
    congr 1
    funext other
    cases other.type <;> rfl
  have total : state.holders.length = 1 := by
    rw [List.length_eq_countP_add_countP (fun other => decide (other.type = .write)), others,
      ← fair.readers, fair.exclusive locked, fair.writers, locked]
    rfl
  obtain ⟨only, single⟩ := List.length_eq_one_iff.mp total
  rw [single] at member
  rw [single, List.mem_singleton.mp member]

end ReadWriteLock

open ReadWriteLock in
/-- The lock is exclusive and fair in every state of every interleaving. -/
theorem readWriteLock_sound {state : State} (reached : system.Reachable state) : Sound state := by
  have fair := Fair.of_reachable reached
  constructor
  · exact fair
  · intro holder member writes
    exact fair.alone member writes
  · exact fair.free

/-- A writer waits for a reader, and two readers wait behind it. -/
def writerSchedule : List ReadWriteLock.Action :=
  [.lock .read, .lock .write, .lock .read, .lock .read, .unlock ⟨.read, 0⟩, .unlock ⟨.write, 1⟩,
    .satisfy 0, .satisfy 1]

open ReadWriteLock in
theorem readWriteLock_sound_readers : ∃ state, system.run .new writerSchedule = some state ∧
    Sound state ∧ state.granted = [0, 1, 2, 3] ∧ state.data.readLocked = 2 := by
  obtain ⟨state, executed, observed⟩ : ∃ state ∈ system.run .new writerSchedule,
      state.granted = [0, 1, 2, 3] ∧ state.data.readLocked = 2 := by
    decide
  exact ⟨state, executed, readWriteLock_sound (.of_run rfl executed), observed⟩

end Libprocess
