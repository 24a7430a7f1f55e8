import Libprocess.Process.Steps

/-!
# The token of a process

A runnable process has one token: its entry in the run queue, or the thread that
is about to make that entry, or the thread that took the entry off and runs the
process.  Storing `BLOCKED` gives the token up, and the exchange from `BLOCKED`
back to `READY` creates it again.
-/

namespace Libprocess

open Concurrency

namespace ManagerFrame

/-- The process whose token a frame holds. -/
def holder : ManagerFrame → Option ProcessId
  | .push process => some process
  | .resumeLoad process => some process
  | .initializing process => some process
  | .storeReady process => some process
  | .testEmpty process => some process
  | .storeBlocked process => some process
  | .dequeue process => some process
  | .loadTermination process _ => some process
  | .purge process _ => some process
  | .filter process _ _ => some process
  | .serve process _ => some process
  | .checkReady process => some process
  | .storeTerminating process => some process
  | .decomission process => some process
  | .removeHelp process => some process
  | .erase process => some process
  | .exited process => some process
  | _ => none

def holds (process : ProcessId) (frame : ManagerFrame) : Bool :=
  frame.holder = some process

/-- The states in which the token of a process can be at a program point. -/
def phase : ManagerFrame → ProcessState → Bool
  | .push _, state => state = .bottom ∨ state = .ready
  | .resumeLoad _, state => state = .bottom ∨ state = .ready
  | .initializing _, state => state = .bottom
  | .storeReady _, state => state = .bottom
  | .testEmpty _, state => state = .ready
  | .storeBlocked _, state => state = .ready
  | .dequeue _, state => state = .ready
  | .loadTermination _ _, state => state = .ready
  | .purge _ _, state => state = .ready
  | .filter _ _ _, state => state = .ready
  | .serve _ _, state => state = .ready
  | .checkReady _, state => state = .ready
  | .storeTerminating _, state => state = .ready
  | .decomission _, state => state = .terminating
  | .removeHelp _, state => state = .terminating
  | .erase _, state => state = .terminating
  | .exited _, state => state = .terminating
  | _, _ => true

/-- A call of `spawn` before it inserts the process. -/
def spawns (process : ProcessId) : ManagerFrame → Bool
  | .spawnLoad other => other = process
  | .spawnInsert other => other = process
  | _ => false

end ManagerFrame

/-- The tokens of a process. -/
def Manager.tokens (manager : Manager) (frames : List ManagerFrame) (process : ProcessId) :
    Nat :=
  manager.runq.count process + frames.countP (·.holds process)

/-- The token invariant of one process. -/
structure Tokens (manager : Manager) (frames : List ManagerFrame) (process : ProcessId) :
    Prop where
  atMost : manager.tokens frames process ≤ 1
  runnable : manager.spawned process = true →
    (manager.process process).state = .bottom ∨ (manager.process process).state = .ready →
    manager.tokens frames process = 1
  blocked : (manager.process process).state = .blocked → manager.tokens frames process = 0
  unspawned : manager.spawned process = false →
    (manager.process process).state = .bottom ∧ manager.tokens frames process = 0
  queued : process ∈ manager.runq →
    (manager.process process).state = .bottom ∨ (manager.process process).state = .ready
  phases : ∀ frame ∈ frames, frame.holder = some process →
    frame.phase (manager.process process).state = true
  spawning : frames.countP (·.spawns process) + (manager.spawned process).toNat ≤
    (manager.spawning process).toNat

namespace Tokens

variable {manager next : Manager} {process : ProcessId} {frame : ManagerFrame}
  {continuation before after : List ManagerFrame}

section

variable (tokens : Tokens manager before process)

include tokens

section

variable (exchange : Exchange frame continuation before after)

include exchange

/-- A step that leaves the state of the process alone and at most moves its
token between threads and the run queue. -/
theorem keep (state : (next.process process).state = (manager.process process).state)
    (spawned : next.spawned process = manager.spawned process)
    (total : next.runq.count process + continuation.countP (·.holds process) =
      manager.runq.count process + if frame.holds process then 1 else 0)
    (queued : process ∈ next.runq → process ∈ manager.runq ∨ frame = .push process)
    (phases : (frame.holder = some process →
        frame.phase (manager.process process).state = true) →
      ∀ other ∈ continuation, other.holder = some process →
        other.phase (manager.process process).state = true)
    (spawning : continuation.countP (·.spawns process) + (manager.spawning process).toNat ≤
      (if frame.spawns process then 1 else 0) + (next.spawning process).toNat) :
    Tokens next after process := by
  have same : next.tokens after process = manager.tokens before process := by
    have counts := exchange.countP (·.holds process)
    unfold Manager.tokens
    omega
  have own := tokens.phases frame exchange.member
  exact
    { atMost := by rw [same]; exact tokens.atMost
      runnable := by rw [same, state, spawned]; exact tokens.runnable
      blocked := by rw [same, state]; exact tokens.blocked
      unspawned := by rw [same, state, spawned]; exact tokens.unspawned
      queued := by
        intro present
        rw [state]
        rcases queued present with already | rfl
        · exact tokens.queued already
        · simpa [ManagerFrame.phase] using own rfl
      phases := by
        intro other member holds
        rw [state]
        rcases exchange.source member with entered | old
        · exact phases own other entered holds
        · exact tokens.phases other old holds
      spawning := by
        have counts := exchange.countP (·.spawns process)
        have bound := tokens.spawning
        rw [spawned]
        omega }

/-- A thread that holds the token, or that finds no token, is alone with the
process. -/
theorem alone (sole : frame.holds process = true ∨ manager.tokens before process = 0) :
    manager.runq.count process = 0 ∧
      (after.filter (·.holds process)).Perm (continuation.filter (·.holds process)) := by
  have perm := exchange.perm.filter (·.holds process)
  rw [List.filter_append] at perm
  have atMost := tokens.atMost
  unfold Manager.tokens at atMost sole
  rcases sole with held | none
  · have positive : 0 < before.countP (·.holds process) :=
      List.countP_pos_iff.mpr ⟨frame, exchange.member, held⟩
    have one : (before.filter (·.holds process)).length = 1 := by
      rw [← List.countP_eq_length_filter]
      omega
    obtain ⟨only, singleton⟩ := List.length_eq_one_iff.mp one
    have itself : frame = only := by
      have member : frame ∈ before.filter (·.holds process) :=
        List.mem_filter.mpr ⟨exchange.member, held⟩
      rw [singleton] at member
      simpa using member
    refine ⟨by omega, ?_⟩
    rw [singleton, List.filter_cons_of_pos held, ← itself] at perm
    exact (perm.trans List.perm_append_comm).cons_inv
  · have empty : before.filter (·.holds process) = [] := by
      rw [← List.length_eq_zero_iff, ← List.countP_eq_length_filter]
      omega
    have free : ¬ frame.holds process = true := by
      intro held
      have member : frame ∈ before.filter (·.holds process) :=
        List.mem_filter.mpr ⟨exchange.member, held⟩
      rw [empty] at member
      simp at member
    refine ⟨by omega, ?_⟩
    rw [empty, List.filter_cons_of_neg free, List.append_nil] at perm
    exact perm

/-- A step that stores the state of the process, or inserts it, and decides
alone whether a token remains. -/
theorem become (sole : frame.holds process = true ∨ manager.tokens before process = 0)
    (runq : next.runq = manager.runq) (spawned : next.spawned process = true)
    (atMost : continuation.countP (·.holds process) ≤ 1)
    (runnable : (next.process process).state = .bottom ∨
      (next.process process).state = .ready → continuation.countP (·.holds process) = 1)
    (blocked : (next.process process).state = .blocked →
      continuation.countP (·.holds process) = 0)
    (phases : ∀ other ∈ continuation, other.holder = some process →
      other.phase (next.process process).state = true)
    (spawning : after.countP (·.spawns process) + 1 ≤ (next.spawning process).toNat) :
    Tokens next after process := by
  obtain ⟨unqueued, perm⟩ := tokens.alone exchange sole
  have count : next.tokens after process = continuation.countP (·.holds process) := by
    have lengths := perm.length_eq
    rw [← List.countP_eq_length_filter, ← List.countP_eq_length_filter] at lengths
    unfold Manager.tokens
    rw [runq, unqueued, lengths, Nat.zero_add]
  exact
    { atMost := by rw [count]; exact atMost
      runnable := fun _ state => by rw [count]; exact runnable state
      blocked := fun state => by rw [count]; exact blocked state
      unspawned := fun absent => by simp [spawned] at absent
      queued := by
        intro present
        rw [runq] at present
        exact absurd present (List.count_eq_zero.mp unqueued)
      phases := by
        intro other member held
        have inAfter : other ∈ after.filter (·.holds process) :=
          List.mem_filter.mpr ⟨member, by simpa [ManagerFrame.holds] using held⟩
        exact phases other (List.mem_filter.mp (perm.mem_iff.mp inAfter)).1 held
      spawning := by simpa [spawned] using spawning }

end

/-- A holder of the token of a process implies that the process was spawned. -/
theorem spawned_of_holds (member : frame ∈ before) (held : frame.holds process = true) :
    manager.spawned process = true := by
  by_contra absent
  obtain ⟨-, none⟩ := tokens.unspawned (by simpa using absent)
  have positive : 0 < before.countP (·.holds process) :=
    List.countP_pos_iff.mpr ⟨frame, member, held⟩
  unfold Manager.tokens at none
  omega

end

end Tokens

namespace Manager

variable {manager next : Manager} {process : ProcessId} {frame : ManagerFrame}
  {continuation before after : List ManagerFrame} {choice : ManagerChoice}

section

variable (other : ProcessId)

@[simp] theorem storeState_process (state : ProcessState) :
    ((manager.storeState other state).process process).state =
      if process = other then state else (manager.process process).state := by
  by_cases same : process = other <;> simp [storeState, store, Function.update, same]

@[simp] theorem storeEvents_state (events : EventQueue Event) :
    ((manager.storeEvents other events).process process).state =
      (manager.process process).state := by
  by_cases same : process = other <;> simp [storeEvents, store, Function.update, same]

@[simp] theorem storeTermination_state :
    ((manager.storeTermination other).process process).state =
      (manager.process process).state := by
  by_cases same : process = other <;> simp [storeTermination, store, Function.update, same]

@[simp] theorem storeState_events (state : ProcessState) :
    ((manager.storeState other state).process process).events =
      (manager.process process).events := by
  by_cases same : process = other <;> simp [storeState, store, Function.update, same]

@[simp] theorem storeEvents_events (events : EventQueue Event) :
    ((manager.storeEvents other events).process process).events =
      if process = other then events else (manager.process process).events := by
  by_cases same : process = other <;> simp [storeEvents, store, Function.update, same]

@[simp] theorem storeTermination_events :
    ((manager.storeTermination other).process process).events =
      (manager.process process).events := by
  by_cases same : process = other <;> simp [storeTermination, store, Function.update, same]

@[simp] theorem storeState_spawning (state : ProcessState) :
    (manager.storeState other state).spawning = manager.spawning := rfl

@[simp] theorem storeState_runq (state : ProcessState) :
    (manager.storeState other state).runq = manager.runq := rfl

end

/-- What entering a function of the manager does: it marks the process that is
being spawned. -/
theorem call_cases {request : Request} (entered : manager.call request = some next) :
    next.process = manager.process ∧ next.runq = manager.runq ∧
      next.spawned = manager.spawned ∧
      ∀ process, (if request.entry.spawns process then 1 else 0) +
        (manager.spawning process).toNat = (next.spawning process).toNat := by
  cases request with
  | spawn other =>
      simp only [call] at entered
      split at entered
      next => simp at entered
      next unused =>
        cases entered
        refine ⟨rfl, rfl, rfl, fun process => ?_⟩
        by_cases same : other = process
        · subst other
          simp [Request.entry, ManagerFrame.spawns, unused]
        · simp [Request.entry, ManagerFrame.spawns, same, Ne.symm same]
  | enqueue other event | wait other =>
      simp only [call] at entered
      cases entered
      exact ⟨rfl, rfl, rfl, fun _ => by simp [Request.entry, ManagerFrame.spawns]⟩

theorem entry_holder (request : Request) : request.entry.holder = none := by
  cases request <;> rfl

section

variable (tokens : Tokens manager before process)

include tokens

/-- A call keeps the token that the code around runs under. -/
theorem call_tokens {request : Request}
    (called : manager.call request = some next)
    (exchange : Exchange frame [request.entry, frame] before after) :
    Tokens next after process := by
  obtain ⟨fields, runq, spawned, marked⟩ := call_cases called
  have free := entry_holder request
  refine tokens.keep exchange (by rw [fields]) (by rw [spawned]) ?_
    (by rw [runq]; exact Or.inl) ?_ ?_
  · simp [List.countP_cons, ManagerFrame.holds, free, runq]
  · intro own other member held
    simp only [List.mem_cons, List.not_mem_nil, or_false] at member
    rcases member with rfl | rfl
    · simp [free] at held
    · exact own held
  · have mark := marked process
    simp only [List.countP_cons, List.countP_nil]
    omega

/-- The thread that wins the exchange from `BLOCKED` to `READY` takes the token. -/
theorem exchange_tokens {other : ProcessId} {won : ManagerFrame} (holder : won.holder = some other)
    (phase : won.phase .ready = true) (spawns : ∀ process, won.spawns process = false)
    (free : frame.holder = none) (past : ∀ process, frame.spawns process = false)
    (blocked : (manager.process other).state = .blocked)
    (exchange : Exchange frame [won] before after) :
    Tokens (manager.storeState other .ready) after process := by
  by_cases same : process = other
  · subst other
    have spawned : manager.spawned process = true := by
      by_contra absent
      have bottom := (tokens.unspawned (by simpa using absent)).1
      rw [blocked] at bottom
      cases bottom
    have counts := exchange.countP (·.spawns process)
    have bound := tokens.spawning
    refine tokens.become exchange (.inr (tokens.blocked blocked)) rfl spawned ?_ ?_ ?_ ?_ ?_
    · simp [ManagerFrame.holds, holder]
    · simp [ManagerFrame.holds, holder]
    · simp
    · simp [phase]
    · simp only [List.countP_cons, List.countP_nil, spawns, past, spawned,
        Bool.false_eq_true, if_false, storeState_spawning, Bool.toNat_true] at counts bound ⊢
      omega
  · refine tokens.keep exchange (by simp [same]) rfl ?_ Or.inl ?_ ?_
    · simp [ManagerFrame.holds, holder, free, Ne.symm same]
    · simp [holder, Ne.symm same]
    · simp [spawns, past]

/-- A thread takes the token off the run queue. -/
theorem take_tokens {other : ProcessId}
    {rest : List ProcessId} {below : ManagerFrame} (perm : manager.runq.Perm (other :: rest))
    (free : frame.holder = none) (past : ∀ process, frame.spawns process = false)
    (idle : below.holder = none) (started : ∀ process, below.spawns process = false)
    (exchange : Exchange frame [.resumeLoad other, below] before after) :
    Tokens { manager with runq := rest } after process := by
  have own : (ManagerFrame.resumeLoad other).holder = some other := rfl
  refine tokens.keep exchange rfl rfl ?_
    (fun present => .inl (perm.mem_iff.mpr (List.mem_cons_of_mem _ present))) ?_ ?_
  · simp [perm.count_eq, List.countP_cons, List.count_cons, ManagerFrame.holds, own,
      free, idle]
  · intro _ entered member held
    simp only [List.mem_cons, List.not_mem_nil, or_false] at member
    rcases member with rfl | rfl
    · cases held
      simpa [ManagerFrame.phase] using tokens.queued (perm.mem_iff.mpr List.mem_cons_self)
    · simp [idle] at held
  · have apart : (ManagerFrame.resumeLoad other).spawns process = false := rfl
    simp [apart, past, started]

/-- A step that leaves the run queue alone and hands the token of a process, if
the frame holds it, to its only continuation. -/
theorem pass_tokens (exchange : Exchange frame continuation before after)
    (state : (next.process process).state = (manager.process process).state)
    (spawned : next.spawned = manager.spawned) (spawning : next.spawning = manager.spawning)
    (runq : next.runq = manager.runq)
    (held : continuation.countP (·.holds process) = if frame.holds process then 1 else 0)
    (phases : (frame.holder = some process →
        frame.phase (manager.process process).state = true) →
      ∀ other ∈ continuation, other.holder = some process →
        other.phase (manager.process process).state = true)
    (spawns : continuation.countP (·.spawns process) ≤
      if frame.spawns process then 1 else 0) :
    Tokens next after process := by
  refine tokens.keep exchange state (by rw [spawned]) ?_ (by rw [runq]; exact Or.inl) phases ?_
  · rw [runq, held]
  · rw [spawning]
    omega

/-- A step that stores the state of the process whose token the frame holds. -/
theorem storeState_tokens {other : ProcessId}
    {state : ProcessState} (holder : frame.holder = some other)
    (past : ∀ process, frame.spawns process = false)
    (exchange : Exchange frame continuation before after)
    (holders : ∀ held ∈ continuation, held.holder = none ∨ held.holder = some other)
    (atMost : continuation.countP (·.holds other) ≤ 1)
    (runnable : state = .bottom ∨ state = .ready → continuation.countP (·.holds other) = 1)
    (blocked : state = .blocked → continuation.countP (·.holds other) = 0)
    (phases : ∀ held ∈ continuation, held.holder = some other → held.phase state = true)
    (spawns : continuation.countP (·.spawns process) = 0) :
    Tokens (manager.storeState other state) after process := by
  by_cases same : process = other
  · subst other
    have held : frame.holds process = true := by simp [ManagerFrame.holds, holder]
    have spawned := tokens.spawned_of_holds exchange.member held
    refine tokens.become exchange (.inl held) rfl spawned atMost ?_ ?_ ?_ ?_
    · simpa using runnable
    · simpa using blocked
    · simpa using phases
    · have counts := exchange.countP (·.spawns process)
      have bound := tokens.spawning
      simp only [spawns, past, spawned, Bool.false_eq_true, if_false, storeState_spawning,
        Bool.toNat_true] at counts bound ⊢
      omega
  · have foreign : ∀ held ∈ continuation, held.holder ≠ some process := by
      intro held member owner
      rcases holders held member with free | owned
      · simp [free] at owner
      · rw [owned, Option.some.injEq] at owner
        exact same owner.symm
    refine pass_tokens tokens exchange (by simp [same]) rfl rfl rfl ?_ ?_ ?_
    · have none : continuation.countP (·.holds process) = 0 :=
        List.countP_eq_zero.mpr fun held member => by
          simpa [ManagerFrame.holds] using foreign held member
      rw [none]
      simp [ManagerFrame.holds, holder, Ne.symm same]
    · intro _ held member owner
      exact absurd owner (foreign held member)
    · simp [spawns]

attribute [local simp] ManagerFrame.holds ManagerFrame.holder ManagerFrame.phase
  ManagerFrame.spawns

/-- The insertion into the process table creates the first token. -/
theorem insert_tokens {other : ProcessId}
    {table : List ProcessId}
    (exchange : Exchange (.spawnInsert other) [.push other] before after) :
    Tokens { manager with
      processes := table
      spawned := Function.update manager.spawned other true } after process := by
  by_cases same : process = other
  · subst other
    have counts := exchange.countP (·.spawns process)
    have bound := tokens.spawning
    have positive : 0 < before.countP (·.spawns process) :=
      List.countP_pos_iff.mpr ⟨_, exchange.member, by simp⟩
    have atMost := Bool.toNat_le (manager.spawning process)
    have unspawned : manager.spawned process = false := by
      cases spawned : manager.spawned process with
      | false => rfl
      | true =>
          rw [spawned, Bool.toNat_true] at bound
          omega
    obtain ⟨bottom, none⟩ := tokens.unspawned unspawned
    refine tokens.become exchange (.inr none) rfl (by simp) ?_ ?_ ?_ ?_ ?_
    · simp
    · simp
    · simp [bottom]
    · simp [bottom]
    · have own : (ManagerFrame.spawnInsert process).spawns process = true := by
        simp
      have pushed : (ManagerFrame.push process).spawns process = false := rfl
      simp only [List.countP_cons, List.countP_nil, own, pushed, Bool.false_eq_true, if_true,
        if_false] at counts
      change _ ≤ (manager.spawning process).toNat
      omega
  · refine tokens.keep exchange rfl (by simp [same]) ?_ Or.inl ?_ ?_
    · simp [Ne.symm same]
    · simp [Ne.symm same]
    · simp

/-- The end of `cleanup` gives the token of a terminating process up. -/
theorem exited_tokens {other : ProcessId}
    (exchange : Exchange (.exited other) [] before after) :
    Tokens manager after process := by
  by_cases same : process = other
  · subst other
    have held : (ManagerFrame.exited process).holds process = true := by
      simp
    have spawned := tokens.spawned_of_holds exchange.member held
    have terminating : (manager.process process).state = .terminating := by
      simpa using tokens.phases _ exchange.member rfl
    have counts := exchange.countP (·.spawns process)
    have bound := tokens.spawning
    refine tokens.become exchange (.inl held) rfl spawned ?_ ?_ ?_ ?_ ?_
    · simp
    · simp [terminating]
    · simp
    · simp
    · simp [spawned] at counts bound ⊢
      omega
  · refine pass_tokens tokens exchange rfl rfl rfl rfl ?_ ?_ ?_ <;>
      simp [Ne.symm same]

theorem leads_tokens {entered : ManagerFrame}
    (leads : manager.Leads frame entered) (exchange : Exchange frame [entered] before after) :
    Tokens manager after process := by
  cases leads with
  | initializing other state | resume other state =>
      refine pass_tokens tokens exchange rfl rfl rfl rfl (by simp) ?_ (by simp)
      simp +contextual
      rintro - rfl
      exact state
  | _ =>
      refine pass_tokens tokens exchange rfl rfl rfl rfl ?_ ?_ ?_ <;> simp

/-- Every step of the manager keeps the token invariant. -/
theorem step_tokens (stepped : manager.step frame choice = some (next, continuation))
    (exchange : Exchange frame continuation before after) :
    Tokens next after process := by
  cases step_cases stepped with
  | returns returns =>
      cases returns <;>
        refine pass_tokens tokens exchange rfl rfl rfl rfl ?_ ?_ ?_ <;> simp
  | leads leads => exact leads_tokens tokens leads exchange
  | call _ _ called => exact call_tokens tokens called exchange
  | exited => exact exited_tokens tokens exchange
  | user | initializing | removeHelp | filter | workerStart | workerIdle | workerWoken
  | waitRunning | waitDone | epoch | inject | dequeue | purge | decomission | erase =>
      refine pass_tokens tokens exchange (by simp) rfl rfl rfl ?_ ?_ ?_ <;> simp
  | serve | filtered | accept =>
      refine pass_tokens tokens exchange (by simp) rfl rfl rfl ?_ ?_ ?_ <;> split <;> simp
  | take _ _ queue =>
      exact take_tokens tokens (queue ▸ .refl _) rfl (fun _ => rfl) rfl (fun _ => rfl) exchange
  | extract _ present =>
      exact take_tokens tokens (List.perm_cons_erase present) rfl (fun _ => rfl) rfl
        (fun _ => rfl) exchange
  | insert => exact insert_tokens tokens exchange
  | push other =>
      refine tokens.keep exchange rfl rfl ?_ ?_ ?_ ?_
      · simp [List.count_cons]
      · simp [eq_comm]
      · simp
      · simp
  | wake _ blocked | back _ blocked =>
      exact exchange_tokens tokens rfl rfl (fun _ => rfl) rfl (fun _ => rfl) blocked exchange
  | storeReady | storeBlocked | storeTerminating =>
      refine storeState_tokens tokens rfl (fun _ => rfl) exchange ?_ ?_ ?_ ?_ ?_ ?_ <;> simp

end

end Manager

end Libprocess
