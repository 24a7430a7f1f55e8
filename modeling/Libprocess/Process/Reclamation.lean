import Libprocess.Process.References

/-!
# Reclaiming processes

A frame that uses a process needs a reference to it, holds its token, or is about to spawn it.  When
`cleanup` has waited for the references, the token is the only one of these that is left, and
`cleanup` gives it up with the gate.
-/

namespace Libprocess

open Concurrency

/-- A frame that uses a process needs a reference or the token, or spawns it. -/
theorem ManagerFrame.accesses_cases {frame : ManagerFrame} {process : ProcessId}
    (accesses : frame.accesses process = true) : frame.borrows process = true ∨
      frame.refers process = true ∨ frame.holds process = true ∨ frame.spawns process = true := by
  cases frame <;> simp_all [ManagerFrame.accesses, ManagerFrame.borrows, ManagerFrame.refers,
    ManagerFrame.holds, ManagerFrame.holder, ManagerFrame.spawns]

/-- `cleanup` has erased a process. -/
def ManagerFrame.exits : ManagerFrame → Bool
  | .exited _ => true
  | _ => false

namespace Manager

variable {manager next : Manager} {process : ProcessId} {frame : ManagerFrame}
  {choice : ManagerChoice} {continuation follow : List ManagerFrame}

/-- The step takes a reference from `use`. -/
def enters (manager : Manager) (process : ProcessId) : ManagerFrame → ManagerChoice → Bool
  | .waitUse other, _ => other = process ∧ process ∈ manager.processes
  | frame, .call (.enqueue other _) => frame.runsCode = true ∧ other = process
  | _, _ => false

/-- How a step of one frame passes on what it has of a process. -/
structure Passes (manager next : Manager) (process : ProcessId) (frame : ManagerFrame)
    (choice : ManagerChoice) (continuation : List ManagerFrame) : Prop where
  borrows : continuation.countP (·.borrows process) ≤
    (if frame.borrows process then 1 else 0) + if manager.enters process frame choice then 1 else 0
  refers : ∀ entered ∈ continuation, entered.refers process = true →
    frame.refers process = true ∨ frame.holds process = true ∧ frame ≠ .exited process
  holds : frame.spawns process = false → frame.borrows process = false →
    frame.refers process = false →
    next.runq.count process + continuation.countP (·.holds process) ≤
      manager.runq.count process + if frame.holds process then 1 else 0
  exits : .exited process ∈ continuation → frame = .erase process ∨ frame = .exited process
  fields : frame.borrows process = false → frame.refers process = false →
    frame.holds process = false → (next.process process).state = (manager.process process).state

theorem entry_borrows {request : Request} (borrowed : request.entry.borrows process = true) :
    ∃ event, request = .enqueue process event := by
  cases request with
  | enqueue other event =>
      obtain rfl : other = process := by simpa [Request.entry, ManagerFrame.borrows] using borrowed
      exact ⟨event, rfl⟩
  | spawn | wait => cases borrowed

/-- A call may take a reference, and keeps what the code around has. -/
theorem call_passes {request : Request} (code : frame.runsCode = true)
    (called : manager.call request = some next) :
    Passes manager next process frame (.call request) [request.entry, frame] := by
  obtain ⟨fields, runq, -, -⟩ := call_cases called
  have unborrowed : frame.borrows process = false := by
    cases frame <;> first | rfl | cases code
  constructor
  · have own : (if request.entry.borrows process then 1 else 0) ≤
        if manager.enters process frame (.call request) then 1 else 0 := by
      split
      · rename_i borrowed
        obtain ⟨event, rfl⟩ := entry_borrows borrowed
        have enters : manager.enters process frame (.call (.enqueue process event)) = true := by
          cases frame <;> first | exact decide_eq_true ⟨rfl, rfl⟩ | cases code
        exact Nat.le_of_eq (if_pos enters).symm
      · exact Nat.zero_le _
    rw [List.countP_cons, List.countP_singleton, unborrowed]
    simpa using own
  · intro other member own
    simp only [List.mem_cons, List.not_mem_nil, or_false] at member
    obtain rfl | rfl := member
    · cases request <;> cases own
    · exact .inl own
  · intro _ _ _
    rw [runq, List.countP_cons, List.countP_singleton]
    have outside : request.entry.holds process = false := by
      simp [ManagerFrame.holds, entry_holder]
    simp [outside]
  · intro member
    simp only [List.mem_cons, List.not_mem_nil, or_false] at member
    obtain entry | same := member
    · cases request <;> cases entry
    · exact .inr same.symm
  · intro _ _ _
    rw [fields]

/-- The call returns. -/
theorem passes_none (fields : ∀ process, (next.process process).state =
      (manager.process process).state) (runq : next.runq = manager.runq) :
    Passes manager next process frame choice [] where
  borrows := Nat.zero_le _
  refers _ member := absurd member List.not_mem_nil
  holds _ _ _ := by
    rw [runq]
    exact Nat.le_add_right _ _
  exits member := absurd member List.not_mem_nil
  fields _ _ _ := fields process

/-- The call goes on with what it has. -/
theorem passes_one {entered : ManagerFrame}
    (fields : ∀ process, (next.process process).state = (manager.process process).state)
    (runq : next.runq = manager.runq)
    (borrows : entered.borrows process = frame.borrows process ∨
      entered.borrows process = false)
    (refers : entered.refers process = frame.refers process ∨ entered.refers process = false ∨
      entered.refers process = frame.holds process ∧ frame.exits = false)
    (holds : entered.holds process = frame.holds process ∨ entered.holds process = false)
    (exits : entered.exits = false ∨ ∃ other, entered = .exited other ∧ frame = .erase other) :
    Passes manager next process frame choice [entered] where
  borrows := by
    apply Nat.le_add_right_of_le
    rw [List.countP_singleton]
    obtain same | none := borrows
    · exact Nat.le_of_eq (by rw [same])
    · simp [none]
  refers other member own := by
    rw [List.mem_singleton.mp member] at own
    obtain same | none | ⟨same, stays⟩ := refers
    · exact .inl (same ▸ own)
    · cases none.symm.trans own
    · refine .inr ⟨same ▸ own, ?_⟩
      rintro rfl
      cases stays
  holds _ _ _ := by
    rw [runq, List.countP_singleton]
    obtain same | none := holds
    · exact Nat.le_of_eq (by rw [same])
    · simp [none]
  exits member := by
    obtain rfl := List.mem_singleton.mp member
    obtain stays | ⟨other, same, erases⟩ := exits
    · cases stays
    · cases same
      exact .inl erases
  fields _ _ _ := fields process

attribute [local simp] ManagerFrame.borrows ManagerFrame.refers ManagerFrame.holds
  ManagerFrame.holder

theorem leads_passes {entered : ManagerFrame} (leads : manager.Leads frame entered) :
    Passes manager manager process frame choice [entered] := by
  cases leads with
  | waitUse other present =>
      constructor
      · by_cases same : other = process
        · subst same
          simp [enters, present]
        · simp [same]
      · simp
      · simp
      · simp
      · exact fun _ _ _ => rfl
  | waitExtract => exact passes_one (fun _ => rfl) rfl (.inr rfl) (.inl rfl) (.inl rfl) (.inl rfl)
  | resume =>
      exact passes_one (fun _ => rfl) rfl (.inl rfl) (.inr (.inr ⟨by simp, rfl⟩)) (.inl rfl)
        (.inl rfl)
  | _ => exact passes_one (fun _ => rfl) rfl (.inl rfl) (.inl rfl) (.inl rfl) (.inl rfl)

theorem step_passes (stepped : manager.step frame choice = some (next, continuation)) :
    Passes manager next process frame choice continuation := by
  cases step_cases stepped with
  | returns | user | exited | waitDone | epoch => exact passes_none (fun _ => rfl) rfl
  | leads leads => exact leads_passes leads
  | call code chosen called =>
      subst chosen
      exact call_passes code called
  | initializing | removeHelp | filter | workerStart | workerIdle | workerWoken | waitRunning
  | inject | dequeue | purge | decomission =>
      exact passes_one (by simp) rfl (.inl rfl) (.inl rfl) (.inl rfl) (.inl rfl)
  | serve | filtered =>
      split
      · exact passes_one (fun _ => rfl) rfl (.inl rfl) (.inr (.inl rfl)) (.inl rfl) (.inl rfl)
      · exact passes_one (fun _ => rfl) rfl (.inl rfl) (.inl rfl) (.inl rfl) (.inl rfl)
  | accept =>
      split
      · exact passes_one (by simp) rfl (.inl rfl) (.inl rfl) (.inl rfl) (.inl rfl)
      · exact passes_one (by simp) rfl (.inl rfl) (.inl rfl) (.inl rfl) (.inl rfl)
  | erase other =>
      exact passes_one (fun _ => rfl) rfl (.inl rfl) (.inl rfl) (.inl rfl) (.inr ⟨other, rfl, rfl⟩)
  | take _ _ queue =>
      constructor <;> simp [queue, List.countP_cons, List.count_cons]
  | extract other =>
      constructor
      · simp
      · simp
      · intro _ apart _
        have different : other ≠ process := by simpa using apart
        simp [different, List.count_erase_of_ne (Ne.symm different)]
      · simp
      · exact fun _ _ _ => rfl
  | push => constructor <;> simp [List.count_append, List.count_singleton]
  | insert other =>
      constructor
      · simp
      · simp
      · intro apart
        have different : other ≠ process := by simpa [ManagerFrame.spawns] using apart
        simp [different]
      · simp
      · exact fun _ _ _ => rfl
  | wake other =>
      constructor
      · simp
      · simp
      · intro _ outside _
        have different : other ≠ process := by simpa using outside
        simp [different]
      · simp
      · intro outside _ _
        have different : other ≠ process := by simpa using outside
        simp [Ne.symm different]
  | back other =>
      constructor
      · simp
      · simp +contextual
      · intro _ _ outside
        have different : other ≠ process := by simpa using outside
        simp [different]
      · simp
      · intro _ outside _
        have different : other ≠ process := by simpa using outside
        simp [Ne.symm different]
  | storeReady other | storeBlocked other | storeTerminating other =>
      constructor
      · simp
      · simp
      · simp
      · simp
      · intro _ _ outside
        have different : other ≠ process := by simpa using outside
        simp [Ne.symm different]

/-- What a step does to the table of processes. -/
theorem step_table (stepped : manager.step frame choice = some (next, continuation)) :
    (next.spawned = manager.spawned ∧ next.processes = manager.processes) ∨
      (∃ other, frame = .erase other ∧ next.spawned = manager.spawned ∧
        next.processes = manager.processes.erase other) ∨
      ∃ other, frame = .spawnInsert other ∧ other ∉ manager.processes ∧
        next.spawned = Function.update manager.spawned other true ∧
        next.processes = other :: manager.processes := by
  cases step_cases stepped with
  | @call _ request _ _ _ called =>
      refine .inl ⟨(call_cases called).2.2.1, ?_⟩
      cases request with
      | spawn other =>
          simp only [call] at called
          split at called <;> cases called
          rfl
      | enqueue | wait =>
          cases called
          rfl
  | erase other => exact .inr (.inl ⟨other, rfl, rfl, rfl⟩)
  | insert other absent => exact .inr (.inr ⟨other, rfl, absent, rfl, rfl⟩)
  | _ => exact .inl ⟨rfl, rfl⟩

theorem enters_cases (enters : manager.enters process frame choice = true) :
    (frame = .waitUse process ∧ process ∈ manager.processes) ∨
      ∃ event, choice = .call (.enqueue process event) ∧ frame.runsCode = true := by
  unfold Manager.enters at enters
  split at enters
  · obtain ⟨rfl, present⟩ := of_decide_eq_true enters
    exact .inl ⟨rfl, present⟩
  · obtain ⟨code, rfl⟩ := of_decide_eq_true enters
    exact .inr ⟨_, rfl, code⟩
  · cases enters

end Manager

namespace Reclaimer

variable {state next : Reclaimer} {process : ProcessId} {thread : Nat} {frame : ManagerFrame}
  {choice : ManagerChoice}

/-- The process manager that is scheduled. -/
abbrev manager (state : Reclaimer) : Manager := state.scheduler.manager

def tokens (state : Reclaimer) (process : ProcessId) : Nat :=
  state.manager.tokens state.frames process

/-- Who refers to a process. -/
structure Guarded (state : Reclaimer) (process : ProcessId) : Prop where
  borrowed : state.frames.countP (·.borrows process) ≤ state.users process
  listed : process ∈ state.manager.processes →
    state.manager.spawned process = true
  kept : state.manager.spawned process = true → state.reset process = false →
    process ∈ state.manager.processes
  absent : process ∉ state.manager.processes →
    state.users process = 0 ∧ ∀ frame ∈ state.frames, frame.refers process = false
  exiting : state.manager.spawned process = true →
    process ∉ state.manager.processes → state.opened process = false →
    .exited process ∈ state.frames
  exits : .exited process ∈ state.frames → process ∉ state.manager.processes
  opened : state.opened process = true → state.manager.spawned process = true ∧
    process ∉ state.manager.processes ∧ state.tokens process = 0 ∧
    (state.manager.process process).state = .terminating
  deleted : state.deleted process = true → state.opened process = true

/-- What a step does to the references and gates. -/
theorem account_cases (state : Reclaimer) (frame : ManagerFrame) (choice : ManagerChoice) :
    (∃ other, frame = .waitUse other ∧ other ∈ state.manager.processes ∧
      state.account frame choice =
        { state with users := Function.update state.users other (state.users other + 1) }) ∨
    (∃ other, frame = .exited other ∧ choice = .proceed ∧ state.account frame choice =
      { state with opened := Function.update state.opened other true, cleaner := none }) ∨
    state.account frame choice = state := by
  unfold account
  split
  · split
    · rename_i present
      exact .inl ⟨_, rfl, present, rfl⟩
    · exact .inr (.inr rfl)
  · exact .inr (.inl ⟨_, rfl, rfl, rfl⟩)
  · exact .inr (.inr rfl)

theorem users_account : (state.account frame choice).users process = state.users process +
    if frame = .waitUse process ∧ process ∈ state.manager.processes then 1 else 0 := by
  obtain ⟨other, rfl, present, same⟩ | ⟨other, rfl, -, same⟩ | same :=
    account_cases state frame choice
  · rw [same]
    by_cases own : other = process
    · subst own
      simp [present]
    · simp [own, Ne.symm own]
  · rw [same]
    simp
  · have apart : ¬ (frame = .waitUse process ∧
        process ∈ state.manager.processes) := by
      rintro ⟨rfl, present⟩
      have users := congrArg (fun after => after.users process) same
      simp [account, present] at users
    rw [same, if_neg apart, Nat.add_zero]

theorem opened_account : (state.account frame choice).opened process = true ↔
    state.opened process = true ∨ frame = .exited process ∧ choice = .proceed := by
  unfold account
  split
  · split <;> simp
  · rename_i other
    by_cases own : other = process
    · subst own
      simp
    · simp [own, Ne.symm own]
  · rename_i apart
    have different : ¬ (frame = .exited process ∧ choice = .proceed) := fun same =>
      apart process same.1 same.2
    simp [different]

theorem reset_account : (state.account frame choice).reset = state.reset := by
  unfold account
  split
  · split <;> rfl
  · rfl
  · rfl

theorem deleted_account : (state.account frame choice).deleted = state.deleted := by
  unfold account
  split
  · split <;> rfl
  · rfl
  · rfl

/-- A process that has been inserted is not inserted again. -/
theorem not_spawns (tokens : Tokens state.manager state.frames process)
    (spawned : state.manager.spawned process = true) (member : frame ∈ state.frames) :
    frame.spawns process = false := by
  by_contra spawns
  have some : 0 < state.frames.countP (·.spawns process) :=
    List.countP_pos_iff.mpr ⟨frame, member, by simpa using spawns⟩
  have once := tokens.spawning
  rw [spawned] at once
  have atMost := Bool.toNat_le (state.manager.spawning process)
  simp only [Bool.toNat_true] at once
  omega

/-- One frame holds the token of a process. -/
theorem unique (tokens : Tokens state.manager state.frames process)
    {other : ManagerFrame} (member : frame ∈ state.frames) (holds : frame.holds process = true)
    (among : other ∈ state.frames) (held : other.holds process = true) : frame = other := by
  have atMost := tokens.atMost
  have some : 0 < state.frames.countP (·.holds process) :=
    List.countP_pos_iff.mpr ⟨frame, member, holds⟩
  have one : (state.frames.filter (·.holds process)).length = 1 := by
    rw [← List.countP_eq_length_filter]
    unfold Manager.tokens at atMost
    omega
  obtain ⟨only, singleton⟩ := List.length_eq_one_iff.mp one
  have first : frame ∈ state.frames.filter (·.holds process) :=
    List.mem_filter.mpr ⟨member, holds⟩
  have second : other ∈ state.frames.filter (·.holds process) :=
    List.mem_filter.mpr ⟨among, held⟩
  rw [singleton, List.mem_singleton] at first second
  exact first.trans second.symm

theorem tokens_ne_zero (member : frame ∈ state.frames) (holds : frame.holds process = true) :
    state.tokens process ≠ 0 := by
  have some : 0 < state.frames.countP (·.holds process) :=
    List.countP_pos_iff.mpr ⟨frame, member, holds⟩
  exact Nat.ne_of_gt (Nat.lt_of_lt_of_le some (Nat.le_add_left _ _))

theorem permits_code {event : Event} (code : frame.runsCode = true) :
    state.permits thread frame (.call (.enqueue process event)) = state.spare process := by
  cases frame <;> first | rfl | cases code

namespace Guarded

/-- A process that was erased has its token in `cleanup`, or nowhere. -/
theorem not_holds (guarded : Guarded state process)
    (tokens : Tokens state.manager state.frames process)
    (absent : process ∉ state.manager.processes) (member : frame ∈ state.frames)
    (different : frame ≠ .exited process) : frame.holds process = false := by
  by_contra holds
  have held : frame.holds process = true := by simpa using holds
  have spawned := tokens.spawned_of_holds member held
  cases opened : state.opened process with
  | true => exact absurd (guarded.opened opened).2.2.1 (tokens_ne_zero member held)
  | false =>
      have exiting := guarded.exiting spawned absent opened
      have own : (ManagerFrame.exited process).holds process = true := by
        simp [ManagerFrame.holds, ManagerFrame.holder]
      exact different (unique tokens member held exiting own)

theorem not_borrows (guarded : Guarded state process) (none : state.users process = 0)
    (member : frame ∈ state.frames) : frame.borrows process = false := by
  by_contra borrows
  have some : 0 < state.frames.countP (·.borrows process) :=
    List.countP_pos_iff.mpr ⟨frame, member, by simpa using borrows⟩
  have bound := guarded.borrowed
  omega

section Advance

variable {manager : Manager} {continuation : List ManagerFrame}

/-- The state after a thread has made a step. -/
def moved (state : Reclaimer) (thread : Nat) (frame : ManagerFrame) (choice : ManagerChoice)
    (manager : Manager) (continuation : List ManagerFrame) : Reclaimer :=
  { state.account frame choice with
    scheduler := ⟨manager, state.scheduler.threads.resume thread continuation⟩ }

theorem moved_borrowed (guarded : Guarded state process)
    (running : state.scheduler.threads.top? thread = some frame)
    (permits : state.permits thread frame choice = true)
    (stepped : state.manager.step frame choice = some (manager, continuation)) :
    (moved state thread frame choice manager continuation).frames.countP (·.borrows process) ≤
      (moved state thread frame choice manager continuation).users process := by
  have exchange := Threads.exchange running continuation
  have moves : Manager.Passes state.manager manager process frame choice continuation :=
    Manager.step_passes stepped
  have passes := moves.borrows
  have counts := exchange.countP (·.borrows process)
  have bound : state.scheduler.threads.frames.countP (·.borrows process) ≤
      state.users process := guarded.borrowed
  have users : (moved state thread frame choice manager continuation).users process = _ :=
    users_account
  rw [users]
  show (state.scheduler.threads.resume thread continuation).frames.countP (·.borrows process) ≤ _
  by_cases enters : state.manager.enters process frame choice = true
  · rw [if_pos enters] at passes
    obtain entered | ⟨event, rfl, code⟩ := Manager.enters_cases enters
    · rw [if_pos entered]
      omega
    · rw [permits_code code] at permits
      have spare : state.scheduler.threads.frames.countP (·.borrows process) <
          state.users process := of_decide_eq_true permits
      omega
  · rw [if_neg enters] at passes
    omega

theorem moved_absent (guarded : Guarded state process)
    (tokens : Tokens state.manager state.frames process)
    (running : state.scheduler.threads.top? thread = some frame)
    (stepped : state.manager.step frame choice = some (manager, continuation))
    (absent : process ∉ state.manager.processes) :
    (moved state thread frame choice manager continuation).users process = 0 ∧
      ∀ other ∈ (moved state thread frame choice manager continuation).frames,
        other.refers process = false := by
  have exchange := Threads.exchange running continuation
  have moves : Manager.Passes state.manager manager process frame choice continuation :=
    Manager.step_passes stepped
  have passes := moves.refers
  obtain ⟨none, silent⟩ := guarded.absent absent
  constructor
  · have users : (moved state thread frame choice manager continuation).users process = _ :=
      users_account
    rw [users, none, if_neg fun both => absent both.2]
  · intro other member
    cases exchange.source member with
    | inr old => exact silent other old
    | inl entered =>
        by_contra refers
        obtain own | ⟨held, different⟩ := passes other entered (by simpa using refers)
        · rw [silent frame exchange.member] at own
          cases own
        · rw [guarded.not_holds tokens absent exchange.member different] at held
          cases held

/-- The step of `cleanup` that erases a process finds no reference to it. -/
theorem permits_erase (permits : state.permits thread (.erase process) choice = true) :
    state.users process = 0 ∧ (∀ other ∈ state.frames, other.refers process = false) ∧
      state.reset process = true := by
  obtain ⟨-, none⟩ := of_decide_eq_true permits
  unfold strong at none
  refine ⟨by omega, ?_, ?_⟩
  · have zero : state.frames.countP (·.refers process) = 0 := by omega
    intro other member
    simpa using List.countP_eq_zero.mp zero other member
  · by_contra unreset
    rw [if_neg unreset] at none
    omega

section

variable (stepped : state.manager.step frame choice = some (manager, continuation))

include stepped

/-- Only `cleanup` takes a process from the table. -/
theorem erases (present : process ∈ state.manager.processes)
    (absent : process ∉ manager.processes) : frame = .erase process := by
  obtain ⟨-, processes⟩ | ⟨other, rfl, -, processes⟩ | ⟨other, -, -, -, processes⟩ :=
    Manager.step_table stepped
  · exact absurd (processes ▸ present) absent
  · rw [processes] at absent
    by_contra different
    have apart : process ≠ other := by
      rintro rfl
      exact different rfl
    exact absent ((List.mem_erase_of_ne apart).mpr present)
  · rw [processes] at absent
    exact absurd (List.mem_cons_of_mem _ present) absent

/-- Only `spawn` puts a process there. -/
theorem inserts (absent : process ∉ state.manager.processes)
    (present : process ∈ manager.processes) :
    frame = .spawnInsert process ∧ manager.spawned process = true := by
  obtain ⟨-, processes⟩ | ⟨other, -, -, processes⟩ | ⟨other, rfl, -, spawned, processes⟩ :=
    Manager.step_table stepped
  · exact absurd (processes ▸ present) absent
  · rw [processes] at present
    exact absurd (List.mem_of_mem_erase present) absent
  · rw [processes] at present
    cases List.mem_cons.mp present with
    | inl same =>
        subst same
        exact ⟨rfl, by rw [spawned, Function.update_self]⟩
    | inr old => exact absurd old absent

theorem spawned_of_step :
    manager.spawned process = true ↔ state.manager.spawned process = true ∨
      process ∉ state.manager.processes ∧ process ∈ manager.processes := by
  obtain ⟨spawned, processes⟩ | ⟨other, -, spawned, processes⟩ |
    ⟨other, -, absent, spawned, processes⟩ := Manager.step_table stepped
  · rw [spawned, processes]
    exact ⟨.inl, fun known => known.elim id fun both => absurd both.2 both.1⟩
  · rw [spawned, processes]
    refine ⟨.inl, fun known => known.elim id fun both => ?_⟩
    exact absurd (List.mem_of_mem_erase both.2) both.1
  · rw [spawned, processes]
    by_cases same : other = process
    · subst same
      simp [absent]
    · simp [Ne.symm same]

end

theorem advance (guarded : Guarded state process)
    (tokens : Tokens state.manager state.frames process)
    (nodup : state.manager.processes.Nodup)
    (running : state.scheduler.threads.top? thread = some frame)
    (permits : state.permits thread frame choice = true)
    (stepped : state.manager.step frame choice = some (manager, continuation)) :
    Guarded (moved state thread frame choice manager continuation) process := by
  have exchange : Exchange frame continuation state.frames
      (moved state thread frame choice manager continuation).frames :=
    Threads.exchange running continuation
  have passes : Manager.Passes state.manager manager process frame choice continuation :=
    Manager.step_passes stepped
  have opened : (moved state thread frame choice manager continuation).opened process = true ↔ _ :=
    opened_account
  have reset : (moved state thread frame choice manager continuation).reset = state.reset :=
    reset_account
  have deleted : (moved state thread frame choice manager continuation).deleted = state.deleted :=
    deleted_account
  have known : manager.spawned process = true ↔ _ := spawned_of_step stepped
  constructor
  · exact guarded.moved_borrowed running permits stepped
  · intro present
    by_cases before : process ∈ state.manager.processes
    · exact known.mpr (.inl (guarded.listed before))
    · exact (inserts stepped before present).2
  · intro spawned unreset
    rw [reset] at unreset
    obtain spawned | ⟨-, present⟩ := known.mp spawned
    · by_contra absent
      obtain rfl := erases stepped (guarded.kept spawned unreset) absent
      rw [(permits_erase permits).2.2] at unreset
      cases unreset
    · exact present
  · intro absent
    by_cases before : process ∈ state.manager.processes
    · obtain rfl := erases stepped before absent
      obtain ⟨none, silent, -⟩ := permits_erase permits
      cases stepped
      refine ⟨none, fun other member => ?_⟩
      cases exchange.source member with
      | inl entered =>
          rw [List.mem_singleton.mp entered]
          rfl
      | inr old => exact silent other old
    · exact guarded.moved_absent tokens running stepped before
  · intro spawned absent unopened
    have closed : state.opened process = false := by
      apply Bool.eq_false_iff.mpr
      intro gate
      rw [opened.mpr (.inl gate)] at unopened
      cases unopened
    by_cases before : process ∈ state.manager.processes
    · obtain rfl := erases stepped before absent
      cases stepped
      exact exchange.entered _ List.mem_cons_self
    · obtain old | ⟨-, present⟩ := known.mp spawned
      · have exiting := guarded.exiting old before closed
        by_cases own : frame = .exited process
        · subst own
          cases choice with
          | proceed =>
              rw [opened.mpr (.inr ⟨rfl, rfl⟩)] at unopened
              cases unopened
          | filtered => cases stepped
          | call request =>
              obtain ⟨entered, -, same⟩ := Option.map_eq_some_iff.mp stepped
              cases same
              exact exchange.entered _ (List.mem_cons_of_mem _ List.mem_cons_self)
        · exact exchange.kept exiting (Ne.symm own)
      · exact absurd present absent
  · intro member
    have origin : .exited process ∈ state.frames ∨ frame = .erase process := by
      cases exchange.source member with
      | inl entered =>
          obtain erases | rfl := passes.exits entered
          · exact .inr erases
          · exact .inl exchange.member
      | inr old => exact .inl old
    obtain exiting | rfl := origin
    · intro present
      have spawned := tokens.spawned_of_holds exiting (decide_eq_true rfl)
      obtain ⟨rfl, -⟩ := inserts stepped (guarded.exits exiting) present
      have spawns := not_spawns tokens spawned exchange.member
      simp [ManagerFrame.spawns] at spawns
    · cases stepped
      exact nodup.not_mem_erase
  · intro now
    obtain old | ⟨rfl, rfl⟩ := opened.mp now
    · obtain ⟨spawned, absent, none, terminating⟩ := guarded.opened old
      obtain ⟨unused, silent⟩ := guarded.absent absent
      have apart := not_spawns tokens spawned exchange.member
      have borrows := guarded.not_borrows unused exchange.member
      have refers := silent frame exchange.member
      have holds : frame.holds process = false :=
        Bool.eq_false_iff.mpr fun held => (tokens_ne_zero exchange.member held) none
      refine ⟨known.mpr (.inl spawned), ?_, ?_, ?_⟩
      · intro present
        obtain ⟨rfl, -⟩ := inserts stepped absent present
        simp [ManagerFrame.spawns] at apart
      · have bound := passes.holds apart borrows refers
        have counts := exchange.countP (·.holds process)
        simp only [holds, Bool.false_eq_true, if_false] at bound counts
        unfold Reclaimer.tokens Manager.tokens at none ⊢
        show manager.runq.count process + _ = 0
        omega
      · exact (passes.fields borrows refers holds).trans terminating
    · have own : (ManagerFrame.exited process).holds process = true := decide_eq_true rfl
      have phase := tokens.phases _ exchange.member rfl
      cases stepped
      refine ⟨tokens.spawned_of_holds exchange.member own, guarded.exits exchange.member, ?_, ?_⟩
      · have counts := exchange.countP (·.holds process)
        have atMost := tokens.atMost
        simp only [own, if_true, List.countP_nil] at counts
        unfold Reclaimer.tokens Manager.tokens
        unfold Manager.tokens at atMost
        show state.manager.runq.count process + _ = 0
        omega
      · exact of_decide_eq_true phase
  · rw [deleted]
    exact fun gone => opened.mpr (.inl (guarded.deleted gone))

end Advance

section

variable (guarded : Guarded state process)

include guarded

theorem spawn (borrows : frame.borrows process = false)
    (refers : frame.refers process = false) (holds : frame.holds process = false)
    (exits : frame ≠ .exited process) :
    Guarded { state with
      scheduler.threads := state.scheduler.threads.spawn frame } process := by
  have frames : (Reclaimer.frames { state with
      scheduler.threads := state.scheduler.threads.spawn frame }) = state.frames ++ [frame] :=
    Threads.frames_spawn _ _
  constructor
  · rw [frames, List.countP_append, List.countP_singleton, borrows]
    exact guarded.borrowed
  · exact guarded.listed
  · exact guarded.kept
  · intro absent
    rw [frames]
    obtain ⟨none, silent⟩ := guarded.absent absent
    refine ⟨none, fun other member => ?_⟩
    cases List.mem_append.mp member with
    | inl old => exact silent other old
    | inr new => exact List.mem_singleton.mp new ▸ refers
  · rw [frames]
    exact fun spawned absent closed => List.mem_append_left _ (guarded.exiting spawned absent closed)
  · rw [frames]
    intro member
    cases List.mem_append.mp member with
    | inl old => exact guarded.exits old
    | inr new => exact absurd (List.mem_singleton.mp new).symm exits
  · intro gate
    obtain ⟨spawned, absent, none, terminating⟩ := guarded.opened gate
    refine ⟨spawned, absent, ?_, terminating⟩
    unfold Reclaimer.tokens Manager.tokens at none ⊢
    rw [frames, List.countP_append, List.countP_singleton, holds]
    exact none
  · exact guarded.deleted

/-- A change of the references from `use` keeps enough of them, and none to an erased process. -/
theorem users (users : ProcessId → Nat)
    (borrowed : state.frames.countP (·.borrows process) ≤ users process)
    (absent : process ∉ state.manager.processes → state.users process = 0 →
      users process = 0) : Guarded { state with users } process :=
  { guarded with
    borrowed := borrowed
    absent := fun gone => (guarded.absent gone).imp_left (absent gone) }

/-- `use` returns no reference to a process that was erased. -/
theorem unusable (spawned : state.manager.spawned process = true)
    (absent : process ∉ state.manager.processes) :
    state.strong process = 0 ∧ ∀ thread, state.usable thread process = false := by
  obtain ⟨none, silent⟩ := guarded.absent absent
  have reset : state.reset process = true := by
    by_contra unreset
    exact absent (guarded.kept spawned (by simpa using unreset))
  have zero : state.frames.countP (·.refers process) = 0 :=
    List.countP_eq_zero.mpr fun frame member => by simp [silent frame member]
  have strong : state.strong process = 0 := by
    rw [strong, none, zero, reset]
    rfl
  refine ⟨strong, fun thread => ?_⟩
  simp [usable, strong, absent]

theorem use {other : ProcessId}
    (usable : state.usable thread other = true) :
    Guarded { state with
      users := Function.update state.users other (state.users other + 1) } process := by
  apply guarded.users
  · by_cases same : process = other
    · subst same
      rw [Function.update_self]
      exact Nat.le_succ_of_le guarded.borrowed
    · rw [Function.update_of_ne same]
      exact guarded.borrowed
  · intro absent none
    by_cases same : process = other
    · subst same
      obtain ⟨spawned, -⟩ | ⟨-, present⟩ := of_decide_eq_true usable
      · rw [(guarded.unusable spawned absent).2 thread] at usable
        cases usable
      · exact absurd present absent
    · rw [Function.update_of_ne same]
      exact none

theorem release {other : ProcessId}
    (spare : state.spare other = true) :
    Guarded { state with
      users := Function.update state.users other (state.users other - 1) } process := by
  have enough := of_decide_eq_true spare
  apply guarded.users
  · by_cases same : process = other
    · subst same
      rw [Function.update_self]
      exact Nat.le_sub_one_of_lt enough
    · rw [Function.update_of_ne same]
      exact guarded.borrowed
  · intro _ none
    by_cases same : process = other
    · subst same
      rw [Function.update_self, none]
    · rw [Function.update_of_ne same]
      exact none

/-- `cleanup` resets the reference of a process that is still in the table, or changes nothing. -/
theorem resets {other : ProcessId} {cleaner : Option Nat} :
    Guarded { state with
      reset := Function.update state.reset other true, cleaner } process := by
  refine { guarded with kept := fun spawned unreset => guarded.kept spawned ?_ }
  have still : Function.update state.reset other true process = false := unreset
  by_cases same : process = other
  · rw [same, Function.update_self] at still
    cases still
  · rwa [Function.update_of_ne same] at still

theorem delete {other : ProcessId}
    (opened : state.opened other = true) :
    Guarded { state with deleted := Function.update state.deleted other true } process := by
  refine { guarded with deleted := fun gone => ?_ }
  by_cases same : process = other
  · exact same ▸ opened
  · have before : Function.update state.deleted other true process = true := gone
    rw [Function.update_of_ne same] at before
    exact guarded.deleted before

/-- Once the gate is open, nothing refers to the process. -/
theorem unused (tokens : Tokens state.manager state.frames process)
    (opened : state.opened process = true) : state.Unused process := by
  obtain ⟨spawned, absent, none, terminating⟩ := guarded.opened opened
  obtain ⟨unused, silent⟩ := guarded.absent absent
  obtain ⟨references, unusable⟩ := guarded.unusable spawned absent
  refine ⟨fun frame member => ?_, ?_, references, unusable, terminating⟩
  · apply Bool.eq_false_iff.mpr
    intro accesses
    obtain borrows | refers | holds | spawns := ManagerFrame.accesses_cases accesses
    · rw [guarded.not_borrows unused member] at borrows
      cases borrows
    · rw [silent frame member] at refers
      cases refers
    · exact (tokens_ne_zero member holds) none
    · rw [not_spawns tokens spawned member] at spawns
      cases spawns
  · intro queued
    have some := List.count_pos_iff.mpr queued
    exact Nat.ne_of_gt some (Nat.eq_zero_of_add_eq_zero_right none)

end

end Guarded

/-- The invariant of a process manager that manages the memory of processes. -/
structure Invariant (state : Reclaimer) : Prop where
  scheduled : state.scheduler.Invariant
  nodup : state.manager.processes.Nodup
  guarded : ∀ process, Guarded state process

theorem Invariant.new : Invariant new where
  scheduled := Scheduler.new_invariant
  nodup := List.nodup_nil
  guarded process := by
    constructor <;> simp [Reclaimer.new, Scheduler.new, Manager.new, frames, Threads.frames]

theorem Invariant.advance (invariant : Invariant state)
    (stepped : state.advance thread choice = some next) : Invariant next := by
  simp only [Reclaimer.advance, Option.bind_eq_bind, Option.bind_eq_some_iff] at stepped
  obtain ⟨frame, running, allowed⟩ := stepped
  split at allowed
  · rename_i permits
    simp only [Option.bind_eq_some_iff, Option.pure_def, Option.some.injEq] at allowed
    obtain ⟨scheduler, scheduled, rfl⟩ := allowed
    have kept := Scheduler.step_invariant invariant.scheduled scheduled
    simp only [Scheduler.step, Option.bind_eq_bind, Option.bind_eq_some_iff, Prod.exists,
      Option.pure_def, Option.some.injEq] at scheduled
    obtain ⟨same, found, manager, continuation, stepped, rfl⟩ := scheduled
    cases running.symm.trans found
    refine ⟨kept, ?_, fun process => ?_⟩
    · obtain ⟨-, processes⟩ | ⟨other, -, -, processes⟩ | ⟨other, -, absent, -, processes⟩ :=
        Manager.step_table stepped
      · exact processes ▸ invariant.nodup
      · exact processes ▸ invariant.nodup.erase other
      · exact processes ▸ List.nodup_cons.mpr ⟨absent, invariant.nodup⟩
    · exact (invariant.guarded process).advance (invariant.scheduled process).1 invariant.nodup
        running permits stepped
  · cases allowed

theorem Invariant.step (invariant : Invariant state) {move : ReclaimerMove}
    (stepped : state.step move = some next) : Invariant next := by
  cases move with
  | scheduler move =>
      cases move with
      | advance thread choice => exact invariant.advance stepped
      | user =>
          cases stepped
          refine ⟨Scheduler.step_invariant invariant.scheduled
            (show state.scheduler.step .user = some _ from rfl), invariant.nodup, fun process => ?_⟩
          exact (invariant.guarded process).spawn rfl rfl rfl (by simp)
      | worker =>
          cases stepped
          refine ⟨Scheduler.step_invariant invariant.scheduled
            (show state.scheduler.step .worker = some _ from rfl), invariant.nodup, fun process => ?_⟩
          exact (invariant.guarded process).spawn rfl rfl rfl (by simp)
  | use thread process =>
      obtain ⟨⟨-, usable⟩, same⟩ := Option.ite_none_right_eq_some.mp stepped
      cases same
      exact ⟨invariant.scheduled, invariant.nodup,
        fun other => (invariant.guarded other).use usable⟩
  | release process =>
      obtain ⟨spare, same⟩ := Option.ite_none_right_eq_some.mp stepped
      cases same
      exact ⟨invariant.scheduled, invariant.nodup,
        fun other => (invariant.guarded other).release spare⟩
  | reset thread =>
      simp only [Reclaimer.step] at stepped
      split at stepped
      · obtain ⟨-, same⟩ := Option.ite_none_right_eq_some.mp stepped
        cases same
        exact ⟨invariant.scheduled, invariant.nodup, fun other => (invariant.guarded other).resets⟩
      · cases stepped
  | delete process =>
      obtain ⟨⟨opened, -⟩, same⟩ := Option.ite_none_right_eq_some.mp stepped
      cases same
      exact ⟨invariant.scheduled, invariant.nodup,
        fun other => (invariant.guarded other).delete opened⟩

end Reclaimer

end Libprocess
