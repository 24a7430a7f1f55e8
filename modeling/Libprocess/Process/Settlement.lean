import Libprocess.Process.Settling
import Libprocess.Process.Tokens

/-!
# What `settle` has seen

A thread that is inside `resume` is counted by `running` until it leaves, and whoever pushes a
process into the run queue increments the epoch before it leaves.  So a process that is pushed
between the reads of `settle` is seen in `running`, in the run queue or in the epoch; and the clock
is not settled while the callback of a tick, which `running` does not count, executes timers.
-/

namespace Libprocess

open Concurrency

/-! ## The steps of the manager -/

/-- Every frame inside `resume` stands on a frame that is counted. -/
def ManagerFrame.Supported : List ManagerFrame → Prop
  | [] => True
  | frame :: below =>
      (frame.resuming = true → ∃ under ∈ below.head?, under.counted = true) ∧ Supported below

open ManagerFrame (Supported)

namespace Manager

variable {manager next : Manager} {frame : ManagerFrame} {choice : ManagerChoice}
  {continuation : List ManagerFrame}

/-- What `settle` can notice of a step. -/
structure Noticed (manager next : Manager) (frame : ManagerFrame)
    (continuation : List ManagerFrame) : Prop where
  epoch : next.epoch = manager.epoch + if frame = .epoch then 1 else 0
  runq : manager.runq = [] → (∀ process, frame ≠ .push process) → next.runq = []
  push : ∀ process, frame = .push process → continuation = [.epoch]
  running : next.running + (if frame.counted then 1 else 0) =
    manager.running + continuation.countP (·.counted)
  resumes : ∀ entered ∈ continuation, entered.resuming = true →
    frame.resuming = true ∨ manager.runq ≠ []
  supported : ∀ below, Supported (frame :: below) → Supported (continuation ++ below)

namespace Noticed

/-- A frame that is not counted goes on, returns or is left. -/
theorem unnoticed (runq : next.runq = manager.runq) (running : next.running = manager.running)
    (epoch : next.epoch = manager.epoch) (uncounted : frame.counted = false)
    (later : frame ≠ .epoch) (other : ∀ process, frame ≠ .push process)
    (one : continuation = [] ∨ ∃ entered, continuation = [entered] ∧ entered.counted = false ∧
      (entered.resuming = true → frame.resuming = true)) :
    Noticed manager next frame continuation where
  epoch := by simp [later, epoch]
  runq empty _ := by rw [runq, empty]
  push process pushes := absurd pushes (other process)
  running := by
    obtain rfl | ⟨entered, rfl, plain, -⟩ := one
    · simp [uncounted, running]
    · simp [uncounted, running, plain]
  resumes := by
    intro entered member inside
    obtain rfl | ⟨single, rfl, -, kept⟩ := one
    · cases member
    · rw [List.mem_singleton.mp member] at inside
      exact .inl (kept inside)
  supported := by
    intro below supported
    obtain rfl | ⟨single, rfl, -, kept⟩ := one
    · exact supported.2
    · exact ⟨fun inside => supported.1 (kept inside), supported.2⟩

/-- A call is not noticed. -/
theorem call {request : Request} (code : frame.runsCode = true)
    (called : manager.call request = some next) :
    Noticed manager next frame [request.entry, frame] := by
  have uncounted : frame.counted = false := by cases frame <;> first | rfl | cases code
  have entry : request.entry.counted = false ∧ request.entry.resuming = false := by
    cases request <;> exact ⟨rfl, rfl⟩
  have same : next.epoch = manager.epoch ∧ next.runq = manager.runq ∧
      next.running = manager.running := by
    cases request with
    | spawn process =>
        simp only [Manager.call] at called
        split at called
        · cases called
        · cases called
          exact ⟨rfl, rfl, rfl⟩
    | enqueue process event | wait process =>
        cases called
        exact ⟨rfl, rfl, rfl⟩
  constructor
  · have later : frame ≠ .epoch := by
      rintro rfl
      cases code
    simp [later, same.1]
  · intro empty _
    rw [same.2.1, empty]
  · rintro process rfl
    cases code
  · simp [entry.1, uncounted, same.2.2]
  · intro entered member inside
    simp only [List.mem_cons, List.not_mem_nil, or_false] at member
    obtain rfl | rfl := member
    · rw [entry.2] at inside
      cases inside
    · exact .inl inside
  · intro below supported
    refine ⟨fun inside => ?_, supported⟩
    rw [entry.2] at inside
    cases inside

end Noticed

attribute [local simp] ManagerFrame.counted ManagerFrame.resuming Supported

theorem step_noticed (stepped : manager.step frame choice = some (next, continuation)) :
    Noticed manager next frame continuation := by
  cases step_cases stepped with
  | returns returns =>
      cases returns <;> exact .unnoticed rfl rfl rfl rfl (by simp) (by simp) (.inl rfl)
  | leads leads =>
      cases leads with
      | workerDequeue | waitExtract => constructor <;> simp_all
      | _ => exact .unnoticed rfl rfl rfl rfl (by simp) (by simp) (.inr ⟨_, rfl, rfl, id⟩)
  | call code _ called => exact .call code called
  | user | exited => exact .unnoticed rfl rfl rfl rfl (by simp) (by simp) (.inl rfl)
  | workerStart | workerIdle | workerWoken | push | epoch | waitRunning | waitDone | take =>
      constructor <;> simp_all
  | extract process present =>
      have nonempty := List.ne_nil_of_mem present
      constructor <;> simp [nonempty]
  | serve | filtered | accept =>
      refine .unnoticed rfl rfl rfl rfl (by simp) (by simp) (.inr ⟨_, rfl, ?_⟩)
      split <;> simp
  | _ => exact .unnoticed rfl rfl rfl rfl (by simp) (by simp) (.inr ⟨_, rfl, rfl, by simp⟩)

end Manager

namespace ManagerFrame.Supported

theorem of_plain {stack : List ManagerFrame} (plain : ∀ frame ∈ stack, frame.resuming = false) :
    Supported stack := by
  induction stack with
  | nil => exact True.intro
  | cons frame below ih =>
      refine ⟨fun inside => ?_, ih fun other member => plain other (List.mem_cons_of_mem _ member)⟩
      rw [plain frame List.mem_cons_self] at inside
      cases inside

/-- A thread that is inside `resume` is counted. -/
theorem exists_counted {stack : List ManagerFrame} (supported : Supported stack)
    {frame : ManagerFrame} (member : frame ∈ stack) (inside : frame.resuming = true) :
    ∃ other ∈ stack, other.counted = true := by
  induction stack with
  | nil => cases member
  | cons first below ih =>
      rcases List.mem_cons.mp member with rfl | later
      · obtain ⟨under, head, counted⟩ := supported.1 inside
        exact ⟨under, List.mem_cons_of_mem _ (List.mem_of_mem_head? head), counted⟩
      · obtain ⟨other, present, counted⟩ := ih supported.2 later
        exact ⟨other, List.mem_cons_of_mem _ present, counted⟩

end ManagerFrame.Supported

/-! ## The steps of the program -/

namespace Program

variable {program next : Program} {move : ProgramMove} {thread : Nat}

/-- What a step does to the threads. -/
inductive Moves (program : Program) (move : ProgramMove) : Program → Prop where
  /-- A thread starts, or the event loop begins to execute timers. -/
  | starts {next : Program} (stack : List ManagerFrame)
      (plain : ∀ frame ∈ stack, frame.counted = false ∧ frame.resuming = false)
      (scheduler : next.scheduler =
        ⟨program.scheduler.manager, program.scheduler.threads ++ [stack]⟩)
      (eventLoop : next.eventLoop = program.eventLoop ∨ program.eventLoop = .polling ∧
        ∃ timers, next.eventLoop = .calling timers program.scheduler.threads.length ∧
          (timers = [] → stack = [])) : Moves program move next
  | advances {thread : Nat} {choice : ManagerChoice} {frame : ManagerFrame}
      {below : List ManagerFrame} {manager : Manager} {continuation : List ManagerFrame}
      (moved : move = .scheduler (.advance thread choice))
      (running : program.scheduler.threads.top? thread = some frame)
      (present : program.scheduler.threads[thread]? = some (frame :: below))
      (stepped : program.scheduler.manager.step frame choice = some (manager, continuation)) :
      Moves program move
        { program with
          scheduler := ⟨manager, program.scheduler.threads.resume thread continuation⟩ }
  /-- The threads stay as they are. -/
  | rests {next : Program} (scheduler : next.scheduler = program.scheduler)
      (eventLoop : next.eventLoop = program.eventLoop ∨ ((∀ thread, ¬ next.Ticks thread) ∧
        ∀ thread, program.Ticks thread → program.scheduler.threads[thread]? = some [])) :
      Moves program move next

theorem step_moves (stepped : program.step move = some next) : program.Moves move next := by
  cases move with
  | scheduler move =>
      obtain ⟨scheduler, moved, rfl⟩ := Option.map_eq_some_iff.mp stepped
      cases move with
      | user =>
          cases moved
          exact .starts [.user] (by simp [ManagerFrame.counted, ManagerFrame.resuming]) rfl
            (.inl rfl)
      | worker =>
          cases moved
          exact .starts [.workerStart] (by simp [ManagerFrame.counted, ManagerFrame.resuming]) rfl
            (.inl rfl)
      | advance thread choice =>
          simp only [Scheduler.step, Option.bind_eq_bind, Option.bind_eq_some_iff, Prod.exists,
            Option.pure_def, Option.some.injEq] at moved
          obtain ⟨frame, running, manager, continuation, moved, rfl⟩ := moved
          obtain ⟨below, present⟩ := Threads.exists_stack running
          exact .advances rfl running present moved
  | clock label =>
      cases label with
      | tick time reading =>
          simp only [step, tick] at stepped
          split at stepped
          · rename_i polling
            obtain ⟨ticked, blocked, rfl⟩ := Option.map_eq_some_iff.mp stepped
            obtain ⟨timers, -, rfl⟩ := Option.map_eq_some_iff.mp blocked
            refine .starts _ ?_ rfl (.inr ⟨polling, _, rfl, fun none => ?_⟩)
            · intro frame member
              obtain ⟨timer, -, rfl⟩ := List.mem_map.mp member
              exact ⟨rfl, rfl⟩
            · rw [none, List.map_nil]
          · cases stepped
          · cases stepped
      | settle =>
          simp only [step, settle] at stepped
          split at stepped
          · rename_i called
            obtain ⟨settled, blocked, rfl⟩ := Option.map_eq_some_iff.mp stepped
            obtain ⟨timers, -, rfl⟩ := Option.map_eq_some_iff.mp blocked
            refine .rests rfl (.inr ⟨?_, ?_⟩)
            · rintro thread ⟨timers, executes⟩
              cases executes
            · rintro thread ⟨timers, executes⟩
              cases called.symm.trans executes
          · cases stepped
          · cases stepped
      | timer | cancel | pause | resume | advance | advanceProcess | update | updateProcess | order
        | finalize =>
          simp only [step, block, Option.map_eq_some_iff] at stepped
          obtain ⟨timers, -, rfl⟩ := stepped
          exact .rests rfl (.inl rfl)
  | returned =>
      simp only [step, callbackReturns] at stepped
      split at stepped
      · rename_i timers thread calling
        split at stepped
        · rename_i finished
          cases stepped
          refine .rests rfl (.inr ⟨?_, ?_⟩)
          · rintro other ⟨timers, executes⟩
            cases executes
          · rintro other ⟨others, executes⟩
            cases calling.symm.trans executes
            exact finished
        · cases stepped
      · cases stepped
      · cases stepped

/-- `running` counts the threads that may be inside `resume`, and a callback without timers has
nothing to do. -/
structure Accounted (program : Program) : Prop where
  running : program.scheduler.manager.running =
    program.scheduler.threads.frames.countP (·.counted)
  supported : ∀ stack ∈ program.scheduler.threads, Supported stack
  idle : ∀ thread, program.eventLoop = .calling [] thread →
    program.scheduler.threads[thread]? = some []
  timers : Timers.System.machine.Reachable program.timers

theorem Accounted.new : Program.new.Accounted where
  running := rfl
  supported := by
    intro stack member
    cases member
  idle := by
    intro thread executes
    cases executes
  timers := .start rfl

/-- No thread is inside `resume` while `running` is zero. -/
theorem Accounted.plain_of_running (accounted : program.Accounted)
    (none : ¬ 0 < program.scheduler.manager.running) {frame : ManagerFrame}
    (member : frame ∈ program.scheduler.threads.frames) : frame.resuming = false := by
  apply Bool.eq_false_of_not_eq_true
  intro inside
  obtain ⟨stack, present, held⟩ := List.mem_flatten.mp member
  obtain ⟨other, under, counted⟩ := (accounted.supported stack present).exists_counted held inside
  have positive : 0 < program.scheduler.threads.frames.countP (·.counted) :=
    List.countP_pos_iff.mpr ⟨other, List.mem_flatten.mpr ⟨stack, present, under⟩, counted⟩
  rw [accounted.running] at none
  omega

theorem block_timers {label : Timers.Label} (stepped : program.block label = some next) :
    program.timers.step label = some next.timers := by
  obtain ⟨timers, moved, rfl⟩ := Option.map_eq_some_iff.mp stepped
  exact moved

/-- Only a block of the clock changes it. -/
theorem step_timers (stepped : program.step move = some next) :
    next.timers = program.timers ∨
      ∃ label, move = .clock label ∧ program.timers.step label = some next.timers := by
  cases move with
  | scheduler move =>
      obtain ⟨scheduler, -, rfl⟩ := Option.map_eq_some_iff.mp stepped
      exact .inl rfl
  | clock label =>
      refine .inr ⟨label, rfl, ?_⟩
      cases label with
      | tick time reading =>
          simp only [step, tick] at stepped
          split at stepped
          · obtain ⟨ticked, blocked, rfl⟩ := Option.map_eq_some_iff.mp stepped
            have moved := block_timers blocked
            exact moved
          · cases stepped
          · cases stepped
      | settle =>
          simp only [step, settle] at stepped
          split at stepped
          · obtain ⟨settled, blocked, rfl⟩ := Option.map_eq_some_iff.mp stepped
            have moved := block_timers blocked
            exact moved
          · cases stepped
          · cases stepped
      | timer | cancel | pause | resume | advance | advanceProcess | update | updateProcess | order
        | finalize =>
          simp only [step] at stepped
          exact block_timers stepped
  | returned =>
      simp only [step, callbackReturns] at stepped
      split at stepped
      · split at stepped
        · cases stepped
          exact .inl rfl
        · cases stepped
      · cases stepped
      · cases stepped

theorem Accounted.step (accounted : program.Accounted) (stepped : program.step move = some next) :
    next.Accounted := by
  have timers : Timers.System.machine.Reachable next.timers := by
    rcases step_timers stepped with same | ⟨label, -, moved⟩
    · rw [same]
      exact accounted.timers
    · exact .step accounted.timers True.intro moved
  cases step_moves stepped with
  | starts stack plain scheduler eventLoop =>
      constructor
      · have uncounted : stack.countP (·.counted) = 0 :=
          List.countP_eq_zero.mpr fun frame member => by simp [(plain frame member).1]
        rw [scheduler, Threads.frames, List.flatten_append, List.countP_append, List.flatten_cons,
          List.flatten_nil, List.append_nil, uncounted]
        exact accounted.running
      · rw [scheduler]
        intro other member
        rcases List.mem_append.mp member with old | started
        · exact accounted.supported other old
        · rw [List.mem_singleton.mp started]
          exact .of_plain fun frame member => (plain frame member).2
      · rw [scheduler]
        intro thread executes
        rcases eventLoop with same | ⟨-, timers, calling, empty⟩
        · rw [same] at executes
          have present := accounted.idle thread executes
          obtain ⟨inside, -⟩ := List.getElem?_eq_some_iff.mp present
          rw [List.getElem?_append_left inside]
          exact present
        · cases calling.symm.trans executes
          rw [List.getElem?_concat_length, empty rfl]
      · exact timers
  | @advances thread choice frame below manager continuation moved running present managed =>
      have noticed := Manager.step_noticed managed
      have exchange := Threads.exchange running continuation
      constructor
      · have counts := exchange.countP (·.counted)
        have changes := noticed.running
        rw [accounted.running] at changes
        change manager.running =
          ((program.scheduler.threads.resume thread continuation).frames.countP (·.counted) : Int)
        cases counted : frame.counted with
        | true =>
            simp only [counted, if_true] at counts changes
            omega
        | false =>
            simp only [counted, Bool.false_eq_true, if_false] at counts changes
            omega
      · intro stack member
        rcases Threads.of_mem_resume present member with old | rfl
        · exact accounted.supported stack old
        · exact noticed.supported below
            (accounted.supported _ (List.mem_of_getElem? present))
      · intro other executes
        have idle := accounted.idle other executes
        have different : thread ≠ other := by
          rintro rfl
          rw [present] at idle
          cases idle
        exact (Threads.getElem?_resume_of_ne different continuation).trans idle
      · exact timers
  | rests scheduler eventLoop =>
      constructor
      · rw [scheduler]
        exact accounted.running
      · rw [scheduler]
        exact accounted.supported
      · rw [scheduler]
        intro thread executes
        rcases eventLoop with same | ⟨none, -⟩
        · rw [same] at executes
          exact accounted.idle thread executes
        · exact absurd ⟨[], executes⟩ (none thread)
      · exact timers

/-! ## The epoch -/

/-- A thread of a kind has pushed a process and is about to increment the epoch. -/
def Owes (program : Program) (kind : Program → Nat → Prop) : Prop :=
  ∃ thread, program.scheduler.threads.top? thread = some .epoch ∧ kind program thread

/-- The run queue is empty and no thread is inside `resume`. -/
def Idle (program : Program) : Prop :=
  program.scheduler.manager.runq = [] ∧
    ∀ frame ∈ program.scheduler.threads.frames, frame.resuming = false

theorem step_epoch (stepped : program.step move = some next) :
    program.scheduler.manager.epoch ≤ next.scheduler.manager.epoch := by
  cases step_moves stepped with
  | starts stack plain scheduler eventLoop => rw [scheduler]
  | @advances thread choice frame below manager continuation moved running present managed =>
      have epoch := (Manager.step_noticed managed).epoch
      change _ ≤ manager.epoch
      omega
  | rests scheduler eventLoop => rw [scheduler]

/-- A thread that still has something to do stays what it is while the others move. -/
theorem Ticks.kept (ticks : program.Ticks thread) (stepped : program.step move = some next)
    (busy : program.scheduler.threads[thread]? ≠ some []) : next.Ticks thread := by
  obtain ⟨timers, executes⟩ := ticks
  cases step_moves stepped with
  | starts stack plain scheduler eventLoop =>
      rcases eventLoop with same | ⟨polling, -⟩
      · exact ⟨timers, same.trans executes⟩
      · cases polling.symm.trans executes
  | advances moved running present managed => exact ⟨timers, executes⟩
  | rests scheduler eventLoop =>
      rcases eventLoop with same | ⟨-, finished⟩
      · exact ⟨timers, same.trans executes⟩
      · exact absurd (finished thread ⟨timers, executes⟩) busy

/-- Whoever is about to increment the epoch stays there, or does it. -/
theorem Owes.step {kind : Program → Nat → Prop} (owes : program.Owes kind)
    (stepped : program.step move = some next)
    (kept : ∀ thread, program.scheduler.threads.top? thread = some .epoch →
      next.scheduler.threads[thread]? = program.scheduler.threads[thread]? →
      kind program thread → kind next thread) :
    program.scheduler.manager.epoch < next.scheduler.manager.epoch ∨ next.Owes kind := by
  obtain ⟨thread, running, of⟩ := owes
  obtain ⟨below, present⟩ := Threads.exists_stack running
  have waits : next.scheduler.threads[thread]? = program.scheduler.threads[thread]? →
      next.Owes kind := by
    intro same
    refine ⟨thread, ?_, kept thread running same of⟩
    rw [Threads.top?, same]
    exact running
  cases step_moves stepped with
  | starts stack plain scheduler eventLoop =>
      obtain ⟨inside, -⟩ := List.getElem?_eq_some_iff.mp present
      refine .inr (waits ?_)
      rw [scheduler]
      exact List.getElem?_append_left inside
  | @advances other choice frame below manager continuation moved top stack managed =>
      by_cases same : other = thread
      · subst same
        cases running.symm.trans top
        have epoch := (Manager.step_noticed managed).epoch
        refine .inl ?_
        change _ < manager.epoch
        rw [epoch]
        simp
      · exact .inr (waits (Threads.getElem?_resume_of_ne same continuation))
  | rests scheduler eventLoop =>
      refine .inr (waits ?_)
      rw [scheduler]

theorem Owes.step_resumes (owes : program.Owes Resumes) (stepped : program.step move = some next) :
    program.scheduler.manager.epoch < next.scheduler.manager.epoch ∨ next.Owes Resumes := by
  refine owes.step stepped ?_
  rintro thread - same ⟨stack, present, inside⟩
  exact ⟨stack, same.trans present, inside⟩

theorem Owes.step_ticks (owes : program.Owes Ticks) (stepped : program.step move = some next) :
    program.scheduler.manager.epoch < next.scheduler.manager.epoch ∨ next.Owes Ticks := by
  refine owes.step stepped fun thread running _ ticks => ticks.kept stepped ?_
  obtain ⟨below, present⟩ := Threads.exists_stack running
  rw [present]
  simp

section Push

variable {choice : ManagerChoice} {process : ProcessId} {below : List ManagerFrame}
  {manager : Manager} {continuation : List ManagerFrame}

/-- Whoever pushes a process is going to increment the epoch. -/
theorem owes_of_push (present : program.scheduler.threads[thread]? = some (.push process :: below))
    (managed : program.scheduler.manager.step (.push process) choice = some (manager, continuation))
    (entitled : program.Resumes thread ∨ program.Ticks thread) :
    (program.Resumes thread ∧ Owes { program with
      scheduler := ⟨manager, program.scheduler.threads.resume thread continuation⟩ } Resumes) ∨
    Owes { program with
      scheduler := ⟨manager, program.scheduler.threads.resume thread continuation⟩ } Ticks := by
  have pushed := Threads.getElem?_resume present continuation
  rw [(Manager.step_noticed managed).push process rfl] at pushed ⊢
  have top : (program.scheduler.threads.resume thread [.epoch]).top? thread =
      some .epoch := by
    rw [Threads.top?, pushed]
    rfl
  rcases entitled with resumes | ticks
  · refine .inl ⟨resumes, thread, top, _, pushed, ?_⟩
    obtain ⟨stack, same, frame, member, inside⟩ := resumes
    cases same.symm.trans present
    rcases List.mem_cons.mp member with rfl | under
    · cases inside
    · exact ⟨frame, List.mem_cons_of_mem _ under, inside⟩
  · exact .inr ⟨thread, top, ticks⟩

end Push

/-- While only those who may do so push processes, the run queue stays empty or the epoch is
going to be incremented. -/
theorem step_drained (stepped : program.step move = some next) (confined : program.Confined move)
    (drained : program.scheduler.manager.runq = []) :
    next.scheduler.manager.runq = [] ∨ next.Owes Resumes ∨ next.Owes Ticks := by
  cases step_moves stepped with
  | starts stack plain scheduler eventLoop | rests scheduler eventLoop =>
      rw [scheduler]
      exact .inl drained
  | @advances thread choice frame below manager continuation moved running present managed =>
      by_cases pushes : ∃ process, frame = .push process
      · obtain ⟨process, rfl⟩ := pushes
        subst moved
        rcases owes_of_push present managed (confined process running) with ⟨-, owes⟩ | owes
        · exact .inr (.inl owes)
        · exact .inr (.inr owes)
      · exact .inl ((Manager.step_noticed managed).runq drained (not_exists.mp pushes))

/-- No thread resumes a process while there is none in the run queue, and then only a tick can
push one. -/
theorem Idle.step (idle : program.Idle) (stepped : program.step move = some next)
    (confined : program.Confined move) : next.Idle ∨ next.Owes Ticks := by
  obtain ⟨drained, plain⟩ := idle
  cases step_moves stepped with
  | starts stack fresh scheduler eventLoop =>
      refine .inl ?_
      rw [Idle, scheduler]
      refine ⟨drained, fun frame member => ?_⟩
      rw [Threads.frames, List.flatten_append, List.mem_append, List.flatten_cons,
        List.flatten_nil, List.append_nil] at member
      rcases member with old | started
      · exact plain frame old
      · exact (fresh frame started).2
  | @advances thread choice frame below manager continuation moved running present managed =>
      by_cases pushes : ∃ process, frame = .push process
      · obtain ⟨process, rfl⟩ := pushes
        subst moved
        rcases owes_of_push present managed (confined process running) with ⟨resumes, -⟩ | owes
        · obtain ⟨stack, held, other, member, inside⟩ := resumes
          have inactive := plain other
            (List.mem_flatten.mpr ⟨stack, List.mem_of_getElem? held, member⟩)
          rw [inactive] at inside
          cases inside
        · exact .inr owes
      · have noticed := Manager.step_noticed managed
        have exchange := Threads.exchange running continuation
        refine .inl ⟨noticed.runq drained (not_exists.mp pushes), fun other member => ?_⟩
        rcases exchange.source member with entered | old
        · apply Bool.eq_false_of_not_eq_true
          intro inside
          rcases noticed.resumes other entered inside with before | queued
          · rw [plain frame exchange.member] at before
            cases before
          · exact queued drained
        · exact plain other old
  | rests scheduler eventLoop =>
      refine .inl ?_
      rw [Idle, scheduler]
      exact ⟨drained, plain⟩

/-! ## The paused clock -/

/-- While the clock stays paused, every tick that takes out timers is marked. -/
theorem Marked.step (marked : program.Marked) (paused : program.timers.clock.paused = true)
    (stepped : program.step move = some next) (confined : program.Confined move) :
    next.timers.clock.paused = true ∧ next.Marked := by
  cases move with
  | scheduler move =>
      obtain ⟨scheduler, -, rfl⟩ := Option.map_eq_some_iff.mp stepped
      exact ⟨paused, marked⟩
  | clock label =>
      cases label with
      | resume => exact absurd confined id
      | tick time reading =>
          simp only [step, tick] at stepped
          split at stepped
          · obtain ⟨ticked, blocked, rfl⟩ := Option.map_eq_some_iff.mp stepped
            have moved := block_timers blocked
            refine ⟨(Timers.System.step_settling moved paused (by simp)).1, ?_⟩
            intro timers thread executes nonempty
            cases executes
            simp only [Timers.System.step] at moved
            split at moved
            · obtain raised := Option.some.inj moved
              change ticked.timers.clock.settling = true
              rw [← raised]
              exact Timers.Clock.tick_settling paused nonempty
            · cases moved
          · cases stepped
          · cases stepped
      | settle =>
          simp only [step, settle] at stepped
          split at stepped
          · obtain ⟨settled, blocked, rfl⟩ := Option.map_eq_some_iff.mp stepped
            have moved := block_timers blocked
            refine ⟨(Timers.System.step_settling moved paused (by simp)).1, ?_⟩
            intro timers thread executes
            cases executes
          · cases stepped
          · cases stepped
      | timer | cancel | pause | advance | advanceProcess | update | updateProcess | order
        | finalize =>
          simp only [step, block, Option.map_eq_some_iff] at stepped
          obtain ⟨timers, moved, rfl⟩ := stepped
          have stays := Timers.System.step_settling moved paused (by simp)
          refine ⟨stays.1, fun timers thread executes nonempty => ?_⟩
          exact stays.2 (by simp) (marked timers thread executes nonempty)
  | returned =>
      simp only [step, callbackReturns] at stepped
      split at stepped
      · split at stepped
        · cases stepped
          refine ⟨paused, fun timers thread executes => ?_⟩
          cases executes
        · cases stepped
      · cases stepped
      · cases stepped

/-- What `Clock::settled` has found, if nothing else was going on. -/
theorem Idle.quiet (idle : program.Idle) (accounted : program.Accounted) (marked : program.Marked)
    (settled : program.timers.clock.settled = some true) : program.Quiet := by
  obtain ⟨lowered, quiet⟩ := Timers.Clock.of_settled settled
  constructor
  · exact idle.2
  · exact idle.1
  · intro timer pending
    exact (Timers.System.accounted_of_reachable accounted.timers).lt_of_quiet quiet pending
  · intro timers thread executes
    by_contra nonempty
    rw [marked timers thread executes nonempty] at lowered
    cases lowered

/-- The callback of a tick pushes nothing once the clock has settled. -/
theorem Accounted.not_owes (accounted : program.Accounted) (marked : program.Marked)
    (settled : program.timers.clock.settled = some true) : ¬ program.Owes Ticks := by
  rintro ⟨thread, running, timers, executes⟩
  have lowered := (Timers.Clock.of_settled settled).1
  have empty : timers = [] := by
    by_contra nonempty
    rw [marked timers thread executes nonempty] at lowered
    cases lowered
  rw [empty] at executes
  rw [Threads.top?, accounted.idle thread executes] at running
  cases running

end Program

/-! ## The calls of `settle` -/

namespace Settlement

variable {settlement next : Settlement} {move : SettlementMove}

/-- What `settle` knows by what it has read. -/
def Knows (settlement : Settlement) : Prop :=
  let epoch := settlement.program.scheduler.manager.epoch
  match settlement.settler with
  | .outside | .loadEpoch => True
  | .loadRunning old | .testEmpty old => old ≤ epoch
  | .reloadRunning old =>
      old ≤ epoch ∧ (settlement.program.scheduler.manager.runq = [] ∨
        settlement.program.Owes Program.Resumes ∨ settlement.program.Owes Program.Ticks ∨
        old < epoch)
  | .testClock old =>
      old ≤ epoch ∧ (settlement.program.Idle ∨ settlement.program.Owes Program.Ticks ∨ old < epoch)
  | .reloadEpoch old => (∃ program ∈ settlement.observed, program.Quiet) ∨ old < epoch
  | .returned => ∃ program ∈ settlement.observed, program.Quiet

structure Invariant (settlement : Settlement) : Prop where
  accounted : settlement.program.Accounted
  clock : settlement.settler.running = true →
    settlement.program.timers.clock.paused = true ∧ settlement.program.Marked
  knows : settlement.Knows

theorem Knows.program {move : ProgramMove} {program : Program} (knows : settlement.Knows)
    (confined : settlement.settler.running = true → settlement.program.Confined move)
    (stepped : settlement.program.step move = some program) :
    Knows { settlement with program } := by
  obtain ⟨before, settler, observed⟩ := settlement
  have epoch := Program.step_epoch stepped
  cases settler with
  | outside | loadEpoch | returned => exact knows
  | loadRunning old | testEmpty old => exact le_trans knows epoch
  | reloadRunning old =>
      refine ⟨le_trans knows.1 epoch, ?_⟩
      rcases knows.2 with drained | owes | owes | passed
      · rcases Program.step_drained stepped (confined rfl) drained with drained | owes | owes
        · exact .inl drained
        · exact .inr (.inl owes)
        · exact .inr (.inr (.inl owes))
      · rcases owes.step_resumes stepped with passed | owes
        · exact .inr (.inr (.inr (lt_of_le_of_lt knows.1 passed)))
        · exact .inr (.inl owes)
      · rcases owes.step_ticks stepped with passed | owes
        · exact .inr (.inr (.inr (lt_of_le_of_lt knows.1 passed)))
        · exact .inr (.inr (.inl owes))
      · exact .inr (.inr (.inr (lt_of_lt_of_le passed epoch)))
  | testClock old =>
      refine ⟨le_trans knows.1 epoch, ?_⟩
      rcases knows.2 with idle | owes | passed
      · rcases idle.step stepped (confined rfl) with idle | owes
        · exact .inl idle
        · exact .inr (.inl owes)
      · rcases owes.step_ticks stepped with passed | owes
        · exact .inr (.inr (lt_of_le_of_lt knows.1 passed))
        · exact .inr (.inl owes)
      · exact .inr (.inr (lt_of_lt_of_le passed epoch))
  | reloadEpoch old =>
      rcases knows with observed | passed
      · exact .inl observed
      · exact .inr (lt_of_lt_of_le passed epoch)

theorem Invariant.program {move : ProgramMove} {program : Program}
    (invariant : settlement.Invariant)
    (confined : settlement.settler.running = true → settlement.program.Confined move)
    (stepped : settlement.program.step move = some program) :
    Invariant { settlement with program } where
  accounted := invariant.accounted.step stepped
  clock active := by
    obtain ⟨paused, marked⟩ := invariant.clock active
    exact marked.step paused stepped (confined active)
  knows := invariant.knows.program confined stepped

theorem Invariant.settle (invariant : settlement.Invariant)
    (permitted : settlement.Permitted .settle)
    (stepped : settlement.step .settle = some next) :
    next.Invariant := by
  obtain ⟨accounted, clock, knows⟩ := invariant
  obtain ⟨settler, moved, rfl⟩ := Option.map_eq_some_iff.mp stepped
  obtain ⟨program, before, observed⟩ := settlement
  cases before with
  | outside =>
      cases moved
      exact ⟨accounted, fun _ => ⟨permitted.1 rfl, permitted.2 rfl rfl⟩, True.intro⟩
  | loadEpoch =>
      cases moved
      exact ⟨accounted, fun _ => clock rfl, le_refl _⟩
  | loadRunning old =>
      simp only [Settler.step, Option.some.injEq] at moved
      split at moved
      · subst moved
        exact ⟨accounted, fun _ => clock rfl, True.intro⟩
      · subst moved
        exact ⟨accounted, fun _ => clock rfl, knows⟩
  | testEmpty old =>
      simp only [Settler.step, Option.some.injEq] at moved
      split at moved
      · rename_i drained
        subst moved
        exact ⟨accounted, fun _ => clock rfl, knows, .inl drained⟩
      · subst moved
        exact ⟨accounted, fun _ => clock rfl, True.intro⟩
  | reloadRunning old =>
      simp only [Settler.step, Option.some.injEq] at moved
      split at moved
      · subst moved
        exact ⟨accounted, fun _ => clock rfl, True.intro⟩
      · rename_i none
        subst moved
        refine ⟨accounted, fun _ => clock rfl, knows.1, ?_⟩
        rcases knows.2 with drained | owes | owes | passed
        · exact .inl ⟨drained, fun frame member => accounted.plain_of_running none member⟩
        · obtain ⟨thread, -, stack, present, frame, member, inside⟩ := owes
          have plain := accounted.plain_of_running none
            (List.mem_flatten.mpr ⟨stack, List.mem_of_getElem? present, member⟩)
          rw [plain] at inside
          cases inside
        · exact .inr (.inl owes)
        · exact .inr (.inr passed)
  | testClock old =>
      obtain ⟨settled, found, rfl⟩ := Option.map_eq_some_iff.mp moved
      cases settled with
      | false => exact ⟨accounted, fun _ => clock rfl, True.intro⟩
      | true =>
          have marked := (clock rfl).2
          refine ⟨accounted, fun _ => clock rfl, ?_⟩
          rcases knows.2 with idle | owes | passed
          · exact .inl ⟨program, rfl, idle.quiet accounted marked found⟩
          · exact absurd owes (accounted.not_owes marked found)
          · exact .inr passed
  | reloadEpoch old =>
      simp only [Settler.step, Option.some.injEq] at moved
      split at moved
      · rename_i same
        subst moved
        refine ⟨accounted, fun active => absurd active (by simp [Settler.running]), ?_⟩
        exact knows.resolve_right (by simp [same])
      · subst moved
        exact ⟨accounted, fun _ => clock rfl, True.intro⟩
  | returned => cases moved

/-- When `settle` returns, nothing was going on when the clock was last found settled, except for
the callback of a tick that has no timers to execute. -/
theorem settles (reached : machine.Reaches Permitted settlement)
    (returned : settlement.settler = .returned) :
    ∃ program ∈ settlement.observed, program.Quiet := by
  have invariant : settlement.Invariant := by
    apply reached.invariant Invariant
    · rintro state rfl
      refine ⟨.new, fun active => ?_, True.intro⟩
      cases active
    · intro state move next invariant permitted stepped
      cases move with
      | program move =>
          obtain ⟨program, moved, rfl⟩ := Option.map_eq_some_iff.mp stepped
          exact invariant.program permitted.1 moved
      | settle => exact invariant.settle permitted stepped
  have knows := invariant.knows
  rw [Knows, returned] at knows
  exact knows

/-- While `settle` reads, a tick spawns a process, which a worker then runs. -/
def busySchedule : List SettlementMove :=
  let worker := .program (.scheduler (.advance 0 .proceed))
  let callback := .program (.scheduler (.advance 1 .proceed))
  List.flatten [[.program (.clock (.pause 0)), .program (.clock (.timer none 10 0 0)),
     .program (.clock (.advance 10)), .program (.scheduler .worker)], List.replicate 2 worker,
    List.replicate 5 .settle,
    [.program (.clock (.tick 10 0)), .program (.scheduler (.advance 1 (.call (.spawn 0))))],
    List.replicate 3 callback, List.replicate 2 worker, List.replicate 3 .settle,
    List.replicate 2 callback, [.program .returned, .program (.clock .settle)],
    List.replicate 2 .settle, List.replicate 8 worker, List.replicate 6 .settle]

theorem settles_busy : ∃ settlement, machine.run .new busySchedule = some settlement ∧
    settlement.program.scheduler.manager.epoch = 1 ∧
    ∃ program ∈ settlement.observed, program.Quiet := by
  obtain ⟨settlement, ran, returned, epoch⟩ : ∃ settlement ∈ machine.run .new busySchedule,
      settlement.settler = .returned ∧ settlement.program.scheduler.manager.epoch = 1 := by
    decide +kernel
  have permitted : machine.Along Permitted .new busySchedule := by decide +kernel
  exact ⟨settlement, ran, epoch, settles (.of_along (.start rfl) permitted ran) returned⟩

/-- The clock is paused before a delay fires, so that the tick takes no timers. -/
def earlySchedule : List SettlementMove :=
  [.program (.clock (.timer none 10 0 0)), .program (.clock (.pause 5)),
    .program (.clock (.tick 10 10))] ++ List.replicate 7 .settle

/-- The clock is paused while the callback executes its timer. -/
def lateSchedule : List SettlementMove :=
  [.program (.clock (.timer none 10 0 0)), .program (.clock (.tick 10 10)),
    .program (.clock (.pause 10))] ++ List.replicate 7 .settle

/-- `settle` returns although the callback of a tick was in progress, without timers or with one
that was taken before the clock was paused. -/
theorem not_settles_silent :
    (machine.Along Permitted .new earlySchedule ∧ ∃ settlement,
      machine.run .new earlySchedule = some settlement ∧ settlement.settler = .returned ∧
      ∃ program ∈ settlement.observed, program.eventLoop = .calling [] 0) ∧
    (machine.Along Assumed .new lateSchedule ∧ ∃ settlement,
      machine.run .new lateSchedule = some settlement ∧ settlement.settler = .returned ∧
      ∃ program ∈ settlement.observed, program.eventLoop = .calling [⟨1, 10⟩] 0) := by
  constructor
  · obtain ⟨settlement, ran, returned, observed⟩ : ∃ settlement ∈ machine.run .new earlySchedule,
        settlement.settler = .returned ∧
        ∃ program ∈ settlement.observed, program.eventLoop = .calling [] 0 := by
      decide +kernel
    exact ⟨by decide +kernel, settlement, ran, returned, observed⟩
  · obtain ⟨settlement, ran, returned, observed⟩ : ∃ settlement ∈ machine.run .new lateSchedule,
        settlement.settler = .returned ∧
        ∃ program ∈ settlement.observed, program.eventLoop = .calling [⟨1, 10⟩] 0 := by
      decide +kernel
    exact ⟨by decide +kernel, settlement, ran, returned, observed⟩

end Settlement

end Libprocess
