import Libprocess.Future.Association

/-!
# What the functions of a promise return

The results of `Promise::set`, `fail` and `discard` and of `Promise::associate`.  In every run in
which no function of a promise completes a future that was associated behind its back, at most one
of the two ways of completing a future is taken, and an associated future holds what its target
holds.
-/

namespace Libprocess

open Concurrency

variable {α : Type}

/-- `direct` stands for `Promise::set`, `Promise::fail` and `Promise::discard`. -/
inductive PromiseCall where
  | direct
  | associate
  deriving DecidableEq, Repr

/-- The machine with what the functions of promises have returned, latest first. -/
structure Answering (α : Type) where
  machine : Machine (graph α)
  answers : List (FutureId × PromiseCall × Bool)

namespace Graph

/-- What the function of a promise that a thread executes returns, once its next step decides
it. -/
def answer (machine : Machine (graph α)) (thread : Nat) : List (FutureId × PromiseCall × Bool) :=
  match machine.threads[thread]? with
  | some (.body (.settle future _) :: _) =>
      if (machine.memory.data future).associated then [(future, .direct, false)] else []
  | some (.body (.associate future _) :: _) =>
      [(future, .associate, (machine.memory.data future).state = .pending ∧
        !(machine.memory.data future).associated)]
  | some (.enter future op :: .body (.promised other _) :: _) =>
      if future = other ∧ op.completes then
        [(future, .direct, (machine.memory.data future).state = .pending)]
      else []
  | _ => []

end Graph

namespace Answering

/-- The answers after a step. -/
def record (answering : Answering α) : Move (graph α) → List (FutureId × PromiseCall × Bool)
  | .spawn => answering.answers
  | .advance thread _ => Graph.answer answering.machine thread ++ answering.answers

def step (answering : Answering α) (move : Move (graph α)) : Option (Answering α) :=
  (answering.machine.step move).map fun machine => ⟨machine, answering.record move⟩

def Initial (answering : Answering α) : Prop :=
  answering.machine.Initial ∧ answering.answers = []

end Answering

/-- All interleavings, with what the functions of promises return. -/
def answered (α : Type) : Automaton (Answering α) (Move (graph α)) where
  start := Answering.Initial
  step := Answering.step

namespace Answering

open Libprocess.Graph

variable {answering next : Answering α} {move : Move (graph α)}

theorem exists_of_step (stepped : answering.step move = some next) :
    answering.machine.step move = some next.machine ∧ next.answers = answering.record move := by
  obtain ⟨machine, moved, rfl⟩ := Option.map_eq_some_iff.mp stepped
  exact ⟨moved, rfl⟩

/-- The machine makes the same steps. -/
theorem reaches_machine {allowed : Machine (graph α) → Move (graph α) → Prop}
    (reached : (answered α).Reaches (fun answering => allowed answering.machine) answering) :
    (futures (graph α)).Reaches allowed answering.machine := by
  induction reached with
  | start started => exact .start started.1
  | step _ permitted stepped ih => exact .step ih permitted (exists_of_step stepped).1

/-- What a promise answered agrees with its future. -/
structure Faithful (answering : Answering α) : Prop where
  associated : ∀ future, (future, .associate, true) ∈ answering.answers ↔
    (answering.machine.memory.env.target future).isSome = true
  direct : ∀ future, (future, .direct, true) ∈ answering.answers →
    (answering.machine.memory.data future).state ≠ .pending ∧
      answering.machine.memory.env.target future = none

end Answering

namespace Graph

section Answers

variable {machine next : Machine (graph α)} {thread : Nat} {choice : GraphChoice α}
  {future : FutureId}

/-- `associate` answers true when its block succeeds. -/
theorem mem_answer_associate : (future, .associate, true) ∈ answer machine thread ↔
    ∃ target, machine.threads.top? thread = some (.body (.associate future target)) ∧
      (machine.memory.data future).state = .pending ∧
      (machine.memory.data future).associated = false := by
  rw [answer, Threads.top?]
  split
  · rename_i present
    rw [present]
    split <;> simp
  · rename_i other target rest present
    rw [present]
    constructor
    · intro member
      simp only [List.mem_singleton, Prod.mk.injEq, true_and] at member
      obtain ⟨rfl, succeeds⟩ := member
      obtain ⟨pending, unassociated⟩ := of_decide_eq_true succeeds.symm
      exact ⟨target, rfl, pending, by simpa using unassociated⟩
    · rintro ⟨_, ⟨⟩, pending, unassociated⟩
      simp [pending, unassociated]
  · rename_i present
    rw [present]
    split <;> simp
  · rename_i _ distinct _
    constructor
    · intro member
      cases member
    · rintro ⟨target, running, -⟩
      obtain ⟨rest, present⟩ := Threads.exists_stack running
      exact absurd present (distinct future target rest)

/-- The other functions answer true when their block completes the future. -/
theorem mem_answer_direct : (future, .direct, true) ∈ answer machine thread ↔
    (machine.memory.data future).state = .pending ∧ ∃ op completion rest,
      machine.threads[thread]? =
        some (.enter future op :: .body (.promised future completion) :: rest) ∧
      op.completes = true := by
  rw [answer]
  split
  · rename_i present
    rw [present]
    split <;> simp
  · rename_i present
    rw [present]
    simp
  · rename_i called op other completion rest present
    rw [present]
    split
    · rename_i own
      constructor
      · intro member
        simp only [List.mem_singleton, Prod.mk.injEq, true_and] at member
        obtain ⟨rfl, pending⟩ := member
        obtain ⟨rfl, completes⟩ := own
        exact ⟨of_decide_eq_true pending.symm, op, completion, rest, rfl, completes⟩
      · rintro ⟨pending, _, _, _, ⟨⟩, -⟩
        simp [pending]
    · rename_i foreign
      constructor
      · intro member
        cases member
      · rintro ⟨-, _, _, _, ⟨⟩, completes⟩
        exact absurd ⟨rfl, completes⟩ foreign
  · rename_i distinct
    constructor
    · intro member
      cases member
    · rintro ⟨-, op, completion, rest, present, -⟩
      exact absurd present (distinct future op future completion rest)

theorem exists_of_direct (member : future ∈ machine.threads[thread]?.bind direct) :
    ∃ op completion rest, machine.threads[thread]? =
      some (.enter future op :: .body (.promised future completion) :: rest) ∧
      op.completes = true := by
  obtain ⟨stack, present, found⟩ := Option.bind_eq_some_iff.mp member
  rw [present]
  unfold direct at found
  split at found
  · split at found
    · rename_i own
      cases found
      obtain ⟨rfl, completes⟩ := own
      exact ⟨_, _, _, rfl, completes⟩
    · cases found
  · cases found

theorem Moves.target_of_associate {status : FutureId → Status α} {env after : GraphEnv}
    {target : FutureId} {associated : FutureId → Bool}
    {made : List (FutureId × Op α GraphCallback)} {entered : List (GraphBody α)}
    (moves : Moves status env (.associate future target) after associated made entered)
    (pending : (status future).state = .pending) (free : (status future).associated = false) :
    after.target future = some target := by
  cases moves with
  | associate => exact Function.update_self _ _ _
  | refuse runs alive resolved =>
      obtain ⟨_, ⟨⟩⟩ | ⟨_, ⟨⟩⟩ := runs
      obtain completed | associated := resolved
      · exact absurd pending completed
      · rw [free] at associated
        cases associated
  | call runs | promise runs | settling runs | associating runs | destroy runs | derive runs
  | expire runs | free runs | orphan runs => cases runs
  | late runs => rcases runs with runs | runs <;> cases runs

/-- A future gets a target by a successful `associate` only. -/
theorem isSome_target_step (stepped : machine.step (.advance thread choice) = some next)
    (kept : Kept machine.snapshot) :
    (next.memory.env.target future).isSome = true ↔
      (machine.memory.env.target future).isSome = true ∨
        ∃ target, machine.threads.top? thread = some (.body (.associate future target)) ∧
          (machine.memory.data future).state = .pending ∧
          (machine.memory.data future).associated = false := by
  obtain ⟨frame, continuation, running, moved, -⟩ := Machine.step_advance stepped
  rw [running]
  cases frame with
  | body body =>
      obtain ⟨effect, acted, result⟩ := Option.map_eq_some_iff.mp moved
      rw [Prod.mk.injEq] at result
      rw [← result.1]
      have moves := (step_does acted).1
      constructor
      · intro found
        obtain ⟨same, -⟩ | ⟨associated, target, rfl, -, pending, unassociated, targets, -, -⟩ :=
          moves.target
        · left
          rw [← same]
          exact found
        · by_cases here : future = associated
          · subst here
            exact .inr ⟨target, rfl, pending, unassociated⟩
          · left
            change (effect.env.target future).isSome = true at found
            rwa [targets, Function.update_of_ne here] at found
      · rintro (old | ⟨target, ⟨⟩, pending, unassociated⟩)
        · obtain ⟨target, found⟩ := Option.isSome_iff_exists.mp old
          exact Option.isSome_iff_exists.mpr
            ⟨target, (moves.later kept.associated).1.target future target found⟩
        · exact Option.isSome_iff_exists.mpr
            ⟨target, moves.target_of_associate pending unassociated⟩
  | enter | running | clearing | swapped | invoking =>
      rw [env_of_step moved rfl]
      simp

end Answers

end Graph

namespace Answering

open Libprocess.Graph

variable {answering next : Answering α} {move : Move (graph α)}

theorem Faithful.initial (initial : answering.Initial) : Faithful answering := by
  obtain ⟨⟨-, env, -⟩, answers⟩ := initial
  constructor
  · intro future
    rw [answers, env]
    simp [GraphEnv.new]
  · intro future member
    rw [answers] at member
    cases member

/-- The block of a direct call completes a future that has no target. -/
theorem Faithful.step (faithful : Faithful answering)
    (reached : (futures (graph α)).Reachable answering.machine)
    (unraced : Unraced answering.machine move) (stepped : answering.step move = some next) :
    Faithful next := by
  obtain ⟨moved, answers⟩ := exists_of_step stepped
  cases move with
  | spawn =>
      have same : next.machine.memory = answering.machine.memory := by
        simp only [Machine.step, Option.some.injEq] at moved
        rw [← moved]
      constructor
      · rw [answers, same]
        exact faithful.associated
      · rw [answers, same]
        exact faithful.direct
  | advance thread choice =>
      have kept := (Graph.Invariant.of_reachable reached).kept
      obtain ⟨frame, running, step⟩ :=
        Machine.advance_snapshot (.of_reachable reached) (.of_reachable reached) moved
      have progress := step_progress kept step
      rw [record] at answers
      constructor
      · intro future
        rw [answers, List.mem_append, faithful.associated, mem_answer_associate,
          isSome_target_step moved kept, or_comm]
      · intro future member
        rw [answers] at member
        -- A completed future gets no target.
        have untargeted : (next.machine.memory.data future).state ≠ .pending →
            answering.machine.memory.env.target future = none →
            (answering.machine.memory.data future).state ≠ .pending ∨
              (∀ target, frame ≠ .body (.associate future target)) →
            next.machine.memory.env.target future = none := by
          intro final none foreign
          by_contra some
          obtain old | ⟨target, top, pending, -⟩ := (isSome_target_step moved kept).mp
            (Option.isSome_iff_ne_none.mpr some)
          · rw [none] at old
            cases old
          · rw [running, Option.some.injEq] at top
            cases foreign with
            | inl completed => exact completed pending
            | inr different => exact different target top
        cases List.mem_append.mp member with
        | inr old =>
            obtain ⟨completed, none⟩ := faithful.direct future old
            have final := progress.completed completed
            exact ⟨final, untargeted final none (.inl completed)⟩
        | inl new =>
            obtain ⟨pending, op, completion, rest, stack, completes⟩ := mem_answer_direct.mp new
            have free := unraced future (by simp [stack, Graph.direct, completes]) pending
            have none : answering.machine.snapshot.env.target future = none := by
              have flag := kept.associated future
              change (answering.machine.memory.data future).associated = _ at flag
              rw [free] at flag
              simpa using flag.symm
            have top : answering.machine.threads.top? thread = some (.enter future op) := by
              rw [Threads.top?, stack]
              rfl
            rw [running] at top
            cases top
            obtain ⟨_, continuation, again, acted, -⟩ := Machine.step_advance moved
            rw [running] at again
            cases again
            have final := completed_of_enter acted completes
            exact ⟨final, untargeted final none (.inr (by simp))⟩

theorem Faithful.of_reaches
    (reached : (answered α).Reaches (fun answering => Unraced answering.machine) answering) :
    Faithful answering := by
  induction reached with
  | start started => exact .initial started
  | step prior unraced stepped ih =>
      exact ih.step (reaches_machine prior).reachable unraced stepped

end Answering

/-- An associated future holds what its target holds. -/
theorem Graph.Mirrored.agree {machine : Machine (graph α)}
    (mirrored : Graph.Mirrored machine.snapshot)
    (reached : (futures (graph α)).Reachable machine) (idle : Graph.Idle machine)
    {future target : FutureId} (found : machine.memory.env.target future = some target) :
    (machine.memory.data future).state = (machine.memory.data target).state ∧
      (machine.memory.data future).result = (machine.memory.data target).result := by
  have sound := (Machine.Invariant.of_reachable reached).sound
  have fits := sound.result future
  have source := sound.result target
  by_cases pending : (machine.memory.data future).state = .pending
  · have waits : (machine.memory.data target).state = .pending := by
      by_contra completed
      exact (idle.associated reached found).completed completed pending
    rw [Machine.snapshot_status, pending] at fits
    rw [Machine.snapshot_status, waits] at source
    exact ⟨pending.trans waits.symm, fits.trans source.symm⟩
  · obtain ⟨op, own, settles⟩ := mirrored.completed future target found pending
    exact own.agree settles fits source

/-- `associate` and direct completion exclude each other: if `associate` returned true, no other
function of the promise does, and the future holds what its target holds. -/
def Answering.Exclusive (answering : Answering α) : Prop :=
  ∀ future, (future, .associate, true) ∈ answering.answers →
    (future, .direct, true) ∉ answering.answers ∧
      ∃ target, answering.machine.memory.env.target future = some target ∧
        (Graph.Idle answering.machine →
          (answering.machine.memory.data future).state =
              (answering.machine.memory.data target).state ∧
            (answering.machine.memory.data future).result =
              (answering.machine.memory.data target).result)

theorem Answering.exclusive_of_reaches {answering : Answering α}
    (reached : (answered α).Reaches (fun answering => Graph.Unraced answering.machine) answering) :
    answering.Exclusive := by
  have faithful := Faithful.of_reaches reached
  have machine := reaches_machine reached
  intro future succeeded
  obtain ⟨target, found⟩ := Option.isSome_iff_exists.mp ((faithful.associated future).mp succeeded)
  constructor
  · intro direct
    have none := (faithful.direct future direct).2
    rw [found] at none
    cases none
  · refine ⟨target, found, ?_⟩
    intro idle
    exact (Graph.Mirrored.of_unraced machine).agree machine.reachable idle found

/-- The exclusion holds throughout a run exactly when no direct call completes a future that was
associated after the call had read `associated`. -/
theorem associate_excludes_direct {start final : Answering α} {schedule : List (Move (graph α))}
    (initial : start.Initial) (executed : (answered α).run start schedule = some final) :
    (answered α).Throughout Answering.Exclusive start schedule ↔
      (answered α).Along (fun answering => Graph.Unraced answering.machine) start schedule := by
  apply Automaton.throughout_iff_along Answering.Exclusive
    ((answered α).Reaches fun answering => Graph.Unraced answering.machine) (.start initial)
  · intro answering reached
    exact Answering.exclusive_of_reaches reached
  · intro answering move next reached unraced stepped
    exact .step reached unraced stepped
  · intro answering move next reached raced stepped exclusive
    have faithful := Answering.Faithful.of_reaches reached
    have kept := (Graph.Invariant.of_reachable (Answering.reaches_machine reached).reachable).kept
    obtain ⟨moved, answers⟩ := Answering.exists_of_step stepped
    cases move with
    | spawn => exact raced trivial
    | advance thread choice =>
        rw [Answering.record] at answers
        -- The step that races answers true for an associated future.
        apply raced
        intro future member pending
        by_contra associated
        have target : (answering.machine.memory.env.target future).isSome = true := by
          have flag := kept.associated future
          change (answering.machine.memory.data future).associated = _ at flag
          change _ = (answering.machine.memory.env.target future).isSome at flag
          rw [← flag]
          simpa using associated
        have direct : (future, .direct, true) ∈ next.answers := by
          rw [answers]
          apply List.mem_append_left
          exact Graph.mem_answer_direct.mpr ⟨pending, Graph.exists_of_direct member⟩
        have succeeded : (future, .associate, true) ∈ next.answers := by
          rw [answers]
          exact List.mem_append_right _ ((faithful.associated future).mpr target)
        exact (exclusive future succeeded).1 direct
  · exact executed

/-- Before the first call. -/
def Answering.new (α : Type) : Answering α := ⟨.new (graph α) fun _ => false, []⟩

theorem Answering.new_initial : (Answering.new α).Initial := ⟨Machine.new_initial _ _, rfl⟩

/-- A thread has started `set` when another one associates the promise. -/
def overtakenSchedule : List (Move (graph Nat)) :=
  List.flatten [[.spawn, .spawn], Graph.perform 0 (.promise 0) 0, Graph.perform 0 (.promise 1) 0,
    Graph.perform 1 (.settle 0 (.set 7)) 0, Graph.perform 0 (.associate 0 1) 6,
    Graph.perform 1 .finish 0, Graph.perform 0 (.settle 1 (.set 5)) 13]

/-- The same, but `set` has read `associated` already. -/
def racingSchedule : List (Move (graph Nat)) :=
  List.flatten [[.spawn, .spawn], Graph.perform 0 (.promise 0) 0, Graph.perform 0 (.promise 1) 0,
    Graph.perform 1 (.settle 0 (.set 7)) 1, Graph.perform 0 (.associate 0 1) 6,
    Graph.perform 1 .finish 4]

theorem associate_excludes_direct_overtaken :
    (answered Nat).Throughout Answering.Exclusive (.new Nat) overtakenSchedule := by
  have outcome : ((answered Nat).run (.new Nat) overtakenSchedule).isSome = true := by
    decide +kernel
  obtain ⟨final, executed⟩ := Option.isSome_iff_exists.mp outcome
  exact (associate_excludes_direct Answering.new_initial executed).mpr (by decide +kernel)

theorem associate_races_direct : ∃ final, (answered Nat).run (.new Nat) racingSchedule = some final ∧
    Graph.Idle final.machine ∧ (0, .associate, true) ∈ final.answers ∧
      (0, .direct, true) ∈ final.answers ∧ final.machine.memory.env.target 0 = some 1 ∧
      (final.machine.memory.data 0).state = .ready ∧
      (final.machine.memory.data 1).state = .pending ∧ ¬ final.Exclusive := by
  obtain ⟨final, executed, idle, associated, direct, target, ready, pending⟩ :
      ∃ final ∈ (answered Nat).run (.new Nat) racingSchedule,
      Graph.Idle final.machine ∧ (0, .associate, true) ∈ final.answers ∧
      (0, .direct, true) ∈ final.answers ∧ final.machine.memory.env.target 0 = some 1 ∧
      (final.machine.memory.data 0).state = .ready ∧
      (final.machine.memory.data 1).state = .pending := by
    decide +kernel
  refine ⟨final, executed, idle, associated, direct, target, ready, pending, ?_⟩
  intro exclusive
  exact (exclusive 0 associated).1 direct

/-! ## The mirror -/

/-- An associated future and its target. -/
structure Answering.Mirrors (answering : Answering α) (future target : FutureId) : Prop where
  completed : Graph.Idle answering.machine →
    (answering.machine.memory.data future).state = (answering.machine.memory.data target).state ∧
      (answering.machine.memory.data future).result =
        (answering.machine.memory.data target).result
  abandoned : Graph.Idle answering.machine →
    (answering.machine.memory.data target).state = .pending →
    (answering.machine.memory.data target).abandoned = true →
    (answering.machine.memory.data future).abandoned = true
  discard : Graph.Idle answering.machine →
    (answering.machine.memory.data future).state = .pending →
    (answering.machine.memory.data future).discard = true →
    answering.machine.memory.env.gone target = false →
    (answering.machine.memory.data target).discard = true
  /-- `set`, `fail` and `discard` return false and change nothing. -/
  settles : ∀ thread choice next completion,
    answering.machine.threads.top? thread = some (.body (.settle future completion)) →
    answering.step (.advance thread choice) = some next →
    next.machine.memory = answering.machine.memory ∧
      next.answers = (future, .direct, false) :: answering.answers
  /-- So does `associate`. -/
  associates : ∀ thread choice next other,
    answering.machine.threads.top? thread = some (.body (.associate future other)) →
    answering.step (.advance thread choice) = some next →
    next.machine.memory = answering.machine.memory ∧
      next.answers = (future, .associate, false) :: answering.answers

namespace Graph

variable {machine next : Machine (graph α)} {thread : Nat} {choice : GraphChoice α}
  {future : FutureId}

/-- A step of the code without an effect leaves the memory as it is. -/
theorem memory_of_outcome {body : GraphBody α}
    (moved : machine.step (.advance thread choice) = some next)
    (running : machine.threads.top? thread = some (.body body))
    (refused : ∀ effect, step (fun other => (machine.memory.data other).toStatus) machine.memory.env
      body choice = some effect → ∃ activations, effect =
        outcome (fun other => (machine.memory.data other).toStatus) machine.memory.env activations) :
    next.memory = machine.memory := by
  obtain ⟨frame, continuation, same, acted, -⟩ := Machine.step_advance moved
  rw [running] at same
  cases same
  obtain ⟨effect, stepped, result⟩ := Option.map_eq_some_iff.mp acted
  obtain ⟨activations, rfl⟩ := refused effect stepped
  rw [Prod.mk.injEq] at result
  rw [← result.1]
  rfl

theorem memory_of_settle {completion : Completion α}
    (moved : machine.step (.advance thread choice) = some next)
    (running : machine.threads.top? thread = some (.body (.settle future completion)))
    (associated : (machine.memory.data future).associated = true) :
    next.memory = machine.memory := by
  apply memory_of_outcome moved running
  intro effect stepped
  simp only [step, settle, associated, if_true] at stepped
  split at stepped
  · cases stepped
  · cases stepped
    exact ⟨_, rfl⟩

theorem memory_of_associate {target : FutureId}
    (moved : machine.step (.advance thread choice) = some next)
    (running : machine.threads.top? thread = some (.body (.associate future target)))
    (associated : (machine.memory.data future).associated = true) :
    next.memory = machine.memory := by
  apply memory_of_outcome moved running
  intro effect stepped
  simp only [step, associate, associated, Bool.not_true, Bool.false_eq_true, and_false,
    if_false] at stepped
  split at stepped
  · cases stepped
  · cases stepped
    exact ⟨_, rfl⟩

end Graph

/-- If no function of a promise completes a future while `associate` takes effect, the future
mirrors its target from then on. -/
theorem associate_mirrors {answering : Answering α}
    (reached : (answered α).Reaches (fun answering => Graph.Separate answering.machine) answering)
    {future target : FutureId}
    (found : answering.machine.memory.env.target future = some target) :
    answering.Mirrors future target := by
  have machine := Answering.reaches_machine reached
  have mirrored := Graph.Mirrored.of_separate machine
  have associated : (answering.machine.memory.data future).associated = true := by
    have flag := (Graph.Invariant.of_reachable machine.reachable).kept.associated future
    change (answering.machine.memory.data future).associated =
      (answering.machine.memory.env.target future).isSome at flag
    rw [flag, found]
    rfl
  have agree : Graph.Idle answering.machine → _ := fun idle =>
    mirrored.agree machine.reachable idle found
  constructor
  · exact agree
  · intro idle pending abandoned
    obtain abandoned | completed := (idle.associated machine.reachable found).abandoned abandoned
    · exact abandoned
    · exact absurd ((agree idle).1.trans pending) completed
  · intro idle pending discard referenced
    obtain discard | completed | gone := (idle.associated machine.reachable found).discard discard
    · exact discard
    · exact absurd ((agree idle).1.symm.trans pending) completed
    · change answering.machine.memory.env.gone target = true at gone
      rw [referenced] at gone
      cases gone
  · intro thread choice next completion running stepped
    obtain ⟨moved, answers⟩ := Answering.exists_of_step stepped
    refine ⟨Graph.memory_of_settle moved running associated, ?_⟩
    obtain ⟨rest, present⟩ := Threads.exists_stack running
    rw [answers, Answering.record, Graph.answer, present]
    simp [associated]
  · intro thread choice next other running stepped
    obtain ⟨moved, answers⟩ := Answering.exists_of_step stepped
    refine ⟨Graph.memory_of_associate moved running associated, ?_⟩
    obtain ⟨rest, present⟩ := Threads.exists_stack running
    rw [answers, Answering.record, Graph.answer, present]
    simp [associated]

theorem associate_mirrors_overtaken : ∃ final,
    (answered Nat).run (.new Nat) overtakenSchedule = some final ∧ Graph.Idle final.machine ∧
      final.Mirrors 0 1 ∧ (final.machine.memory.data 0).result = .some 5 := by
  obtain ⟨final, executed, idle, target, result⟩ :
      ∃ final ∈ (answered Nat).run (.new Nat) overtakenSchedule,
      Graph.Idle final.machine ∧ final.machine.memory.env.target 0 = some 1 ∧
      (final.machine.memory.data 1).result = .some 5 := by
    decide +kernel
  have separate : (answered Nat).Along (fun answering => Graph.Separate answering.machine)
      (.new Nat) overtakenSchedule := by
    decide +kernel
  have mirrors := associate_mirrors
    (.of_along (.start Answering.new_initial) separate executed) target
  exact ⟨final, executed, idle, mirrors, (mirrors.completed idle).2.trans result⟩

end Libprocess
