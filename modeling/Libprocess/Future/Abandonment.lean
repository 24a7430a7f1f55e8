import Libprocess.Future.CombinatorStacks
import Mathlib.Logic.Relation

/-!
# Abandoned futures

A future is abandoned when the promise behind it is destroyed, or when a future is abandoned that
it waits on.  When no operation is in flight, abandonment has reached every future that waits on
an abandoned one, through chains of any length, and its callbacks have been invoked once.
-/

namespace Libprocess

open Concurrency

variable {α : Type}

open Snapshot (Entered Ran)

namespace Graph

/-- Why a future is abandoned. -/
def Cause (snapshot : GraphSnapshot α) (future : FutureId) : Prop :=
  (∃ combinator parent, snapshot.env.parent future = some (combinator, parent) ∧
      (snapshot.status parent).abandoned = true) ∨
    (∃ target, snapshot.env.target future = some target ∧
      (snapshot.status target).abandoned = true) ∨
    snapshot.env.destroyed future = true ∧ snapshot.env.parent future = none ∧
      snapshot.env.target future = none

/-- Why a call abandons a future, unless it propagates from the target. -/
def Grounds (snapshot : GraphSnapshot α) (future : FutureId) : Prop :=
  Resolved future snapshot ∨
    (∃ combinator parent, snapshot.env.parent future = some (combinator, parent) ∧
      (snapshot.status parent).abandoned = true) ∨
    snapshot.env.destroyed future = true ∧ snapshot.env.parent future = none ∧
      snapshot.env.made future = true

/-- Every abandonment has a cause. -/
structure Blamed (snapshot : GraphSnapshot α) : Prop where
  abandoned : ∀ future, snapshot.env.made future = true →
    (snapshot.status future).abandoned = true → Cause snapshot future
  propagates : ∀ future, (future, .abandon true) ∈ snapshot.calls →
    ∃ target, snapshot.env.target future = some target ∧ (snapshot.status target).abandoned = true
  calls : ∀ future, (future, .abandon false) ∈ snapshot.calls → Grounds snapshot future
  associated : ∀ future argument, .bound (.abandon future) argument ∈ snapshot.bodies →
    ∃ target, snapshot.env.target future = some target ∧ (snapshot.status target).abandoned = true
  derived : ∀ derived argument, .bound (.abandoned derived) argument ∈ snapshot.bodies →
    ∃ combinator parent, snapshot.env.parent derived = some (combinator, parent) ∧
      (snapshot.status parent).abandoned = true
  freed : ∀ future, snapshot.env.gone future = true →
    (snapshot.status future).state = .pending → (snapshot.status future).abandoned = true
  associates : ∀ future target, .associate future target ∈ snapshot.bodies →
    snapshot.env.made future = true
  target : ∀ future, (snapshot.env.target future).isSome = true →
    snapshot.env.made future = true

section Origins

variable {status : FutureId → Status α} {env next : GraphEnv} {frame : GraphBody α}
  {associated : FutureId → Bool} {made : List (FutureId × Op α GraphCallback)}
  {entered : List (GraphBody α)} {future : FutureId}

theorem mem_released {other : FutureId} {op : Op α GraphCallback}
    (member : (future, op) ∈ released env other) : future = other ∧ op = .abandon false := by
  rw [released] at member
  split at member
  · simpa using member
  · cases member

section

variable (moves : Moves status env frame next associated made entered)

include moves

/-- Where the calls that abandon a future come from. -/
theorem Moves.abandons {propagating : Bool} (member : (future, .abandon propagating) ∈ made) :
    (propagating = true ∧ ∃ argument, frame = .bound (.abandon future) argument) ∨
      propagating = false ∧
        (env.owns future = true ∧ next.destroyed future = true ∨
          (∃ combinator parent, env.parent future = some (combinator, parent) ∧
            env.gone parent = true ∧ (status parent).state = .pending) ∨
          frame = .run future ∧ (∃ combinator parent,
            env.parent future = some (combinator, parent) ∧ (status parent).state = .pending) ∨
          ((status future).state ≠ .pending ∨ associated future = true) ∨
          (∃ completion, frame = .promised future completion) ∨
          ∃ argument, frame = .bound (.abandoned future) argument) := by
  cases moves with
  | @call frame other op runs shared =>
      simp only [List.mem_singleton, Prod.mk.injEq] at member
      cases op <;> simp_all [Op.foreign, Op.shared]
  | destroy runs owned =>
      simp only [List.mem_singleton, Prod.mk.injEq, Op.abandon.injEq] at member
      obtain ⟨rfl, rfl⟩ := member
      exact .inr ⟨rfl, .inl ⟨owned, Function.update_self _ _ _⟩⟩
  | derive => simp [derivations] at member
  | orphan runs found freed pending =>
      simp only [List.mem_singleton, Prod.mk.injEq, Op.abandon.injEq] at member
      obtain ⟨rfl, rfl⟩ := member
      exact .inr ⟨rfl, .inr (.inl ⟨_, _, found, freed, pending⟩)⟩
  | unrun found pending =>
      obtain ⟨rfl, op⟩ := mem_released member
      cases op
      exact .inr ⟨rfl, .inr (.inr (.inl ⟨rfl, _, _, found, pending⟩))⟩
  | refuse runs alive resolved =>
      obtain ⟨rfl, op⟩ := mem_released member
      cases op
      exact .inr ⟨rfl, .inr (.inr (.inr (.inl resolved)))⟩
  | promised =>
      obtain ⟨rfl, op⟩ := mem_released member
      cases op
      exact .inr ⟨rfl, .inr (.inr (.inr (.inr (.inl ⟨_, rfl⟩))))⟩
  | associate =>
      cases List.mem_append.mp member with
      | inl registers => simp [associations] at registers
      | inr releases =>
          obtain ⟨rfl, op⟩ := mem_released releases
          cases op
          exact .inr ⟨rfl, .inr (.inr (.inr (.inl (.inr (Function.update_self _ _ _)))))⟩
  | @settle _ completion | @forward _ _ _ completion =>
      simp only [List.mem_singleton, Prod.mk.injEq] at member
      have wrong := completes_op completion
      rw [← member.2] at wrong
      cases wrong
  | abandon =>
      simp only [List.mem_singleton, Prod.mk.injEq, Op.abandon.injEq] at member
      obtain ⟨rfl, rfl⟩ := member
      exact .inl ⟨rfl, _, rfl⟩
  | abandoned =>
      simp only [List.mem_singleton, Prod.mk.injEq, Op.abandon.injEq] at member
      obtain ⟨rfl, rfl⟩ := member
      exact .inr ⟨rfl, .inr (.inr (.inr (.inr (.inr ⟨_, rfl⟩))))⟩
  | _ => simp at member

/-- Bound functions are entered by their invocation only. -/
theorem Moves.not_bound
    {callback : GraphCallback} {argument : Argument α} : .bound callback argument ∉ entered := by
  have different : ∀ frame : GraphBody α, frame.isForeign = true →
      .bound callback argument ≠ frame := by
    rintro frame runs rfl
    cases runs
  cases moves with
  | call runs | promise runs | settling runs | associating runs | destroy runs | derive runs
  | expire runs | free runs | orphan runs => simp [different _ runs]
  | _ => simp

theorem Moves.gone :
    next.gone = env.gone ∨ ∃ future, next.gone = Function.update env.gone future true ∧
      frame.isForeign = true ∧ freeable status env future = true := by
  cases moves with
  | free runs freeable => exact .inr ⟨_, rfl, runs, freeable⟩
  | _ => exact .inl rfl

/-- New promises are not abandoned. -/
theorem Moves.promises (promised : next.made future = true) :
    env.made future = true ∨ (status future).abandoned = false := by
  cases moves with
  | @promise frame other runs fresh freed intact
  | @derive frame combinator parent other runs fresh freed intact =>
      by_cases same : future = other
      · subst same
        exact .inr intact
      · exact .inl ((Function.update_of_ne same _ _).symm.trans promised)
  | _ => exact .inl promised

/-- Only promises are associated. -/
theorem Moves.associates {target : FutureId} (member : .associate future target ∈ entered) :
    env.owns future = true ∨ (env.parent future).isSome = true := by
  have different : ∀ frame : GraphBody α, frame.isForeign = true →
      .associate future target ≠ frame := by
    rintro frame runs rfl
    cases runs
  cases moves with
  | call runs | promise runs | settling runs | destroy runs | derive runs | expire runs
  | free runs | orphan runs => simp [different _ runs] at member
  | associating runs owned =>
      simp only [List.mem_cons, GraphBody.associate.injEq, different _ runs, List.not_mem_nil,
        or_false] at member
      rw [member.1]
      exact .inl owned
  | repair found | after found | yieldFuture found =>
      simp only [List.mem_singleton, GraphBody.associate.injEq] at member
      rw [member.1, found]
      exact .inr rfl
  | _ => simp at member

end

end Origins

section Steps

variable {before after : GraphSnapshot α} {frame : (graph α).Frame} {future : FutureId}

theorem Cause.progress (cause : Cause before future) (kept : Kept before)
    (progress : Progress before after) (made : before.env.made future = true) :
    Cause after future := by
  obtain ⟨combinator, parent, found, abandoned⟩ | ⟨target, found, abandoned⟩ |
    ⟨destroyed, parent, target⟩ := cause
  · exact .inl ⟨combinator, parent, progress.parent kept found,
      (progress.status parent).abandoned abandoned⟩
  · exact .inr (.inl ⟨target, progress.env.target _ _ found,
      (progress.status target).abandoned abandoned⟩)
  · refine .inr (.inr ⟨progress.env.destroyed _ destroyed, ?_, ?_⟩)
    · rw [progress.env.parent future made, parent]
    · rw [progress.env.lost future destroyed, target]

theorem Grounds.progress (grounds : Grounds before future) (kept : Kept before)
    (progress : Progress before after) : Grounds after future := by
  obtain resolved | ⟨combinator, parent, found, abandoned⟩ | ⟨destroyed, parent, made⟩ := grounds
  · exact .inl (resolved.progress progress)
  · exact .inr (.inl ⟨combinator, parent, progress.parent kept found,
      (progress.status parent).abandoned abandoned⟩)
  · refine .inr (.inr ⟨progress.env.destroyed _ destroyed, ?_, progress.env.made _ made⟩)
    rw [progress.env.parent future made, parent]

/-- What the stacks say about the frame that runs. -/
def Waited (snapshot : GraphSnapshot α) (frame : (graph α).Frame) : Prop :=
  ∀ future completion, frame = .body (.promised future completion) → Resolved future snapshot

theorem Blamed.abandoned_step (blamed : Blamed before) (kept : Kept before)
    (step : before.Step frame after) (made : after.env.made future = true)
    (abandoned : (after.status future).abandoned = true) : Cause after future := by
  have progress := step_progress kept step
  have earlier : before.env.made future = true → (before.status future).abandoned = true →
      Cause after future := by
    intro made abandoned
    exact (blamed.abandoned future made abandoned).progress kept progress made
  obtain rfl | ⟨other, op, -, entered⟩ | ⟨other, kind, registration, ran⟩ |
    ⟨body, rest, calls, opened, -, executed⟩ := step_cases step
  · exact earlier made abandoned
  · rw [entered.env] at made
    cases old : (before.status future).abandoned with
    | true => exact earlier made old
    | false =>
        -- The call has just abandoned the future.
        rw [entered.status] at abandoned
        by_cases same : future = other
        · subst same
          rw [Function.update_self] at abandoned
          cases op with
          | abandon propagating =>
              simp only [Status.enter] at abandoned
              split at abandoned
              · rename_i acts
                have call : (future, .abandon propagating) ∈ before.calls := by
                  rw [entered.calls]
                  exact Multiset.mem_cons_self _ _
                cases propagating with
                | true =>
                    obtain ⟨target, found, lost⟩ := blamed.propagates future call
                    exact Cause.progress (.inr (.inl ⟨target, found, lost⟩)) kept progress made
                | false =>
                    obtain ⟨-, pending, unassociated⟩ := acts
                    have free : (before.status future).associated = false := by
                      simpa using unassociated
                    have target : before.env.target future = none := by
                      have flag := kept.associated future
                      rw [free] at flag
                      simpa using flag.symm
                    obtain (completed | associated) | parent | ⟨destroyed, parent, -⟩ :=
                      blamed.calls future call
                    · exact absurd pending completed
                    · rw [free] at associated
                      cases associated
                    · exact Cause.progress (.inl parent) kept progress made
                    · exact Cause.progress (.inr (.inr ⟨destroyed, parent, target⟩)) kept progress
                        made
              · rw [old] at abandoned
                cases abandoned
          | set | fail | discarded | discard =>
              simp only [Status.enter] at abandoned
              split at abandoned <;> simp_all
          | on => simp_all [Status.enter]
        · rw [Function.update_of_ne same, old] at abandoned
          cases abandoned
  · rw [ran.env] at made
    rw [ran.status] at abandoned
    exact earlier made abandoned
  · rw [(executed.status future).2.2.1] at abandoned
    cases executed.moves.promises made with
    | inl old => exact earlier old abandoned
    | inr intact =>
        rw [intact] at abandoned
        cases abandoned

theorem Blamed.executed {body : GraphBody α} {rest : Multiset (GraphBody α)}
    {made : List (FutureId × Op α GraphCallback)} {opened : List (GraphBody α)}
    (blamed : Blamed before) (forwarded : Forwarded before) (kept : Kept before)
    (progress : Progress before after) (waited : Waited before (.body body))
    (executed : Executed before after body rest made opened) {propagating : Bool}
    (member : (future, .abandon propagating) ∈ made) :
    (propagating = true ∧ ∃ target, after.env.target future = some target ∧
      (after.status target).abandoned = true) ∨ propagating = false ∧ Grounds after future := by
  have running := executed.mem
  obtain ⟨rfl, argument, rfl⟩ | ⟨rfl, ⟨owned, destroyed⟩ |
    ⟨combinator, parent, found, freed, pending⟩ |
      ⟨rfl, combinator, parent, found, pending⟩ | resolved | ⟨completion, rfl⟩ | ⟨argument, rfl⟩⟩ :=
    executed.moves.abandons member
  · obtain ⟨target, found, abandoned⟩ := blamed.associated future argument running
    exact .inl ⟨rfl, target, progress.env.target _ _ found,
      (progress.status target).abandoned abandoned⟩
  · simp only [GraphEnv.owns, decide_eq_true_eq] at owned
    refine .inr ⟨rfl, .inr (.inr ⟨destroyed, ?_, progress.env.made _ owned.1⟩)⟩
    rw [progress.env.parent future owned.1, owned.2.1]
  · exact .inr ⟨rfl, Grounds.progress (.inr (.inl ⟨combinator, parent, found,
      blamed.freed parent freed pending⟩)) kept progress⟩
  · obtain ⟨_, _, same, completed⟩ := forwarded.completed future running
    rw [found, Option.some.injEq, Prod.mk.injEq] at same
    rw [← same.2] at completed
    exact absurd pending completed
  · refine .inr ⟨rfl, .inl ?_⟩
    cases resolved with
    | inl completed => exact .inl (progress.completed completed)
    | inr associated => exact .inr associated
  · exact .inr ⟨rfl, Grounds.progress (.inl (waited future completion rfl)) kept progress⟩
  · exact .inr ⟨rfl, Grounds.progress (.inr (.inl (blamed.derived future argument running))) kept
      progress⟩

theorem Blamed.freed_step (blamed : Blamed before) (kept : Kept before)
    (step : before.Step frame after) (gone : after.env.gone future = true)
    (pending : (after.status future).state = .pending) :
    (after.status future).abandoned = true := by
  have progress := step_progress kept step
  have still : (before.status future).state = .pending := by
    by_contra completed
    exact progress.completed completed pending
  have earlier : before.env.gone future = true → (after.status future).abandoned = true := by
    intro gone
    exact (progress.status future).abandoned (blamed.freed future gone still)
  obtain rfl | ⟨other, op, -, entered⟩ | ⟨other, kind, registration, ran⟩ |
    ⟨body, rest, calls, opened, -, executed⟩ := step_cases step
  · exact earlier gone
  · rw [entered.env] at gone
    exact earlier gone
  · rw [ran.env] at gone
    exact earlier gone
  · obtain same | ⟨other, frees, -, freeable⟩ := executed.moves.gone
    · rw [same] at gone
      exact earlier gone
    · by_cases here : future = other
      · subst here
        rw [(executed.status future).2.2.1]
        simp only [Graph.freeable, still, ne_eq, not_true, false_or, decide_eq_true_eq] at freeable
        exact freeable.1
      · rw [frees, Function.update_of_ne here] at gone
        exact earlier gone

/-- An invoked callback is bound to a future whose target or parent is abandoned. -/
theorem bound_of_ran {other : FutureId} {kind : CallbackKind} {callback : GraphCallback}
    {argument : Argument α} {registration : Registration GraphCallback} (placed : Placed before)
    (ran : Ran before after other kind registration)
    (member : .bound callback argument ∈ after.bodies) :
    .bound callback argument ∈ before.bodies ∨
      Place before.env other kind callback ∧ ((before.status other).fires kind = true) := by
  rw [ran.bodies] at member
  cases Multiset.mem_cons.mp member with
  | inr old => exact .inl old
  | inl new =>
      right
      have place := placed.registered _ ran.filed
      have invoked : registration.callback = callback := by
        cases own : registration.callback <;> rw [own] at new <;> simp_all [invoke]
      rw [← invoked]
      exact ⟨place, ran.fires fun _ => disciplined other⟩

theorem Blamed.step (blamed : Blamed before) (invariant : Invariant before)
    (waited : Waited before frame) (step : before.Step frame after) : Blamed after := by
  have kept := invariant.kept
  have progress := step_progress kept step
  have targets : ∀ future, (∃ target, before.env.target future = some target ∧
      (before.status target).abandoned = true) →
      ∃ target, after.env.target future = some target ∧ (after.status target).abandoned = true := by
    rintro future ⟨target, found, abandoned⟩
    exact ⟨target, progress.env.target _ _ found, (progress.status target).abandoned abandoned⟩
  have parents : ∀ future, (∃ combinator parent,
      before.env.parent future = some (combinator, parent) ∧
        (before.status parent).abandoned = true) →
      ∃ combinator parent, after.env.parent future = some (combinator, parent) ∧
        (after.status parent).abandoned = true := by
    rintro future ⟨combinator, parent, found, abandoned⟩
    exact ⟨combinator, parent, progress.parent kept found,
      (progress.status parent).abandoned abandoned⟩
  have abandoned : ∀ future, after.env.made future = true →
      (after.status future).abandoned = true → Cause after future := by
    intro future
    exact blamed.abandoned_step kept step
  have freed : ∀ future, after.env.gone future = true →
      (after.status future).state = .pending → (after.status future).abandoned = true := by
    intro future
    exact blamed.freed_step kept step
  obtain rfl | ⟨other, op, -, entered⟩ | ⟨other, kind, registration, ran⟩ |
    ⟨body, rest, calls, opened, rfl, executed⟩ := step_cases step
  · exact blamed
  · refine ⟨abandoned, ?_, ?_, ?_, ?_, freed, ?_, ?_⟩
    · intro future member
      apply targets future
      apply blamed.propagates
      rw [entered.calls]
      exact Multiset.mem_cons_of_mem member
    · intro future member
      apply (blamed.calls future _).progress kept progress
      rw [entered.calls]
      exact Multiset.mem_cons_of_mem member
    · rw [entered.bodies]
      intro future argument member
      exact targets future (blamed.associated future argument member)
    · rw [entered.bodies]
      intro derived argument member
      exact parents derived (blamed.derived derived argument member)
    · rw [entered.bodies, entered.env]
      exact blamed.associates
    · rw [entered.env]
      exact blamed.target
  · refine ⟨abandoned, ?_, ?_, ?_, ?_, freed, ?_, ?_⟩
    · rw [ran.calls]
      intro future member
      exact targets future (blamed.propagates future member)
    · rw [ran.calls]
      intro future member
      exact (blamed.calls future member).progress kept progress
    · intro future argument member
      apply targets future
      obtain old | ⟨⟨rfl, found⟩, fires⟩ := bound_of_ran invariant.placed ran member
      · exact blamed.associated future argument old
      · exact ⟨other, found, fires⟩
    · intro derived argument member
      apply parents derived
      obtain old | ⟨⟨rfl, combinator, found⟩, fires⟩ := bound_of_ran invariant.placed ran member
      · exact blamed.derived derived argument old
      · exact ⟨combinator, other, found, fires⟩
    · rw [ran.bodies, ran.env]
      intro future target member
      cases Multiset.mem_cons.mp member with
      | inr old => exact blamed.associates future target old
      | inl new => cases own : registration.callback <;> rw [own] at new <;> simp_all [invoke]
    · rw [ran.env]
      exact blamed.target
  · have call : ∀ future propagating, (future, .abandon propagating) ∈ calls →
        (propagating = true ∧ ∃ target, after.env.target future = some target ∧
          (after.status target).abandoned = true) ∨
        propagating = false ∧ Grounds after future := by
      intro future propagating
      exact blamed.executed invariant.forwarded kept progress waited executed
    have owned : ∀ future, before.env.owns future = true ∨
        (before.env.parent future).isSome = true → after.env.made future = true := by
      rintro future (owned | derived)
      · simp only [GraphEnv.owns, decide_eq_true_eq] at owned
        exact progress.env.made future owned.1
      · exact progress.env.made future (kept.made future derived)
    refine ⟨abandoned, ?_, ?_, ?_, ?_, freed, ?_, ?_⟩
    · rw [executed.calls]
      intro future member
      cases Multiset.mem_add.mp member with
      | inl new =>
          obtain ⟨-, cause⟩ | ⟨⟨⟩, -⟩ := call future true new
          exact cause
      | inr old => exact targets future (blamed.propagates future old)
    · rw [executed.calls]
      intro future member
      cases Multiset.mem_add.mp member with
      | inl new =>
          obtain ⟨⟨⟩, -⟩ | ⟨-, grounds⟩ := call future false new
          exact grounds
      | inr old => exact (blamed.calls future old).progress kept progress
    · intro future argument member
      cases executed.source member with
      | inl new => exact absurd new executed.moves.not_bound
      | inr old => exact targets future (blamed.associated future argument old)
    · intro derived argument member
      cases executed.source member with
      | inl new => exact absurd new executed.moves.not_bound
      | inr old => exact parents derived (blamed.derived derived argument old)
    · intro future target member
      cases executed.source member with
      | inl new => exact owned future (executed.moves.associates new)
      | inr old => exact progress.env.made future (blamed.associates future target old)
    · intro future found
      obtain ⟨same, -⟩ | ⟨associated, target, rfl, -, -, -, targets, -, -⟩ := executed.moves.target
      · rw [same] at found
        exact progress.env.made future (blamed.target future found)
      · by_cases here : future = associated
        · subst here
          apply progress.env.made
          exact blamed.associates future target executed.mem
        · rw [targets, Function.update_of_ne here] at found
          exact progress.env.made future (blamed.target future found)

end Steps

/-- Every promise that was destroyed has abandoned its future or is about to. -/
def Lost (snapshot : GraphSnapshot α) : Prop :=
  ∀ future, snapshot.env.destroyed future = true → Orphaning future snapshot

theorem Moves.destroys {status : FutureId → Status α} {env next : GraphEnv} {frame : GraphBody α}
    {associated : FutureId → Bool} {made : List (FutureId × Op α GraphCallback)}
    {entered : List (GraphBody α)} (moves : Moves status env frame next associated made entered) :
    next.destroyed = env.destroyed ∨ ∃ future,
      next.destroyed = Function.update env.destroyed future true ∧
        (future, .abandon false) ∈ made := by
  cases moves with
  | destroy => exact .inr ⟨_, rfl, List.mem_cons_self⟩
  | _ => exact .inl rfl

theorem Lost.step {before after : GraphSnapshot α} {frame : (graph α).Frame} (lost : Lost before)
    (kept : Kept before) (step : before.Step frame after) : Lost after := by
  intro future destroyed
  have earlier : before.env.destroyed future = true → Orphaning future after := by
    intro destroyed
    exact (lost future destroyed).step kept step
  obtain rfl | ⟨other, op, -, entered⟩ | ⟨other, kind, registration, ran⟩ |
    ⟨body, rest, calls, opened, -, executed⟩ := step_cases step
  · exact earlier destroyed
  · rw [entered.env] at destroyed
    exact earlier destroyed
  · rw [ran.env] at destroyed
    exact earlier destroyed
  · obtain same | ⟨other, destroys, member⟩ := executed.moves.destroys
    · rw [same] at destroyed
      exact earlier destroyed
    · by_cases here : future = other
      · subst here
        exact executed.makes member ⟨rfl, rfl⟩
      · rw [destroys, Function.update_of_ne here] at destroyed
        exact earlier destroyed

/-! ## Runs -/

section Runs

variable {machine : Machine (graph α)}

theorem Blamed.initial (initial : machine.Initial) :
    Blamed machine.snapshot ∧ Lost machine.snapshot := by
  obtain ⟨env, -, -, calls, bodies, -⟩ := initial.blank
  have environment : machine.snapshot.env = .new := env
  constructor
  · refine ⟨?_, by simp [calls], by simp [calls], by simp [bodies], by simp [bodies], ?_,
      by simp [bodies], ?_⟩
    all_goals
      intro future set
      rw [environment] at set
      cases set
  · intro future set
    rw [environment] at set
    cases set

theorem Blamed.spawn {snapshot : GraphSnapshot α} (blamed : Blamed snapshot) :
    Blamed { snapshot with bodies := .other ::ₘ snapshot.bodies } := by
  have body : ∀ frame : GraphBody α, frame ≠ .other → frame ∈ .other ::ₘ snapshot.bodies →
      frame ∈ snapshot.bodies := by
    intro frame different member
    exact (Multiset.mem_cons.mp member).resolve_left different
  refine ⟨blamed.abandoned, blamed.propagates, blamed.calls, ?_, ?_, blamed.freed, ?_,
    blamed.target⟩
  · intro future argument member
    exact blamed.associated future argument (body _ (by simp) member)
  · intro derived argument member
    exact blamed.derived derived argument (body _ (by simp) member)
  · intro future target member
    exact blamed.associates future target (body _ (by simp) member)

theorem Blamed.of_reachable (reached : (futures (graph α)).Reachable machine) :
    Blamed machine.snapshot ∧ Lost machine.snapshot := by
  have both : Invariant machine.snapshot ∧ Blamed machine.snapshot ∧ Lost machine.snapshot := by
    apply Machine.snapshot_invariant_of Waited _
      (fun snapshot => Invariant snapshot ∧ Blamed snapshot ∧ Lost snapshot) _ _ _ reached
    · rintro machine thread choice frame reached - running future completion rfl
      exact (Stacked.of_reachable reached).promised running
    · intro machine initial
      exact ⟨.initial initial, Blamed.initial initial⟩
    · rintro snapshot ⟨invariant, blamed, lost⟩
      refine ⟨invariant.spawn, blamed.spawn, ?_⟩
      intro future destroyed
      exact Underway.spawn (lost future destroyed) id
    · rintro before frame after - - ⟨invariant, blamed, lost⟩ waited step
      exact ⟨invariant.step step, blamed.step invariant waited step,
        lost.step invariant.kept step⟩
  exact both.2

end Runs

/-- What a pending derived or associated future waits on. -/
def Waits (machine : Machine (graph α)) (future other : FutureId) : Prop :=
  (machine.memory.data future).state = .pending ∧
    match machine.memory.env.target future with
    | some target => other = target
    | none => ∃ combinator, machine.memory.env.parent future = some (combinator, other)

/-- What a future waits on or has waited on. -/
def WaitedOn (machine : Machine (graph α)) (future other : FutureId) : Prop :=
  (∃ combinator, machine.memory.env.parent future = some (combinator, other)) ∨
    machine.memory.env.target future = some other

/-- How abandonment spreads. -/
structure Abandons (machine : Machine (graph α)) : Prop where
  /-- It reaches every future that waits on an abandoned one. -/
  reaches : Idle machine → ∀ future other, Relation.TransGen (Waits machine) future other →
    (machine.memory.data other).state = .pending →
    (machine.memory.data other).abandoned = true →
    (machine.memory.data future).abandoned = true
  /-- A promise that is destroyed abandons its future, unless it is completed or associated. -/
  destroyed : Idle machine → ∀ future, machine.memory.env.destroyed future = true →
    (machine.memory.data future).state = .pending → machine.memory.env.target future = none →
    (machine.memory.data future).abandoned = true
  /-- It comes from a future that is waited on. -/
  only : ∀ future other, WaitedOn machine future other →
    (machine.memory.data future).abandoned = true →
    ∃ other, WaitedOn machine future other ∧ (machine.memory.data other).abandoned = true
  /-- Every callback is invoked once if the future is abandoned, and not otherwise. -/
  once : Idle machine → ∀ future registration,
    (future, .onAbandoned, registration) ∈ machine.memory.registered →
    machine.invocations future .onAbandoned registration.ticket =
      if (machine.memory.data future).abandoned = true then 1 else 0

section Reaching

variable {machine : Machine (graph α)} {future other : FutureId}

/-- Abandonment crosses one edge. -/
theorem Idle.abandoned (idle : Idle machine) (reached : (futures (graph α)).Reachable machine)
    (waits : Waits machine future other)
    (abandoned : (machine.memory.data other).abandoned = true) :
    (machine.memory.data future).abandoned = true := by
  obtain ⟨pending, edge⟩ := waits
  have kept := (Invariant.of_reachable reached).kept.associated future
  cases found : machine.memory.env.target future with
  | some target =>
      rw [found] at edge
      subst edge
      obtain lost | completed := (idle.associated reached found).abandoned abandoned
      · exact lost
      · exact absurd pending completed
  | none =>
      rw [found] at edge
      obtain ⟨combinator, derived⟩ := edge
      obtain lost | completed | associated := (idle.derived reached derived).abandoned abandoned
      · exact lost
      · exact absurd pending completed
      · rw [kept] at associated
        have target : machine.snapshot.env.target future = none := found
        rw [target] at associated
        cases associated

end Reaching

end Graph

open Libprocess.Graph in
/-- Abandonment reaches every dependent future, and its callbacks once. -/
theorem abandonment_reaches_once {machine : Machine (graph α)}
    (reached : (futures (graph α)).Reachable machine) : Abandons machine := by
  obtain ⟨blamed, lost⟩ := Blamed.of_reachable reached
  have invariant := Invariant.of_reachable reached
  constructor
  · intro idle future other waits
    induction waits using Relation.TransGen.head_induction_on with
    | single edge =>
        intro pending abandoned
        exact idle.abandoned reached edge abandoned
    | head edge _ ih =>
        intro pending abandoned
        exact idle.abandoned reached edge (ih pending abandoned)
  · intro idle future destroyed pending target
    have done := idle.done (lost future destroyed) (by simp)
    obtain abandoned | completed | associated := done
    · exact abandoned
    · exact absurd pending completed
    · rw [invariant.kept.associated future] at associated
      have none : machine.snapshot.env.target future = none := target
      rw [none] at associated
      cases associated
  · intro future other waited abandoned
    have made : machine.memory.env.made future = true := by
      obtain ⟨combinator, parent⟩ | target := waited
      · exact invariant.kept.made future (Option.isSome_iff_exists.mpr ⟨_, parent⟩)
      · exact blamed.target future (Option.isSome_iff_exists.mpr ⟨_, target⟩)
    obtain ⟨combinator, parent, found, cause⟩ | ⟨target, found, cause⟩ |
      ⟨-, noParent, noTarget⟩ := blamed.abandoned future made abandoned
    · exact ⟨parent, .inl ⟨combinator, found⟩, cause⟩
    · exact ⟨target, .inr found, cause⟩
    · obtain ⟨combinator, parent⟩ | target := waited
      · have found : machine.snapshot.env.parent future = some (combinator, other) := parent
        rw [noParent] at found
        cases found
      · have found : machine.snapshot.env.target future = some other := target
        rw [noTarget] at found
        cases found
  · intro idle future registration member
    exact (Machine.Invariant.of_reachable reached).invocations_eq (idle.quiescent future)
      (by simp) member

abbrev Graph.perform : Nat → GraphChoice α → Nat → List (Move (graph α)) :=
  (graph α).perform .finish

/-- A chain through all combinators, whose source promise is destroyed. -/
def abandonmentSchedule : List (Move (graph Nat)) :=
  List.flatten [[.spawn], Graph.perform 0 (.promise 0) 0, Graph.perform 0 (.promise 4) 0,
    Graph.perform 0 (.derive .thenf 0 1) 3, Graph.perform 0 (.derive .repair 1 2) 3,
    Graph.perform 0 (.derive .after 2 3) 3, Graph.perform 0 (.associate 4 3) 6,
    Graph.perform 0 (.call 4 (.on .onAbandoned ())) 1, Graph.perform 0 (.destroy 0) 20]

theorem abandonment_reaches_once_chain : ∃ machine : Machine (graph Nat),
    Graph.Abandons machine ∧ Graph.Idle machine ∧
      (machine.memory.data 4).abandoned = true ∧ machine.invocations 4 .onAbandoned 14 = 1 := by
  obtain ⟨machine, executed, observed⟩ : ∃ machine ∈ (futures (graph Nat)).run
      (Machine.new _ fun _ => false) abandonmentSchedule, Graph.Idle machine ∧
      (machine.memory.data 4).abandoned = true ∧ machine.invocations 4 .onAbandoned 14 = 1 := by
    decide +kernel
  exact ⟨machine, abandonment_reaches_once
    (.of_run (Machine.new_initial (graph Nat) fun _ => false) executed), observed⟩

end Libprocess
