import Libprocess.Future.CombinatorStacks

/-!
# What callables decide

A future that was derived with `then` gets a value or a target from its callable only, and the
callable runs only when the parent is ready and nobody asked to discard it.
-/

namespace Libprocess

open Concurrency

variable {α : Type}

open Snapshot (Entered Ran)

namespace Graph

/-- The frames on the way to a value or a target. -/
def engages (future : FutureId) : GraphBody α → Prop
  | .callable other | .associate other _ | .settle other (.set _) | .bound (.set other) _ =>
      other = future
  | _ => False

/-- The future has a value or a target, or is about to get one. -/
def Engaged (snapshot : GraphSnapshot α) (future : FutureId) : Prop :=
  (snapshot.status future).state = .ready ∨ (snapshot.env.target future).isSome = true ∨
    (∃ body ∈ snapshot.bodies, engages future body) ∨
    ∃ value, (future, .set value) ∈ snapshot.calls

/-- Who decides about a derived future. -/
structure Decided (snapshot : GraphSnapshot α) : Prop where
  timed : ∀ future, snapshot.env.timer future = true ∨ .expired future ∈ snapshot.bodies →
    ∃ parent, snapshot.env.parent future = some (.after, parent)
  engaged : ∀ future, Engaged snapshot future → snapshot.env.made future = true ∧
    ∀ combinator parent, snapshot.env.parent future = some (combinator, parent) →
      combinator.isThen = true → snapshot.env.called future = true
  called : ∀ future, snapshot.env.called future = true → snapshot.env.made future = true ∧
    ∀ combinator parent, snapshot.env.parent future = some (combinator, parent) →
      combinator.isThen = true → (snapshot.status parent).state = .ready

section Moves

variable {status : FutureId → Status α} {env next : GraphEnv} {frame : GraphBody α}
  {associated : FutureId → Bool} {made : List (FutureId × Op α GraphCallback)}
  {entered : List (GraphBody α)} {future : FutureId}

section

variable (moves : Moves status env frame next associated made entered)

include moves

/-- Timers belong to `after`. -/
theorem Moves.timed (armed : next.timer future = true ∨ .expired future ∈ entered) :
    env.timer future = true ∨ ∃ parent, next.parent future = some (.after, parent) := by
  have different : ∀ frame : GraphBody α, frame.isForeign = true → .expired future ≠ frame := by
    rintro frame runs rfl
    cases runs
  cases moves with
  | @derive frame combinator parent derived runs =>
      simp only [List.mem_singleton, different _ runs, or_false] at armed
      by_cases here : future = derived
      · subst here
        rw [Function.update_self, decide_eq_true_eq] at armed
        right
        exact ⟨parent, by simp [armed]⟩
      · left
        rwa [Function.update_of_ne here] at armed
  | @expire frame derived runs old =>
      by_cases here : future = derived
      · subst here
        exact .inl old
      · left
        simpa [Function.update_of_ne here, here, different _ runs] using armed
  | @after derived parent =>
      by_cases here : future = derived
      · subst here
        simp at armed
      · left
        simpa [Function.update_of_ne here] using armed
  | call runs | promise runs | settling runs | associating runs | destroy runs | free runs
  | orphan runs =>
      left
      simpa [different _ runs] using armed
  | _ =>
      left
      simpa using armed

/-- Who invokes a callable. -/
theorem Moves.called :
    next.called = env.called ∨ ∃ derived, next.called = Function.update env.called derived true ∧
      (frame = .expired derived ∨ ∃ combinator parent,
        env.parent derived = some (combinator, parent) ∧ (combinator.isThen = true →
          (status parent).state = .ready ∧ (status parent).discard = false)) := by
  cases moves with
  | invoke derivation completed ready => exact .inr ⟨_, rfl, .inr ⟨_, _, derivation, ready⟩⟩
  | expired => exact .inr ⟨_, rfl, .inl rfl⟩
  | _ => exact .inl rfl

/-- Where the frames on the way to a value or a target come from. -/
theorem Moves.engages_origin
    {body : GraphBody α} (member : body ∈ entered) (engaged : engages future body) :
    engages future frame ∨
      (next.called future = true ∧
        (frame = .expired future ∨ (env.parent future).isSome = true)) ∨
      env.owns future = true ∨
      ∃ combinator parent, env.parent future = some (combinator, parent) ∧
        combinator.isThen = false := by
  cases moves with
  | call | promise | destroy | derive | free | orphan =>
      left
      rwa [← List.mem_singleton.mp member]
  | @settling frame other completion runs owned =>
      simp only [List.mem_cons, List.not_mem_nil, or_false] at member
      rcases member with rfl | rfl
      · right; right; left
        cases completion <;> cases engaged
        exact owned
      · exact .inl engaged
  | associating runs owned =>
      simp only [List.mem_cons, List.not_mem_nil, or_false] at member
      rcases member with rfl | rfl
      · cases engaged
        exact .inr (.inr (.inl owned))
      · exact .inl engaged
  | expire runs =>
      simp only [List.mem_cons, List.not_mem_nil, or_false] at member
      rcases member with rfl | rfl
      · cases engaged
      · exact .inl engaged
  | invoke derivation =>
      rw [List.mem_singleton.mp member] at engaged
      cases engaged
      exact .inr (.inl ⟨Function.update_self _ _ _, .inr (by simp [derivation])⟩)
  | expired =>
      rw [List.mem_singleton.mp member] at engaged
      cases engaged
      exact .inr (.inl ⟨Function.update_self _ _ _, .inl rfl⟩)
  | @copy derived parent combinator completion derivation isThen completed valueless =>
      rw [List.mem_singleton.mp member] at engaged
      cases completion with
      | set value => exact absurd rfl (valueless value)
      | fail | discard => cases engaged
  | repair derivation | after derivation =>
      rw [List.mem_singleton.mp member] at engaged
      cases engaged
      exact .inr (.inr (.inr ⟨_, _, derivation, rfl⟩))
  | yieldValue | yieldFuture =>
      rw [List.mem_singleton.mp member] at engaged
      cases engaged
      exact .inl rfl
  | settle | forward =>
      rw [List.mem_singleton.mp member] at engaged
      cases engaged
  | _ => cases member

/-- Where values come from. -/
theorem Moves.set_origin {value : α}
    (member : (future, .set value) ∈ made) : engages future frame := by
  obtain ⟨completion, rfl, same, -⟩ | ⟨callback, argument, completion, rfl, found, same⟩ :=
    moves.completing_origin member rfl
  · cases completion <;> cases same
    rfl
  · cases completion <;> cases same
    unfold forwards at found
    split at found <;> cases found
    rfl

end

end Moves

section Steps

variable {before after : GraphSnapshot α} {frame : (graph α).Frame} {future : FutureId}

theorem Engaged.of_entered {other : FutureId} {op : Op α GraphCallback}
    (entered : Entered before after other op) (engaged : Engaged after future) :
    Engaged before future := by
  have call : (other, op) ∈ before.calls := by
    rw [entered.calls]
    exact Multiset.mem_cons_self _ _
  obtain ready | targeted | ⟨body, member, own⟩ | ⟨value, member⟩ := engaged
  · by_cases already : (before.status future).state = .ready
    · exact .inl already
    · have pending : (before.status future).state = .pending := by
        by_contra completed
        rw [entered.status] at ready
        by_cases here : future = other
        · subst here
          rw [Function.update_self, Status.enter_of_not_pending completed] at ready
          exact already ready
        · rw [Function.update_of_ne here] at ready
          exact already ready
      obtain ⟨rfl, completes, settles, -⟩ := entered.completes pending (by rw [ready]; simp)
      cases op with
      | set value => exact .inr (.inr (.inr ⟨value, call⟩))
      | fail =>
          rw [settles.1] at ready
          cases ready
      | discarded =>
          have final : (after.status future).state = .discarded := settles
          rw [final] at ready
          cases ready
      | discard | abandon | on => cases completes
  · rw [entered.env] at targeted
    exact .inr (.inl targeted)
  · rw [entered.bodies] at member
    exact .inr (.inr (.inl ⟨body, member, own⟩))
  · refine .inr (.inr (.inr ⟨value, ?_⟩))
    rw [entered.calls]
    exact Multiset.mem_cons_of_mem member

theorem Engaged.of_ran {other : FutureId} {kind : CallbackKind}
    {registration : Registration GraphCallback} (placed : Placed before)
    (ran : Ran before after other kind registration) (engaged : Engaged after future) :
    Engaged before future := by
  obtain ready | targeted | ⟨body, member, own⟩ | ⟨value, member⟩ := engaged
  · rw [ran.status] at ready
    exact .inl ready
  · rw [ran.env] at targeted
    exact .inr (.inl targeted)
  · rw [ran.bodies] at member
    cases Multiset.mem_cons.mp member with
    | inr old => exact .inr (.inr (.inl ⟨body, old, own⟩))
    | inl new =>
        have place := placed.registered _ ran.filed
        subst new
        -- Only the function that `associate` bound to `set` is on the way to a value.
        cases callback : registration.callback <;> rw [callback] at own place <;> cases own
        obtain ⟨-, target⟩ := place
        exact .inr (.inl (by rw [target]; rfl))
  · rw [ran.calls] at member
    exact .inr (.inr (.inr ⟨value, member⟩))

/-- A step of the code engages a future through its callable, its owner, or another
combinator than `then`. -/
theorem Engaged.of_executed {body : GraphBody α} {rest : Multiset (GraphBody α)}
    {made : List (FutureId × Op α GraphCallback)} {entered : List (GraphBody α)}
    (executed : Executed before after body rest made entered) (engaged : Engaged after future) :
    Engaged before future ∨
      (after.env.called future = true ∧
        (body = .expired future ∨ (before.env.parent future).isSome = true)) ∨
      before.env.owns future = true ∨
      ∃ combinator parent, before.env.parent future = some (combinator, parent) ∧
        combinator.isThen = false := by
  have running : engages future body → Engaged before future := fun own =>
    .inr (.inr (.inl ⟨body, executed.mem, own⟩))
  obtain ready | targeted | ⟨present, member, own⟩ | ⟨value, member⟩ := engaged
  · rw [(executed.status future).1] at ready
    exact .inl (.inl ready)
  · left
    obtain ⟨same, -⟩ | ⟨other, target, rfl, -, -, -, targets, -, -⟩ := executed.moves.target
    · rw [same] at targeted
      exact .inr (.inl targeted)
    · by_cases here : future = other
      · subst here
        exact running rfl
      · rw [targets, Function.update_of_ne here] at targeted
        exact .inr (.inl targeted)
  · cases executed.source member with
    | inr old => exact .inl (.inr (.inr (.inl ⟨present, old, own⟩)))
    | inl new =>
        obtain engaged | others := executed.moves.engages_origin new own
        · exact .inl (running engaged)
        · exact .inr others
  · left
    rw [executed.calls] at member
    cases Multiset.mem_add.mp member with
    | inl new => exact running (executed.moves.set_origin new)
    | inr old => exact .inr (.inr (.inr ⟨value, old⟩))

theorem Decided.engaged_step (decided : Decided before) (placed : Placed before)
    (kept : Kept before) (step : before.Step frame after) (engaged : Engaged after future) :
    after.env.made future = true ∧ ∀ combinator parent,
      after.env.parent future = some (combinator, parent) → combinator.isThen = true →
      after.env.called future = true := by
  have progress := step_progress kept step
  have earlier : Engaged before future → after.env.made future = true ∧ ∀ combinator parent,
      after.env.parent future = some (combinator, parent) → combinator.isThen = true →
      after.env.called future = true := by
    intro engaged
    obtain ⟨made, called⟩ := decided.engaged future engaged
    refine ⟨progress.env.made future made, ?_⟩
    intro combinator parent found isThen
    rw [progress.env.parent future made] at found
    exact progress.env.called future (called combinator parent found isThen)
  obtain rfl | ⟨other, op, -, entered⟩ | ⟨other, kind, registration, ran⟩ |
    ⟨body, rest, calls, opened, -, executed⟩ := step_cases step
  · exact earlier engaged
  · exact earlier (engaged.of_entered entered)
  · exact earlier (engaged.of_ran placed ran)
  · obtain old | ⟨called, source⟩ | owned | ⟨combinator, parent, found, different⟩ :=
      engaged.of_executed executed
    · exact earlier old
    · have derived : (before.env.parent future).isSome = true := by
        cases source with
        | inr derived => exact derived
        | inl expired =>
            subst expired
            obtain ⟨parent, found⟩ := decided.timed future (.inr executed.mem)
            rw [found]
            rfl
      exact ⟨progress.env.made future (kept.made future derived), fun _ _ _ _ => called⟩
    · simp only [GraphEnv.owns, decide_eq_true_eq] at owned
      obtain ⟨made, source, -⟩ := owned
      refine ⟨progress.env.made future made, ?_⟩
      intro combinator parent found
      rw [progress.env.parent future made, source] at found
      cases found
    · have made := kept.made future (by rw [found]; rfl)
      refine ⟨progress.env.made future made, ?_⟩
      intro other ancestor same isThen
      rw [progress.env.parent future made, found] at same
      cases same
      rw [different] at isThen
      cases isThen

theorem Decided.called_step (decided : Decided before) (kept : Kept before)
    (step : before.Step frame after) (called : after.env.called future = true) :
    after.env.made future = true ∧ ∀ combinator parent,
      after.env.parent future = some (combinator, parent) → combinator.isThen = true →
      (after.status parent).state = .ready := by
  have progress := step_progress kept step
  have stays : ∀ parent, (before.status parent).state = .ready →
      (after.status parent).state = .ready := by
    intro parent ready
    have completed : (before.status parent).state ≠ .pending := by simp [ready]
    rw [((progress.status parent).completed completed).1]
    exact ready
  have earlier : before.env.called future = true → after.env.made future = true ∧
      ∀ combinator parent, after.env.parent future = some (combinator, parent) →
        combinator.isThen = true → (after.status parent).state = .ready := by
    intro called
    obtain ⟨made, ready⟩ := decided.called future called
    refine ⟨progress.env.made future made, ?_⟩
    intro combinator parent found isThen
    rw [progress.env.parent future made] at found
    exact stays parent (ready combinator parent found isThen)
  obtain rfl | ⟨other, op, -, entered⟩ | ⟨other, kind, registration, ran⟩ |
    ⟨body, rest, calls, opened, -, executed⟩ := step_cases step
  · exact earlier called
  · rw [entered.env] at called
    exact earlier called
  · rw [ran.env] at called
    exact earlier called
  · obtain same | ⟨derived, calls, source⟩ := executed.moves.called
    · rw [same] at called
      exact earlier called
    · by_cases here : future = derived
      · subst here
        have derivation : ∃ combinator parent, before.env.parent future = some (combinator, parent) ∧
            (combinator.isThen = true → (before.status parent).state = .ready) := by
          obtain rfl | ⟨combinator, parent, found, ready⟩ := source
          · obtain ⟨parent, found⟩ := decided.timed future (.inr executed.mem)
            exact ⟨.after, parent, found, fun isThen => by cases isThen⟩
          · exact ⟨combinator, parent, found, fun isThen => (ready isThen).1⟩
        obtain ⟨combinator, parent, found, ready⟩ := derivation
        have made := kept.made future (by rw [found]; rfl)
        refine ⟨progress.env.made future made, ?_⟩
        intro other ancestor same isThen
        rw [progress.env.parent future made, found] at same
        cases same
        exact stays parent (ready isThen)
      · rw [calls, Function.update_of_ne here] at called
        exact earlier called

theorem Decided.step (decided : Decided before) (placed : Placed before) (kept : Kept before)
    (step : before.Step frame after) : Decided after := by
  have progress := step_progress kept step
  constructor
  · intro future armed
    have earlier : before.env.timer future = true ∨ .expired future ∈ before.bodies →
        ∃ parent, after.env.parent future = some (.after, parent) := by
      intro old
      obtain ⟨parent, found⟩ := decided.timed future old
      exact ⟨parent, progress.parent kept found⟩
    obtain rfl | ⟨other, op, -, entered⟩ | ⟨other, kind, registration, ran⟩ |
      ⟨body, rest, calls, opened, -, executed⟩ := step_cases step
    · exact earlier armed
    · rw [entered.env, entered.bodies] at armed
      exact earlier armed
    · rw [ran.env, ran.bodies, Multiset.mem_cons] at armed
      obtain timer | new | old := armed
      · exact earlier (.inl timer)
      · cases callback : registration.callback <;> rw [callback] at new <;> cases new
      · exact earlier (.inr old)
    · have source : (after.env.timer future = true ∨ .expired future ∈ opened) ∨
          .expired future ∈ before.bodies := by
        cases armed with
        | inl timer => exact .inl (.inl timer)
        | inr member =>
            cases executed.source member with
            | inl new => exact .inl (.inr new)
            | inr old => exact .inr old
      cases source with
      | inr old => exact earlier (.inr old)
      | inl new =>
          obtain old | found := executed.moves.timed new
          · exact earlier (.inl old)
          · exact found
  · intro future engaged
    exact decided.engaged_step placed kept step engaged
  · intro future called
    exact decided.called_step kept step called

end Steps

variable {machine : Machine (graph α)}

theorem Decided.initial (initial : machine.Initial) : Decided machine.snapshot := by
  obtain ⟨env, -, -, calls, bodies, pending, -⟩ := initial.blank
  have environment : machine.snapshot.env = .new := env
  constructor
  · intro future armed
    rw [environment, bodies] at armed
    simp [GraphEnv.new] at armed
  · intro future engaged
    obtain ready | targeted | ⟨body, member, -⟩ | ⟨value, member⟩ := engaged
    · cases ready.symm.trans (pending future)
    · rw [environment] at targeted
      cases targeted
    · simp [bodies] at member
    · simp [calls] at member
  · intro future called
    rw [environment] at called
    cases called

theorem Decided.spawn {snapshot : GraphSnapshot α} (decided : Decided snapshot) :
    Decided { snapshot with bodies := .other ::ₘ snapshot.bodies } := by
  refine ⟨?_, ?_, decided.called⟩
  · rintro future (timer | member)
    · exact decided.timed future (.inl timer)
    · cases Multiset.mem_cons.mp member with
      | inl same => cases same
      | inr old => exact decided.timed future (.inr old)
  · intro future engaged
    apply decided.engaged future
    obtain ready | targeted | ⟨body, member, own⟩ | called := engaged
    · exact .inl ready
    · exact .inr (.inl targeted)
    · cases Multiset.mem_cons.mp member with
      | inl same =>
          subst same
          exact own.elim
      | inr old => exact .inr (.inr (.inl ⟨body, old, own⟩))
    · exact .inr (.inr (.inr called))

theorem Decided.of_reachable (reached : (futures (graph α)).Reachable machine) :
    Decided machine.snapshot := by
  have both : Invariant machine.snapshot ∧ Decided machine.snapshot := by
    apply Machine.snapshot_invariant_of (fun _ _ => True) _
      (fun snapshot => Invariant snapshot ∧ Decided snapshot) _ _ _ reached
    · intros
      trivial
    · intro machine initial
      exact ⟨.initial initial, .initial initial⟩
    · rintro snapshot ⟨invariant, decided⟩
      exact ⟨invariant.spawn, decided.spawn⟩
    · rintro before frame after - - ⟨invariant, decided⟩ - step
      exact ⟨invariant.step step, decided.step invariant.placed invariant.kept step⟩
  exact both.2

end Graph

end Libprocess
