import Libprocess.Collect.Runs

/-!
# The invariant of all runs

Every process and every derived future keeps its own invariant, because no `CHECK` fails; and no
`CHECK` fails because of these invariants.  The variadic `collect` adds what links its wrappers, its
process and its result.
-/

namespace Libprocess

variable {T : Type}

open Snapshot (Entered Ran)

namespace Gather

/-- What a call of the variadic `collect` has made. -/
structure Links (env : GatherEnv T) (call : Variadic) : Prop where
  result : env.derived call.result = some (call.gathered, .tuple call.futures)
  wrapper : ∀ wrapper future, (wrapper, future) ∈ call.wrappers.zip call.futures →
    env.derived wrapper = some (future, .nothing)
  length : call.wrappers.length = call.futures.length
  process : call.wrappers ≠ [] → ∃ process, env.process call.gathered = some process ∧
    process.inputs = call.wrappers ∧ process.gathering = .collect

/-- The calls of the variadic `collect` are where the tuples come from. -/
structure Linked (env : GatherEnv T) : Prop where
  calls : ∀ call ∈ env.variadics, Links env call
  tuples : ∀ derived parent futures, env.derived derived = some (parent, .tuple futures) →
    ∃ call ∈ env.variadics, call.gathered = parent ∧ call.futures = futures

structure Whole (snapshot : GatherSnapshot T) : Prop where
  kept : Kept snapshot
  tracked : ∀ name process, snapshot.env.process name = some process →
    Tracked snapshot name process
  wrapped : ∀ derived parent continuation,
    snapshot.env.derived derived = some (parent, continuation) →
    Wrapped snapshot derived parent continuation
  linked : Linked snapshot.env
  unassociated : ∀ future, (snapshot.status future).associated = false
  aborted : snapshot.env.aborted = false

section Checks

variable {before : GatherSnapshot T} {name derived parent : FutureId} {process : GatherProcess T}
  {body : GatherBody T} {rest : Multiset (GatherBody T)} {call : Variadic}
  {futures : List FutureId}

/-- A promise that a process has set has the values of its inputs. -/
theorem Tracked.values (tracked : Tracked before name process)
    (collects : process.gathering = .collect)
    (ready : (before.status name).state = .ready) :
    ∃ values, gets before.status process.inputs = some values ∧
      (before.status name).result = .some (.values values) := by
  obtain ⟨completion, single, settles⟩ := tracked.promises.settled (by simp [ready])
  cases tracked.justified completion single with
  | collected _ found => exact ⟨_, found, settles.2⟩
  | awaited awaits =>
      rw [collects] at awaits
      cases awaits
  | failed | discarded => cases ready.symm.trans settles.1
  | requested => cases ready.symm.trans settles

/-- A derived future that is ready has a parent that is ready. -/
theorem Wrapped.parent_ready {continuation : Continuation}
    (wrapped : Wrapped before derived parent continuation)
    (ready : (before.status derived).state = .ready) :
    (before.status parent).state = .ready ∧ (before.status parent).discard = false := by
  obtain ⟨completion, follows, settles⟩ := wrapped.settled (by simp [ready])
  cases follows with
  | nothing parent unasked | tuple parent unasked => exact ⟨parent, unasked⟩
  | requested | discarded => cases ready.symm.trans settles
  | failed => cases ready.symm.trans settles.1

/-- When what the variadic `collect` has collected is ready, so are its futures. -/
theorem Whole.futures_ready (whole : Whole before) (linked : Links before.env call)
    (ready : (before.status call.gathered).state = .ready) :
    ∀ future ∈ call.futures,
      (before.status future).state = .ready ∧ (before.status future).discard = false := by
  intro future member
  obtain ⟨index, bound, here⟩ := List.mem_iff_getElem.mp member
  have inside : index < call.wrappers.length := linked.length.symm ▸ bound
  have some : call.wrappers ≠ [] := List.ne_nil_of_length_pos (Nat.zero_lt_of_lt inside)
  obtain ⟨process, known, inputs, collects⟩ := linked.process some
  obtain ⟨values, found, -⟩ := (whole.tracked _ process known).values collects ready
  have pair : (call.wrappers[index], future) ∈ call.wrappers.zip call.futures := by
    apply List.mem_iff_getElem.mpr
    exact ⟨index, by simp [inside, bound], by simp [here]⟩
  have wrapper : (before.status call.wrappers[index]).state = .ready := by
    obtain ⟨position, found⟩ := List.forall₂_iff_get.mp (gets_eq_some.mp found)
    have listed : index < process.inputs.length := inputs.symm ▸ inside
    have got := found index listed (position ▸ listed)
    have same : process.inputs.get ⟨index, listed⟩ = call.wrappers[index] := by simp [inputs]
    rw [same] at got
    exact (get_eq_some.mp got).1
  exact (whole.wrapped _ _ _ (linked.wrapper _ _ pair)).parent_ready wrapper

/-- No `CHECK` fails. -/
theorem Whole.not_aborts (whole : Whole before) (sound : before.Sound)
    (running : before.bodies = body ::ₘ rest) : ¬ Aborts before.status before.env body := by
  intro aborts
  cases aborts with
  | waited known next fails =>
      exact (whole.tracked _ _ known).not_fails sound running next fails
  | @message derived parent continuation found failed nothing =>
      have fits := sound.result parent
      cases result : (before.status parent).result with
      | error message => exact nothing message result
      | none | some => simp [Result.Fits, failed, result] at fits
  | @value derived parent futures found ready unasked none =>
      obtain ⟨call, member, rfl, rfl⟩ := whole.linked.tuples derived parent futures found
      have all := whole.futures_ready (whole.linked.calls call member) ready
      obtain ⟨values, some⟩ := gets_of_ready sound fun future member => (all future member).1
      rw [none] at some
      cases some

end Checks

section Steps

variable {before after : GatherSnapshot T} {next : GatherEnv T} {name derived parent : FutureId}
  {process served : GatherProcess T} {continuation : Continuation} {body : GatherBody T}
  {rest : Multiset (GatherBody T)} {made : Calls T} {entered : List (GatherBody T)}
  {call : Variadic}

/-- A process stays, with the vector it was constructed with. -/
theorem Kept.stays (kept : Kept before) (runs : Runs before.env body)
    (moves : Moves before.status before.env body next made entered)
    (sound : ¬ Aborts before.status before.env body)
    (known : before.env.process name = some process) :
    ∃ served, next.process name = some served ∧ served.inputs = process.inputs ∧
      served.gathering = process.gathering := by
  cases kept.splits runs moves sound known with
  | inl acts =>
      obtain ⟨served, acts, found⟩ := acts
      exact ⟨served, found, acts.keeps.1, acts.keeps.2.1⟩
  | inr elsewhere => exact ⟨process, elsewhere.same, rfl, rfl⟩

/-- A derived future stays derived from the same parent. -/
theorem Kept.derived_same (kept : Kept before)
    (moves : Moves before.status before.env body next made entered)
    (known : before.env.derived derived = some (parent, continuation)) :
    next.derived derived = some (parent, continuation) := by
  have still := (kept.grows moves).isDerived (Option.isSome_iff_exists.mpr ⟨_, known⟩)
  obtain ⟨⟨other, continues⟩, found⟩ := Option.isSome_iff_exists.mp still
  cases kept.derives moves found with
  | inl same => rw [found, ← same, known]
  | inr unknown => exact absurd unknown.1 (kept.derived derived parent continuation known).1.made

theorem Kept.links (kept : Kept before) (runs : Runs before.env body)
    (moves : Moves before.status before.env body next made entered)
    (sound : ¬ Aborts before.status before.env body) (links : Links before.env call) :
    Links next call := by
  constructor
  · exact kept.derived_same moves links.result
  · intro wrapper future member
    exact kept.derived_same moves (links.wrapper wrapper future member)
  · exact links.length
  · intro some
    obtain ⟨process, known, inputs, collects⟩ := links.process some
    obtain ⟨served, found, same, still⟩ := kept.stays runs moves sound known
    exact ⟨served, found, same.trans inputs, still.trans collects⟩

theorem links_prepare {env : GatherEnv T} {status : Statuses T} (fits : Fits status env call)
    (grows : next.derived = (prepare env call).derived)
    (process : call.wrappers ≠ [] →
      next.process call.gathered = some (construct .collect call.wrappers)) :
    Links next call := by
  constructor
  · rw [grows]
    exact prepare_result
  · intro wrapper future member
    rw [grows]
    exact prepare_wrapper fits member
  · exact fits.length
  · intro some
    exact ⟨_, process some, rfl, rfl⟩

/-- The calls of the variadic `collect` that a step adds. -/
theorem Kept.variadics (moves : Moves before.status before.env body next made entered) :
    next.variadics = before.env.variadics ∧ next.derived = before.env.derived ∨
      ∃ call, next.variadics = call :: before.env.variadics ∧
        next.derived = (prepare before.env call).derived ∧ Links next call := by
  cases moves with
  | @none call fits nothing =>
      refine .inr ⟨call, rfl, rfl, links_prepare fits rfl ?_⟩
      intro some
      exact absurd nothing some
  | @variadic call fits some =>
      refine .inr ⟨call, rfl, rfl, links_prepare fits rfl ?_⟩
      intro _
      exact Function.update_self _ _ _
  | _ => exact .inl ⟨rfl, rfl⟩

theorem Linked.step (linked : Linked before.env) (kept : Kept before)
    (runs : Runs before.env body)
    (moves : Moves before.status before.env body next made entered)
    (sound : ¬ Aborts before.status before.env body) : Linked next := by
  cases Kept.variadics moves with
  | inl same =>
      obtain ⟨calls, derives⟩ := same
      constructor
      · rw [calls]
        intro call member
        exact kept.links runs moves sound (linked.calls call member)
      · rw [calls, derives]
        exact linked.tuples
  | inr new =>
      obtain ⟨call, calls, derives, links⟩ := new
      constructor
      · rw [calls]
        intro other member
        cases List.mem_cons.mp member with
        | inl same => exact same ▸ links
        | inr old => exact kept.links runs moves sound (linked.calls other old)
      · rw [calls, derives]
        intro derived parent futures found
        obtain ⟨-, rfl, same⟩ | ⟨-, other⟩ | old := prepare_derived found
        · cases same
          exact ⟨call, List.mem_cons_self, rfl, rfl⟩
        · cases other
        · obtain ⟨earlier, member, gathered, same⟩ := linked.tuples derived parent futures old
          exact ⟨earlier, List.mem_cons_of_mem _ member, gathered, same⟩

theorem aborted_of_moves (moves : Moves before.status before.env body next made entered)
    (sound : ¬ Aborts before.status before.env body) : next.aborted = before.env.aborted := by
  cases moves with
  | abort aborts => exact absurd aborts sound
  | _ => rfl

theorem Whole.of_entered {op : Op (Value T) GatherCallback} {future : FutureId}
    (whole : Whole before) (entered : Entered before after future op) : Whole after := by
  have env := entered.env
  constructor
  · exact whole.kept.of_entered entered
  · rw [env]
    intro name process known
    exact (whole.tracked name process known).of_entered entered
  · rw [env]
    intro derived parent continuation known
    exact (whole.wrapped derived parent continuation known).of_entered
      (whole.unassociated derived) entered
  · rw [env]
    exact whole.linked
  · intro other
    rw [entered.status]
    by_cases same : other = future
    · subst same
      rw [Function.update_self, Status.enter_associated]
      exact whole.unassociated other
    · rw [Function.update_of_ne same]
      exact whole.unassociated other
  · rw [env]
    exact whole.aborted

theorem Whole.of_ran {kind : CallbackKind} {registration : Registration GatherCallback}
    {future : FutureId} (whole : Whole before)
    (ran : Ran before after future kind registration) : Whole after := by
  have env := ran.env
  constructor
  · exact whole.kept.of_ran ran
  · rw [env]
    intro name process known
    exact (whole.tracked name process known).of_ran ran
  · rw [env]
    intro derived parent continuation known
    exact (whole.wrapped derived parent continuation known).of_ran ran
  · rw [env]
    exact whole.linked
  · rw [ran.status]
    exact whole.unassociated
  · rw [env]
    exact whole.aborted

theorem Whole.of_executed (whole : Whole before) (sound : before.Sound)
    (relied : ∀ call ∈ relies body, call.2.Done (before.status call.1))
    (executed : Executed before after body rest made entered) : Whole after := by
  have kept := whole.kept
  have moves := executed.moves
  have runs : Runs before.env body := kept.bodies body (executed.mem_before.mpr (.inl rfl))
  have checked := whole.not_aborts sound executed.running
  constructor
  · exact kept.of_executed executed
  · intro name served found
    cases known : before.env.process name with
    | none => exact (Kept.constructs moves known found).tracked kept sound executed
    | some process =>
        have tracked := whole.tracked name process known
        cases kept.splits runs moves checked known with
        | inl acts =>
            obtain ⟨served', acts, found'⟩ := acts
            rw [found] at found'
            cases found'
            exact acts.preserves tracked executed sound relied
        | inr elsewhere =>
            have same := elsewhere.same
            rw [found] at same
            cases same
            exact elsewhere.tracked executed tracked
  · intro derived parent continuation found
    cases known : before.env.derived derived with
    | none => exact (Kept.derivation moves known found).wrapped kept sound executed
    | some pair =>
        obtain ⟨earlier, continues⟩ := pair
        have same := kept.derived_same moves known
        rw [found] at same
        cases same
        have settling := kept.settling runs moves checked known
        exact (whole.wrapped _ _ _ known).of_settling executed settling relied
  · exact whole.linked.step kept runs moves checked
  · rw [executed.status]
    exact whole.unassociated
  · rw [aborted_of_moves moves checked]
    exact whole.aborted

/-- A step keeps the invariant, when the calls that it relies on have returned. -/
theorem Whole.step {frame : (gathering T).Frame} (whole : Whole before) (sound : before.Sound)
    (relied : Relied before frame) (step : before.Step frame after) : Whole after := by
  obtain rfl | ⟨future, op, -, entered⟩ | ⟨future, kind, registration, ran⟩ |
    ⟨body, rest, made, entered, rfl, executed⟩ := step_cases step
  · exact whole
  · exact whole.of_entered entered
  · exact whole.of_ran ran
  · exact whole.of_executed sound (relied body rfl) executed

end Steps

section Runs

variable {snapshot : GatherSnapshot T} {machine : Machine (gathering T)} {name : FutureId}
  {process : GatherProcess T}

theorem Whole.initial (initial : machine.Initial) : Whole machine.snapshot := by
  have blank := initial.blank
  have env : machine.snapshot.env = .new := blank.env
  constructor
  · exact .of_blank blank
  · rw [env]
    intro name process known
    cases known
  · rw [env]
    intro derived parent continuation known
    cases known
  · rw [env]
    constructor
    · intro call member
      cases member
    · intro derived parent futures known
      cases known
  · exact blank.associated
  · rw [env]
    rfl

/-- A new thread is not in any function of a process. -/
theorem mem_user {frame : GatherBody T} {bodies : Multiset (GatherBody T)}
    (other : frame ≠ .user) : frame ∈ .user ::ₘ bodies ↔ frame ∈ bodies := by
  rw [Multiset.mem_cons, or_iff_right other]

theorem Ends.spawn (ends : Ends snapshot name process) :
    Ends { snapshot with bodies := .user ::ₘ snapshot.bodies } name process := by
  constructor
  · intro decided
    simpa only [mem_user (show GatherBody.terminate name _ ≠ .user by simp)] using
      ends.decided decided
  · intro completion member
    exact ends.completing completion ((mem_user (by simp)).mp member)
  · intro member
    exact ends.losing ((mem_user (by simp)).mp member)
  · intro rest member
    obtain ⟨undecided, asked, requested⟩ := ends.discarding rest ((mem_user (by simp)).mp member)
    exact ⟨undecided, asked, requested⟩
  · intro future rest member
    obtain ⟨undecided, asked, requested⟩ :=
      ends.asking future rest ((mem_user (by simp)).mp member)
    exact ⟨undecided, asked, requested⟩
  · exact ends.asked
  · intro undecided
    obtain none | ⟨rest, member⟩ | ⟨future, rest, member⟩ := ends.unasked undecided
    · exact .inl none
    · exact .inr (.inl ⟨rest, Multiset.mem_cons_of_mem member⟩)
    · exact .inr (.inr ⟨future, rest, Multiset.mem_cons_of_mem member⟩)
  · exact ends.ended
  · exact ends.queued

theorem Heeds.spawn (heeds : Heeds snapshot name process) :
    Heeds { snapshot with bodies := .user ::ₘ snapshot.bodies } name process := by
  have dispatch : ∀ event, .dispatch name event ∈ .user ::ₘ snapshot.bodies ↔
      .dispatch name event ∈ snapshot.bodies := fun event => mem_user (by simp)
  constructor
  · rw [dispatch]
    exact heeds.lost
  · rw [dispatch]
    exact heeds.requested
  · rw [dispatch]
    exact heeds.dispatches
  · rw [dispatch, mem_user (by simp)]
    exact heeds.abandoned

theorem Tracked.spawn (tracked : Tracked snapshot name process) :
    Tracked { snapshot with bodies := .user ::ₘ snapshot.bodies } name process := by
  have registers := tracked.registers
  have promises := tracked.promises
  constructor
  · exact tracked.shaped
  · constructor
    · rw [Multiset.countP_cons_of_neg _ (by simp [handles])]
      exact tracked.staffed.handled
    · rw [Multiset.countP_cons_of_neg _ (by simp [spawns])]
      exact tracked.staffed.spawned
  · exact ⟨registers.waited, registers.abandoned, registers.discarded⟩
  · constructor
    · rw [Multiset.filterMap_cons_none _ _ rfl]
      exact tracked.counted.answers
    · exact tracked.counted.heard
  · exact tracked.ends.spawn
  · exact tracked.heeds.spawn
  · exact ⟨promises.completes, promises.abandons, promises.decided, promises.settled,
      promises.abandoned⟩
  · exact tracked.justified

theorem Wrapped.spawn {derived parent : FutureId} {continuation : Continuation}
    (wrapped : Wrapped snapshot derived parent continuation) :
    Wrapped { snapshot with bodies := .user ::ₘ snapshot.bodies } derived parent
      continuation := by
  constructor
  · exact wrapped.runs
  · exact wrapped.abandons
  · rw [mem_user (by simp)]
    exact wrapped.running
  · rw [mem_user (by simp)]
    exact wrapped.abandoning
  · exact wrapped.completes
  · exact wrapped.destroys
  · exact wrapped.settled
  · exact wrapped.abandoned
  · rw [mem_user (by simp)]
    exact wrapped.ran
  · rw [mem_user (by simp)]
    exact wrapped.lost

theorem Whole.spawn (whole : Whole snapshot) :
    Whole { snapshot with bodies := .user ::ₘ snapshot.bodies } where
  kept := whole.kept.spawn
  tracked name process known := (whole.tracked name process known).spawn
  wrapped derived parent continuation known :=
    (whole.wrapped derived parent continuation known).spawn
  linked := whole.linked
  unassociated := whole.unassociated
  aborted := whole.aborted

theorem Whole.of_reachable (reached : (futures (gathering T)).Reachable machine) :
    Whole machine.snapshot := by
  apply Machine.snapshot_invariant_of Relied _ Whole _ _ _ reached
  · rintro machine thread choice frame reached - running body rfl call member
    exact Machine.done_of_running ordered reached running member
  · intro machine initial
    exact .initial initial
  · intro snapshot whole
    exact whole.spawn
  · intro before frame after sound _ whole relied step
    exact whole.step sound relied step

end Runs

end Gather

end Libprocess
