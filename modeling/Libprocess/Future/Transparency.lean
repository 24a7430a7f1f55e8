import Libprocess.Future.Barrier

/-!
# `undiscardable` is transparent except for discards

And except for abandonment: in a run that abandons a pending source, what `undiscardable` has
returned is neither completed nor abandoned.
-/

namespace Libprocess

variable {α : Type}

open Snapshot (Entered Ran)

namespace Shield

/-- Code around has asked to discard the future, or one that passes a discard on to it. -/
def Traced (env : ShieldEnv) (future : FutureId) : Prop :=
  ∃ origin, env.requested origin = true ∧
    Relation.ReflTransGen (fun derived parent => (derived, parent) ∈ env.chains) origin future

/-- A discard of the future has such a reason, or comes too late. -/
def Passed (snapshot : ShieldSnapshot α) (future : FutureId) : Prop :=
  Traced snapshot.env future ∨ (snapshot.status future).state ≠ .pending

/-- Where the discards of a run come from. -/
structure Spread (snapshot : ShieldSnapshot α) : Prop where
  flags : ∀ future, (snapshot.status future).discard = true → Traced snapshot.env future
  calls : ∀ future, (future, .discard) ∈ snapshot.calls → Passed snapshot future
  bodies : ∀ future argument, .bound (.discard future) argument ∈ snapshot.bodies →
    Passed snapshot future
  subscribed : ∀ kind parent, ∀ derived ∈ snapshot.subscribed kind (.discard parent),
    kind = .onDiscard ∧
      ((derived, parent) ∈ snapshot.env.chains ∨ (snapshot.status parent).state ≠ .pending)

section Spread

variable {before after : ShieldSnapshot α} {env next : ShieldEnv} {future : FutureId}
  {body : ShieldBody α} {rest : Multiset (ShieldBody α)} {marked : Option FutureId}
  {made : Calls α} {entered : List (ShieldBody α)}

theorem Grows.traced (grows : Grows env next) (traced : Traced env future) :
    Traced next future := by
  obtain ⟨origin, requested, chained⟩ := traced
  refine ⟨origin, grows.requested origin requested, ?_⟩
  exact Relation.ReflTransGen.mono (fun _ _ link => grows.chains _ link) _ _ chained

theorem Traced.chain {derived parent : FutureId} (traced : Traced env derived)
    (link : (derived, parent) ∈ env.chains) : Traced env parent := by
  obtain ⟨origin, requested, chained⟩ := traced
  exact ⟨origin, requested, chained.tail link⟩

theorem Spread.of_entered {op : Op α ShieldCallback} (spread : Spread before)
    (entered : Entered before after future op) : Spread after := by
  have env := entered.env
  have passed : ∀ other, Passed before other → Passed after other := by
    intro other passed
    cases passed with
    | inl traced => exact .inl (env ▸ traced)
    | inr completed => exact .inr (entered.keeps completed)
  constructor
  · intro other requested
    rw [env]
    by_cases already : (before.status other).discard = true
    · exact spread.flags other already
    · rw [entered.status] at requested
      by_cases same : other = future
      · subst same
        rw [Function.update_self] at requested
        cases op with
        | discard =>
            simp only [Status.enter] at requested
            split at requested
            · rename_i takes
              have called : (other, .discard) ∈ before.calls := by
                rw [entered.calls]
                exact Multiset.mem_cons_self _ _
              cases spread.calls other called with
              | inl traced => exact traced
              | inr completed => exact absurd takes.2 completed
            · exact absurd requested already
        | set | fail | discarded | abandon =>
            simp only [Status.enter] at requested
            split at requested <;> exact absurd requested already
        | on => exact absurd requested already
      · rw [Function.update_of_ne same] at requested
        exact absurd requested already
  · intro other member
    apply passed
    apply spread.calls
    rw [entered.calls]
    exact Multiset.mem_cons_of_mem member
  · rw [entered.bodies]
    exact fun other argument member => passed other (spread.bodies other argument member)
  · intro kind parent derived
    rw [entered.subscribed, env]
    intro member
    obtain ⟨same, link | completed⟩ := spread.subscribed kind parent derived member
    · exact ⟨same, .inl link⟩
    · exact ⟨same, .inr (entered.keeps completed)⟩

theorem Spread.of_ran {kind : CallbackKind} {registration : Registration ShieldCallback}
    (spread : Spread before) (ran : Ran before after future kind registration) : Spread after := by
  have env := ran.env
  have fires := ran.fires fun _ => disciplined future
  constructor
  · rw [env, ran.status]
    exact spread.flags
  · unfold Passed
    rw [env, ran.status, ran.calls]
    exact spread.calls
  · unfold Passed
    rw [env, ran.status, ran.bodies]
    intro other argument member
    cases Multiset.mem_cons.mp member with
    | inl new =>
        have own : registration.callback = .discard other := by
          cases called : registration.callback <;> rw [called] at new <;> cases new
          rfl
        have subscribed := Snapshot.mem_subscribed ran.filed
        rw [own] at subscribed
        obtain ⟨rfl, link | completed⟩ := spread.subscribed kind other future subscribed
        · exact .inl ((spread.flags future fires).chain link)
        · exact .inr completed
    | inr old => exact spread.bodies other argument old
  · intro kind parent derived
    rw [ran.subscribed, env, ran.status]
    exact spread.subscribed kind parent derived

/-- The discards that a step of the code calls for. -/
theorem Spread.called (spread : Spread before)
    (moves : Moves before.status before.env body next marked made entered)
    (runs : body ∈ before.bodies) (grows : Grows before.env next)
    (called : (future, .discard) ∈ made) :
    Traced next future ∨ (before.status future).state ≠ .pending := by
  cases moves with
  | @call other op =>
      have same := Prod.mk.inj (List.mem_singleton.mp called)
      cases op <;> simp only [Op.foreign, reduceCtorEq, and_false] at same
      rw [same.1]
      exact .inl ⟨other, Function.update_self _ _ _, .refl⟩
  | promise | undiscardable | chain | finish | associate | refuse =>
      simp [associations] at called
  | @bound callback argument call bound =>
      have own := List.mem_singleton.mp called
      subst own
      have discards : callback = .discard future := by
        unfold Shield.bound at bound
        split at bound <;> simp_all
      subst discards
      exact (spread.bodies future argument runs).imp_left grows.traced

/-- The chains that a step of the code makes. -/
theorem chained_of_subscribes (moves : Moves before.status before.env body next marked made entered)
    (associates : ∀ result source, body = .associate result →
      before.env.source result = some source → (before.status source).state ≠ .pending)
    {kind : CallbackKind} {parent derived : FutureId}
    (member : (derived, .on kind (.discard parent)) ∈ made) :
    kind = .onDiscard ∧ ((derived, parent) ∈ next.chains ∨
      (before.status parent).state ≠ .pending) := by
  cases moves with
  | @call future op =>
      have same := Prod.mk.inj (List.mem_singleton.mp member)
      cases op <;> simp [Op.foreign] at same
  | promise | undiscardable | finish | refuse => simp at member
  | chain =>
      simp only [List.mem_singleton, Prod.mk.injEq, Op.on.injEq, ShieldCallback.discard.injEq]
        at member
      obtain ⟨rfl, rfl, rfl⟩ := member
      exact ⟨rfl, .inl List.mem_cons_self⟩
  | @associate result source found =>
      simp only [associations, List.mem_append, List.mem_cons, Prod.mk.injEq, Op.on.injEq,
        ShieldCallback.discard.injEq, reduceCtorEq, and_false, or_false, List.not_mem_nil] at member
      obtain ⟨-, rfl, rfl⟩ := member
      exact ⟨rfl, .inr (associates result parent rfl found)⟩
  | bound bound =>
      have own := List.mem_singleton.mp member
      subst own
      unfold Shield.bound at bound
      split at bound <;> cases bound

theorem Spread.of_executed (spread : Spread before) (kept : Kept before)
    (executed : Executed before after body rest marked made entered)
    (associates : ∀ result source, body = .associate result →
      before.env.source result = some source → (before.status source).state ≠ .pending) :
    Spread after := by
  have grows := kept.grows executed.moves
  have same := executed.same
  have runs : body ∈ before.bodies := executed.mem_before.mpr (.inl rfl)
  have passed : ∀ other, Passed before other → Passed after other := by
    intro other passed
    unfold Passed
    rw [(same other).1]
    exact passed.imp_left grows.traced
  constructor
  · intro other requested
    rw [(same other).2.2.2] at requested
    exact grows.traced (spread.flags other requested)
  · intro other member
    cases executed.mem_calls.mp member with
    | inl new =>
        unfold Passed
        rw [(same other).1]
        exact spread.called executed.moves runs grows new
    | inr old => exact passed other (spread.calls other old)
  · intro other argument member
    cases executed.mem_after.mp member with
    | inl enters =>
        have moves := executed.moves
        generalize after.env = next at moves
        cases moves <;> simp at enters
    | inr old => exact passed other (spread.bodies other argument (executed.mem_before.mpr (.inr old)))
  · intro kind parent derived
    rw [Snapshot.subscribed_add executed.calls executed.registered, (same parent).1]
    intro member
    cases Multiset.mem_add.mp member with
    | inl new =>
        obtain ⟨⟨other, op⟩, called, shown⟩ := List.mem_filterMap.mp (Multiset.mem_coe.mp new)
        cases op with
        | on registered callback =>
            simp only [subscribing, Option.ite_none_right_eq_some, Option.some.injEq] at shown
            obtain ⟨⟨rfl, rfl⟩, rfl⟩ := shown
            exact chained_of_subscribes executed.moves associates called
        | set | fail | discarded | discard | abandon => cases shown
    | inr old =>
        obtain ⟨kinds, link⟩ := spread.subscribed kind parent derived old
        exact ⟨kinds, link.imp_left (grows.chains _)⟩

end Spread

section Shielded

variable {before after : ShieldSnapshot α} {result source : FutureId} {body : ShieldBody α}
  {rest : Multiset (ShieldBody α)} {marked : Option FutureId} {made : Calls α}
  {entered : List (ShieldBody α)}

theorem Kept.subscribed_eq_zero (kept : Kept before) {callback : ShieldCallback}
    (unowned : ¬ Owned before.env callback) (kind : CallbackKind) :
    before.subscribed kind callback = 0 := by
  apply Snapshot.subscribed_eq_zero
  · intro call called kind same
    exact unowned ((kept.calls call called).owned kind callback same)
  · intro entry filed same
    exact unowned (same ▸ kept.registered entry filed)

theorem Kept.notified_eq_zero (kept : Kept before) (sound : before.Sound)
    {callback : ShieldCallback} (unowned : ¬ Owned before.env callback) {kind : CallbackKind}
    (tracked : kind ≠ .onDiscard) : before.notified kind callback = 0 := by
  have among := sound.notified_le tracked callback
  rw [kept.subscribed_eq_zero unowned kind] at among
  exact Multiset.le_zero.mp among

theorem not_owned {env : ShieldEnv} (unknown : env.source result = none)
    {callback : ShieldCallback} (serving : serves result callback = true) :
    ¬ Owned env callback := by
  cases callback <;> simp_all [serves, copying, Owned]

/-- A step that calls `undiscardable`. -/
theorem shields_of_moves {next : ShieldEnv}
    (moves : Moves before.status before.env body next marked made entered)
    (unknown : before.env.source result = none) (found : next.source result = some source) :
    fresh before.status before.env result = true ∧ before.env.made source = true ∧
      marked = none ∧ entered = [.user] ∧ made = [(source, .on .onAny (.associate result))] := by
  cases moves with
  | @undiscardable parent derived known unmade =>
      by_cases same : result = derived
      · subst same
        simp only [ShieldEnv.shield, Function.update_self] at found
        cases found
        exact ⟨unmade, known, rfl, rfl, rfl⟩
      · rw [show (before.env.shield parent derived).source result = before.env.source result from
          Function.update_of_ne same _ _, unknown] at found
        cases found
  | @call future op =>
      have still : (before.env.record future op).source = before.env.source := by cases op <;> rfl
      rw [still, unknown] at found
      cases found
  | _ => exact absurd (unknown.symm.trans found) (by simp)

/-- What is known of the future holds when `undiscardable` returns it. -/
theorem Shielded.of_shields (kept : Kept before) (sound : before.Sound)
    (executed : Executed before after body rest marked made entered)
    (unknown : before.env.source result = none) (found : after.env.source result = some source) :
    Shielded after result source := by
  obtain ⟨unmade, known, rfl, rfl, rfl⟩ := shields_of_moves executed.moves unknown found
  obtain ⟨unmade, unabandoned⟩ := fresh_iff.mp unmade
  obtain ⟨pending, unassociated⟩ := kept.unmade result unmade
  have status : after.status = before.status := executed.status
  have none : ∀ callback, serves result callback = true → ∀ kind,
      before.subscribed kind callback = 0 :=
    fun callback serving kind => kept.subscribed_eq_zero (not_owned unknown serving) kind
  have silent : ∀ callback, serves result callback = true → ∀ kind, kind ≠ .onDiscard →
      after.notified kind callback = 0 := by
    intro callback serving kind tracked
    rw [Snapshot.notified_congr executed.log]
    exact kept.notified_eq_zero sound (not_owned unknown serving) tracked
  have frames : ∀ frame ∈ after.bodies, about result frame = false := by
    intro frame member
    cases executed.mem_after.mp member with
    | inl user =>
        rw [List.mem_singleton.mp user]
        rfl
    | inr old =>
        have runs := kept.bodies frame (executed.mem_before.mpr (.inr old))
        cases own : about result frame with
        | false => rfl
        | true =>
            cases frame with
            | user => cases own
            | associate other =>
                have same : other = result := of_decide_eq_true own
                rw [Runs, same, unknown] at runs
                cases runs
            | bound callback argument =>
                obtain ⟨kind, copies⟩ := Option.isSome_iff_exists.mp own
                exact absurd runs (not_owned unknown (serves_of_copying copies))
  have calls : ∀ op, (result, op) ∉ after.calls := by
    intro op member
    have made : before.env.made result = true := by
      cases executed.mem_calls.mp member with
      | inl new =>
          rw [(Prod.mk.inj (List.mem_singleton.mp new)).1]
          exact known
      | inr old => exact (kept.calls _ old).made
    rw [unmade] at made
    cases made
  constructor
  · intro kind
    rw [Snapshot.subscribed_add executed.calls executed.registered,
      none _ (by simp [serves]), Multiset.add_zero]
    cases kind <;> simp [Snapshot.subscriptions, subscribing]
  · intro callback expected copies kind
    rw [Snapshot.subscribed_add executed.calls executed.registered,
      none _ (serves_of_copying copies), Multiset.add_zero, status, unassociated,
      if_neg (by simp)]
    apply Snapshot.subscriptions_eq_zero
    intro call member registered same
    rw [List.mem_singleton.mp member] at same
    cases same
    cases copies
  · rw [status, unassociated]
    simp
  · intro running
    have outside := frames _ running
    simp [about] at outside
  · intro callback argument member kind copies
    have outside := frames _ member
    simp [about, copies] at outside
  · exact fun op member => absurd member (calls op)
  · exact fun propagating member => absurd member (calls _)
  · rw [status]
    exact fun completed => absurd pending completed
  · rw [status, unabandoned]
    simp
  · rw [silent _ (by simp [serves]) .onAny (by simp)]
    exact fun some => absurd rfl some
  · intro callback kind copies _
    rw [silent _ (serves_of_copying copies) kind (copying_tracked copies)]
    exact fun some => absurd rfl some

end Shielded

/-- What holds in every state of every run. -/
structure Whole (snapshot : ShieldSnapshot α) : Prop where
  kept : Kept snapshot
  shielded : ∀ result source, snapshot.env.source result = some source →
    Shielded snapshot result source
  spread : Spread snapshot

section Whole

variable {before after snapshot : ShieldSnapshot α} {machine : Machine (shields α)}

theorem Whole.initial (initial : machine.Initial) : Whole machine.snapshot := by
  obtain ⟨env, empty, log, calls, bodies, pending, discard, associated⟩ := initial.blank
  have environment : machine.snapshot.env = .new := env
  constructor
  · constructor
    · rw [environment]
      intro result source known
      cases known
    · simp [calls]
    · simp [empty]
    · simp [bodies]
    · exact fun future _ => ⟨pending future, associated future⟩
  · rw [environment]
    intro result source known
    cases known
  · constructor
    · intro future requested
      rw [discard future] at requested
      cases requested
    · simp [calls]
    · simp [bodies]
    · simp [Snapshot.subscribed, calls, empty]

theorem Whole.spawn (whole : Whole snapshot) :
    Whole { snapshot with bodies := .user ::ₘ snapshot.bodies } := by
  have old : ∀ body, body ∈ .user ::ₘ snapshot.bodies → body ≠ .user → body ∈ snapshot.bodies := by
    intro body member different
    cases Multiset.mem_cons.mp member with
    | inl new => exact absurd new different
    | inr old => exact old
  have kept := whole.kept
  constructor
  · refine ⟨kept.source, kept.calls, kept.registered, ?_, kept.unmade⟩
    intro body member
    cases Multiset.mem_cons.mp member with
    | inl new =>
        rw [new]
        exact True.intro
    | inr old => exact kept.bodies body old
  · intro result source known
    have shielded := whole.shielded result source known
    constructor
    · exact shielded.waits
    · exact shielded.copies
    · exact shielded.associated
    · exact fun running => shielded.running (old _ running (by simp))
    · intro callback argument member
      exact shielded.bound callback argument (old _ member (by simp))
    · exact shielded.completes
    · exact shielded.abandons
    · exact shielded.settled
    · exact shielded.abandoned
    · exact fun some => (shielded.ran some).imp_left Multiset.mem_cons_of_mem
    · intro callback kind copies tracked some
      obtain ⟨argument, bound⟩ | rest := shielded.copied callback kind copies tracked some
      · exact .inl ⟨argument, Multiset.mem_cons_of_mem bound⟩
      · exact .inr rest
  · have spread := whole.spread
    refine ⟨spread.flags, spread.calls, ?_, spread.subscribed⟩
    exact fun future argument member => spread.bodies future argument (old _ member (by simp))

theorem Whole.step {frame : (shields α).Frame} (whole : Whole before) (sound : before.Sound)
    (later : after.Sound) (step : before.Step frame after) : Whole after := by
  obtain rfl | ⟨future, op, entered⟩ | ⟨future, kind, registration, ran⟩ |
    ⟨body, rest, marked, made, enters, executed⟩ := step_cases step
  · exact whole
  · refine ⟨whole.kept.of_entered entered, ?_, whole.spread.of_entered entered⟩
    rw [entered.env]
    exact fun result source known => (whole.shielded result source known).of_entered later entered
  · refine ⟨whole.kept.of_ran ran, ?_, whole.spread.of_ran ran⟩
    rw [ran.env]
    exact fun result source known => (whole.shielded result source known).of_ran ran
  · have runs : body ∈ before.bodies := executed.mem_before.mpr (.inl rfl)
    refine ⟨whole.kept.of_executed executed, ?_, whole.spread.of_executed whole.kept executed ?_⟩
    · intro result source found
      cases known : before.env.source result with
      | none => exact Shielded.of_shields whole.kept sound executed known found
      | some earlier =>
          have still := (whole.kept.grows executed.moves).source result earlier known
          rw [found] at still
          cases still
          exact (whole.shielded result source known).of_executed executed
            (whole.kept.acts known executed.moves)
    · rintro result source rfl known
      exact (whole.shielded result source known).running runs

theorem Whole.of_reachable (reached : (futures (shields α)).Reachable machine) :
    Whole machine.snapshot := by
  apply Machine.snapshot_invariant_of (fun _ _ => True) _ Whole _ _ _ reached
  · intros
    trivial
  · exact fun _ => Whole.initial
  · exact fun _ => Whole.spawn
  · intro before frame after sound later whole _ step
    exact whole.step sound later step

end Whole

abbrev Idle (machine : Machine (shields α)) : Prop := machine.Resting

instance main_decidable (frame : (shields α).Body) : Decidable (frame = (shields α).main) :=
  decidable_of_bool (match frame with | .user => true | _ => false) (by
    cases frame <;> simp [shields])

/-- What `undiscardable` has returned is its source, except for discards. -/
structure Transparent (machine : Machine (shields α)) (result source : FutureId) : Prop where
  only : (machine.snapshot.status result).state ≠ .pending →
    (machine.snapshot.status result).state = (machine.snapshot.status source).state ∧
      (machine.snapshot.status result).result = (machine.snapshot.status source).result
  completed : Idle machine → (machine.snapshot.status source).state ≠ .pending →
    (machine.snapshot.status result).state ≠ .pending
  discard : (machine.snapshot.status source).discard = true → Traced machine.snapshot.env source
  abandoned : Idle machine → (machine.snapshot.status source).abandoned = true →
    (machine.snapshot.status source).state = .pending →
      (machine.snapshot.status result).abandoned = true

/-- A pending source was abandoned, and all callbacks have run. -/
def Forsaken (machine : Machine (shields α)) (source : FutureId) : Prop :=
  Idle machine ∧ (machine.snapshot.status source).abandoned = true ∧
    (machine.snapshot.status source).state = .pending

section Transparent

variable {machine : Machine (shields α)} {result source future : FutureId}

/-- A callback that was registered on a future has been invoked once its event has happened. -/
theorem Idle.notified (idle : Idle machine) (reached : (futures (shields α)).Reachable machine)
    {kind : CallbackKind} (tracked : kind ≠ .onDiscard) {callback : ShieldCallback}
    (subscribed : machine.snapshot.subscribed kind callback = {future})
    (fires : (machine.snapshot.status future).fires kind = true) :
    machine.snapshot.notified kind callback ≠ 0 := by
  intro none
  have same := (Machine.Invariant.of_reachable reached).notified_eq tracked callback
    (idle.quiescent future) fires
  rw [none, subscribed, Multiset.count_zero, Multiset.count_singleton_self] at same
  cases same

/-- Once all callbacks have run, the completion of the source has been copied. -/
theorem Shielded.completed (shielded : Shielded machine.snapshot result source)
    (idle : Idle machine) (reached : (futures (shields α)).Reachable machine)
    (completed : (machine.snapshot.status source).state ≠ .pending) :
    (machine.snapshot.status result).state ≠ .pending := by
  have waits := shielded.waits .onAny
  rw [if_pos rfl] at waits
  have ran := idle.notified reached (by simp) waits (decide_eq_true completed)
  obtain running | associated | settled := shielded.ran ran
  · cases idle.body running
  · have copied : ∀ callback kind, copying result callback = some kind → kind ≠ .onAbandoned →
        (machine.snapshot.status source).fires kind = true →
          (machine.snapshot.status result).state ≠ .pending := by
      intro callback kind copies tracked fires
      have subscribed := shielded.copies callback kind copies kind
      rw [if_pos ⟨rfl, associated⟩] at subscribed
      have seen := idle.notified reached (copying_tracked copies) subscribed fires
      obtain ⟨argument, bound⟩ | ⟨op, waits, -⟩ | settled :=
        shielded.copied callback kind copies tracked seen
      · cases idle.body bound
      · exact absurd waits ((idle.quiescent result).no_call op)
      · exact settled
    cases state : (machine.snapshot.status source).state with
    | pending => exact absurd state completed
    | ready =>
        exact copied (.set result) .onReady (by simp [copying]) (by simp) (decide_eq_true state)
    | failed =>
        exact copied (.fail result) .onFailed (by simp [copying]) (by simp) (decide_eq_true state)
    | discarded =>
        exact copied (.discarded result) .onDiscarded (by simp [copying]) (by simp)
          (decide_eq_true state)
  · exact settled

end Transparent

end Shield

open Shield in
/-- What `undiscardable` has returned is its source except for discards, as long as a pending source
is not abandoned. -/
theorem undiscardable_transparent_iff {machine : Machine (shields α)}
    (reached : (futures (shields α)).Reachable machine) {result source : FutureId}
    (found : machine.snapshot.env.source result = some source) :
    Transparent machine result source ↔ ¬ Forsaken machine source := by
  have whole := Whole.of_reachable reached
  have shielded := whole.shielded result source found
  constructor
  · rintro transparent ⟨idle, abandoned, pending⟩
    have passed := transparent.abandoned idle abandoned pending
    exact shielded.abandoned passed pending
  · intro kept
    constructor
    · exact shielded.settled
    · exact fun idle completed => shielded.completed idle reached completed
    · exact whole.spread.flags source
    · exact fun idle abandoned pending => absurd ⟨idle, abandoned, pending⟩ kept

abbrev Shield.perform : Nat → ShieldChoice α → Nat → List (Move (shields α)) :=
  (shields α).perform .finish

/-- A discard of the returned future, and then the completion of the source. -/
def shieldSchedule : List (Move (shields Nat)) :=
  List.flatten [[.spawn], Shield.perform 0 (.promise 0) 0, Shield.perform 0 (.undiscardable 0 1) 1,
    Shield.perform 0 (.call 1 .discard) 2, Shield.perform 0 (.call 0 (.set 7)) 21]

theorem undiscardable_transparent_ready : ∃ machine : Machine (shields Nat),
    Shield.Transparent machine 1 0 ∧ (machine.snapshot.status 1).discard = true ∧
      (machine.snapshot.status 0).discard = false ∧
        (machine.snapshot.status 1).state = .ready := by
  obtain ⟨machine, executed, source, kept, requested, spared, ready⟩ :
      ∃ machine ∈ (futures (shields Nat)).run (Machine.new _ fun _ => false) shieldSchedule,
      machine.memory.env.source 1 = some 0 ∧
      (machine.memory.data 0).abandoned = false ∧ (machine.memory.data 1).discard = true ∧
      (machine.memory.data 0).discard = false ∧ (machine.memory.data 1).state = .ready := by
    decide +kernel
  have reached := Concurrency.Automaton.Reachable.of_run
    (Machine.new_initial (shields Nat) fun _ => false) executed
  have transparent := (undiscardable_transparent_iff reached source).mpr fun forsaken =>
    absurd (kept.symm.trans forsaken.2.1) (by simp)
  exact ⟨machine, transparent, requested, spared, ready⟩

/-- The promise of the source is destroyed. -/
def forsakenSchedule : List (Move (shields Nat)) :=
  [.spawn] ++ Shield.perform 0 (.promise 0) 0 ++ Shield.perform 0 (.undiscardable 0 1) 1 ++
    Shield.perform 0 (.call 0 (.abandon false)) 2

theorem not_transparent_forsaken : ∃ machine : Machine (shields Nat),
    (futures (shields Nat)).Reachable machine ∧ machine.snapshot.env.source 1 = some 0 ∧
      ¬ Shield.Transparent machine 1 0 := by
  obtain ⟨machine, executed, idle, source, abandoned, pending, kept⟩ :
      ∃ machine ∈ (futures (shields Nat)).run (Machine.new _ fun _ => false) forsakenSchedule,
      Shield.Idle machine ∧
      machine.memory.env.source 1 = some 0 ∧ (machine.memory.data 0).abandoned = true ∧
      (machine.memory.data 0).state = .pending ∧ (machine.memory.data 1).abandoned = false := by
    decide +kernel
  refine ⟨machine, .of_run (Machine.new_initial (shields Nat) fun _ => false) executed, source, ?_⟩
  intro transparent
  have passed : (machine.memory.data 1).abandoned = true :=
    transparent.abandoned idle abandoned pending
  rw [kept] at passed
  cases passed

end Libprocess
