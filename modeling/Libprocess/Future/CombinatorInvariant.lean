import Libprocess.Future.CombinatorMoves

/-!
# The invariant of promises and combinators

Where every callback may be registered, and that the callbacks of a derived or associated future
are registered or about to be.
-/

namespace Libprocess

variable {α : Type}

abbrev GraphSnapshot (α : Type) := Snapshot (graph α)

open Snapshot (Entered Ran)

namespace Graph

/-- A snapshot before and after a step of the code. -/
structure Executed (before after : GraphSnapshot α) (frame : GraphBody α)
    (rest : Multiset (GraphBody α)) (made : List (FutureId × Op α GraphCallback))
    (entered : List (GraphBody α)) : Prop where
  moves : Moves before.status before.env frame after.env
    (fun future => (after.status future).associated) made entered
  running : before.bodies = frame ::ₘ rest
  bodies : after.bodies = ↑entered + rest
  calls : after.calls = ↑made + before.calls
  registered : after.registered = before.registered
  log : after.log = before.log
  status : ∀ future, (after.status future).state = (before.status future).state ∧
    (after.status future).result = (before.status future).result ∧
    (after.status future).abandoned = (before.status future).abandoned ∧
    (after.status future).discard = (before.status future).discard

section Steps

variable {before after : GraphSnapshot α} {frame : (graph α).Frame}

theorem step_cases (step : before.Step frame after) :
    after = before ∨
      (∃ future op, frame = .enter future op ∧ Entered before after future op) ∨
      (∃ future kind registration, Ran before after future kind registration) ∨
      ∃ body rest made entered, frame = .body body ∧
        Executed before after body rest made entered := by
  refine (Snapshot.Step.cases step).imp id (Or.imp id (Or.imp id ?_))
  rintro ⟨body, rest, choice, effect, rfl, running, moved, rfl⟩
  obtain ⟨moves, discard⟩ := step_does moved
  exact ⟨body, rest, _, _, rfl, moves, running, rfl, rfl, rfl, rfl,
    fun future => ⟨rfl, rfl, rfl, discard future⟩⟩

end Steps

/-- A frame is entered by the step or was there before. -/
theorem Executed.source {before after : GraphSnapshot α} {frame present : GraphBody α}
    {rest : Multiset (GraphBody α)} {made : List (FutureId × Op α GraphCallback)}
    {entered : List (GraphBody α)} (executed : Executed before after frame rest made entered)
    (member : present ∈ after.bodies) : present ∈ entered ∨ present ∈ before.bodies := by
  rw [executed.bodies] at member
  cases Multiset.mem_add.mp member with
  | inl new => exact .inl new
  | inr old =>
      right
      rw [executed.running]
      exact Multiset.mem_cons_of_mem old

theorem Executed.mem {before after : GraphSnapshot α} {frame : GraphBody α}
    {rest : Multiset (GraphBody α)} {made : List (FutureId × Op α GraphCallback)}
    {entered : List (GraphBody α)} (executed : Executed before after frame rest made entered) :
    frame ∈ before.bodies := by
  rw [executed.running]
  exact Multiset.mem_cons_self _ _

/-- The code never writes a `discard` flag. -/
theorem disciplined (future : FutureId) : (graph α).Disciplined future :=
  fun _ _ _ _ _ stepped => (step_does stepped).2 future

/-- The flag `associated` tells whether the promise has a target, and only promises have
parents. -/
structure Kept (snapshot : GraphSnapshot α) : Prop where
  associated : ∀ future,
    (snapshot.status future).associated = (snapshot.env.target future).isSome
  made : ∀ future, (snapshot.env.parent future).isSome = true → snapshot.env.made future = true

theorem Kept.untargeted {snapshot : GraphSnapshot α} (kept : Kept snapshot) {future : FutureId}
    (free : (snapshot.status future).associated = false) : snapshot.env.target future = none := by
  have flag := kept.associated future
  rw [free] at flag
  simpa using flag.symm

end Graph

/-- How the environment can change. -/
structure GraphEnv.Later (before after : GraphEnv) : Prop where
  made : ∀ future, before.made future = true → after.made future = true
  destroyed : ∀ future, before.destroyed future = true → after.destroyed future = true
  parent : ∀ future, before.made future = true → after.parent future = before.parent future
  target : ∀ future target, before.target future = some target →
    after.target future = some target
  lost : ∀ future, before.destroyed future = true → after.target future = before.target future
  called : ∀ future, before.called future = true → after.called future = true
  latch : ∀ future, before.latch future = true → after.latch future = true
  gone : ∀ future, before.gone future = true → after.gone future = true

namespace Graph

theorem update_true {flags : FutureId → Bool} {future other : FutureId}
    (set : flags other = true) : Function.update flags future true other = true := by
  by_cases same : other = future
  · subst same
    simp
  · simpa [same] using set

theorem env_refl (env : GraphEnv) : env.Later env :=
  ⟨fun _ => id, fun _ => id, fun _ _ => rfl, fun _ _ => id, fun _ _ => rfl, fun _ => id,
    fun _ => id, fun _ => id⟩

theorem Moves.later {status : FutureId → Status α} {env next : GraphEnv} {frame : GraphBody α}
    {associated : FutureId → Bool} {made : List (FutureId × Op α GraphCallback)}
    {entered : List (GraphBody α)} (moves : Moves status env frame next associated made entered)
    (kept : ∀ future, (status future).associated = (env.target future).isSome) :
    env.Later next ∧ ∀ future, (status future).associated = true → associated future = true := by
  cases moves with
  | promise runs fresh => exact ⟨{ env_refl env with made := fun _ => update_true }, fun _ => id⟩
  | destroy runs owned =>
      exact ⟨{ env_refl env with destroyed := fun _ => update_true }, fun _ => id⟩
  | @derive frame combinator parent derived runs fresh =>
      refine ⟨{ env_refl env with
        made := fun _ => update_true
        parent := ?_ }, fun _ => id⟩
      intro future old
      apply Function.update_of_ne
      rintro rfl
      rw [fresh] at old
      cases old
  | free runs => exact ⟨{ env_refl env with gone := fun _ => update_true }, fun _ => id⟩
  | invoke => exact ⟨{ env_refl env with called := fun _ => update_true }, fun _ => id⟩
  | after => exact ⟨{ env_refl env with latch := fun _ => update_true }, fun _ => id⟩
  | expired =>
      exact ⟨{ env_refl env with
        latch := fun _ => update_true
        called := fun _ => update_true }, fun _ => id⟩
  | @associate future target alive pending unassociated =>
      refine ⟨{ env_refl env with
        target := ?_
        lost := ?_ }, fun _ => @update_true (fun other => (status other).associated) future _⟩
      · intro other old found
        have different : other ≠ future := by
          rintro rfl
          have flag := kept other
          rw [unassociated, found] at flag
          cases flag
        exact (Function.update_of_ne different _ _).trans found
      · intro other lost
        apply Function.update_of_ne
        rintro rfl
        rw [alive] at lost
        cases lost
  | expire =>
      exact ⟨⟨fun _ => id, fun _ => id, fun _ _ => rfl, fun _ _ => id, fun _ _ => rfl, fun _ => id,
        fun _ => id, fun _ => id⟩, fun _ => id⟩
  | _ => exact ⟨env_refl env, fun _ => id⟩

section Progress

variable {before after : GraphSnapshot α} {frame : (graph α).Frame}

/-- How a snapshot can change. -/
structure Progress (before after : GraphSnapshot α) : Prop where
  status : ∀ future, (before.status future).Later (after.status future)
  discard : ∀ future, (before.status future).discard = true →
    (after.status future).discard = true
  associated : ∀ future, (before.status future).associated = true →
    (after.status future).associated = true
  env : before.env.Later after.env

theorem Progress.completed (progress : Progress before after) {future : FutureId}
    (completed : (before.status future).state ≠ .pending) :
    (after.status future).state ≠ .pending := by
  rw [((progress.status future).completed completed).1]
  exact completed

theorem Progress.parent (progress : Progress before after) (kept : Kept before)
    {derived : FutureId} {derivation : Combinator × FutureId}
    (found : before.env.parent derived = some derivation) :
    after.env.parent derived = some derivation := by
  rw [progress.env.parent derived (kept.made derived (by simp [found]))]
  exact found

theorem enter_discard (status : Status α) (op : Op α GraphCallback)
    (discard : status.discard = true) : (status.enter op).discard = true := by
  cases op <;> simp only [Status.enter] <;> (try split) <;> first | exact discard | rfl

theorem step_progress (kept : Kept before) (step : before.Step frame after) :
    Progress before after := by
  have later := step.later
  obtain rfl | ⟨future, op, -, entered⟩ | ⟨future, kind, registration, ran⟩ |
    ⟨body, rest, made, opened, -, executed⟩ := step_cases step
  · exact ⟨later, fun _ => id, fun _ => id, env_refl _⟩
  · refine ⟨later, ?_, ?_, entered.env ▸ env_refl _⟩
    · intro other discard
      rw [entered.status]
      by_cases same : other = future
      · subst same
        rw [Function.update_self]
        exact enter_discard _ op discard
      · rw [Function.update_of_ne same]
        exact discard
    · intro other
      rw [entered.associated]
      exact id
  · refine ⟨later, ?_, ?_, ran.env ▸ env_refl _⟩ <;> rw [ran.status] <;> exact fun _ => id
  · obtain ⟨env, associated⟩ := executed.moves.later kept.associated
    refine ⟨later, ?_, associated, env⟩
    intro other
    rw [(executed.status other).2.2.2]
    exact id

/-- Where a target comes from. -/
theorem Moves.target {status : FutureId → Status α} {env next : GraphEnv} {frame : GraphBody α}
    {associated : FutureId → Bool} {made : List (FutureId × Op α GraphCallback)}
    {entered : List (GraphBody α)} (moves : Moves status env frame next associated made entered) :
    (next.target = env.target ∧ associated = fun other => (status other).associated) ∨
      ∃ future target, frame = .associate future target ∧ env.destroyed future = false ∧
        (status future).state = .pending ∧ (status future).associated = false ∧
        next.target = Function.update env.target future (some target) ∧
        associated = Function.update (fun other => (status other).associated) future true ∧
        made = associations future target ++ released env future := by
  cases moves with
  | associate alive pending unassociated =>
      exact .inr ⟨_, _, rfl, alive, pending, unassociated, rfl, rfl, rfl⟩
  | _ => exact .inl ⟨rfl, rfl⟩

/-- Where a parent comes from. -/
theorem Moves.parent {status : FutureId → Status α} {env next : GraphEnv} {frame : GraphBody α}
    {associated : FutureId → Bool} {made : List (FutureId × Op α GraphCallback)}
    {entered : List (GraphBody α)} (moves : Moves status env frame next associated made entered) :
    next.parent = env.parent ∨
      ∃ combinator parent derived, env.made derived = false ∧
        next.made = Function.update env.made derived true ∧
        next.parent = Function.update env.parent derived (some (combinator, parent)) ∧
        made = derivations parent derived := by
  cases moves with
  | derive runs fresh => exact .inr ⟨_, _, _, fresh, rfl, rfl, rfl⟩
  | _ => exact .inl rfl

theorem Kept.step (kept : Kept before) (step : before.Step frame after) : Kept after := by
  have progress := step_progress kept step
  obtain rfl | ⟨future, op, -, entered⟩ | ⟨future, kind, registration, ran⟩ |
    ⟨body, rest, made, opened, -, executed⟩ := step_cases step
  · exact kept
  · constructor
    · intro other
      rw [entered.associated, entered.env]
      exact kept.associated other
    · rw [entered.env]
      exact kept.made
  · constructor
    · rw [ran.status, ran.env]
      exact kept.associated
    · rw [ran.env]
      exact kept.made
  · constructor
    · intro other
      obtain ⟨target, flags⟩ | ⟨future, target, -, -, -, -, found, flags, -⟩ :=
        executed.moves.target
      · rw [congrFun flags other, target]
        exact kept.associated other
      · rw [congrFun flags other, found]
        by_cases same : other = future
        · subst same
          simp
        · rw [Function.update_of_ne same, Function.update_of_ne same]
          exact kept.associated other
    · intro other derived
      obtain same | ⟨combinator, parent, future, -, promises, parents, -⟩ := executed.moves.parent
      · rw [same] at derived
        exact progress.env.made other (kept.made other derived)
      · by_cases here : other = future
        · subst here
          rw [promises]
          simp
        · rw [parents, Function.update_of_ne here] at derived
          exact progress.env.made other (kept.made other derived)

end Progress

/-! ## Where callbacks are registered -/

/-- Where each callback may be registered. -/
def Place (env : GraphEnv) (future : FutureId) (kind : CallbackKind) : GraphCallback → Prop
  | .other => True
  | .run derived => kind = .onAny ∧ ∃ combinator, env.parent derived = some (combinator, future)
  | .abandoned derived =>
      kind = .onAbandoned ∧ ∃ combinator, env.parent derived = some (combinator, future)
  | .discard _ => kind = .onDiscard
  | .set other => kind = .onReady ∧ env.target other = some future
  | .fail other => kind = .onFailed ∧ env.target other = some future
  | .discarded other => kind = .onDiscarded ∧ env.target other = some future
  | .abandon other => kind = .onAbandoned ∧ env.target other = some future

structure Placed (snapshot : GraphSnapshot α) : Prop where
  registered : ∀ entry ∈ snapshot.registered,
    Place snapshot.env entry.1 entry.2.1 entry.2.2.callback
  calls : ∀ future kind callback, (future, .on kind callback) ∈ snapshot.calls →
    Place snapshot.env future kind callback

section Placed

variable {before after : GraphSnapshot α} {frame : (graph α).Frame}

theorem Place.progress {future : FutureId} {kind : CallbackKind} {callback : GraphCallback}
    (place : Place before.env future kind callback) (kept : Kept before)
    (progress : Progress before after) : Place after.env future kind callback := by
  cases callback with
  | other => trivial
  | discard => exact place
  | run derived | abandoned derived =>
      obtain ⟨rfl, combinator, found⟩ := place
      exact ⟨rfl, combinator, progress.parent kept found⟩
  | set other | fail other | discarded other | abandon other =>
      exact ⟨place.1, progress.env.target _ _ place.2⟩

theorem not_mem_released {env : GraphEnv} {future other : FutureId} {kind : CallbackKind}
    {callback : GraphCallback} :
    (other, .on kind callback) ∉ (released env future : List (FutureId × Op α GraphCallback)) := by
  rw [released]
  split <;> simp

theorem op_ne_on (completion : Completion α) (kind : CallbackKind) (callback : GraphCallback) :
    completion.op ≠ .on kind callback := by
  cases completion <;> simp [Completion.op]

theorem Moves.place {status : FutureId → Status α} {env next : GraphEnv} {body : GraphBody α}
    {associated : FutureId → Bool} {made : List (FutureId × Op α GraphCallback)}
    {entered : List (GraphBody α)} (moves : Moves status env body next associated made entered)
    {future : FutureId} {kind : CallbackKind} {callback : GraphCallback}
    (member : (future, .on kind callback) ∈ made) : Place next future kind callback := by
  cases moves with
  | @call frame other op runs shared =>
      simp only [List.mem_singleton, Prod.mk.injEq] at member
      cases op <;> simp_all [Op.foreign, Op.shared, Place]
  | derive =>
      simp only [derivations, List.mem_cons, Prod.mk.injEq, Op.on.injEq, List.not_mem_nil,
        or_false] at member
      obtain ⟨rfl, rfl, rfl⟩ | ⟨rfl, rfl, rfl⟩ | ⟨rfl, rfl, rfl⟩ := member
      · exact ⟨rfl, _, Function.update_self _ _ _⟩
      · exact ⟨rfl, _, Function.update_self _ _ _⟩
      · exact rfl
  | associate =>
      cases List.mem_append.mp member with
      | inr released => exact absurd released not_mem_released
      | inl member =>
          simp only [associations, List.mem_cons, Prod.mk.injEq, Op.on.injEq, List.not_mem_nil,
            or_false] at member
          obtain ⟨rfl, rfl, rfl⟩ | ⟨rfl, rfl, rfl⟩ | ⟨rfl, rfl, rfl⟩ | ⟨rfl, rfl, rfl⟩ |
            ⟨rfl, rfl, rfl⟩ := member
          · exact rfl
          all_goals exact ⟨rfl, Function.update_self _ _ _⟩
  | unrun | promised | refuse => exact absurd member not_mem_released
  | settle | forward =>
      simp only [List.mem_singleton, Prod.mk.injEq] at member
      exact absurd member.2.symm (op_ne_on _ kind callback)
  | _ => simp at member

theorem Placed.step (placed : Placed before) (kept : Kept before)
    (step : before.Step frame after) : Placed after := by
  have progress := step_progress kept step
  obtain rfl | ⟨future, op, -, entered⟩ | ⟨future, kind, registration, ran⟩ |
    ⟨body, rest, made, opened, -, executed⟩ := step_cases step
  · exact placed
  · have calls : ∀ other kind callback, (other, .on kind callback) ∈ before.calls →
        Place after.env other kind callback := by
      intro other kind callback member
      exact (placed.calls other kind callback member).progress kept progress
    constructor
    · obtain ⟨ticket, filed⟩ := entered.filed
      rw [filed]
      intro entry member
      cases op with
      | on kind callback =>
          cases List.mem_cons.mp member with
          | inl same =>
              subst same
              exact calls future kind callback (by rw [entered.calls]; simp)
          | inr earlier => exact (placed.registered entry earlier).progress kept progress
      | _ => exact (placed.registered entry member).progress kept progress
    · intro other kind callback member
      apply calls other kind callback
      rw [entered.calls]
      exact Multiset.mem_cons_of_mem member
  · constructor
    · rw [ran.registered, ran.env]
      exact placed.registered
    · rw [ran.calls, ran.env]
      exact placed.calls
  · constructor
    · rw [executed.registered]
      intro entry member
      exact (placed.registered entry member).progress kept progress
    · rw [executed.calls]
      intro other kind callback member
      cases Multiset.mem_add.mp member with
      | inl new => exact executed.moves.place new
      | inr earlier => exact (placed.calls other kind callback earlier).progress kept progress

end Placed

/-- A callback is registered or about to be. -/
def Subscribed (snapshot : GraphSnapshot α) (future : FutureId) (kind : CallbackKind)
    (callback : GraphCallback) : Prop :=
  (future, .on kind callback) ∈ snapshot.calls ∨
    ∃ ticket, (future, kind, ⟨ticket, callback⟩) ∈ snapshot.registered

/-- Every callback of a derived or associated future is registered or about to be. -/
structure Wired (snapshot : GraphSnapshot α) : Prop where
  target : ∀ future target, snapshot.env.target future = some target →
    ∀ other kind callback, (other, .on kind callback) ∈
      (associations future target : List (FutureId × Op α GraphCallback)) →
    Subscribed snapshot other kind callback
  parent : ∀ derived combinator parent, snapshot.env.parent derived = some (combinator, parent) →
    ∀ other kind callback, (other, .on kind callback) ∈
      (derivations parent derived : List (FutureId × Op α GraphCallback)) →
    Subscribed snapshot other kind callback

section Wired

variable {before after : GraphSnapshot α} {frame : (graph α).Frame}

theorem Subscribed.step {future : FutureId} {kind : CallbackKind} {callback : GraphCallback}
    (subscribed : Subscribed before future kind callback) (step : before.Step frame after) :
    Subscribed after future kind callback := by
  obtain rfl | ⟨called, op, -, entered⟩ | ⟨called, other, registration, ran⟩ |
    ⟨body, rest, made, opened, -, executed⟩ := step_cases step
  · exact subscribed
  · obtain ⟨ticket, filed⟩ := entered.filed
    rw [Subscribed, filed]
    obtain waits | ⟨earlier, member⟩ := subscribed
    · cases entered.remains waits with
      | inr remains => exact .inl remains
      | inl now =>
          obtain ⟨rfl, rfl⟩ := now
          exact .inr ⟨ticket, List.mem_cons_self⟩
    · right
      refine ⟨earlier, ?_⟩
      cases op with
      | on => exact List.mem_cons_of_mem _ member
      | _ => exact member
  · rw [Subscribed, ran.calls, ran.registered]
    exact subscribed
  · rw [Subscribed, executed.calls, executed.registered]
    cases subscribed with
    | inl waits => exact .inl (Multiset.mem_add.mpr (.inr waits))
    | inr filed => exact .inr filed

theorem Wired.step (wired : Wired before) (step : before.Step frame after) : Wired after := by
  have kept : after.env = before.env → Wired after := by
    intro env
    constructor
    · rw [env]
      intro future target found other kind callback member
      exact (wired.target future target found other kind callback member).step step
    · rw [env]
      intro derived combinator parent found other kind callback member
      exact (wired.parent derived combinator parent found other kind callback member).step step
  obtain rfl | ⟨called, op, -, entered⟩ | ⟨called, other, registration, ran⟩ |
    ⟨body, rest, made, opened, -, executed⟩ := step_cases step
  · exact wired
  · exact kept entered.env
  · exact kept ran.env
  · constructor
    · intro future target found other kind callback member
      obtain ⟨same, -⟩ | ⟨associated, _, -, -, -, -, targets, -, calls⟩ := executed.moves.target
      · rw [same] at found
        exact (wired.target future target found other kind callback member).step step
      · rw [targets] at found
        by_cases here : future = associated
        · subst here
          rw [Function.update_self] at found
          cases found
          left
          rw [executed.calls, calls]
          exact Multiset.mem_add.mpr (.inl (List.mem_append_left _ member))
        · rw [Function.update_of_ne here] at found
          exact (wired.target future target found other kind callback member).step step
    · intro derived combinator parent found other kind callback member
      obtain same | ⟨_, source, future, -, -, parents, calls⟩ := executed.moves.parent
      · rw [same] at found
        exact (wired.parent derived combinator parent found other kind callback member).step step
      · rw [parents] at found
        by_cases here : derived = future
        · subst here
          rw [Function.update_self] at found
          cases found
          left
          rw [executed.calls, calls]
          exact Multiset.mem_add.mpr (.inl member)
        · rw [Function.update_of_ne here] at found
          exact (wired.parent derived combinator parent found other kind callback member).step step

end Wired

end Graph

end Libprocess
