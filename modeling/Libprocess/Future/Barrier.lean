import Libprocess.Future.Undiscardable

/-!
# What `undiscardable` lets through

The future that `undiscardable` returns is completed as its source is, and a discard of it never
reaches a source that is pending.  It is associated with a source that is completed, though, so the
abandonment of a pending source never reaches it.
-/

namespace Libprocess

variable {α : Type}

open Snapshot (Entered Ran)

namespace Shield

/-- Who a callback was registered for exists. -/
def Owned (env : ShieldEnv) : ShieldCallback → Prop
  | .user => True
  | .discard future => env.made future = true
  | .associate result | .set result | .fail result | .discarded result | .abandon result =>
      (env.source result).isSome

/-- Who a frame belongs to exists. -/
def Runs (env : ShieldEnv) : ShieldBody α → Prop
  | .user => True
  | .associate result => (env.source result).isSome
  | .bound callback _ => Owned env callback

/-- A call refers to a future that was made, and registers a callback that belongs to someone. -/
structure Refers (env : ShieldEnv) (call : FutureId × Op α ShieldCallback) : Prop where
  made : env.made call.1 = true
  owned : ∀ kind callback, call.2 = .on kind callback → Owned env callback

/-- The order of the environments of a run. -/
structure Grows (env next : ShieldEnv) : Prop where
  made : ∀ future, env.made future = true → next.made future = true
  source : ∀ result source, env.source result = some source → next.source result = some source
  chains : ∀ chain ∈ env.chains, chain ∈ next.chains
  requested : ∀ future, env.requested future = true → next.requested future = true

namespace Grows

variable {env next : ShieldEnv}

theorem refl (env : ShieldEnv) : Grows env env :=
  ⟨fun _ => id, fun _ _ => id, fun _ => id, fun _ => id⟩

theorem isSource (grows : Grows env next) {result : FutureId}
    (known : (env.source result).isSome) : (next.source result).isSome := by
  obtain ⟨source, found⟩ := Option.isSome_iff_exists.mp known
  rw [grows.source result source found]
  rfl

theorem owned (grows : Grows env next) {callback : ShieldCallback} (owned : Owned env callback) :
    Owned next callback := by
  cases callback with
  | user => exact True.intro
  | discard future => exact grows.made future owned
  | associate | set | fail | discarded | abandon => exact grows.isSource owned

theorem runs (grows : Grows env next) {body : ShieldBody α} (runs : Runs env body) :
    Runs next body := by
  cases body with
  | user => exact True.intro
  | associate result => exact grows.isSource runs
  | bound callback argument => exact grows.owned runs

theorem refers (grows : Grows env next) {call : FutureId × Op α ShieldCallback}
    (refers : Refers env call) : Refers next call :=
  ⟨grows.made call.1 refers.made,
    fun kind callback same => grows.owned (refers.owned kind callback same)⟩

end Grows

/-- Every future that is referred to was made, and everything has an owner. -/
structure Kept (snapshot : ShieldSnapshot α) : Prop where
  source : ∀ result source, snapshot.env.source result = some source →
    snapshot.env.made result = true ∧ snapshot.env.made source = true
  calls : ∀ call ∈ snapshot.calls, Refers snapshot.env call
  registered : ∀ entry ∈ snapshot.registered, Owned snapshot.env entry.2.2.callback
  bodies : ∀ body ∈ snapshot.bodies, Runs snapshot.env body
  unmade : ∀ future, snapshot.env.made future = false →
    (snapshot.status future).state = .pending ∧ (snapshot.status future).associated = false

section Kept

variable {before after : ShieldSnapshot α} {status : FutureId → Status α} {env next : ShieldEnv}
  {body : ShieldBody α} {rest : Multiset (ShieldBody α)} {marked : Option FutureId}
  {made : Calls α} {entered : List (ShieldBody α)} {result source : FutureId}

theorem fresh_iff {future : FutureId} : fresh status env future = true ↔
    env.made future = false ∧ (status future).abandoned = false := by
  simp [fresh]

theorem grows_make (future : FutureId) : Grows env (env.make future) := by
  constructor
  · intro other known
    by_cases same : other = future
    · subst same
      exact Function.update_self _ _ _
    · exact (Function.update_of_ne same _ _).trans known
  · exact fun _ _ => id
  · exact fun _ => id
  · exact fun _ => id

theorem grows_record (future : FutureId) (op : Op α Unit) : Grows env (env.record future op) := by
  cases op with
  | discard =>
      refine ⟨fun _ => id, fun _ _ => id, fun _ => id, ?_⟩
      intro other known
      by_cases same : other = future
      · subst same
        exact Function.update_self _ _ _
      · exact (Function.update_of_ne same _ _).trans known
  | set | fail | discarded | abandon | on => exact .refl env

theorem grows_shield (unknown : env.source result = none) : Grows env (env.shield source result) := by
  have grows : Grows env (env.make result) := grows_make result
  refine ⟨grows.made, ?_, fun _ => id, fun _ => id⟩
  intro other parent known
  by_cases same : other = result
  · subst same
    rw [unknown] at known
    cases known
  · exact (Function.update_of_ne same _ _).trans known

theorem Kept.not_source (kept : Kept before) (unmade : before.env.made result = false) :
    before.env.source result = none := by
  cases known : before.env.source result with
  | none => rfl
  | some source =>
      rw [(kept.source result source known).1] at unmade
      cases unmade

theorem Kept.grows (kept : Kept before)
    (moves : Moves before.status before.env body next marked made entered) :
    Grows before.env next := by
  cases moves with
  | promise => exact grows_make _
  | call => exact grows_record _ _
  | undiscardable _ unmade => exact grows_shield (kept.not_source (fresh_iff.mp unmade).1)
  | chain =>
      exact ⟨fun _ => id, fun _ _ => id, fun chain member => List.mem_cons_of_mem _ member,
        fun _ => id⟩
  | finish | associate | refuse | bound => exact .refl _

theorem refers_associations (madeResult : env.made result = true) (madeSource : env.made source = true)
    (known : (env.source result).isSome) :
    ∀ call ∈ (associations result source : Calls α), Refers env call := by
  simp only [associations, List.mem_cons, List.not_mem_nil, or_false]
  rintro call (rfl | rfl | rfl | rfl | rfl)
  · refine ⟨madeResult, ?_⟩
    rintro _ _ ⟨⟩
    exact madeSource
  all_goals
    refine ⟨madeSource, ?_⟩
    rintro _ _ ⟨⟩
    exact known

theorem refers_plain {future : FutureId} {op : Op α ShieldCallback} (known : env.made future = true)
    (plain : ∀ kind callback, op ≠ .on kind callback) : Refers env (future, op) :=
  ⟨known, fun kind callback same => absurd same (plain kind callback)⟩

/-- What a bound function calls belongs to whom the function belongs to. -/
theorem refers_bound {callback : ShieldCallback} {argument : Argument α}
    {call : FutureId × Op α ShieldCallback} (kept : Kept before)
    (owned : Owned before.env callback) (called : bound callback argument = some call) :
    Refers before.env call := by
  have made : ∀ result, (before.env.source result).isSome → before.env.made result = true := by
    intro result known
    obtain ⟨source, found⟩ := Option.isSome_iff_exists.mp known
    exact (kept.source result source found).1
  unfold bound at called
  split at called <;> cases called
  · exact refers_plain (made _ owned) (by simp)
  · exact refers_plain (made _ owned) (by simp)
  · exact refers_plain (made _ owned) (by simp)
  · exact refers_plain (made _ owned) (by simp)
  · exact refers_plain owned (by simp)

theorem Moves.refers (kept : Kept before) (runs : Runs before.env body)
    (moves : Moves before.status before.env body next marked made entered) :
    (∀ call ∈ made, Refers next call) ∧ ∀ frame ∈ entered, Runs next frame := by
  cases moves with
  | promise => exact ⟨by simp, by simp [Runs]⟩
  | @call future op known =>
      refine ⟨?_, by simp [Runs]⟩
      intro call member
      rw [List.mem_singleton.mp member]
      refine ⟨(grows_record future op).made future known, ?_⟩
      rintro kind callback same
      cases op <;> simp only [Op.foreign, Op.on.injEq, reduceCtorEq] at same
      rw [← same.2]
      exact True.intro
  | @undiscardable source result known unmade =>
      refine ⟨?_, by simp [Runs]⟩
      intro call member
      rw [List.mem_singleton.mp member]
      refine ⟨(grows_make result).made source known, ?_⟩
      rintro _ _ ⟨⟩
      simp [Owned, ShieldEnv.shield]
  | @chain parent derived known knownDerived =>
      refine ⟨?_, by simp [Runs]⟩
      intro call member
      rw [List.mem_singleton.mp member]
      refine ⟨knownDerived, ?_⟩
      rintro _ _ ⟨⟩
      exact known
  | finish => exact ⟨by simp, by simp⟩
  | @associate result source found =>
      obtain ⟨madeResult, madeSource⟩ := kept.source result source found
      refine ⟨?_, by simp⟩
      intro call member
      cases List.mem_append.mp member with
      | inl registers =>
          exact refers_associations madeResult madeSource (by simp [found]) call registers
      | inr destroys =>
          rw [List.mem_singleton.mp destroys]
          exact refers_plain madeResult (by simp)
  | @refuse result source found =>
      refine ⟨?_, by simp⟩
      intro call member
      rw [List.mem_singleton.mp member]
      exact refers_plain (kept.source result source found).1 (by simp)
  | bound called =>
      refine ⟨?_, by simp⟩
      intro call member
      rw [List.mem_singleton.mp member]
      exact refers_bound kept runs called

theorem Moves.sources (kept : Kept before)
    (moves : Moves before.status before.env body next marked made entered) {result source : FutureId}
    (found : next.source result = some source) :
    next.made result = true ∧ next.made source = true := by
  have grows := kept.grows moves
  have old : before.env.source result = some source →
      next.made result = true ∧ next.made source = true := by
    intro known
    obtain ⟨madeResult, madeSource⟩ := kept.source result source known
    exact ⟨grows.made result madeResult, grows.made source madeSource⟩
  cases moves with
  | @undiscardable parent derived known unmade =>
      by_cases same : result = derived
      · subst same
        simp only [ShieldEnv.shield, Function.update_self, Option.some.injEq] at found
        subst found
        exact ⟨Function.update_self _ _ _, grows.made parent known⟩
      · exact old ((Function.update_of_ne same _ _).symm.trans found)
  | @call future op =>
      apply old
      cases op <;> exact found
  | _ => exact old found

theorem Kept.of_entered {future : FutureId} {op : Op α ShieldCallback} (kept : Kept before)
    (entered : Entered before after future op) : Kept after := by
  have env := entered.env
  have called : Refers before.env (future, op) := by
    apply kept.calls
    rw [entered.calls]
    exact Multiset.mem_cons_self _ _
  constructor
  · rw [env]
    exact kept.source
  · rw [env]
    intro call member
    apply kept.calls
    rw [entered.calls]
    exact Multiset.mem_cons_of_mem member
  · rw [env]
    obtain ⟨ticket, filed⟩ := entered.filed
    rw [filed]
    intro entry member
    cases op with
    | on kind callback =>
        cases List.mem_cons.mp member with
        | inl new =>
            rw [new]
            exact called.owned kind callback rfl
        | inr old => exact kept.registered entry old
    | set | fail | discarded | discard | abandon => exact kept.registered entry member
  · rw [env, entered.bodies]
    exact kept.bodies
  · rw [env]
    intro other unmade
    have different : other ≠ future := by
      rintro rfl
      rw [called.made] at unmade
      cases unmade
    rw [entered.status, Function.update_of_ne different]
    exact kept.unmade other unmade

theorem Kept.of_ran {future : FutureId} {kind : CallbackKind}
    {registration : Registration ShieldCallback} (kept : Kept before)
    (ran : Ran before after future kind registration) : Kept after := by
  have env := ran.env
  constructor
  · rw [env]
    exact kept.source
  · rw [env, ran.calls]
    exact kept.calls
  · rw [env, ran.registered]
    exact kept.registered
  · rw [env, ran.bodies]
    intro body member
    cases Multiset.mem_cons.mp member with
    | inl new =>
        have owned := kept.registered _ ran.filed
        rw [new]
        cases callback : registration.callback <;> rw [callback] at owned <;> exact owned
    | inr old => exact kept.bodies body old
  · rw [env, ran.status]
    exact kept.unmade

theorem Kept.of_executed (kept : Kept before)
    (executed : Executed before after body rest marked made entered) : Kept after := by
  have moves := executed.moves
  have grows := kept.grows moves
  have runs : Runs before.env body := by
    apply kept.bodies
    rw [executed.running]
    exact Multiset.mem_cons_self _ _
  obtain ⟨refers, enters⟩ := moves.refers kept runs
  constructor
  · exact fun result source found => moves.sources kept found
  · rw [executed.calls]
    intro call member
    cases Multiset.mem_add.mp member with
    | inl new => exact refers call (Multiset.mem_coe.mp new)
    | inr old => exact grows.refers (kept.calls call old)
  · rw [executed.registered]
    exact fun entry member => grows.owned (kept.registered entry member)
  · rw [executed.bodies]
    intro frame member
    cases Multiset.mem_add.mp member with
    | inl new => exact enters frame (Multiset.mem_coe.mp new)
    | inr old =>
        apply grows.runs
        apply kept.bodies
        rw [executed.running]
        exact Multiset.mem_cons_of_mem old
  · intro future unmade
    have still : before.env.made future = false := by
      by_contra known
      rw [grows.made future (by simpa using known)] at unmade
      cases unmade
    rw [executed.status]
    generalize after.env = next at moves
    cases moves with
    | @associate result source found =>
        have different : future ≠ result := by
          rintro rfl
          rw [(kept.source _ source found).1] at still
          cases still
        simp only [mark, Function.update_of_ne different]
        exact kept.unmade future still
    | _ => exact kept.unmade future still

end Kept

section Names

variable (result : FutureId)

/-- The bound functions of the association of a future, and what each is registered for. -/
def copying : ShieldCallback → Option CallbackKind
  | .set other => if other = result then some .onReady else none
  | .fail other => if other = result then some .onFailed else none
  | .discarded other => if other = result then some .onDiscarded else none
  | .abandon other => if other = result then some .onAbandoned else none
  | .user | .associate _ | .discard _ => none

/-- The callback was registered for the future. -/
def serves : ShieldCallback → Bool
  | .associate other => other = result
  | callback => (copying result callback).isSome

/-- The frame runs such a callback. -/
def about : ShieldBody α → Bool
  | .user => false
  | .associate other => other = result
  | .bound callback _ => (copying result callback).isSome

/-- The call needs the promise, or registers such a callback. -/
def touches (call : FutureId × Op α ShieldCallback) : Bool :=
  match call.2 with
  | .set _ | .fail _ | .discarded | .abandon _ => call.1 = result
  | .discard => false
  | .on _ callback => serves result callback

end Names

/-- What is known of a future that `undiscardable` has returned. -/
structure Shielded (snapshot : ShieldSnapshot α) (result source : FutureId) : Prop where
  waits : ∀ kind, snapshot.subscribed kind (.associate result) =
    if kind = .onAny then {source} else 0
  copies : ∀ callback expected, copying result callback = some expected → ∀ kind,
    snapshot.subscribed kind callback =
      if kind = expected ∧ (snapshot.status result).associated = true then {source} else 0
  associated : (snapshot.status result).associated = true →
    (snapshot.status source).state ≠ .pending
  running : .associate result ∈ snapshot.bodies → (snapshot.status source).state ≠ .pending
  bound : ∀ callback argument, .bound callback argument ∈ snapshot.bodies → ∀ kind,
    copying result callback = some kind →
      (snapshot.status source).state ≠ .pending ∧ (snapshot.status source).fires kind = true ∧
        argument = Libprocess.argument source kind (snapshot.status source).result
  completes : ∀ op, (result, op) ∈ snapshot.calls → op.completes = true →
    (snapshot.status source).Settles op
  abandons : ∀ propagating, (result, .abandon propagating) ∈ snapshot.calls →
    (snapshot.status source).state ≠ .pending
  settled : (snapshot.status result).state ≠ .pending →
    (snapshot.status result).state = (snapshot.status source).state ∧
      (snapshot.status result).result = (snapshot.status source).result
  abandoned : (snapshot.status result).abandoned = true →
    (snapshot.status source).state ≠ .pending
  ran : snapshot.notified .onAny (.associate result) ≠ 0 → .associate result ∈ snapshot.bodies ∨
    (snapshot.status result).associated = true ∨ (snapshot.status result).state ≠ .pending
  copied : ∀ callback kind, copying result callback = some kind → kind ≠ .onAbandoned →
    snapshot.notified kind callback ≠ 0 →
      (∃ argument, .bound callback argument ∈ snapshot.bodies) ∨
        (∃ op, (result, op) ∈ snapshot.calls ∧ op.completes = true) ∨
          (snapshot.status result).state ≠ .pending

section Shielded

variable {before after : ShieldSnapshot α} {result source future : FutureId}
  {body : ShieldBody α} {rest : Multiset (ShieldBody α)} {marked : Option FutureId}
  {made : Calls α} {entered : List (ShieldBody α)}

theorem serves_of_copying {callback : ShieldCallback} {kind : CallbackKind}
    (copies : copying result callback = some kind) : serves result callback = true := by
  cases callback <;> simp_all [serves, copying]

theorem copying_tracked {callback : ShieldCallback} {kind : CallbackKind}
    (copies : copying result callback = some kind) : kind ≠ .onDiscard := by
  rintro rfl
  cases callback <;> simp [copying] at copies

/-- The event of a completed future stays past. -/
theorem fires_later {status next : Status α} (later : status.Later next) {kind : CallbackKind}
    (tracked : kind ≠ .onDiscard) (completed : status.state ≠ .pending)
    (fires : status.fires kind = true) : next.fires kind = true := by
  obtain ⟨state, -, abandoned⟩ := later.completed completed
  cases kind with
  | onDiscard => exact absurd rfl tracked
  | onAbandoned => simpa only [Status.fires, abandoned] using fires
  | onReady | onFailed | onDiscarded | onAny => simpa only [Status.fires, state] using fires

theorem Shielded.of_entered {op : Op α ShieldCallback} (shielded : Shielded before result source)
    (later : after.Sound) (entered : Entered before after future op) :
    Shielded after result source := by
  have called : (future, op) ∈ before.calls := by
    rw [entered.calls]
    exact Multiset.mem_cons_self _ _
  have earlier : ∀ call ∈ after.calls, call ∈ before.calls := by
    intro call member
    rw [entered.calls]
    exact Multiset.mem_cons_of_mem member
  have keeps := entered.later source
  constructor
  · intro kind
    rw [entered.subscribed]
    exact shielded.waits kind
  · intro callback expected copies kind
    rw [entered.subscribed, entered.associated]
    exact shielded.copies callback expected copies kind
  · rw [entered.associated]
    exact fun associated => entered.keeps (shielded.associated associated)
  · rw [entered.bodies]
    exact fun running => entered.keeps (shielded.running running)
  · rw [entered.bodies]
    intro callback argument member kind copies
    obtain ⟨completed, fires, same⟩ := shielded.bound callback argument member kind copies
    obtain ⟨-, value, -⟩ := keeps.completed completed
    rw [value]
    exact ⟨entered.keeps completed, fires_later keeps (copying_tracked copies) completed fires, same⟩
  · intro op member completes
    exact (shielded.completes op (earlier _ member) completes).later keeps
  · intro propagating member
    exact entered.keeps (shielded.abandons propagating (earlier _ member))
  · intro completed
    by_cases pending : (before.status result).state = .pending
    · obtain ⟨rfl, completes, settles, -⟩ := entered.completes pending completed
      have source := (shielded.completes op called completes).later keeps
      exact settles.agree source (later.result _) (later.result _)
    · obtain ⟨state, value⟩ := shielded.settled pending
      have completedSource : (before.status source).state ≠ .pending := state ▸ pending
      obtain ⟨stateSource, valueSource, -⟩ := keeps.completed completedSource
      obtain ⟨stateResult, valueResult, -⟩ := (entered.later result).completed pending
      exact ⟨stateResult.trans (state.trans stateSource.symm),
        valueResult.trans (value.trans valueSource.symm)⟩
  · intro abandoned
    by_cases already : (before.status result).abandoned = true
    · exact entered.keeps (shielded.abandoned already)
    · obtain ⟨rfl, propagating, rfl, -⟩ := entered.abandons already abandoned
      exact entered.keeps (shielded.abandons propagating called)
  · rw [entered.bodies, Snapshot.notified_congr entered.log, entered.associated]
    intro some
    obtain running | associated | completed := shielded.ran some
    · exact .inl running
    · exact .inr (.inl associated)
    · exact .inr (.inr (entered.keeps completed))
  · rw [entered.bodies]
    intro callback kind copies tracked
    rw [Snapshot.notified_congr entered.log]
    intro some
    obtain bound | ⟨other, waits, completes⟩ | completed :=
      shielded.copied callback kind copies tracked some
    · exact .inl bound
    · obtain ⟨rfl, rfl⟩ | waits := entered.remains waits
      · exact .inr (.inr (entered.completed completes))
      · exact .inr (.inl ⟨other, waits, completes⟩)
    · exact .inr (.inr (entered.keeps completed))

theorem invoke_bound {argument : Argument α} {callback : ShieldCallback} {kind : CallbackKind}
    (copies : copying result callback = some kind) :
    invoke future argument callback = .bound callback argument := by
  cases callback <;> first | rfl | simp [copying] at copies

theorem Shielded.of_ran {kind : CallbackKind} {registration : Registration ShieldCallback}
    (shielded : Shielded before result source)
    (ran : Ran before after future kind registration) : Shielded after result source := by
  have fires := ran.fires fun _ => disciplined future
  have member := Snapshot.mem_subscribed ran.filed
  constructor
  · intro kind
    rw [ran.subscribed]
    exact shielded.waits kind
  · intro callback expected copies kind
    rw [ran.subscribed, ran.status]
    exact shielded.copies callback expected copies kind
  · rw [ran.status]
    exact shielded.associated
  · rw [ran.bodies, ran.status]
    intro running
    cases Multiset.mem_cons.mp running with
    | inl new =>
        have own : registration.callback = .associate result := by
          cases callback : registration.callback <;> rw [callback] at new <;> cases new
          rfl
        rw [own, shielded.waits] at member
        split at member
        · rename_i any
          rw [Multiset.mem_singleton.mp member, any] at fires
          exact of_decide_eq_true fires
        · cases Multiset.notMem_zero _ member
    | inr old => exact shielded.running old
  · rw [ran.bodies, ran.status]
    intro callback argument running other copies
    cases Multiset.mem_cons.mp running with
    | inl new =>
        have own : registration.callback = callback := by
          cases called : registration.callback <;> rw [called] at new <;> cases new <;> rfl
        rw [own, shielded.copies callback other copies] at member
        split at member
        · rename_i same
          obtain ⟨rfl, associated⟩ := same
          rw [own] at new
          rw [Multiset.mem_singleton.mp member] at fires new
          have invoked : invoke source (Libprocess.argument source kind
              (before.status source).result) callback = .bound callback
              (Libprocess.argument source kind (before.status source).result) :=
            invoke_bound copies
          rw [show (shields α).invoke = invoke from rfl, invoked, ShieldBody.bound.injEq] at new
          exact ⟨shielded.associated associated, fires, new.2⟩
        · cases Multiset.notMem_zero _ member
    | inr old => exact shielded.bound callback argument old other copies
  · rw [ran.calls, ran.status]
    exact shielded.completes
  · rw [ran.calls, ran.status]
    exact shielded.abandons
  · rw [ran.status]
    exact shielded.settled
  · rw [ran.status]
    exact shielded.abandoned
  · rw [ran.notified, ran.bodies, ran.status]
    intro some
    by_cases own : kind = .onAny ∧ registration.callback = .associate result
    · refine .inl (Multiset.mem_cons.mpr (.inl ?_))
      rw [own.2]
      rfl
    · rw [if_neg own] at some
      obtain running | rest := shielded.ran some
      · exact .inl (Multiset.mem_cons_of_mem running)
      · exact .inr rest
  · rw [ran.bodies, ran.calls, ran.status]
    intro callback other copies tracked
    rw [ran.notified]
    intro some
    by_cases own : kind = other ∧ registration.callback = callback
    · refine .inl ⟨Libprocess.argument future kind (before.status future).result, ?_⟩
      rw [own.2, show (shields α).invoke = invoke from rfl, invoke_bound copies]
      exact Multiset.mem_cons_self _ _
    · rw [if_neg own] at some
      obtain ⟨argument, bound⟩ | rest := shielded.copied callback other copies tracked some
      · exact .inl ⟨argument, Multiset.mem_cons_of_mem bound⟩
      · exact .inr rest

end Shielded

/-- What a step of the code does to a future that `undiscardable` has returned. -/
inductive Acts (status : FutureId → Status α) (result source : FutureId) :
    ShieldBody α → Option FutureId → Calls α → List (ShieldBody α) → Prop
  | associate : (status result).state = .pending → (status result).associated = false →
      Acts status result source (.associate result) (some result)
        (associations result source ++ [(result, .abandon false)]) []
  | refuse : (status result).state ≠ .pending ∨ (status result).associated = true →
      Acts status result source (.associate result) none [(result, .abandon false)] []
  | bound {callback : ShieldCallback} {argument : Argument α} {kind : CallbackKind}
      {call : FutureId × Op α ShieldCallback} : copying result callback = some kind →
      Shield.bound callback argument = some call →
      Acts status result source (.bound callback argument) none [call] []
  | apart {body : ShieldBody α} {marked : Option FutureId} {made : Calls α}
      {entered : List (ShieldBody α)} : about result body = false →
      (∀ frame ∈ entered, about result frame = false) →
      (∀ call ∈ made, touches result call = false) → marked ≠ some result →
      Acts status result source body marked made entered

section Acts

variable {before after : ShieldSnapshot α} {status : FutureId → Status α} {env next : ShieldEnv}
  {result source : FutureId} {body : ShieldBody α} {rest : Multiset (ShieldBody α)}
  {marked : Option FutureId} {made : Calls α} {entered : List (ShieldBody α)}

theorem touches_associations {other : FutureId} (different : other ≠ result) :
    ∀ call ∈ (associations other source ++ [(other, .abandon false)] : Calls α),
      touches result call = false := by
  simp [associations, touches, serves, copying, different]

/-- The call of a bound function is one for its future. -/
theorem touches_bound {callback : ShieldCallback} {argument : Argument α}
    {call : FutureId × Op α ShieldCallback} (outside : copying result callback = none)
    (called : bound callback argument = some call) : touches result call = false := by
  unfold bound at called
  split at called <;> cases called <;> simp_all [touches, copying]

theorem Kept.acts (kept : Kept before) (known : before.env.source result = some source)
    (moves : Moves before.status before.env body next marked made entered) :
    Acts before.status result source body marked made entered := by
  have madeResult := (kept.source result source known).1
  cases moves with
  | promise | finish => exact .apart rfl (by simp [about]) (by simp) (by simp)
  | @call future op _ allowed =>
      refine .apart rfl (by simp [about]) ?_ (by simp)
      intro call member
      rw [List.mem_singleton.mp member]
      by_cases same : future = result
      · subst same
        cases allowed with
        | inl shared => cases op <;> first | rfl | cases shared
        | inr unowned => cases known.symm.trans unowned
      · cases op <;> simp [Op.foreign, touches, serves, copying, same]
  | @undiscardable parent derived _ unmade =>
      have different : derived ≠ result := by
        rintro rfl
        rw [(fresh_iff.mp unmade).1] at madeResult
        cases madeResult
      exact .apart rfl (by simp [about]) (by simp [touches, serves, different]) (by simp)
  | chain => exact .apart rfl (by simp [about]) (by simp [touches, serves, copying]) (by simp)
  | @associate other parent found pending unassociated =>
      by_cases same : other = result
      · subst same
        cases found.symm.trans known
        exact .associate pending unassociated
      · exact .apart (by simp [about, same]) (by simp) (touches_associations same) (by simp [same])
  | @refuse other parent found refused =>
      by_cases same : other = result
      · subst same
        exact .refuse refused
      · exact .apart (by simp [about, same]) (by simp) (by simp [touches, same]) (by simp)
  | @bound callback argument call called =>
      cases copies : copying result callback with
      | some kind => exact .bound copies called
      | none =>
          refine .apart (by simp [about, copies]) (by simp) ?_ (by simp)
          intro other member
          rw [List.mem_singleton.mp member]
          exact touches_bound copies called

section

variable (executed : Executed before after body rest marked made entered)

include executed

theorem Executed.mem_before
    {frame : ShieldBody α} : frame ∈ before.bodies ↔ frame = body ∨ frame ∈ rest := by
  rw [executed.running, Multiset.mem_cons]

theorem Executed.mem_after
    {frame : ShieldBody α} : frame ∈ after.bodies ↔ frame ∈ entered ∨ frame ∈ rest := by
  rw [executed.bodies, Multiset.mem_add, Multiset.mem_coe]

theorem Executed.mem_calls {call : FutureId × Op α ShieldCallback} :
    call ∈ after.calls ↔ call ∈ made ∨ call ∈ before.calls := by
  rw [executed.calls, Multiset.mem_add, Multiset.mem_coe]

/-- A step of the code writes no more than `associated`. -/
theorem Executed.same
    (future : FutureId) : (after.status future).state = (before.status future).state ∧
      (after.status future).result = (before.status future).result ∧
      (after.status future).abandoned = (before.status future).abandoned ∧
      (after.status future).discard = (before.status future).discard := by
  rw [executed.status]
  cases marked with
  | none => exact ⟨rfl, rfl, rfl, rfl⟩
  | some other =>
      by_cases same : future = other
      · subst same
        simp [mark]
      · simp [mark, same]

theorem Executed.associated {future : FutureId} (apart : marked ≠ some future) :
    (after.status future).associated = (before.status future).associated := by
  rw [executed.status]
  cases marked with
  | none => rfl
  | some other =>
      have different : future ≠ other := by
        rintro rfl
        exact apart rfl
      simp [mark, different]

end

theorem subscriptions_of_touches {callback : ShieldCallback} (serving : serves result callback = true)
    (outside : ∀ call ∈ made, touches result call = false) (kind : CallbackKind) :
    Snapshot.subscriptions (shields α) made kind callback = 0 := by
  apply Snapshot.subscriptions_eq_zero
  rintro ⟨future, op⟩ member registered same
  have apart := outside _ member
  simp only at same
  rw [same] at apart
  exact absurd serving (by simpa [touches] using apart)

/-- The call of a bound function of the association is one for the future. -/
theorem call_of_copying {callback : ShieldCallback} {argument : Argument α} {kind : CallbackKind}
    {call : FutureId × Op α ShieldCallback} (copies : copying result callback = some kind)
    (called : bound callback argument = some call) :
    call.1 = result ∧ (kind ≠ .onAbandoned → call.2.completes = true) ∧
      ∀ registered other, call.2 ≠ .on registered other := by
  unfold bound at called
  split at called <;> cases called <;> simp_all [copying, Op.completes]

/-- It stores what the source holds. -/
theorem settles_of_copying {callback : ShieldCallback} {argument : Argument α} {kind : CallbackKind}
    {call : FutureId × Op α ShieldCallback} {status : Status α}
    (copies : copying result callback = some kind) (called : bound callback argument = some call)
    (fires : status.fires kind = true)
    (same : argument = Libprocess.argument source kind status.result)
    (completes : call.2.completes = true) : status.Settles call.2 := by
  unfold bound at called
  split at called <;> cases called <;> simp only [copying, Option.ite_none_right_eq_some,
    Option.some.injEq, reduceCtorEq] at copies
  · rename_i value
    obtain ⟨-, rfl⟩ := copies
    refine ⟨of_decide_eq_true fires, ?_⟩
    cases result : status.result <;> rw [result] at same <;> cases same
    rfl
  · rename_i message
    obtain ⟨-, rfl⟩ := copies
    refine ⟨of_decide_eq_true fires, ?_⟩
    cases result : status.result <;> rw [result] at same <;> cases same
    rfl
  · obtain ⟨-, rfl⟩ := copies
    have discarded : status.state = .discarded := of_decide_eq_true fires
    exact discarded
  · cases completes

theorem subscriptions_associations {callback : ShieldCallback} {expected : CallbackKind}
    (copies : copying result callback = some expected) (kind : CallbackKind) :
    Snapshot.subscriptions (shields α)
        (associations result source ++ [(result, .abandon false)]) kind callback =
      if kind = expected then {source} else 0 := by
  cases callback with
  | user | associate | discard => cases copies
  | set other | fail other | discarded other | abandon other =>
      simp only [copying, Option.ite_none_right_eq_some, Option.some.injEq] at copies
      obtain ⟨rfl, rfl⟩ := copies
      simp only [Snapshot.subscriptions, associations, subscribing, List.cons_append,
        List.nil_append, List.filterMap_cons, List.filterMap_nil, reduceCtorEq, eq_self, and_true,
        and_false, if_false]
      cases kind <;> rfl

/-- A step associates the future, or leaves its registrations alone. -/
theorem Acts.subscriptions (acts : Acts status result source body marked made entered)
    {callback : ShieldCallback} (serving : serves result callback = true)
    (apart : marked = some result → callback = .associate result) (kind : CallbackKind) :
    Snapshot.subscriptions (shields α) made kind callback = 0 := by
  cases acts with
  | associate =>
      rw [apart rfl]
      simp only [Snapshot.subscriptions, associations, subscribing, List.cons_append,
        List.nil_append, List.filterMap_cons, List.filterMap_nil, reduceCtorEq, and_false, if_false]
      rfl
  | refuse => rfl
  | @bound _ _ _ call copies called =>
      obtain ⟨-, -, plain⟩ := call_of_copying copies called
      apply Snapshot.subscriptions_eq_zero
      intro other member
      rw [List.mem_singleton.mp member]
      exact fun registered => plain registered _
  | apart _ _ outside => exact subscriptions_of_touches serving outside kind

theorem Acts.enters (acts : Acts status result source body marked made entered)
    {frame : ShieldBody α} (own : about result frame = true) : frame ∉ entered := by
  intro member
  cases acts with
  | associate | refuse | bound => cases member
  | apart _ enters =>
      rw [enters frame member] at own
      cases own

theorem Shielded.of_executed (shielded : Shielded before result source)
    (executed : Executed before after body rest marked made entered)
    (acts : Acts before.status result source body marked made entered) :
    Shielded after result source := by
  have same := executed.same
  have stays : ∀ frame ∈ after.bodies, about result frame = true → frame ∈ before.bodies := by
    intro frame member own
    cases executed.mem_after.mp member with
    | inl enters => exact absurd enters (acts.enters own)
    | inr old => exact executed.mem_before.mpr (.inr old)
  have runs : body ∈ before.bodies := executed.mem_before.mpr (.inl rfl)
  constructor
  · intro kind
    rw [Snapshot.subscribed_add executed.calls executed.registered,
      acts.subscriptions (by simp [serves]) (fun _ => rfl), Multiset.zero_add]
    exact shielded.waits kind
  · intro callback expected copies kind
    have before := shielded.copies callback expected copies kind
    rw [Snapshot.subscribed_add executed.calls executed.registered, before]
    by_cases marks : marked = some result
    · cases acts with
      | associate _ unassociated =>
          rw [subscriptions_associations copies, executed.status]
          simp [mark, unassociated]
      | refuse | bound => cases marks
      | apart _ _ _ apart => exact absurd marks apart
    · rw [acts.subscriptions (serves_of_copying copies) (fun marks' => absurd marks' marks),
        Multiset.zero_add, executed.associated marks]
  · intro associated
    rw [(same source).1]
    by_cases marks : marked = some result
    · cases acts with
      | associate => exact shielded.running runs
      | refuse | bound => cases marks
      | apart _ _ _ apart => exact absurd marks apart
    · rw [executed.associated marks] at associated
      exact shielded.associated associated
  · intro running
    rw [(same source).1]
    exact shielded.running (stays _ running (by simp [about]))
  · intro callback argument member kind copies
    obtain ⟨completed, fires, value⟩ :=
      shielded.bound callback argument (stays _ member (by simp [about, copies])) kind copies
    rw [(same source).1, (same source).2.1]
    refine ⟨completed, ?_, value⟩
    cases kind with
    | onDiscard => exact absurd rfl (copying_tracked copies)
    | onAbandoned => simpa only [Status.fires, (same source).2.2.1] using fires
    | onReady | onFailed | onDiscarded | onAny =>
        simpa only [Status.fires, (same source).1] using fires
  · intro op member completes
    have settles : (before.status source).Settles op := by
      cases executed.mem_calls.mp member with
      | inr old => exact shielded.completes op old completes
      | inl new =>
          cases acts with
          | associate | refuse => cases op <;> simp_all [associations, Op.completes]
          | @bound callback argument kind call copies called =>
              have own := List.mem_singleton.mp new
              obtain ⟨-, fires, value⟩ := shielded.bound callback argument runs kind copies
              rw [← own] at called
              exact settles_of_copying copies called fires value completes
          | apart _ _ outside =>
              have apart := outside _ new
              cases op <;> simp_all [touches, Op.completes]
    cases op <;> simp_all [Status.Settles]
  · intro propagating member
    rw [(same source).1]
    cases executed.mem_calls.mp member with
    | inr old => exact shielded.abandons propagating old
    | inl new =>
        cases acts with
        | associate | refuse => exact shielded.running runs
        | @bound callback argument kind call copies =>
            exact (shielded.bound callback argument runs kind copies).1
        | apart _ _ outside =>
            have apart := outside _ new
            simp [touches] at apart
  · rw [(same result).1, (same result).2.1, (same source).1, (same source).2.1]
    exact shielded.settled
  · rw [(same result).2.2.1, (same source).1]
    exact shielded.abandoned
  · rw [Snapshot.notified_congr executed.log, (same result).1]
    intro seen
    by_cases marks : marked = some result
    · refine .inr (.inl ?_)
      rw [executed.status, marks]
      simp [mark]
    · rw [executed.associated marks]
      obtain running | rest := shielded.ran seen
      · obtain rfl | old := executed.mem_before.mp running
        · cases acts with
          | associate => exact absurd rfl marks
          | refuse refused => exact .inr refused.symm
          | apart outside => simp [about] at outside
        · exact .inl (executed.mem_after.mpr (.inr old))
      · exact .inr rest
  · intro callback kind copies tracked
    rw [Snapshot.notified_congr executed.log, (same result).1]
    intro some
    obtain ⟨argument, bound⟩ | ⟨op, waits, completes⟩ | completed :=
      shielded.copied callback kind copies tracked some
    · obtain rfl | old := executed.mem_before.mp bound
      · cases acts with
        | @bound _ _ _ call _ called =>
            obtain ⟨own, completes, -⟩ := call_of_copying copies called
            refine .inr (.inl ⟨call.2, ?_, completes tracked⟩)
            rw [← own]
            exact executed.mem_calls.mpr (.inl List.mem_cons_self)
        | apart outside => simp [about, copies] at outside
      · exact .inl ⟨argument, executed.mem_after.mpr (.inr old)⟩
    · exact .inr (.inl ⟨op, executed.mem_calls.mpr (.inr waits), completes⟩)
    · exact .inr (.inr completed)

end Acts

end Shield

end Libprocess
