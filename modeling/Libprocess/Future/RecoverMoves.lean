import Libprocess.Future.Recover

/-!
# The steps of recover

One relation lists everything a step of `recover`, of `Promise::set` and of the code
around them can do.  The lemmas say where calls and frames come from, so that the
invariants need no case analysis of the code.
-/

namespace Libprocess

variable {α : Type} {source recovered : FutureId}

namespace RecoverBody

/-- The `onAny` lambda before it looks at its future. -/
def entry : RecoverBody α → Bool
  | .onAny => true
  | _ => false

/-- On the way to the callable. -/
def committed : RecoverBody α → Bool
  | .reset | .call => true
  | _ => false

/-- Inside the callable. -/
def running : RecoverBody α → Bool
  | .callable => true
  | _ => false

end RecoverBody

/-- The call registers this callback. -/
def Op.registers (kind : CallbackKind) (callback : RecoverCallback) :
    Op α RecoverCallback → Bool
  | .on other registered => other = kind ∧ registered = callback
  | _ => false

/-- The call makes its future ready. -/
def Op.readies : Op α RecoverCallback → Bool
  | .set _ => true
  | _ => false

/-- The source ended in a state that the callable recovers from. -/
def Status.recovers (status : Status α) : Bool :=
  status.state = .failed ∨ status.state = .discarded
namespace Recover

/-- Where each callback may be registered. -/
def Place (source : FutureId) (target : Option FutureId) (future : FutureId)
    (kind : CallbackKind) : RecoverCallback → Prop
  | .other => True
  | .onAny => future = source ∧ kind = .onAny
  | .onAbandoned => future = source ∧ kind = .onAbandoned
  | .discard _ => kind = .onDiscard
  | .set => target = some future ∧ kind = .onReady
  | .fail => target = some future ∧ kind = .onFailed
  | .discarded => target = some future ∧ kind = .onDiscarded
  | .abandon => target = some future ∧ kind = .onAbandoned
/-- The callback that copies one kind of completion to the recovered future. -/
def mirror : CallbackKind → Option RecoverCallback
  | .onReady => some .set
  | .onFailed => some .fail
  | .onDiscarded => some .discarded
  | _ => none
/-- What a step of one frame does: the new environment, the `associated` flag of the
recovered future, and the calls and frames it turns into. -/
inductive Moves (source recovered : FutureId) (status : FutureId → Status α)
    (env : RecoverEnv α) : RecoverBody α → RecoverEnv α → Bool →
      List (FutureId × Op α RecoverCallback) → List (RecoverBody α) → Prop where
  | call {frame : RecoverBody α} {future : FutureId} {op : Op α Unit} :
      frame = .other ∨ frame = .callable → (future = recovered → op.open = true) →
      Moves source recovered status env frame env (status recovered).associated
        [(future, op.foreign .other)] [frame]
  | idle {frame : RecoverBody α} : frame = .other ∨ frame = .callable →
      Moves source recovered status env frame env (status recovered).associated [] [frame]
  | finish :
      Moves source recovered status env .other env (status recovered).associated [] []
  | recover : env.called = false →
      Moves source recovered status env .other { env with called := true }
        (status recovered).associated
        [(source, .on .onAny .onAny), (source, .on .onAbandoned .onAbandoned),
          (recovered, .on .onDiscard (.discard source))] [.other]
  | recovers : (status source).recovers = true →
      Moves source recovered status env .onAny env (status recovered).associated [] [.reset]
  | associates : (status source).recovers = false →
      Moves source recovered status env .onAny env (status recovered).associated []
        [.associate source]
  | reset :
      Moves source recovered status env .reset env (status recovered).associated [] [.call]
  | invoke :
      Moves source recovered status env .call { env with calls := env.calls + 1 }
        (status recovered).associated [] [.callable]
  | yield (recovery : Recovery α) :
      Moves source recovered status env .callable
        { env with returned := recovery :: env.returned } (status recovered).associated []
        [resolve recovery]
  | set {value : α} : (status recovered).associated = false →
      Moves source recovered status env (.set value) env (status recovered).associated
        [(recovered, .set value)] []
  | unset {value : α} : (status recovered).associated = true →
      Moves source recovered status env (.set value) env (status recovered).associated [] []
  | associate {future : FutureId} : (status recovered).state = .pending →
      (status recovered).associated = false →
      Moves source recovered status env (.associate future) { env with target := some future }
        true
        [(recovered, .on .onDiscard (.discard future)), (future, .on .onReady .set),
          (future, .on .onFailed .fail), (future, .on .onDiscarded .discarded),
          (future, .on .onAbandoned .abandon)] []
  | refuse {future : FutureId} :
      (status recovered).state ≠ .pending ∨ (status recovered).associated = true →
      Moves source recovered status env (.associate future) env (status recovered).associated
        [] []
  | bound {callback : RecoverCallback} {argument : Argument α} {future : FutureId}
      {op : Op α RecoverCallback} : bound recovered callback argument = some (future, op) →
      Moves source recovered status env (.bound callback argument) env
        (status recovered).associated [(future, op)] []
  | expired {future : FutureId} {argument : Argument α} :
      Moves source recovered status env (.bound (.discard future) argument) env
        (status recovered).associated [] []

@[simp] theorem registers_foreign (op : Op α Unit) {kind : CallbackKind}
    {callback : RecoverCallback} (own : callback ≠ .other) :
    (op.foreign .other).registers kind callback = false := by
  cases op <;> simp [Op.foreign, Op.registers, own.symm]

/-- A bound function registers nothing. -/
theorem registers_bound {callback : RecoverCallback} {argument : Argument α}
    {future : FutureId} {op : Op α RecoverCallback}
    (forwards : bound recovered callback argument = some (future, op)) (kind : CallbackKind)
    (registered : RecoverCallback) : op.registers kind registered = false := by
  cases op with
  | on => cases callback <;> cases argument <;> simp [bound] at forwards
  | set | fail | discarded | discard | abandon => rfl

/-- The registrations of the two lambdas come from `recover`. -/
theorem Moves.registers {status : FutureId → Status α} {env next : RecoverEnv α}
    {frame : RecoverBody α} {associated : Bool}
    {made : List (FutureId × Op α RecoverCallback)} {entered : List (RecoverBody α)}
    (moves : Moves source recovered status env frame next associated made entered)
    {kind : CallbackKind} {callback : RecoverCallback}
    (lambdas : kind = .onAny ∧ callback = .onAny ∨ kind = .onAbandoned ∧ callback = .onAbandoned) :
    (made.map fun call =>
        (decide (call.1 = source) && call.2.registers kind callback).toNat).sum +
      env.called.toNat = next.called.toNat := by
  have own : callback ≠ .other := by
    rcases lambdas with ⟨-, rfl⟩ | ⟨-, rfl⟩ <;> simp
  cases moves with
  | call => simp [registers_foreign _ own]
  | recover fresh => rcases lambdas with ⟨rfl, rfl⟩ | ⟨rfl, rfl⟩ <;> simp [Op.registers, fresh]
  | set => simp [Op.registers]
  | associate => rcases lambdas with ⟨rfl, rfl⟩ | ⟨rfl, rfl⟩ <;> simp [Op.registers]
  | bound forwards => simp [registers_bound forwards]
  | idle | finish | recovers | associates | reset | invoke | yield | unset | refuse | expired =>
      simp

/-- How a step moves frames towards the callable and through it. -/
theorem Moves.frames {status : FutureId → Status α} {env next : RecoverEnv α}
    {frame : RecoverBody α} {associated : Bool}
    {made : List (FutureId × Op α RecoverCallback)} {entered : List (RecoverBody α)}
    (moves : Moves source recovered status env frame next associated made entered) :
    (entered.map fun frame => frame.entry.toNat).sum ≤ frame.entry.toNat ∧
    (entered.map fun frame => frame.committed.toNat).sum + next.calls +
        ((status source).recovers.toNat * (entered.map fun frame => frame.entry.toNat).sum) =
      frame.committed.toNat + env.calls + (status source).recovers.toNat * frame.entry.toNat ∧
    (entered.map fun frame => frame.running.toNat).sum + next.returned.length + env.calls =
      frame.running.toNat + env.returned.length + next.calls := by
  cases moves with
  | call runs | idle runs =>
      rcases runs with rfl | rfl <;>
        simp [RecoverBody.entry, RecoverBody.committed, RecoverBody.running]
  | recovers recovers | associates recovers =>
      simp [RecoverBody.entry, RecoverBody.committed, RecoverBody.running, recovers,
        Nat.add_comm]
  | yield recovery =>
      cases recovery <;>
        simp [resolve, RecoverBody.entry, RecoverBody.committed, RecoverBody.running] <;> omega
  | finish | recover | reset | invoke | set | unset | associate | refuse | bound | expired =>
      simp [RecoverBody.entry, RecoverBody.committed, RecoverBody.running]
      try omega

section Origins

variable {status : FutureId → Status α} {env next : RecoverEnv α} {frame : RecoverBody α}
  {associated : Bool} {made : List (FutureId × Op α RecoverCallback)}
  {entered : List (RecoverBody α)}

section

variable (moves : Moves source recovered status env frame next associated made entered)

include moves

/-- Where the calls that complete the recovered future come from. -/
theorem Moves.completing {op : Op α RecoverCallback} (member : (recovered, op) ∈ made)
    (completes : op.completes = true) :
    (∃ value, frame = .set value ∧ op = .set value ∧ (status recovered).associated = false) ∨
      ∃ callback argument, frame = .bound callback argument ∧
        Recover.bound recovered callback argument = some (recovered, op) := by
  cases moves with
  | call runs permitted =>
      simp only [List.mem_singleton] at member
      cases member
      simp [Op.completes_foreign (permitted rfl)] at completes
  | set unassociated =>
      simp only [List.mem_singleton, Prod.mk.injEq, true_and] at member
      exact .inl ⟨_, rfl, member, unassociated⟩
  | bound forwards =>
      simp only [List.mem_singleton] at member
      cases member
      exact .inr ⟨_, _, rfl, forwards⟩
  | recover | associate =>
      cases op <;> simp [Op.completes] at completes <;> simp at member
  | idle | finish | recovers | associates | reset | invoke | yield | unset | refuse
  | expired => simp at member

/-- What the callable returned is not forgotten. -/
theorem Moves.returned :
    ∀ recovery ∈ env.returned, recovery ∈ next.returned := by
  cases moves with
  | yield recovery => exact fun _ member => List.mem_cons_of_mem recovery member
  | call | idle | finish | recover | recovers | associates | reset | invoke | set | unset
  | associate | refuse | bound | expired => exact fun _ => id

/-- `Promise::set` of a value follows the return of the callable. -/
theorem Moves.sets :
    ∀ value, .set value ∈ entered → .value value ∈ next.returned := by
  intro value member
  cases moves with
  | call runs | idle runs => rcases runs with rfl | rfl <;> simp at member
  | yield recovery => cases recovery <;> simp_all [resolve]
  | finish | recover | recovers | associates | reset | invoke | set | unset | associate
  | refuse | bound | expired => simp at member

/-- `Promise::associate` follows the return of the callable or a ready source. -/
theorem Moves.associate_mem {future : FutureId} (member : .associate future ∈ entered) :
    .future future ∈ next.returned ∨
      future = source ∧ frame = .onAny ∧ (status source).recovers = false := by
  cases moves with
  | call runs | idle runs => rcases runs with rfl | rfl <;> simp at member
  | associates unrecovered =>
      simp only [List.mem_singleton, RecoverBody.associate.injEq] at member
      exact .inr ⟨member, rfl, unrecovered⟩
  | yield recovery => cases recovery <;> simp_all [resolve]
  | finish | recover | recovers | reset | invoke | set | unset | associate
  | refuse | bound | expired => simp at member

/-- Bound functions are entered by invocations only. -/
theorem Moves.not_bound :
    ∀ callback argument, .bound callback argument ∉ entered := by
  intro callback argument member
  cases moves with
  | call runs | idle runs => rcases runs with rfl | rfl <;> simp at member
  | yield recovery => cases recovery <;> simp [resolve] at member
  | finish | recover | recovers | associates | reset | invoke | set | unset | associate
  | refuse | bound | expired => simp at member

/-- Only `Promise::associate` changes what the promise is associated with. -/
theorem Moves.association :
    (next.target = env.target ∧ associated = (status recovered).associated) ∨
      ∃ future, frame = .associate future ∧ entered = [] ∧
        (status recovered).state = .pending ∧ (status recovered).associated = false ∧
        next = { env with target := some future } ∧ associated = true := by
  cases moves with
  | associate pending unassociated =>
      exact .inr ⟨_, rfl, rfl, pending, unassociated, rfl, rfl⟩
  | call | idle | finish | recover | recovers | associates | reset | invoke | yield | set
  | unset | refuse | bound | expired => exact .inl ⟨rfl, rfl⟩

/-- A value that the callable returns goes to `Promise::set`. -/
theorem Moves.returns {recovery : Recovery α} (member : recovery ∈ next.returned) :
    recovery ∈ env.returned ∨ resolve recovery ∈ entered := by
  cases moves with
  | yield yielded =>
      rcases List.mem_cons.mp member with rfl | earlier
      · exact .inr (by simp)
      · exact .inl earlier
  | call | idle | finish | recover | recovers | associates | reset | invoke | set | unset
  | associate | refuse | bound | expired => exact .inl member

end

theorem Moves.of_set {value : α}
    (moves : Moves source recovered status env (.set value) next associated made entered) :
    (recovered, .set value) ∈ made ∨ (status recovered).associated = true := by
  cases moves with
  | set => exact .inl (by simp)
  | unset associated => exact .inr associated
  | call runs | idle runs => simp at runs

theorem Moves.of_associate {future : FutureId}
    (moves : Moves source recovered status env (.associate future) next associated made
      entered) :
    next.target = some future ∨
      (status recovered).state ≠ .pending ∨ (status recovered).associated = true := by
  cases moves with
  | associate => exact .inl rfl
  | refuse resolved => exact .inr resolved
  | call runs | idle runs => simp at runs

theorem Moves.of_bound {callback : RecoverCallback} {argument : Argument α}
    (moves : Moves source recovered status env (.bound callback argument) next associated made
      entered) {op : Op α RecoverCallback}
    (forwards : Recover.bound recovered callback argument = some (recovered, op))
    (completes : op.completes = true) : (recovered, op) ∈ made := by
  cases moves with
  | bound other =>
      rw [forwards] at other
      simp only [Option.some.injEq, Prod.mk.injEq] at other
      simp [other]
  | expired =>
      cases argument <;> simp only [Recover.bound, Option.some.injEq, Prod.mk.injEq,
        reduceCtorEq] at forwards
      obtain ⟨-, rfl⟩ := forwards
      simp [Op.completes] at completes
  | call runs | idle runs => simp at runs

/-- `Promise::associate` registers the three callbacks that copy a completion. -/
theorem Moves.mirrors (moves : Moves source recovered status env frame next associated made entered)
    {future : FutureId} (target : next.target = some future) :
    env.target = some future ∨ ∀ kind callback, mirror kind = some callback →
      (future, .on kind callback) ∈ made := by
  cases moves with
  | associate =>
      right
      intro kind callback mirrors
      cases target
      cases kind <;> simp_all [mirror]
  | call | idle | finish | recover | recovers | associates | reset | invoke | yield | set
  | unset | refuse | bound | expired => exact .inl target

theorem Moves.place {status : FutureId → Status α} {env next : RecoverEnv α}
    {frame : RecoverBody α} {associated : Bool}
    {made : List (FutureId × Op α RecoverCallback)} {entered : List (RecoverBody α)}
    (moves : Moves source recovered status env frame next associated made entered)
    {future : FutureId} {kind : CallbackKind} {callback : RecoverCallback}
    (member : (future, .on kind callback) ∈ made) :
    Place source next.target future kind callback := by
  cases moves with
  | @call frame other op runs permitted =>
      cases op <;> simp_all [Op.foreign, Place]
  | recover =>
      simp only [List.mem_cons, Prod.mk.injEq, Op.on.injEq, List.not_mem_nil, or_false] at member
      rcases member with ⟨rfl, rfl, rfl⟩ | ⟨rfl, rfl, rfl⟩ | ⟨rfl, rfl, rfl⟩ <;> simp [Place]
  | associate =>
      simp only [List.mem_cons, Prod.mk.injEq, Op.on.injEq, List.not_mem_nil, or_false] at member
      rcases member with ⟨rfl, rfl, rfl⟩ | ⟨rfl, rfl, rfl⟩ | ⟨rfl, rfl, rfl⟩ | ⟨rfl, rfl, rfl⟩ |
        ⟨rfl, rfl, rfl⟩ <;> simp [Place]
  | bound forwards =>
      simp only [List.mem_singleton] at member
      cases member
      have none := registers_bound forwards kind callback
      simp [Op.registers] at none
  | idle | finish | recovers | associates | reset | invoke | yield | set | unset | refuse
  | expired => simp at member
end Origins

section StepMoves

variable {status : FutureId → Status α} {env : RecoverEnv α} {frame : RecoverBody α}
  {choice : RecoverChoice α} {effect : Outcome α}

theorem foreign_moves (runs : frame = .other ∨ frame = .callable)
    (stepped : foreign recovered status env frame choice = some effect) :
    Moves source recovered status env frame effect.env (effect.flags recovered).associated
      (effect.next.filterMap Activation.call?) (effect.next.filterMap Activation.body?) := by
  cases choice with
  | call future op =>
      simp only [foreign, Option.ite_none_left_eq_some, Option.some.injEq] at stepped
      obtain ⟨permitted, rfl⟩ := stepped
      exact .call runs (by simpa using permitted)
  | flags future flags =>
      simp only [foreign, Option.ite_none_left_eq_some, Option.some.injEq] at stepped
      obtain ⟨different, rfl⟩ := stepped
      simp only [Function.update_of_ne (Ne.symm different)]
      exact .idle runs
  | recover | finish | yield => simp [foreign] at stepped

theorem step_moves (stepped : step source recovered status env frame choice = some effect) :
    Moves source recovered status env frame effect.env (effect.flags recovered).associated
      (effect.next.filterMap Activation.call?) (effect.next.filterMap Activation.body?) := by
  cases frame with
  | other =>
      cases choice with
      | recover =>
          simp only [step, recover, Option.ite_none_left_eq_some, Option.some.injEq] at stepped
          obtain ⟨fresh, rfl⟩ := stepped
          exact .recover (by simpa using fresh)
      | finish =>
          cases stepped
          exact .finish
      | call | flags | yield =>
          simp only [step] at stepped
          exact foreign_moves (.inl rfl) stepped
  | onAny =>
      simp only [step] at stepped
      split at stepped <;> cases stepped
      next recovers => exact .recovers (by simpa [Status.recovers, or_comm] using recovers)
      next ready => exact .associates (by simpa [Status.recovers, and_comm] using ready)
  | reset =>
      cases stepped
      simp only [Function.update_self]
      exact .reset
  | call =>
      cases stepped
      exact .invoke
  | callable =>
      cases choice with
      | yield recovery =>
          cases stepped
          exact .yield recovery
      | call | flags | recover | finish =>
          simp only [step] at stepped
          exact foreign_moves (.inr rfl) stepped
  | set value =>
      cases stepped
      by_cases associated : (status recovered).associated = true
      · simp only [if_pos associated]
        exact .unset associated
      · simp only [if_neg associated]
        exact .set (by simpa using associated)
  | associate future =>
      cases stepped
      by_cases unresolved : (status recovered).state = .pending ∧ !(status recovered).associated
      · simp only [associate, if_pos unresolved, Function.update_self]
        exact .associate unresolved.1 (by simpa using unresolved.2)
      · simp only [associate, if_neg unresolved]
        refine .refuse ?_
        by_cases pending : (status recovered).state = .pending
        · exact .inr (by simpa [pending] using unresolved)
        · exact .inl pending
  | bound callback argument =>
      simp only [step, forward] at stepped
      split at stepped
      · cases stepped
        exact .expired
      · simp only [Option.map_eq_some_iff] at stepped
        obtain ⟨⟨future, op⟩, forwards, rfl⟩ := stepped
        exact .bound forwards

end StepMoves
end Recover

end Libprocess
