import Libprocess.Collect.Whole

/-!
# What the variadic `collect` keeps to itself

A process that was deleted has abandoned its promise, unless it completed it.  Nobody but the future
that the variadic `collect` returns passes a discard on to the future that it gets from the vector,
which it keeps to itself.
-/

namespace Libprocess

variable {T : Type}

open Snapshot (Entered Ran)

namespace Gather

variable {before after snapshot : GatherSnapshot T} {name future gathered result : FutureId}
  {process served : GatherProcess T} {body : GatherBody T} {rest : Multiset (GatherBody T)}
  {made : Calls T} {entered : List (GatherBody T)} {next : GatherEnv T} {call : Variadic}

/-! ## Deleted processes -/

/-- A process that was deleted leaves its promise abandoned or completed. -/
def Dropped (snapshot : GatherSnapshot T) (name : FutureId) (process : GatherProcess T) : Prop :=
  process.stage = .deleted → (name, .abandon false) ∈ snapshot.calls ∨
    (snapshot.status name).state ≠ .pending ∨ (snapshot.status name).abandoned = true

theorem Dropped.of_entered {op : Op (Value T) GatherCallback}
    (dropped : Dropped before name process)
    (unassociated : (before.status name).associated = false)
    (entered : Entered before after future op) : Dropped after name process := by
  have onward := onward_of_entered entered
  intro deleted
  obtain waits | completed | abandoned := dropped deleted
  · obtain ⟨rfl, rfl⟩ | waits := entered.remains waits
    · rw [entered.status, Function.update_self]
      exact .inr (enter_abandon unassociated)
    · exact .inl waits
  · exact .inr (.inl (onward.completed completed))
  · exact .inr (.inr ((onward.later name).abandoned abandoned))

theorem Dropped.of_executed (dropped : Dropped before name process)
    (executed : Executed before after body rest made entered) (same : served.stage = process.stage) :
    Dropped after name served := by
  intro deleted
  rw [same] at deleted
  rw [executed.status]
  exact (dropped deleted).imp_left fun waits => executed.mem_calls.mpr (.inr waits)

/-- Only the last step of a process deletes it. -/
theorem Acts.dropped (acts : Acts before.status name body process served made entered)
    (dropped : Dropped before name process)
    (executed : Executed before after body rest made entered) : Dropped after name served := by
  cases acts with
  | spawn | start | wake | block =>
      intro deleted
      cases deleted
  | delete =>
      intro _
      exact .inl (executed.mem_calls.mpr (.inl List.mem_cons_self))
  | decide _ decides =>
      apply dropped.of_executed executed
      cases decides <;> rfl
  | _ => exact dropped.of_executed executed rfl

/-! ## Discards -/

/-- A future is asked to be discarded only through the result of a call. -/
structure Concealed (snapshot : GatherSnapshot T) (gathered result : FutureId) : Prop where
  inputs : ∀ name process, snapshot.env.process name = some process →
    gathered ∉ process.inputs ∧ gathered ∉ process.futures
  discarding : ∀ name rest, .discarding name rest ∈ snapshot.bodies → gathered ∉ rest
  asked : ∀ name future rest, .asked name future rest ∈ snapshot.bodies → gathered ∉ rest
  registered : ∀ kind, ∀ future ∈ snapshot.subscribed kind (.discard gathered),
    future = result ∧ kind = .onDiscard
  running : .discard gathered ∈ snapshot.bodies → (snapshot.status result).discard = true
  called : (gathered, .discard) ∈ snapshot.calls → (snapshot.status result).discard = true
  requested : (snapshot.status gathered).discard = true →
    (snapshot.status result).discard = true

/-- What a call of the variadic `collect` has collected is hidden, too. -/
structure Sheltered (snapshot : GatherSnapshot T) (gathered result : FutureId) : Prop
    extends Concealed snapshot gathered result where
  hidden : snapshot.env.role gathered = .hidden

/-- A discard is requested by a call of `discard`. -/
theorem discard_of_enter {status : Status (Value T)} {op : Op (Value T) GatherCallback}
    (requested : (status.enter op).discard = true) : status.discard = true ∨ op = .discard := by
  cases op with
  | discard => exact .inr rfl
  | on => exact .inl requested
  | set | fail | discarded | abandon =>
      simp only [Status.enter] at requested
      split at requested
      · exact .inl requested
      · exact .inl requested

theorem Concealed.of_entered {op : Op (Value T) GatherCallback}
    (concealed : Concealed before gathered result) (entered : Entered before after future op) :
    Concealed after gathered result := by
  have onward := onward_of_entered entered
  have called : (future, op) ∈ before.calls := by
    rw [entered.calls]
    exact Multiset.mem_cons_self _ _
  constructor
  · rw [entered.env]
    exact concealed.inputs
  · rw [entered.bodies]
    exact concealed.discarding
  · rw [entered.bodies]
    exact concealed.asked
  · intro kind
    rw [entered.subscribed]
    exact concealed.registered kind
  · rw [entered.bodies]
    exact fun member => onward.discard result (concealed.running member)
  · intro member
    apply onward.discard
    apply concealed.called
    rw [entered.calls]
    exact Multiset.mem_cons_of_mem member
  · intro requested
    apply onward.discard
    rw [entered.status] at requested
    by_cases same : gathered = future
    · subst same
      rw [Function.update_self] at requested
      obtain already | rfl := discard_of_enter requested
      · exact concealed.requested already
      · exact concealed.called called
    · rw [Function.update_of_ne same] at requested
      exact concealed.requested requested

theorem Concealed.of_ran {kind : CallbackKind} {registration : Registration GatherCallback}
    (concealed : Concealed before gathered result)
    (ran : Ran before after future kind registration) : Concealed after gathered result := by
  have fires := ran.fires fun _ => ordered.disciplined future
  constructor
  · rw [ran.env]
    exact concealed.inputs
  · intro name rest member
    rw [ran.bodies] at member
    cases Multiset.mem_cons.mp member with
    | inl new => cases callback : registration.callback <;> rw [callback] at new <;> cases new
    | inr old => exact concealed.discarding name rest old
  · intro name other rest member
    rw [ran.bodies] at member
    cases Multiset.mem_cons.mp member with
    | inl new => cases callback : registration.callback <;> rw [callback] at new <;> cases new
    | inr old => exact concealed.asked name other rest old
  · intro other
    rw [ran.subscribed]
    exact concealed.registered other
  · rw [ran.bodies, ran.status]
    intro member
    cases Multiset.mem_cons.mp member with
    | inl new =>
        have called : registration.callback = .discard gathered := by
          cases callback : registration.callback <;> rw [callback] at new <;> cases new
          rfl
        have filed := Snapshot.mem_subscribed ran.filed
        rw [called] at filed
        obtain ⟨rfl, rfl⟩ := concealed.registered kind future filed
        exact fires
    | inr old => exact concealed.running old
  · rw [ran.calls, ran.status]
    exact concealed.called
  · rw [ran.status]
    exact concealed.requested

section

variable (moves : Moves before.status before.env body next made entered)

include moves

/-- The futures that a new process is given are visible or were just made. -/
theorem Moves.inputs (found : next.process name = some served) :
    (∃ process, before.env.process name = some process ∧ served.inputs = process.inputs ∧
        (served.futures = process.futures ∨ served.futures = [])) ∨
      served.futures = served.inputs ∧ ((∀ future ∈ served.inputs,
        visible before.env future = true) ∨ ∃ call, Fits before.status before.env call ∧
          next.variadics = call :: before.env.variadics ∧ served.inputs = call.wrappers) := by
  cases moves with
  | @acts other _ process stored _ _ known acts =>
      left
      simp only [store] at found
      by_cases same : name = other
      · subst same
        rw [Function.update_self] at found
        cases found
        exact ⟨process, known, acts.keeps.1, acts.keeps.2.2⟩
      · rw [Function.update_of_ne same] at found
        exact ⟨served, found, rfl, .inl rfl⟩
  | @gather gathering futures target fresh known some =>
      simp only [store, assign] at found
      by_cases same : name = target
      · subst same
        rw [Function.update_self] at found
        cases found
        exact .inr ⟨rfl, .inl known⟩
      · rw [Function.update_of_ne same] at found
        exact .inl ⟨served, found, rfl, .inl rfl⟩
  | @variadic call fits some =>
      simp only [store, prepare] at found
      by_cases same : name = call.gathered
      · subst same
        rw [Function.update_self] at found
        cases found
        exact .inr ⟨rfl, .inr ⟨call, fits, rfl, rfl⟩⟩
      · rw [Function.update_of_ne same] at found
        exact .inl ⟨served, found, rfl, .inl rfl⟩
  | _ => exact .inl ⟨served, found, rfl, .inl rfl⟩

/-- A future that is not visible is asked to be discarded by a callback or by a process that has
it. -/
theorem Moves.asks
    (unseen : visible before.env gathered = false) (called : (gathered, .discard) ∈ made) :
    body = .discard gathered ∨ ∃ name rest, body = .discarding name (gathered :: rest) := by
  have plain : ∀ pairs : List (FutureId × FutureId), (gathered, .discard) ∉
      pairs.flatMap (fun pair => derivation (T := T) pair.2 pair.1) := by
    simp [derivation]
  cases moves with
  | acts _ acts =>
      cases acts with
      | start => simp [registrations] at called
      | decide _ decides => cases decides <;> simp [Completion.op] at called
      | request =>
          cases List.mem_singleton.mp called
          exact .inr ⟨_, _, rfl⟩
      | _ => simp at called
  | request =>
      cases List.mem_singleton.mp called
      exact .inr ⟨_, _, rfl⟩
  | @call target op allowed =>
      have same := List.mem_singleton.mp called
      cases op <;> simp only [Op.foreign, Prod.mk.injEq, reduceCtorEq, and_false, and_true] at same
      subst same
      simp only [visible, decide_eq_false_iff_not, not_or] at unseen
      obtain promised | ⟨returned, -⟩ := allowed
      · exact absurd promised unseen.1
      · exact absurd returned unseen.2
  | none => simp [derivation] at called
  | variadic =>
      rw [derivations_eq] at called
      exact absurd called (plain _)
  | @settle _ _ _ completion => cases completion <;> simp [Completion.op] at called
  | discard =>
      cases List.mem_singleton.mp called
      exact .inl rfl
  | _ => simp at called

/-- The loop of `discarded` begins with the futures of its process. -/
theorem Moves.discards {left : List FutureId} (member : .discarding name left ∈ entered) :
    (∃ process, before.env.process name = some process ∧ left = process.futures) ∨
      ∃ future, body = .asked name future left := by
  cases moves with
  | acts known acts =>
      cases acts with
      | ask =>
          cases List.mem_singleton.mp member
          exact .inl ⟨_, known, rfl⟩
      | asked =>
          cases List.mem_singleton.mp member
          exact .inr ⟨_, rfl⟩
      | _ => simp at member
  | _ => simp at member

theorem Moves.asked {left : List FutureId} (member : .asked name future left ∈ entered) :
    body = .discarding name (future :: left) := by
  cases moves with
  | acts known acts =>
      cases acts with
      | request =>
          cases List.mem_singleton.mp member
          rfl
      | _ => simp at member
  | request =>
      cases List.mem_singleton.mp member
      rfl
  | _ => simp at member

theorem Moves.not_discard :
    .discard future ∉ entered := by
  intro member
  cases moves with
  | acts known acts => cases acts <;> simp at member
  | _ => simp at member

/-- Where a step registers a callback that asks a future to be discarded. -/
theorem Moves.registers
    {kind : CallbackKind} (member : (future, .on kind (.discard gathered)) ∈ made) :
    visible before.env gathered = true ∨ ∃ call, Fits before.status before.env call ∧
      next.variadics = call :: before.env.variadics ∧
      call.gathered = gathered ∧ future = call.result ∧ kind = .onDiscard := by
  have derives : ∀ pairs : List (FutureId × FutureId),
      (future, .on kind (.discard gathered)) ∈
        pairs.flatMap (fun pair => derivation (T := T) pair.2 pair.1) →
      (future, gathered) ∈ pairs ∧ kind = .onDiscard := by
    intro pairs listed
    obtain ⟨pair, inside, here⟩ := List.mem_flatMap.mp listed
    simp only [derivation, List.mem_cons, Prod.mk.injEq, Op.on.injEq, reduceCtorEq, and_false,
      GatherCallback.discard.injEq, false_or, List.not_mem_nil, or_false] at here
    obtain ⟨rfl, rfl, rfl⟩ := here
    exact ⟨inside, rfl⟩
  cases moves with
  | acts _ acts =>
      cases acts with
      | start => simp [registrations] at member
      | decide _ decides => cases decides <;> simp [Completion.op] at member
      | _ => simp at member
  | @call target op allowed => cases op <;> simp [Op.foreign] at member
  | @none call fits =>
      have listed : (future, .on kind (.discard gathered)) ∈
          [(call.result, call.gathered)].flatMap
            (fun pair => derivation (T := T) pair.2 pair.1) := by
        simpa using member
      obtain ⟨inside, rfl⟩ := derives _ listed
      cases List.mem_singleton.mp inside
      exact .inr ⟨call, fits, rfl, rfl, rfl, rfl⟩
  | @variadic call fits =>
      rw [derivations_eq] at member
      obtain ⟨inside, rfl⟩ := derives _ member
      cases List.mem_append.mp inside with
      | inl wrapped => exact .inl (fits.visible _ (List.of_mem_zip wrapped).2)
      | inr last =>
          cases List.mem_singleton.mp last
          exact .inr ⟨call, fits, rfl, rfl, rfl, rfl⟩
  | @settle _ _ _ completion => cases completion <;> simp [Completion.op] at member
  | _ => simp at member

end

/-- Everybody else leaves alone what the variadic `collect` keeps to itself. -/
theorem Concealed.of_executed (concealed : Concealed before gathered result)
    (unseen : visible before.env gathered = false)
    (executed : Executed before after body rest made entered)
    (own : ∀ call, Fits before.status before.env call →
      after.env.variadics = call :: before.env.variadics →
      gathered ∉ call.wrappers ∧ (call.gathered = gathered → call.result = result)) :
    Concealed after gathered result := by
  have moves := executed.moves
  have running : body ∈ before.bodies := executed.mem_before.mpr (.inl rfl)
  constructor
  · intro name served found
    obtain ⟨process, known, inputs, futures⟩ | ⟨same, fresh⟩ := moves.inputs found
    · obtain ⟨outside, apart⟩ := concealed.inputs name process known
      rw [inputs]
      refine ⟨outside, ?_⟩
      obtain same | none := futures
      · rw [same]
        exact apart
      · rw [none]
        exact List.not_mem_nil
    · have outside : gathered ∉ served.inputs := by
        intro input
        obtain seen | ⟨call, fits, variadics, wrappers⟩ := fresh
        · cases unseen.symm.trans (seen gathered input)
        · rw [wrappers] at input
          exact (own call fits variadics).1 input
      exact ⟨outside, same ▸ outside⟩
  · intro name left member
    cases executed.mem_after.mp member with
    | inl new =>
        obtain ⟨process, known, rfl⟩ | ⟨future, rfl⟩ := moves.discards new
        · exact (concealed.inputs name process known).2
        · exact concealed.asked name future left running
    | inr old => exact concealed.discarding name left (executed.mem_before.mpr (.inr old))
  · intro name future left member
    cases executed.mem_after.mp member with
    | inl new =>
        have loop := moves.asked new
        subst loop
        have outside := concealed.discarding name _ running
        exact fun later => outside (List.mem_cons_of_mem _ later)
    | inr old => exact concealed.asked name future left (executed.mem_before.mpr (.inr old))
  · intro kind future member
    rw [Snapshot.subscribed_add executed.calls executed.registered] at member
    obtain new | old := Multiset.mem_add.mp member
    · obtain ⟨⟨target, op⟩, present, shown⟩ := List.mem_filterMap.mp (Multiset.mem_coe.mp new)
      cases op with
      | on registered callback =>
          simp only [subscribing, Option.ite_none_right_eq_some, Option.some.injEq] at shown
          obtain ⟨⟨rfl, rfl⟩, rfl⟩ := shown
          obtain seen | ⟨call, fits, variadics, same, rfl, asks⟩ := moves.registers present
          · cases unseen.symm.trans seen
          · exact ⟨(own call fits variadics).2 same, asks⟩
      | _ => cases shown
    · exact concealed.registered kind future old
  · intro member
    rw [executed.status]
    cases executed.mem_after.mp member with
    | inl new => exact absurd new moves.not_discard
    | inr old => exact concealed.running (executed.mem_before.mpr (.inr old))
  · intro member
    rw [executed.status]
    cases executed.mem_calls.mp member with
    | inl new =>
        obtain rfl | ⟨name, left, rfl⟩ := moves.asks unseen new
        · exact concealed.running running
        · exact absurd List.mem_cons_self (concealed.discarding name _ running)
    | inr old => exact concealed.called old
  · rw [executed.status]
    exact concealed.requested

theorem Sheltered.of_executed (sheltered : Sheltered before gathered result) (kept : Kept before)
    (executed : Executed before after body rest made entered) :
    Sheltered after gathered result := by
  have hidden := sheltered.hidden
  have fresh : ∀ call, Fits before.status before.env call → gathered ∉ Variadic.made call := by
    intro call fits member
    cases hidden.symm.trans (unmade_iff.mp (fits.unmade gathered member)).1
  refine ⟨sheltered.toConcealed.of_executed (by simp [visible, hidden]) executed ?_, ?_⟩
  · intro call fits _
    refine ⟨fun wrapper => fresh call fits (List.mem_append_left _ wrapper), ?_⟩
    rintro rfl
    exact absurd (by simp [Variadic.made]) (fresh call fits)
  · rw [(kept.grows executed.moves).role gathered (by simp [Made, hidden])]
    exact hidden

/-- A step that is not a call of the variadic `collect` adds none. -/
theorem Moves.calls (moves : Moves before.status before.env body next made entered) :
    next.variadics = before.env.variadics ∨ ∃ call, Fits before.status before.env call ∧
      next.variadics = call :: before.env.variadics ∧ next.role call.gathered = .hidden := by
  have hides : ∀ call, Fits before.status before.env call →
      (prepare before.env call).role call.gathered = .hidden := by
    intro call fits
    have other : call.gathered ≠ call.result := by
      have pair := (List.nodup_append.mp fits.nodup).2.1
      simpa using pair
    simp [prepare, other, Variadic.made]
  cases moves with
  | @none call fits | @variadic call fits => exact .inr ⟨call, fits, rfl, hides call fits⟩
  | _ => exact .inl rfl

/-- Nobody has heard of a future that was not made. -/
theorem Concealed.of_unmade (kept : Kept before) (unknown : before.env.role gathered = .unmade) :
    Concealed before gathered result := by
  have outside : ∀ future, Made before.env future → future ≠ gathered := by
    rintro future known rfl
    exact known unknown
  constructor
  · intro name process known
    exact ⟨fun input => outside _ ((kept.process name process known).2.2 _ input) rfl,
      fun input => outside _ (kept.futures name process known _ input) rfl⟩
  · exact fun name left member later => outside _ ((kept.bodies _ member).2 _ later) rfl
  · exact fun name future left member later => outside _ ((kept.bodies _ member).2 _ later) rfl
  · intro kind future member
    rw [kept.subscribed_eq_zero (show ¬ Owned before.env (.discard gathered) from
      fun known => known unknown)] at member
    exact absurd member (Multiset.notMem_zero future)
  · exact fun member => absurd rfl (outside _ (kept.bodies _ member))
  · exact fun member => absurd rfl (outside _ (kept.calls _ member).made)
  · intro asked
    rw [(kept.unmade gathered unknown).2] at asked
    cases asked

/-- A call of the variadic `collect` makes such a future. -/
theorem Sheltered.of_variadic (kept : Kept before) (fits : Fits before.status before.env call)
    (executed : Executed before after body rest made entered)
    (called : after.env.variadics = call :: before.env.variadics)
    (role : after.env.role call.gathered = .hidden) : Sheltered after call.gathered call.result := by
  have unknown : before.env.role call.gathered = .unmade :=
    (unmade_iff.mp (fits.unmade _ (by simp [Variadic.made]))).1
  have concealed : Concealed before call.gathered call.result := .of_unmade kept unknown
  refine ⟨concealed.of_executed (by simp [visible, unknown]) executed ?_, role⟩
  intro other _ variadics
  cases called.symm.trans variadics
  refine ⟨fun wrapper => ?_, fun _ => rfl⟩
  exact (List.nodup_append.mp fits.nodup).2.2 _ wrapper _ List.mem_cons_self rfl

theorem Sheltered.spawn (sheltered : Sheltered snapshot gathered result) :
    Sheltered { snapshot with bodies := .user ::ₘ snapshot.bodies } gathered result := by
  refine { sheltered with
    discarding := fun name left member => ?_
    asked := fun name future left member => ?_
    running := fun member => ?_ }
  · exact sheltered.discarding name left ((mem_user (by simp)).mp member)
  · exact sheltered.asked name future left ((mem_user (by simp)).mp member)
  · exact sheltered.running ((mem_user (by simp)).mp member)

/-! ## All runs -/

/-- What is left of deleted processes, and what the calls of the variadic `collect` keep. -/
structure Closed (snapshot : GatherSnapshot T) : Prop where
  dropped : ∀ name process, snapshot.env.process name = some process →
    Dropped snapshot name process
  sheltered : ∀ call ∈ snapshot.env.variadics, Sheltered snapshot call.gathered call.result

theorem Closed.of_entered {op : Op (Value T) GatherCallback} (closed : Closed before)
    (whole : Whole before) (entered : Entered before after future op) : Closed after := by
  constructor
  · rw [entered.env]
    intro name process known
    exact (closed.dropped name process known).of_entered (whole.unassociated name) entered
  · rw [entered.env]
    intro call called
    have sheltered := closed.sheltered call called
    exact ⟨sheltered.toConcealed.of_entered entered, entered.env ▸ sheltered.hidden⟩

theorem Closed.of_ran {kind : CallbackKind} {registration : Registration GatherCallback}
    (closed : Closed before) (ran : Ran before after future kind registration) :
    Closed after := by
  constructor
  · rw [ran.env]
    intro name process known deleted
    rw [ran.calls, ran.status]
    exact closed.dropped name process known deleted
  · rw [ran.env]
    intro call called
    have sheltered := closed.sheltered call called
    exact ⟨sheltered.toConcealed.of_ran ran, ran.env ▸ sheltered.hidden⟩

theorem Closed.of_executed (closed : Closed before) (whole : Whole before)
    (sound : before.Sound) (executed : Executed before after body rest made entered) :
    Closed after := by
  have kept := whole.kept
  have moves := executed.moves
  have runs : Runs before.env body := kept.bodies body (executed.mem_before.mpr (.inl rfl))
  have checked := whole.not_aborts sound executed.running
  constructor
  · intro name served found
    cases known : before.env.process name with
    | none =>
        obtain ⟨⟨gathering, futures, rfl, -⟩, -⟩ := Kept.constructs moves known found
        intro deleted
        cases deleted
    | some process =>
        have dropped := closed.dropped name process known
        cases kept.splits runs moves checked known with
        | inl acts =>
            obtain ⟨acting, acts, same⟩ := acts
            rw [found] at same
            cases same
            exact acts.dropped dropped executed
        | inr elsewhere =>
            have same := elsewhere.same
            rw [found] at same
            cases same
            exact dropped.of_executed executed rfl
  · intro call called
    obtain same | ⟨another, fits, variadics, role⟩ := moves.calls
    · rw [same] at called
      exact (closed.sheltered call called).of_executed kept executed
    · rw [variadics] at called
      cases List.mem_cons.mp called with
      | inl new =>
          subst new
          exact .of_variadic kept fits executed variadics role
      | inr old => exact (closed.sheltered call old).of_executed kept executed

theorem Closed.of_reachable {machine : Machine (gathering T)}
    (reached : (futures (gathering T)).Reachable machine) : Closed machine.snapshot := by
  have both : Whole machine.snapshot ∧ Closed machine.snapshot := by
    apply Machine.snapshot_invariant_of Relied _
      (fun snapshot => Whole snapshot ∧ Closed snapshot) _ _ _ reached
    · rintro machine thread choice frame reached - running body rfl call member
      exact Machine.done_of_running ordered reached running member
    · intro machine initial
      refine ⟨.initial initial, ?_⟩
      have env : machine.snapshot.env = .new := initial.blank.env
      constructor
      · rw [env]
        intro name process known
        cases known
      · rw [env]
        intro call called
        cases called
    · rintro snapshot ⟨whole, closed⟩
      refine ⟨whole.spawn, closed.dropped, fun call called => ?_⟩
      exact (closed.sheltered call called).spawn
    · rintro before frame after sound - ⟨whole, closed⟩ relied step
      refine ⟨whole.step sound relied step, ?_⟩
      obtain rfl | ⟨future, op, -, entered⟩ | ⟨future, kind, registration, ran⟩ |
        ⟨body, rest, made, entered, rfl, executed⟩ := step_cases step
      · exact closed
      · exact closed.of_entered whole entered
      · exact closed.of_ran ran
      · exact closed.of_executed whole sound executed
  exact both.2

end Gather

end Libprocess
