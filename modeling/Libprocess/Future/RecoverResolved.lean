import Libprocess.Future.RecoverInvariant

/-!
# Who completes the recovered future

Every step keeps `Resolved` and `Delivered`: a completion of the recovered future is
justified by what the callable returned, and what it returned arrives.
-/

namespace Libprocess

variable {α : Type} {source recovered : FutureId}

open Snapshot (Entered Ran)

namespace Recover

variable {before after : RecoverSnapshot α source recovered}

/-! ### Completions of the recovered future -/

theorem Justified.mono {op : Op α RecoverCallback} (justified : Justified before op)
    (target : after.env.target = before.env.target)
    (returned : ∀ recovery ∈ before.env.returned, recovery ∈ after.env.returned)
    (later : ∀ future, (before.status future).Later (after.status future)) :
    Justified after op := by
  rcases justified with ⟨unassociated, value, rfl, member⟩ | ⟨future, associated, settles⟩
  · exact .inl ⟨target.trans unassociated, value, rfl, returned _ member⟩
  · exact .inr ⟨future, target.trans associated, settles.later (later future)⟩

/-- An invoked callback of `associate` forwards what its future holds. -/
theorem ran_forwards {future : FutureId} {kind : CallbackKind}
    {registration : Registration RecoverCallback} (placed : Placed before)
    (sound : before.Sound) (ran : Ran before after future kind registration)
    {op : Op α RecoverCallback} {other : FutureId}
    (forwards : bound recovered registration.callback
      (argument future kind (before.status future).result) = some (other, op))
    (completes : op.completes = true) :
    before.env.target = some future ∧ (before.status future).Settles op := by
  have place := placed.registered _ ran.filed
  have fires := ran.fires
  have result := sound.result future
  cases callback : registration.callback <;>
    simp only [callback, Place] at place forwards
  case set =>
    obtain ⟨target, rfl⟩ := place
    have ready : (before.status future).state = .ready := by simpa [Status.fires] using fires
    simp only [ready, Result.Fits] at result
    obtain ⟨value, stored⟩ := result
    simp only [stored, argument, bound] at forwards
    cases forwards
    exact ⟨target, ready, stored⟩
  case fail =>
    obtain ⟨target, rfl⟩ := place
    have failed : (before.status future).state = .failed := by simpa [Status.fires] using fires
    simp only [failed, Result.Fits] at result
    obtain ⟨message, stored⟩ := result
    simp only [stored, argument, bound] at forwards
    cases forwards
    exact ⟨target, failed, stored⟩
  case discarded =>
    obtain ⟨target, rfl⟩ := place
    have discarded : (before.status future).state = .discarded := by
      simpa [Status.fires] using fires
    simp only [argument, bound] at forwards
    cases forwards
    exact ⟨target, discarded⟩
  case abandon =>
    obtain ⟨-, rfl⟩ := place
    simp only [argument, bound] at forwards
    cases forwards
    simp [Op.completes] at completes
  case discard =>
    subst kind
    simp only [argument, bound] at forwards
    cases forwards
    simp [Op.completes] at completes
  all_goals cases kind <;> simp [bound] at forwards

theorem Resolved.ran {future : FutureId} {kind : CallbackKind}
    {registration : Registration RecoverCallback} (resolved : Resolved before)
    (placed : Placed before) (sound : before.Sound)
    (ran : Ran before after future kind registration) : Resolved after := by
  have notResolver : ∀ (frame : RecoverBody α), frame ∈ after.bodies →
      frame ∈ before.bodies ∨ frame = .bound registration.callback
        (argument future kind (before.status future).result) ∨
        frame = .other ∨ frame = .onAny ∨ frame = .reset := by
    intro frame member
    rw [ran.bodies] at member
    rcases Multiset.mem_cons.mp member with rfl | earlier
    · right
      cases registration.callback <;> simp [Recover.invoke]
    · exact .inl earlier
  refine ⟨?_, ?_, ?_, ?_, ?_, ?_, ?_, ?_⟩ <;>
    simp only [ran.status, ran.env, ran.calls, Justified]
  · exact resolved.associated
  · intro value member
    exact resolved.sets value (by simpa using notResolver _ member)
  · intro other member
    exact resolved.associates other (by simpa using notResolver _ member)
  · exact resolved.calls
  · intro callback argument op member
    rcases notResolver _ member with earlier | same | other
    · exact resolved.forwards callback argument op earlier
    · simp only [RecoverBody.bound.injEq] at same
      obtain ⟨rfl, rfl⟩ := same
      intro bound completes
      exact ⟨future, ran_forwards placed sound ran bound completes⟩
    · simp at other
  · exact resolved.completed
  · exact resolved.target
  · exact resolved.guarded

theorem justified_entered {future : FutureId} {op other : Op α RecoverCallback}
    (entered : Entered before after future op) (justified : Justified before other) :
    Justified after other :=
  justified.mono (by rw [entered.env]) (by rw [entered.env]; exact fun _ => id) entered.later

theorem Resolved.entered {future : FutureId} {op : Op α RecoverCallback}
    (resolved : Resolved before) (entered : Entered before after future op)
    (permitted : Guarded source recovered before.status future op) : Resolved after where
  associated := by
    rw [entered.associated, entered.env]
    exact resolved.associated
  sets := by
    rw [entered.bodies, entered.env]
    exact resolved.sets
  associates := by
    rw [entered.bodies, entered.env]
    intro other member
    refine (resolved.associates other member).imp_right fun ready => ⟨ready.1, ?_⟩
    rw [((entered.later source).completed (by simp [ready.2])).1]
    exact ready.2
  calls := by
    intro other member completes
    refine justified_entered entered (resolved.calls other ?_ completes)
    rw [entered.calls]
    exact Multiset.mem_cons_of_mem member
  forwards := by
    rw [entered.bodies, entered.env]
    intro callback argument other member bound completes
    obtain ⟨target, associated, settles⟩ :=
      resolved.forwards callback argument other member bound completes
    exact ⟨target, associated, settles.later (entered.later target)⟩
  completed := by
    intro completed
    by_cases pending : (before.status recovered).state = .pending
    · obtain ⟨rfl, completes, settles, -⟩ := entered.completes pending completed
      refine ⟨op, settles, justified_entered entered (resolved.calls op ?_ completes)⟩
      rw [entered.calls]
      exact Multiset.mem_cons_self _ _
    · obtain ⟨other, settles, justified⟩ := resolved.completed pending
      exact ⟨other, settles.later (entered.later recovered), justified_entered entered justified⟩
  target := by
    rw [entered.env]
    intro other target
    refine (resolved.target other target).imp_right fun ready => ⟨ready.1, ?_⟩
    obtain ⟨state, -, abandoned⟩ := (entered.later source).completed (by simp [ready.2.1])
    rw [state, abandoned]
    exact ready.2
  guarded := by
    rw [entered.associated]
    intro abandoned completed
    have kept : (before.status recovered).state ≠ .pending →
        (after.status recovered).state ≠ .pending := by
      intro notPending
      rw [((entered.later recovered).completed notPending).1]
      exact notPending
    by_cases pending : (before.status source).state = .pending
    · obtain ⟨rfl, completes, settles, same⟩ := entered.completes pending completed
      rw [same] at abandoned
      obtain ⟨readies, resolves⟩ := permitted rfl completes pending abandoned
      cases op <;> simp [Op.readies] at readies
      exact ⟨settles.1, resolves.imp_left kept⟩
    · obtain ⟨state, -, same⟩ := (entered.later source).completed pending
      rw [same] at abandoned
      obtain ⟨ready, resolves⟩ := resolved.guarded abandoned pending
      exact ⟨state.trans ready, resolves.imp_left kept⟩

theorem Executed.later {frame : RecoverBody α} {rest : Multiset (RecoverBody α)}
    {made : List (FutureId × Op α RecoverCallback)} {entered : List (RecoverBody α)}
    (executed : Executed before after frame rest made entered) (future : FutureId) :
    (before.status future).Later (after.status future) where
  completed _ := executed.status future
  abandoned flag := (executed.status future).2.2.trans flag

/-- Nothing has completed the recovered future when its promise gets associated. -/
theorem Resolved.unreturned (resolved : Resolved before) (counted : Counted before)
    (sound : before.Sound) {future : FutureId} (member : .associate future ∈ before.bodies)
    (pending : (before.status recovered).state = .pending)
    (unassociated : (before.status recovered).associated = false) :
    (∀ value, .value value ∉ before.env.returned) ∧
      (.future future ∈ before.env.returned ∨
        future = source ∧ (before.status source).state = .ready ∧
          (before.status source).abandoned = false) := by
  rcases resolved.associates future member with returned | ⟨rfl, ready⟩
  · refine ⟨fun value other => ?_, .inl returned⟩
    have same := returned_unique counted resolved sound returned other
    simp at same
  · have intact : (before.status future).abandoned = false := by
      by_contra lost
      have guarded := resolved.guarded (by simpa using lost) (by simp [ready])
      simp [pending, unassociated] at guarded
    refine ⟨fun value other => ?_, .inr ⟨rfl, ready, intact⟩⟩
    rw [returned_ready counted sound ready intact] at other
    simp at other

/-- The `onAny` lambda that finds no failure finds a ready source. -/
theorem Counted.ready (counted : Counted before) (sound : before.Sound)
    (member : RecoverBody.onAny ∈ before.bodies)
    (unrecovered : (before.status source).recovers = false) :
    (before.status source).state = .ready := by
  have positive : 0 < frames RecoverBody.entry before.bodies :=
    Multiset.countP_pos.mpr ⟨_, member, rfl⟩
  have entries := counted.entries
  have completed : (before.status source).state ≠ .pending := by
    intro pending
    have silent := sound.unfired source .onAny (lambda .onAny) (by simp)
      (by simp [Status.fires, pending])
    omega
  simp only [Status.recovers, decide_eq_false_iff_not, not_or] at unrecovered
  cases state : (before.status source).state <;> simp_all

/-- A step of the code that neither returns from the callable nor associates the
promise, and whose new frames and calls are justified. -/
theorem Resolved.kept {frame : RecoverBody α} {rest : Multiset (RecoverBody α)}
    {made : List (FutureId × Op α RecoverCallback)} {entered : List (RecoverBody α)}
    (resolved : Resolved before) (executed : Executed before after frame rest made entered)
    (target : after.env.target = before.env.target)
    (associated : (after.status recovered).associated = (before.status recovered).associated)
    (returned : ∀ recovery ∈ before.env.returned, recovery ∈ after.env.returned)
    (sets : ∀ value, .set value ∈ entered → .value value ∈ after.env.returned)
    (associates : ∀ future, .associate future ∈ entered →
      .future future ∈ after.env.returned ∨
        future = source ∧ (before.status source).state = .ready)
    (bounds : ∀ callback argument, .bound callback argument ∉ entered)
    (calls : ∀ op, (recovered, op) ∈ made → op.completes = true → Justified before op) :
    Resolved after := by
  have mono : ∀ {op}, Justified before op → Justified after op := fun justified =>
    justified.mono target returned executed.later
  have split : ∀ frame, frame ∈ after.bodies → frame ∈ entered ∨ frame ∈ before.bodies := by
    intro frame member
    rw [executed.bodies] at member
    rcases Multiset.mem_add.mp member with new | earlier
    · exact .inl new
    · rw [executed.running]
      exact .inr (Multiset.mem_cons_of_mem earlier)
  have status := executed.status
  refine ⟨?_, ?_, ?_, ?_, ?_, ?_, ?_, ?_⟩
  · rw [associated, target]
    exact resolved.associated
  · intro value member
    rcases split _ member with new | earlier
    · exact sets value new
    · exact returned _ (resolved.sets value earlier)
  · intro future member
    rw [(status source).1]
    rcases split _ member with new | earlier
    · exact associates future new
    · exact (resolved.associates future earlier).imp_left (returned _)
  · intro op member completes
    rw [executed.calls] at member
    rcases Multiset.mem_add.mp member with new | earlier
    · exact mono (calls op new completes)
    · exact mono (resolved.calls op earlier completes)
  · intro callback argument op member bound completes
    rcases split _ member with new | earlier
    · exact absurd new (bounds callback argument)
    · obtain ⟨future, associated, settles⟩ :=
        resolved.forwards callback argument op earlier bound completes
      exact ⟨future, target.trans associated, settles.later (executed.later future)⟩
  · intro completed
    rw [(status recovered).1] at completed
    obtain ⟨op, settles, justified⟩ := resolved.completed completed
    exact ⟨op, settles.later (executed.later recovered), mono justified⟩
  · intro future associated
    rw [target] at associated
    rw [(status source).1, (status source).2.2]
    exact (resolved.target future associated).imp_left (returned _)
  · rw [(status source).1, (status source).2.2, (status recovered).1, associated]
    exact resolved.guarded

/-- The promise gets associated. -/
theorem Resolved.associate {future : FutureId} {rest : Multiset (RecoverBody α)}
    {made : List (FutureId × Op α RecoverCallback)}
    (resolved : Resolved before) (counted : Counted before) (sound : before.Sound)
    (executed : Executed before after (.associate future) rest made [])
    (pending : (before.status recovered).state = .pending)
    (unassociated : (before.status recovered).associated = false)
    (env : after.env = { before.env with target := some future })
    (associated : (after.status recovered).associated = true)
    (calls : ∀ op, (recovered, op) ∈ made → op.completes = false) : Resolved after := by
  have member : .associate future ∈ before.bodies := by
    rw [executed.running]
    exact Multiset.mem_cons_self _ _
  obtain ⟨unreturned, origin⟩ := resolved.unreturned counted sound member pending unassociated
  have untargeted : before.env.target = none := by
    have same := resolved.associated
    rw [unassociated] at same
    simpa using same.symm
  have keeps : ∀ frame, frame ∈ after.bodies → frame ∈ before.bodies := by
    intro frame present
    rw [executed.bodies] at present
    rw [executed.running]
    exact Multiset.mem_cons_of_mem (by simpa using present)
  have status := executed.status
  refine ⟨?_, ?_, ?_, ?_, ?_, ?_, ?_, ?_⟩
  · rw [associated, env]
    rfl
  · rw [env]
    exact fun value present => resolved.sets value (keeps _ present)
  · rw [env, (status source).1]
    exact fun other present => resolved.associates other (keeps _ present)
  · intro op present completes
    rw [executed.calls] at present
    rcases Multiset.mem_add.mp present with new | earlier
    · rw [calls op new] at completes
      exact absurd completes (by simp)
    · rcases resolved.calls op earlier completes with ⟨-, value, -, returned⟩ | ⟨target, some, -⟩
      · exact absurd returned (unreturned value)
      · simp [untargeted] at some
  · intro callback argument op present bound completes
    obtain ⟨target, some, -⟩ :=
      resolved.forwards callback argument op (keeps _ present) bound completes
    simp [untargeted] at some
  · intro completed
    rw [(status recovered).1] at completed
    exact absurd pending completed
  · rw [env, (status source).1, (status source).2.2]
    rintro other ⟨⟩
    exact origin
  · rw [(status source).1, (status source).2.2]
    intro abandoned completed
    exact ⟨(resolved.guarded abandoned completed).1, .inr associated⟩

theorem Resolved.executed {frame : RecoverBody α} {rest : Multiset (RecoverBody α)}
    {made : List (FutureId × Op α RecoverCallback)} {entered : List (RecoverBody α)}
    (resolved : Resolved before) (counted : Counted before) (sound : before.Sound)
    (executed : Executed before after frame rest made entered) : Resolved after := by
  have moves := executed.moves
  have member : frame ∈ before.bodies := by
    rw [executed.running]
    exact Multiset.mem_cons_self _ _
  rcases moves.association with ⟨target, associated⟩ |
      ⟨future, rfl, rfl, pending, unassociated, env, associated⟩
  · refine resolved.kept executed target associated moves.returned moves.sets ?_
      moves.not_bound ?_
    · intro future new
      refine (moves.associate_mem new).imp_right ?_
      rintro ⟨rfl, rfl, unrecovered⟩
      exact ⟨rfl, counted.ready sound member unrecovered⟩
    · intro op new completes
      rcases moves.completing new completes with ⟨value, rfl, rfl, unassociated⟩ |
          ⟨callback, argument, rfl, bound⟩
      · refine .inl ⟨?_, value, rfl, resolved.sets value member⟩
        have same := resolved.associated
        rw [unassociated] at same
        simpa using same.symm
      · exact .inr (resolved.forwards callback argument op member bound completes)
  · refine resolved.associate counted sound executed pending unassociated env associated ?_
    intro op new
    by_contra completes
    rcases moves.completing new (by simpa using completes) with ⟨_, impossible, _⟩ |
        ⟨_, _, impossible, _⟩ <;> simp at impossible

/-! ### Nothing returned is lost -/

/-- A mirrored completion reaches a bound function that forwards it. -/
theorem mirror_forwards (recovered : FutureId) {status : Status α} {future : FutureId}
    {kind : CallbackKind}
    {callback : RecoverCallback} (mirrors : mirror kind = some callback)
    (fires : status.fires kind = true) (fits : status.result.Fits status.state) :
    Recover.invoke future (argument future kind status.result) callback =
        .bound callback (argument future kind status.result) ∧
      ∃ op, bound recovered callback (argument future kind status.result) =
        some (recovered, op) ∧ op.completes = true := by
  cases kind <;> simp only [mirror, Option.some.injEq, reduceCtorEq] at mirrors
  case onReady =>
    subst callback
    have ready : status.state = .ready := by simpa [Status.fires] using fires
    simp only [ready, Result.Fits] at fits
    obtain ⟨value, stored⟩ := fits
    rw [stored]
    exact ⟨rfl, .set value, rfl, rfl⟩
  case onFailed =>
    subst callback
    have failed : status.state = .failed := by simpa [Status.fires] using fires
    simp only [failed, Result.Fits] at fits
    obtain ⟨message, stored⟩ := fits
    rw [stored]
    exact ⟨rfl, .fail message, rfl, rfl⟩
  case onDiscarded =>
    subst callback
    exact ⟨rfl, .discarded, rfl, rfl⟩

theorem mirror_tracked {kind : CallbackKind} {callback : RecoverCallback}
    (mirrors : mirror kind = some callback) : kind ≠ .onDiscard := by
  rintro rfl
  simp [mirror] at mirrors

theorem Delivered.ran {future : FutureId} {kind : CallbackKind}
    {registration : Registration RecoverCallback} (delivered : Delivered before)
    (sound : before.Sound) (ran : Ran before after future kind registration) :
    Delivered after := by
  have grows : ∀ frame ∈ before.bodies, frame ∈ after.bodies := by
    intro frame member
    rw [ran.bodies]
    exact Multiset.mem_cons_of_mem member
  refine ⟨?_, ?_, ?_, ?_⟩
  · rw [ran.env, ran.calls, ran.status]
    exact fun value member => (delivered.value value member).imp_left (grows _)
  · rw [ran.env]
    exact fun other member => (delivered.future other member).imp_left (grows _)
  · rw [ran.env, ran.calls, ran.registered]
    exact delivered.mirrored
  · intro invocation member mirrors
    rw [ran.log] at member
    rcases List.mem_cons.mp member with rfl | earlier
    · obtain ⟨enters, op, forwards, completes⟩ := mirror_forwards recovered
        mirrors (ran.fires fun untracked => absurd untracked (mirror_tracked mirrors))
          (sound.result future)
      refine .inl ⟨_, _, op, ?_, forwards, completes⟩
      rw [ran.bodies, ← enters]
      exact Multiset.mem_cons_self _ _
    · rcases delivered.forwarded invocation earlier mirrors with
        ⟨callback, argument, op, running, forwards⟩ | calls | completed
      · exact .inl ⟨callback, argument, op, grows _ running, forwards⟩
      · refine .inr (.inl ?_)
        rw [ran.calls]
        exact calls
      · refine .inr (.inr ?_)
        rw [ran.status]
        exact completed

theorem Delivered.entered {future : FutureId} {op : Op α RecoverCallback}
    (delivered : Delivered before) (entered : Entered before after future op) :
    Delivered after := by
  refine ⟨?_, ?_, ?_, ?_⟩
  · rw [entered.env, entered.bodies]
    intro value returned
    rcases delivered.value value returned with running | called | completed
    · exact .inl running
    · rcases entered.remains called with ⟨rfl, rfl⟩ | remains
      · exact .inr (.inr (entered.completed rfl))
      · exact .inr (.inl remains)
    · exact .inr (.inr (entered.keeps completed))
  · rw [entered.env, entered.bodies]
    exact delivered.future
  · rw [entered.env]
    intro target associated kind callback mirrors
    obtain ⟨ticket, filed⟩ := entered.filed
    rcases delivered.mirrored target associated kind callback mirrors with
      called | ⟨earlier, registered⟩
    · rcases entered.remains called with ⟨rfl, rfl⟩ | remains
      · exact .inr ⟨ticket, by simp [filed, Snapshot.filed]⟩
      · exact .inl remains
    · refine .inr ⟨earlier, ?_⟩
      rw [filed]
      cases op <;> simp [Snapshot.filed, registered]
  · rw [entered.log]
    intro invocation member mirrors
    rcases delivered.forwarded invocation member mirrors with
      ⟨callback, argument, other, running, forwards⟩ | ⟨other, called, completes⟩ | completed
    · refine .inl ⟨callback, argument, other, ?_, forwards⟩
      rw [entered.bodies]
      exact running
    · rcases entered.remains called with ⟨rfl, rfl⟩ | remains
      · exact .inr (.inr (entered.completed completes))
      · exact .inr (.inl ⟨other, remains, completes⟩)
    · exact .inr (.inr (entered.keeps completed))

/-- What the callable returned decides how its promise is resolved. -/
theorem Resolved.unassociated (resolved : Resolved before) (counted : Counted before)
    (sound : before.Sound) {value : α} (returned : .value value ∈ before.env.returned) :
    (before.status recovered).associated = false := by
  by_contra associated
  have same := resolved.associated
  rw [Bool.eq_true_of_not_eq_false associated] at same
  obtain ⟨future, target⟩ := Option.isSome_iff_exists.mp same.symm
  rcases resolved.target future target with other | ⟨-, ready, intact⟩
  · have equal := returned_unique counted resolved sound returned other
    simp at equal
  · rw [returned_ready counted sound ready intact] at returned
    simp at returned

theorem Resolved.associated_with (resolved : Resolved before) (counted : Counted before)
    (sound : before.Sound) {future : FutureId} (returned : .future future ∈ before.env.returned)
    (resolves : (before.status recovered).state ≠ .pending ∨
      (before.status recovered).associated = true) :
    before.env.target = some future := by
  have unique : ∀ other, before.env.target = some other → other = future := by
    intro other target
    rcases resolved.target other target with member | ⟨-, ready, intact⟩
    · have equal := returned_unique counted resolved sound returned member
      simpa using equal.symm
    · rw [returned_ready counted sound ready intact] at returned
      simp at returned
  rcases resolves with completed | associated
  · obtain ⟨op, -, ⟨-, value, -, member⟩ | ⟨other, target, -⟩⟩ := resolved.completed completed
    · have equal := returned_unique counted resolved sound returned member
      simp at equal
    · rw [target, unique other target]
  · have same := resolved.associated
    rw [associated] at same
    obtain ⟨other, target⟩ := Option.isSome_iff_exists.mp same.symm
    rw [target, unique other target]

theorem Delivered.executed {frame : RecoverBody α} {rest : Multiset (RecoverBody α)}
    {made : List (FutureId × Op α RecoverCallback)} {entered : List (RecoverBody α)}
    (delivered : Delivered before) (resolved : Resolved before) (counted : Counted before)
    (sound : before.Sound) (executed : Executed before after frame rest made entered) :
    Delivered after := by
  have moves := executed.moves
  have remains : ∀ body ∈ before.bodies, body = frame ∨ body ∈ after.bodies := by
    intro body member
    rw [executed.running] at member
    rw [executed.bodies]
    exact (Multiset.mem_cons.mp member).imp_right (Multiset.mem_add.mpr ∘ .inr)
  have enters : ∀ body ∈ entered, body ∈ after.bodies := by
    intro body member
    rw [executed.bodies]
    exact Multiset.mem_add.mpr (.inl member)
  have called : ∀ call, call ∈ made ∨ call ∈ before.calls → call ∈ after.calls := by
    intro call member
    rw [executed.calls]
    exact Multiset.mem_add.mpr member
  have target : ∀ {future}, before.env.target = some future →
      after.env.target = some future := by
    intro future associated
    rcases executed.target resolved with same | none
    · exact same.trans associated
    · simp [none] at associated
  have state := (executed.status recovered).1
  refine ⟨?_, ?_, ?_, ?_⟩
  · intro value returned
    rw [state]
    rcases moves.returns returned with earlier | new
    · rcases delivered.value value earlier with running | call | completed
      · rcases remains _ running with rfl | running
        · rcases moves.of_set with call | associated
          · exact .inr (.inl (called _ (.inl call)))
          · simp [resolved.unassociated counted sound earlier] at associated
        · exact .inl running
      · exact .inr (.inl (called _ (.inr call)))
      · exact .inr (.inr completed)
    · exact .inl (enters _ new)
  · intro future returned
    rcases moves.returns returned with earlier | new
    · rcases delivered.future future earlier with running | associated
      · rcases remains _ running with rfl | running
        · refine .inr ?_
          rcases moves.of_associate with associated | resolves
          · exact associated
          · exact target (resolved.associated_with counted sound earlier resolves)
        · exact .inl running
      · exact .inr (target associated)
    · exact .inl (enters _ new)
  · rw [executed.registered]
    intro future associated kind callback mirrors
    rcases moves.mirrors associated with earlier | new
    · exact (delivered.mirrored future earlier kind callback mirrors).imp_left
        (called _ ∘ .inr)
    · exact .inl (called _ (.inl (new kind callback mirrors)))
  · rw [executed.log]
    intro invocation member mirrors
    rcases delivered.forwarded invocation member mirrors with
      ⟨callback, argument, op, running, forwards, completes⟩ | ⟨op, call, completes⟩ | completed
    · rcases remains _ running with rfl | running
      · exact .inr (.inl ⟨op, called _ (.inl (moves.of_bound forwards completes)), completes⟩)
      · exact .inl ⟨callback, argument, op, running, forwards, completes⟩
    · exact .inr (.inl ⟨op, called _ (.inr call), completes⟩)
    · refine .inr (.inr ?_)
      rw [state]
      exact completed
/-- What every step keeps. -/
structure Invariant (snapshot : RecoverSnapshot α source recovered) : Prop where
  counted : Counted snapshot
  placed : Placed snapshot
  resolved : Resolved snapshot
  delivered : Delivered snapshot

theorem Invariant.initial {machine : Machine (recovery α source recovered)}
    (initial : machine.Initial) : Invariant machine.snapshot := by
  obtain ⟨env, filed, invocations, calls, bodies, pending, -, associated⟩ := initial.blank
  have environment : machine.snapshot.env = ⟨false, 0, [], none⟩ := env
  have status : ∀ future, (machine.memory.data future).state = .pending ∧
      (machine.memory.data future).associated = false :=
    fun future => ⟨pending future, associated future⟩
  constructor
  · constructor <;>
      simp [calls, bodies, environment, filed, invocations, frames, registering,
        Snapshot.registrations, Snapshot.invoked]
  · constructor <;> simp [calls, filed]
  · constructor <;> simp [calls, bodies, environment, status]
  · constructor <;> simp [environment, invocations]

theorem Invariant.step {before after : RecoverSnapshot α source recovered}
    {frame : (recovery α source recovered).Frame} (sound : before.Sound)
    (invariant : Invariant before)
    (permitted : ∀ future op, frame = .enter future op →
      Guarded source recovered before.status future op)
    (step : before.Step frame after) : Invariant after := by
  obtain ⟨counted, placed, resolved, delivered⟩ := invariant
  rcases step_cases step with rfl | ⟨future, op, called, entered⟩ |
      ⟨future, kind, registration, ran⟩ | ⟨body, rest, made, opened, executed⟩
  · exact ⟨counted, placed, resolved, delivered⟩
  · exact ⟨counted.entered sound entered, placed.entered entered,
      resolved.entered entered (permitted future op called), delivered.entered entered⟩
  · exact ⟨counted.ran placed ran, placed.ran ran, resolved.ran placed sound ran,
      delivered.ran sound ran⟩
  · exact ⟨counted.executed executed, placed.executed resolved executed,
      resolved.executed counted sound executed,
      delivered.executed resolved counted sound executed⟩

theorem Invariant.spawn {before after : RecoverSnapshot α source recovered}
    (invariant : Invariant before)
    (spawned : after = { before with bodies := .other ::ₘ before.bodies }) :
    Invariant after := by
  obtain ⟨counted, placed, resolved, delivered⟩ := invariant
  subst after
  refine ⟨?_, ⟨placed.registered, placed.calls⟩, ?_, ?_⟩
  · obtain ⟨any, abandoned, entries, balance, yields⟩ := counted
    refine ⟨any, abandoned, ?_, ?_, ?_⟩ <;>
      simpa [RecoverBody.entry, RecoverBody.committed, RecoverBody.running]
  · obtain ⟨associated, sets, associates, calls, forwards, completed, target, guarded⟩ := resolved
    refine ⟨associated, ?_, ?_, calls, ?_, completed, target, guarded⟩ <;> simpa
  · obtain ⟨value, future, mirrored, forwarded⟩ := delivered
    refine ⟨?_, ?_, mirrored, ?_⟩
    · simpa using value
    · simpa using future
    · intro invocation member mirrors
      simpa [Arriving] using forwarded invocation member mirrors

theorem Invariant.of_reaches {machine : Machine (recovery α source recovered)}
    (reached : (futures (recovery α source recovered)).Reaches
      (Machine.Meets (Guarded source recovered)) machine) : Invariant machine.snapshot :=
  Machine.snapshot_invariant Invariant (fun _ => Invariant.initial)
    (fun _ invariant => invariant.spawn rfl)
    (fun _ _ _ sound _ invariant permitted step => invariant.step sound permitted step) reached

end Recover

end Libprocess
