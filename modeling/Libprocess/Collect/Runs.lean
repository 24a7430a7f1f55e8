import Libprocess.Collect.Wrappers

/-!
# Every state of `collect` and `await`

What is known of a process and of a derived future holds when they are made.  Together with the
calls of the variadic `collect` this is the invariant of all runs.
-/

namespace Libprocess

variable {T : Type}

open Snapshot (Entered Ran)

namespace Gather

variable {before after : GatherSnapshot T} {status : Statuses T} {next : GatherEnv T}
  {name derived parent future : FutureId} {served : GatherProcess T} {continuation : Continuation}
  {body : GatherBody T} {rest : Multiset (GatherBody T)} {made : Calls T}
  {entered : List (GatherBody T)}

section Construct

/-- A step constructs a process. -/
structure Constructs (before : GatherSnapshot T) (name : FutureId) (served : GatherProcess T)
    (made : Calls T) (entered : List (GatherBody T)) : Prop where
  members : ∃ gathering futures, served = construct gathering futures ∧ futures ≠ []
  unmade : unmade before.status before.env name = true
  entered : entered = [.spawn name, .user]
  made : ∀ call ∈ made, touches name call = false

theorem Kept.constructs (moves : Moves before.status before.env body next made entered)
    (unknown : before.env.process name = none) (found : next.process name = some served) :
    Constructs before name served made entered := by
  have same : before.env.process name ≠ some served := by simp [unknown]
  cases moves with
  | @acts other _ process stored _ _ known acts =>
      exfalso
      simp only [store] at found
      by_cases equal : name = other
      · rw [equal, known] at unknown
        cases unknown
      · rw [Function.update_of_ne equal] at found
        exact same found
  | @gather gathering futures result fresh known some =>
      simp only [store, assign] at found
      by_cases equal : name = result
      · subst equal
        rw [Function.update_self, Option.some.injEq] at found
        exact ⟨⟨gathering, futures, found.symm, some⟩, fresh, rfl, by simp⟩
      · rw [Function.update_of_ne equal] at found
        exact absurd found same
  | @variadic call fits some =>
      simp only [store, prepare] at found
      by_cases equal : name = call.gathered
      · subst equal
        rw [Function.update_self, Option.some.injEq] at found
        exact ⟨⟨.collect, call.wrappers, found.symm, some⟩,
          fits.unmade _ (by simp [Variadic.made]), rfl, touches_derivations⟩
      · rw [Function.update_of_ne equal] at found
        exact absurd found same
  | _ => exact absurd found same

/-- Nothing refers to a process that does not exist. -/
theorem Kept.subscribed_eq_zero (kept : Kept before) {callback : GatherCallback}
    (unowned : ¬ Owned before.env callback) (kind : CallbackKind) :
    before.subscribed kind callback = 0 := by
  apply Snapshot.subscribed_eq_zero
  · intro call called kind same
    exact unowned ((kept.calls call called).owned kind callback same)
  · intro entry filed same
    exact unowned (same ▸ (kept.registered entry filed).2)

theorem Kept.notified_eq_zero (kept : Kept before) (sound : before.Sound)
    {callback : GatherCallback} (unowned : ¬ Owned before.env callback) {kind : CallbackKind}
    (tracked : kind ≠ .onDiscard) : before.notified kind callback = 0 := by
  have among := sound.notified_le tracked callback
  rw [kept.subscribed_eq_zero unowned kind] at among
  exact Multiset.le_zero.mp among

theorem subscriptions_eq_zero {kind : CallbackKind} {callback : GatherCallback}
    (own : notifies name callback = true) (plain : ∀ call ∈ made, touches name call = false) :
    Snapshot.subscriptions (gathering T) made kind callback = 0 := by
  apply Snapshot.subscriptions_eq_zero
  rintro ⟨target, op⟩ member registered same
  have outside := plain _ member
  simp only at same
  rw [same] at outside
  exact absurd own (by simpa [touches] using outside)

/-- A call that completes a promise needs it. -/
theorem touches_of_completes {op : Op (Value T) GatherCallback} (completes : op.completes = true) :
    touches name (name, op) = true := by
  cases op <;> simp_all [touches, Op.completes]

/-- What is known of a process holds when it is constructed. -/
theorem Constructs.tracked (constructs : Constructs before name served made entered)
    (kept : Kept before) (sound : before.Sound)
    (executed : Executed before after body rest made entered) : Tracked after name served := by
  obtain ⟨⟨gathering, futures, rfl, some⟩, fresh, rfl, plain⟩ := constructs
  obtain ⟨unknown, unabandoned⟩ := unmade_iff.mp fresh
  have none := kept.not_process unknown
  obtain ⟨pending, unasked⟩ := kept.unmade name unknown
  have nobody : ∀ frame ∈ before.bodies, about name frame = false := by
    intro frame member
    have runs := kept.bodies frame member
    cases outside : about name frame with
    | false => rfl
    | true => cases frame <;> simp_all [about, handles, spawns, Runs]
  have others : ∀ frame ∈ rest, about name frame = false := fun frame member =>
    nobody frame (executed.mem_before.mpr (.inr member))
  have frames : ∀ frame ∈ after.bodies, about name frame = true → frame = .spawn name := by
    intro frame member own
    cases executed.mem_after.mp member with
    | inl enters =>
        cases List.mem_cons.mp enters with
        | inl spawn => exact spawn
        | inr user =>
            rw [List.mem_singleton.mp user] at own
            cases own
    | inr stays =>
        rw [others frame stays] at own
        cases own
  have subscribed : ∀ kind callback, notifies name callback = true →
      after.subscribed kind callback = 0 := by
    intro kind callback own
    have unowned : ¬ Owned before.env callback := by
      cases callback <;> simp_all [notifies, Owned]
    rw [Snapshot.subscribed_add executed.calls executed.registered,
      subscriptions_eq_zero own plain, kept.subscribed_eq_zero unowned]
    rfl
  have calls : ∀ op, touches name (name, op) = true → (name, op) ∉ after.calls := by
    intro op own member
    cases executed.mem_calls.mp member with
    | inl new =>
        rw [plain _ new] at own
        cases own
    | inr old => exact (kept.calls _ old).made unknown
  constructor
  · exact ⟨some, rfl, fun _ => ⟨rfl, List.length_pos_iff.mpr some⟩, fun _ => rfl, by simp [construct]⟩
  · constructor
    · refine Multiset.countP_eq_zero.mpr fun frame member handled => ?_
      have own : about name frame = true := by
        by_contra outside
        rw [handles_of_about (Bool.eq_false_of_not_eq_true outside)] at handled
        cases handled
      rw [frames frame member own] at handled
      cases handled
    · have outside := executed.exchange (spawns name)
      have zero : before.bodies.countP (fun frame => spawns name frame = true) = 0 :=
        Multiset.countP_eq_zero.mpr fun frame member spawned =>
          absurd spawned (by simpa using spawns_of_about (nobody frame member))
      have still : spawns name body = false :=
        spawns_of_about (nobody body (executed.mem_before.mpr (.inl rfl)))
      rw [zero, still] at outside
      simpa [spawns, construct] using outside
  · constructor
    · intro kind
      rw [subscribed kind _ (by simp [notifies])]
      simp [due, construct]
    · intro kind
      rw [subscribed kind _ (by simp [notifies])]
      simp [due, construct]
    · intro kind future member
      rw [subscribed kind _ (by simp [notifies])] at member
      cases Multiset.notMem_zero _ member
  · constructor
    · intro _ _
      rw [Snapshot.notified_congr executed.log,
        kept.notified_eq_zero sound (by simp [Owned, none]) (by decide)]
      have silent : after.bodies.filterMap (answer name) = 0 := by
        refine Multiset.eq_zero_of_forall_notMem fun future member => ?_
        obtain ⟨frame, present, shown⟩ := Multiset.mem_filterMap _ _ |>.mp member
        cases own : about name frame with
        | false =>
            rw [answer_of_about own] at shown
            cases shown
        | true =>
            rw [frames frame present own] at shown
            cases shown
      rw [silent]
      rfl
    · simp [construct]
  · have absent : ∀ frame, about name frame = true → frame ≠ .spawn name →
        frame ∉ after.bodies := fun frame own other member => other (frames frame member own)
    constructor <;> simp [construct, absent, about, handles]
  · have absent : ∀ frame, about name frame = true → frame ≠ .spawn name →
        frame ∉ after.bodies := fun frame own other member => other (frames frame member own)
    have unheard : after.notified .onAbandoned (.abandoned name) = 0 := by
      rw [Snapshot.notified_congr executed.log,
        kept.notified_eq_zero sound (by simp [Owned, none]) (by decide)]
    constructor <;> simp [construct, absent, about, unheard]
  · constructor
    · intro op member completes
      exact absurd member (calls op (touches_of_completes completes))
    · intro propagating member
      exact absurd member (calls _ (by simp [touches]))
    · simp [construct]
    · rw [executed.status]
      exact fun completed => absurd pending completed
    · rw [executed.status, unabandoned]
      simp
  · simp [construct]

end Construct

section Derive

/-- The derivations of a call of the variadic `collect`. -/
def pairs (call : Variadic) : List (FutureId × FutureId) :=
  call.wrappers.zip call.futures ++ [(call.result, call.gathered)]

theorem subscriptions_append (left right : Calls T) (kind : CallbackKind)
    (callback : GatherCallback) :
    Snapshot.subscriptions (gathering T) (left ++ right) kind callback =
      Snapshot.subscriptions (gathering T) left kind callback +
        Snapshot.subscriptions (gathering T) right kind callback := by
  simp [Snapshot.subscriptions]

/-- The parents among the derivations of one future. -/
theorem subscriptions_pairs (pairs : List (FutureId × FutureId)) {derived : FutureId}
    (kind : CallbackKind) {trigger : CallbackKind} {callback : GatherCallback}
    (settles : trigger = .onAny ∧ callback = .run derived ∨
      trigger = .onAbandoned ∧ callback = .abandon derived) :
    Snapshot.subscriptions (gathering T) (pairs.flatMap fun pair => derivation pair.2 pair.1) kind
        callback =
      if kind = trigger then ↑((pairs.filter fun pair => pair.1 = derived).map Prod.snd) else 0 := by
  obtain ⟨rfl, rfl⟩ | ⟨rfl, rfl⟩ := settles
  all_goals
    induction pairs with
    | nil => cases kind <;> rfl
    | cons pair rest ih =>
        rw [List.flatMap_cons, subscriptions_append, ih]
        by_cases same : pair.1 = derived <;> cases kind <;>
          simp [Snapshot.subscriptions, derivation, subscribing, same]

/-- A future is derived once. -/
theorem filter_of_nodup {pairs : List (FutureId × FutureId)} (nodup : (pairs.map Prod.fst).Nodup)
    (member : (derived, parent) ∈ pairs) :
    pairs.filter (fun pair => pair.1 = derived) = [(derived, parent)] := by
  obtain ⟨before, rest, rfl⟩ := List.append_of_mem member
  rw [List.map_append, List.map_cons, List.nodup_append] at nodup
  obtain ⟨-, later, apart⟩ := nodup
  have earlier : before.filter (fun pair => pair.1 = derived) = [] := by
    refine List.filter_eq_nil_iff.mpr fun pair listed same => ?_
    exact apart pair.1 (List.mem_map_of_mem listed) derived List.mem_cons_self (by simpa using same)
  have others : rest.filter (fun pair => pair.1 = derived) = [] := by
    refine List.filter_eq_nil_iff.mpr fun pair listed same => ?_
    have here : derived ∈ rest.map Prod.fst := by
      rw [← of_decide_eq_true same]
      exact List.mem_map_of_mem listed
    exact (List.nodup_cons.mp later).1 here
  rw [List.filter_append, List.filter_cons_of_pos (by simp), earlier, others]
  rfl

theorem Fits.keys {call : Variadic} (fits : Fits status next call) :
    ((pairs call).map Prod.fst).Nodup := by
  have keys : (call.wrappers.zip call.futures).map Prod.fst = call.wrappers :=
    List.map_fst_zip (Nat.le_of_eq fits.length)
  rw [pairs, List.map_append, keys]
  refine fits.nodup.sublist (List.Sublist.append_left ?_ _)
  exact List.Sublist.cons _ (List.Sublist.refl _)

/-- A step derives a future. -/
structure Derives (before : GatherSnapshot T) (derived parent : FutureId) (made : Calls T)
    (entered : List (GatherBody T)) : Prop where
  unmade : before.env.role derived = .unmade
  abandoned : (before.status derived).abandoned = false
  runs : ∀ kind, Snapshot.subscriptions (gathering T) made kind (.run derived) =
    if kind = .onAny then {parent} else 0
  abandons : ∀ kind, Snapshot.subscriptions (gathering T) made kind (.abandon derived) =
    if kind = .onAbandoned then {parent} else 0
  made : ∀ op, (derived, op) ∈ made → op.completes = false ∧
    ∀ propagating, op ≠ .abandon propagating
  entered : ∀ frame ∈ entered, settles derived frame = false

theorem derivation_open {op : Op (Value T) GatherCallback} {pairs : List (FutureId × FutureId)}
    (member : (derived, op) ∈ pairs.flatMap fun pair => derivation pair.2 pair.1) :
    op.completes = false ∧ ∀ propagating, op ≠ .abandon propagating := by
  obtain ⟨pair, -, listed⟩ := List.mem_flatMap.mp member
  simp only [derivation, List.mem_cons, Prod.mk.injEq, List.not_mem_nil, or_false] at listed
  obtain ⟨-, rfl⟩ | ⟨-, rfl⟩ | ⟨-, rfl⟩ := listed <;> simp [Op.completes]

/-- The derivations of the variadic `collect` derive what it prepares. -/
theorem derives_of_prepare {call : Variadic} (unknown : before.env.derived derived = none)
    (found : (prepare before.env call).derived derived = some (parent, continuation)) :
    (derived, parent) ∈ pairs call ∧ derived ∈ Variadic.made call := by
  obtain ⟨rfl, rfl, -⟩ | ⟨wrapper, -⟩ | old := prepare_derived found
  · exact ⟨List.mem_append_right _ List.mem_cons_self, by simp [Variadic.made]⟩
  · exact ⟨List.mem_append_left _ wrapper, List.mem_append_left _ (List.of_mem_zip wrapper).1⟩
  · rw [unknown] at old
    cases old

theorem Kept.derivation (moves : Moves before.status before.env body next made entered)
    (unknown : before.env.derived derived = none)
    (found : next.derived derived = some (parent, continuation)) :
    Derives before derived parent made entered := by
  cases moves with
  | @variadic call fits some =>
      obtain ⟨listed, member⟩ := derives_of_prepare unknown found
      obtain ⟨unmade, unabandoned⟩ := unmade_iff.mp (fits.unmade derived member)
      have once := filter_of_nodup fits.keys listed
      rw [derivations_eq]
      refine ⟨unmade, unabandoned, ?_, ?_, fun op => derivation_open, by simp [settles]⟩
      · intro kind
        rw [subscriptions_pairs _ _ (.inl ⟨rfl, rfl⟩), ← pairs, once]
        rfl
      · intro kind
        rw [subscriptions_pairs _ _ (.inr ⟨rfl, rfl⟩), ← pairs, once]
        rfl
  | @none call fits nothing =>
      obtain ⟨listed, member⟩ := derives_of_prepare unknown found
      obtain ⟨unmade, unabandoned⟩ := unmade_iff.mp (fits.unmade derived member)
      have only : pairs call = [(call.result, call.gathered)] := by simp [pairs, nothing]
      rw [only, List.mem_singleton] at listed
      cases listed
      have different : call.gathered ≠ call.result := by
        have pair := (List.nodup_append.mp fits.nodup).2.1
        simpa using pair
      refine ⟨unmade, unabandoned, ?_, ?_, ?_, by simp [settles]⟩
      · intro kind
        cases kind <;>
          simp [Snapshot.subscriptions, Gather.derivation, subscribing, List.filterMap_cons]
      · intro kind
        cases kind <;>
          simp [Snapshot.subscriptions, Gather.derivation, subscribing, List.filterMap_cons]
      · intro op member
        cases List.mem_cons.mp member with
        | inl own => exact absurd (Prod.mk.inj own).1 different.symm
        | inr last =>
            have listed : (call.result, op) ∈ [(call.result, call.gathered)].flatMap
                fun pair => Gather.derivation (T := T) pair.2 pair.1 := by
              simpa using last
            exact derivation_open listed
  | _ => exact absurd (unknown.symm.trans found) (by simp)

/-- What is known of a derived future holds when it is derived. -/
theorem Derives.wrapped (derives : Derives before derived parent made entered)
    (kept : Kept before) (sound : before.Sound)
    (executed : Executed before after body rest made entered) :
    Wrapped after derived parent continuation := by
  obtain ⟨unknown, unabandoned, runs, abandons, plain, enters⟩ := derives
  have none := kept.not_derived unknown
  obtain ⟨pending, -⟩ := kept.unmade derived unknown
  have frames : ∀ frame ∈ after.bodies, settles derived frame = false := by
    intro frame member
    cases executed.mem_after.mp member with
    | inl new => exact enters frame new
    | inr stays =>
        have runs := kept.bodies frame (executed.mem_before.mpr (.inr stays))
        cases own : settles derived frame with
        | false => rfl
        | true => cases frame <;> simp_all [settles, Runs]
  have calls : ∀ op, (derived, op) ∈ after.calls → op.completes = false ∧
      ∀ propagating, op ≠ .abandon propagating := by
    intro op member
    cases executed.mem_calls.mp member with
    | inl new => exact plain op new
    | inr old => exact absurd unknown (kept.calls _ old).made
  constructor
  · intro kind
    rw [Snapshot.subscribed_add executed.calls executed.registered, runs,
      kept.subscribed_eq_zero (by simp [Owned, none])]
    exact Multiset.add_zero _
  · intro kind
    rw [Snapshot.subscribed_add executed.calls executed.registered, abandons,
      kept.subscribed_eq_zero (by simp [Owned, none])]
    exact Multiset.add_zero _
  · intro member
    exact absurd (frames _ member) (by simp [settles])
  · intro member
    exact absurd (frames _ member) (by simp [settles])
  · intro op member completes
    rw [(calls op member).1] at completes
    cases completes
  · exact fun propagating member => absurd rfl ((calls _ member).2 propagating)
  · rw [executed.status]
    exact fun completed => absurd pending completed
  · rw [executed.status, unabandoned]
    simp
  · rw [Snapshot.notified_congr executed.log,
      kept.notified_eq_zero sound (by simp [Owned, none]) (by decide)]
    exact fun some => absurd rfl some
  · rw [Snapshot.notified_congr executed.log,
      kept.notified_eq_zero sound (by simp [Owned, none]) (by decide)]
    exact fun some => absurd rfl some

end Derive

end Gather

end Libprocess
