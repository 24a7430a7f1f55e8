import Libprocess.Future.Client

/-!
# Who a callback is registered on

Code that registers one callback on several futures counts the futures that have invoked it.  The
futures a callback is registered on, or is about to be, are a multiset, and so are the futures that
have invoked it: a future on which it was registered twice is in there twice.
-/

namespace Libprocess

variable {α : Type} {code : Code α} [DecidableEq code.Callback]

/-- The future of a registration of the callback. -/
def subscription (kind : CallbackKind) (callback : code.Callback)
    (entry : FutureId × CallbackKind × Registration code.Callback) : Option FutureId :=
  if entry.2.1 = kind ∧ entry.2.2.callback = callback then some entry.1 else none

/-- The future of a call that will register the callback. -/
def subscribing (kind : CallbackKind) (callback : code.Callback)
    (call : FutureId × Op α code.Callback) : Option FutureId :=
  match call.2 with
  | .on registered other => if registered = kind ∧ other = callback then some call.1 else none
  | _ => none

theorem subscription_eq_some {kind : CallbackKind} {callback : code.Callback}
    {entry : FutureId × CallbackKind × Registration code.Callback} {future : FutureId} :
    subscription kind callback entry = some future ↔
      entry.1 = future ∧ entry.2.1 = kind ∧ entry.2.2.callback = callback := by
  simp [subscription, and_comm]

/-- The future of an invocation of the callback. -/
def notification (kind : CallbackKind) (callback : code.Callback)
    (invocation : Invocation α code.Callback) : Option FutureId :=
  subscription kind callback invocation.entry

namespace Snapshot

variable {before after snapshot : Snapshot code} {kind : CallbackKind} {callback : code.Callback}
  {future : FutureId}

/-- The futures that the callback is registered on, or is about to be. -/
def subscribed (snapshot : Snapshot code) (kind : CallbackKind) (callback : code.Callback) :
    Multiset FutureId :=
  snapshot.calls.filterMap (subscribing kind callback) +
    ↑(snapshot.registered.filterMap (subscription kind callback))

/-- The futures that have invoked the callback. -/
def notified (snapshot : Snapshot code) (kind : CallbackKind) (callback : code.Callback) :
    Multiset FutureId :=
  ↑(snapshot.log.filterMap (notification kind callback))

/-- The futures that the made calls will register the callback on. -/
def subscriptions (code : Code α) [DecidableEq code.Callback]
    (made : List (FutureId × Op α code.Callback)) (kind : CallbackKind)
    (callback : code.Callback) : Multiset FutureId :=
  ↑(made.filterMap (subscribing kind callback))

theorem notified_congr (log : after.log = before.log) (kind : CallbackKind)
    (callback : code.Callback) :
    after.notified kind callback = before.notified kind callback := by
  simp only [notified, log]

theorem subscribed_congr (calls : after.calls = before.calls)
    (registered : after.registered = before.registered) (kind : CallbackKind)
    (callback : code.Callback) :
    after.subscribed kind callback = before.subscribed kind callback := by
  simp only [subscribed, calls, registered]

/-- The calls of a step of the code come to what was subscribed. -/
theorem subscribed_add {made : List (FutureId × Op α code.Callback)}
    (calls : after.calls = ↑made + before.calls)
    (registered : after.registered = before.registered) (kind : CallbackKind)
    (callback : code.Callback) :
    after.subscribed kind callback =
      subscriptions code made kind callback + before.subscribed kind callback := by
  simp only [subscribed, subscriptions, calls, registered, Multiset.filterMap_add,
    Multiset.filterMap_coe]
  exact Multiset.add_assoc _ _ _

/-- Calls that do not register the callback subscribe nothing. -/
theorem subscriptions_eq_zero {made : List (FutureId × Op α code.Callback)}
    (plain : ∀ call ∈ made, ∀ kind, call.2 ≠ .on kind callback) :
    subscriptions code made kind callback = 0 := by
  refine (Multiset.coe_eq_zero _).mpr (List.filterMap_eq_nil_iff.mpr ?_)
  rintro ⟨target, op⟩ member
  cases op with
  | on registered other =>
      refine if_neg ?_
      rintro ⟨-, rfl⟩
      exact plain _ member registered rfl
  | set | fail | discarded | discard | abandon => rfl

/-- A callback that nobody has registered or is about to register is subscribed nowhere. -/
theorem subscribed_eq_zero (calls : ∀ call ∈ snapshot.calls, ∀ kind, call.2 ≠ .on kind callback)
    (registered : ∀ entry ∈ snapshot.registered, entry.2.2.callback ≠ callback) :
    snapshot.subscribed kind callback = 0 := by
  refine Multiset.eq_zero_of_forall_notMem fun future member => ?_
  cases Multiset.mem_add.mp member with
  | inl called =>
      obtain ⟨⟨target, op⟩, present, shown⟩ := (Multiset.mem_filterMap _ _).mp called
      cases op with
      | on kind other =>
          simp only [subscribing, Option.ite_none_right_eq_some, Option.some.injEq] at shown
          obtain ⟨⟨-, rfl⟩, -⟩ := shown
          exact calls _ present kind rfl
      | set | fail | discarded | discard | abandon => cases shown
  | inr filed =>
      obtain ⟨entry, present, shown⟩ := List.mem_filterMap.mp filed
      exact registered entry present (subscription_eq_some.mp shown).2.2

theorem mem_subscribed {registration : Registration code.Callback}
    (registered : (future, kind, registration) ∈ snapshot.registered) :
    future ∈ snapshot.subscribed kind registration.callback :=
  Multiset.mem_add.mpr (.inr (List.mem_filterMap.mpr
    ⟨_, registered, subscription_eq_some.mpr ⟨rfl, rfl, rfl⟩⟩))

/-- Registering a callback is what the call was about to do. -/
theorem Entered.subscribed {op : Op α code.Callback} (entered : Entered before after future op)
    (kind : CallbackKind) (callback : code.Callback) :
    after.subscribed kind callback = before.subscribed kind callback := by
  obtain ⟨ticket, filed⟩ := entered.filed
  simp only [Snapshot.subscribed, entered.calls, filed]
  cases op with
  | on registered other =>
      simp only [Snapshot.filed]
      by_cases same : registered = kind ∧ other = callback
      · rw [Multiset.filterMap_cons_some _ _ _ (show _ = some future by simp [subscribing, same]),
          List.filterMap_cons_some (show _ = some future by simp [subscription, same]),
          ← Multiset.cons_coe, Multiset.add_cons, Multiset.cons_add]
      · rw [Multiset.filterMap_cons_none _ _ (by simp [subscribing, same]),
          List.filterMap_cons_none (by simp [subscription, same])]
  | set | fail | discarded | discard | abandon =>
      rw [Multiset.filterMap_cons_none _ _ rfl]
      rfl

theorem Ran.subscribed {other : FutureId} {kind' : CallbackKind}
    {registration : Registration code.Callback} (ran : Ran before after other kind' registration)
    (kind : CallbackKind) (callback : code.Callback) :
    after.subscribed kind callback = before.subscribed kind callback :=
  subscribed_congr ran.calls ran.registered kind callback

theorem Ran.notified {registration : Registration code.Callback} {kind' : CallbackKind}
    (ran : Ran before after future kind' registration) (kind : CallbackKind)
    (callback : code.Callback) :
    after.notified kind callback =
      if kind' = kind ∧ registration.callback = callback then
        future ::ₘ before.notified kind callback
      else before.notified kind callback := by
  simp only [Snapshot.notified, ran.log]
  split
  · rename_i same
    have shown : notification kind callback ⟨future, kind', registration,
        argument future kind' (before.status future).result⟩ = some future :=
      subscription_eq_some.mpr ⟨rfl, same⟩
    rw [List.filterMap_cons_some shown]
    rfl
  · rename_i different
    rw [List.filterMap_cons_none
      (by simp [notification, subscription, Invocation.entry, different])]

/-- Nothing is invoked more often than it was registered. -/
theorem Sound.notified_le (sound : snapshot.Sound) (tracked : kind ≠ .onDiscard)
    (callback : code.Callback) :
    snapshot.notified kind callback ≤ snapshot.subscribed kind callback := by
  refine (sound.filterMap_le (subscription kind callback) ?_).trans (Multiset.le_add_left _ _)
  intro entry shown
  obtain ⟨future, found⟩ := Option.isSome_iff_exists.mp shown
  rw [(subscription_eq_some.mp found).2.1]
  exact tracked

/-- The event of a callback that was invoked has happened. -/
theorem Sound.fires_of_notified (sound : snapshot.Sound) (tracked : kind ≠ .onDiscard)
    (member : future ∈ snapshot.notified kind callback) :
    (snapshot.status future).fires kind = true := by
  by_contra unfired
  have none := sound.unfired future kind (fun registration => registration.callback = callback)
    (fun discard => absurd discard tracked) (by simpa using unfired)
  obtain ⟨invocation, logged, shown⟩ := List.mem_filterMap.mp member
  obtain ⟨same, kinds, callbacks⟩ := subscription_eq_some.mp shown
  refine absurd none (Nat.ne_of_gt (List.countP_pos_iff.mpr ⟨invocation, logged, ?_⟩))
  simp_all [Invocation.entry]

end Snapshot

/-- A future that is quiescent, and whose event has happened, has invoked the callback as often as
it was registered. -/
theorem Machine.Invariant.notified_eq {machine : Machine code} (invariant : Invariant machine)
    {kind : CallbackKind} (tracked : kind ≠ .onDiscard) (callback : code.Callback)
    {future : FutureId} (quiescent : machine.Quiescent future)
    (fires : (machine.snapshot.status future).fires kind = true) :
    (machine.snapshot.notified kind callback).count future =
      (machine.snapshot.subscribed kind callback).count future := by
  have invoked := invariant.invoked_of_fires quiescent kind (fun discard => absurd discard tracked)
    fires (fun registration => registration.callback = callback)
  have calls : (machine.snapshot.calls.filterMap (subscribing kind callback)).count future = 0 := by
    refine Multiset.count_eq_zero.mpr fun member => ?_
    obtain ⟨⟨other, op⟩, called, shown⟩ := Multiset.mem_filterMap _ _ |>.mp member
    cases op with
    | on registered callback =>
        simp only [subscribing, Option.ite_none_right_eq_some, Option.some.injEq] at shown
        obtain ⟨-, rfl⟩ := shown
        exact quiescent.no_call _ called
    | _ => cases shown
  rw [Snapshot.subscribed, Multiset.count_add, calls, Nat.zero_add]
  simp only [Snapshot.notified, Multiset.coe_count, List.count, List.countP_filterMap]
  refine Eq.trans ?_ (invoked.trans ?_)
  · refine List.countP_congr fun invocation _ => ?_
    by_cases same : invocation.kind = kind ∧ invocation.registration.callback = callback
    · simp [notification, subscription, Invocation.entry, same]
    · have hidden : notification kind callback invocation = none := if_neg same
      rw [hidden]
      simpa using fun _ => not_and.mp same
  · refine List.countP_congr fun entry _ => ?_
    by_cases same : entry.2.1 = kind ∧ entry.2.2.callback = callback
    · simp [subscription, same]
    · have hidden : subscription kind callback entry = none := if_neg same
      rw [hidden]
      simpa using fun _ => not_and.mp same

end Libprocess
