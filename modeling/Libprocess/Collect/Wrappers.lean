import Libprocess.Collect.Handlers

/-!
# Futures derived by `then`

The variadic `collect` derives a future from each of its futures, and its result from what it
collects.  A derived future says what its parent says, unless somebody asked to discard the parent.
-/

namespace Libprocess

variable {T : Type}

open Snapshot (Entered Ran)

namespace Gather

section Names

variable (derived : FutureId)

/-- The frames of the callbacks that have the promise of the derived future. -/
def settles : GatherBody T → Bool
  | .run other | .release other _ | .abandon other => other = derived
  | _ => false

/-- The call needs the promise, or registers one of the callbacks. -/
def concerns (call : FutureId × Op (Value T) GatherCallback) : Bool :=
  match call.2 with
  | .set _ | .fail _ | .discarded | .abandon _ => call.1 = derived
  | .discard => false
  | .on _ (.run other) | .on _ (.abandon other) => other = derived
  | .on _ _ => false

end Names

/-- What is known of a derived future. -/
structure Wrapped (snapshot : GatherSnapshot T) (derived parent : FutureId)
    (continuation : Continuation) : Prop where
  runs : ∀ kind, snapshot.subscribed kind (.run derived) =
    if kind = .onAny then {parent} else 0
  abandons : ∀ kind, snapshot.subscribed kind (.abandon derived) =
    if kind = .onAbandoned then {parent} else 0
  running : .run derived ∈ snapshot.bodies → (snapshot.status parent).state ≠ .pending
  abandoning : .abandon derived ∈ snapshot.bodies → (snapshot.status parent).abandoned = true
  completes : ∀ op, (derived, op) ∈ snapshot.calls → op.completes = true →
    ∃ completion, op = completion.op ∧ Follows snapshot.status parent continuation completion
  destroys : ∀ propagating, (derived, .abandon propagating) ∈ snapshot.calls →
    (snapshot.status derived).state ≠ .pending ∨ (snapshot.status parent).abandoned = true
  settled : (snapshot.status derived).state ≠ .pending → ∃ completion,
    Follows snapshot.status parent continuation completion ∧
      (snapshot.status derived).Settles (completion.op : Op (Value T) GatherCallback)
  abandoned : (snapshot.status derived).abandoned = true →
    (snapshot.status parent).abandoned = true
  ran : snapshot.notified .onAny (.run derived) ≠ 0 → .run derived ∈ snapshot.bodies ∨
    (∃ op, (derived, op) ∈ snapshot.calls ∧ op.completes = true) ∨
      (snapshot.status derived).state ≠ .pending
  lost : snapshot.notified .onAbandoned (.abandon derived) ≠ 0 →
    .abandon derived ∈ snapshot.bodies ∨ (derived, .abandon false) ∈ snapshot.calls ∨
      (snapshot.status derived).state ≠ .pending ∨ (snapshot.status derived).abandoned = true

section Steps

variable {before after : GatherSnapshot T} {status next : Statuses T} {env : GatherEnv T}
  {future derived parent : FutureId} {continuation : Continuation}
  {completion : Completion (Value T)}

theorem Follows.completed (follows : Follows status parent continuation completion) :
    (status parent).state ≠ .pending := by
  cases follows <;> simp_all

theorem Onward.follows (onward : Onward status next)
    (follows : Follows status parent continuation completion) :
    Follows next parent continuation completion := by
  have same := onward.fixed parent follows.completed
  cases follows with
  | nothing ready unasked => exact .nothing (same ▸ ready) (same ▸ unasked)
  | tuple ready unasked found => exact .tuple (same ▸ ready) (same ▸ unasked) (onward.gets found)
  | requested ready requested => exact .requested (same ▸ ready) (same ▸ requested)
  | failed failed error => exact .failed (same ▸ failed) (same ▸ error)
  | discarded discarded => exact .discarded (same ▸ discarded)

/-- An abandoning call abandons a pending future. -/
theorem enter_abandon {status : Status (Value T)} (unassociated : status.associated = false) :
    (status.enter (.abandon false : Op (Value T) GatherCallback)).state ≠ .pending ∨
      (status.enter (.abandon false : Op (Value T) GatherCallback)).abandoned = true := by
  by_cases pending : status.state = .pending
  · by_cases already : status.abandoned = true
    · simp [Status.enter, already]
    · right
      simp [Status.enter, pending, already, unassociated]
  · left
    rw [Status.enter_of_not_pending pending]
    exact pending

theorem Wrapped.of_entered {op : Op (Value T) GatherCallback}
    (wrapped : Wrapped before derived parent continuation)
    (unassociated : (before.status derived).associated = false)
    (entered : Entered before after future op) : Wrapped after derived parent continuation := by
  have onward := onward_of_entered entered
  have called : (future, op) ∈ before.calls := by
    rw [entered.calls]
    exact Multiset.mem_cons_self _ _
  have earlier : ∀ call ∈ after.calls, call ∈ before.calls := by
    intro call member
    rw [entered.calls]
    exact Multiset.mem_cons_of_mem member
  constructor
  · intro kind
    rw [entered.subscribed]
    exact wrapped.runs kind
  · intro kind
    rw [entered.subscribed]
    exact wrapped.abandons kind
  · rw [entered.bodies]
    exact fun running => onward.completed (wrapped.running running)
  · rw [entered.bodies]
    exact fun abandoning => (onward.later parent).abandoned (wrapped.abandoning abandoning)
  · intro op member completes
    obtain ⟨completion, same, follows⟩ := wrapped.completes op (earlier _ member) completes
    exact ⟨completion, same, onward.follows follows⟩
  · intro propagating member
    obtain completed | abandoned := wrapped.destroys propagating (earlier _ member)
    · exact .inl (onward.completed completed)
    · exact .inr ((onward.later parent).abandoned abandoned)
  · intro completed
    by_cases pending : (before.status derived).state = .pending
    · obtain ⟨rfl, completes, settles, -⟩ := entered.completes pending completed
      obtain ⟨completion, rfl, follows⟩ := wrapped.completes op called completes
      exact ⟨completion, onward.follows follows, settles⟩
    · obtain ⟨completion, follows, settles⟩ := wrapped.settled pending
      exact ⟨completion, onward.follows follows, settles.later (onward.later derived)⟩
  · intro abandoned
    by_cases already : (before.status derived).abandoned = true
    · exact (onward.later parent).abandoned (wrapped.abandoned already)
    · obtain ⟨rfl, propagating, rfl, pending⟩ := entered.abandons already abandoned
      obtain completed | lost := wrapped.destroys propagating called
      · exact absurd pending completed
      · exact (onward.later parent).abandoned lost
  · rw [entered.bodies, Snapshot.notified_congr entered.log]
    intro some
    obtain running | ⟨other, waits, completes⟩ | completed := wrapped.ran some
    · exact .inl running
    · obtain ⟨rfl, rfl⟩ | waits := entered.remains waits
      · exact .inr (.inr (entered.completed completes))
      · exact .inr (.inl ⟨other, waits, completes⟩)
    · exact .inr (.inr (onward.completed completed))
  · rw [entered.bodies, Snapshot.notified_congr entered.log]
    intro some
    obtain abandoning | waits | completed | abandoned := wrapped.lost some
    · exact .inl abandoning
    · obtain ⟨rfl, rfl⟩ | waits := entered.remains waits
      · rw [entered.status, Function.update_self]
        exact .inr (.inr (enter_abandon unassociated))
      · exact .inr (.inl waits)
    · exact .inr (.inr (.inl (onward.completed completed)))
    · exact .inr (.inr (.inr ((onward.later derived).abandoned abandoned)))

theorem Wrapped.of_ran {kind : CallbackKind} {registration : Registration GatherCallback}
    (wrapped : Wrapped before derived parent continuation)
    (ran : Ran before after future kind registration) :
    Wrapped after derived parent continuation := by
  have fires := ran.fires fun _ => ordered.disciplined future
  have own : ∀ callback, registration.callback = callback →
      ∀ other, before.subscribed kind callback = (if kind = other then {parent} else 0) →
        kind = other ∧ future = parent := by
    rintro callback rfl other subscribed
    have member := Snapshot.mem_subscribed ran.filed
    rw [subscribed] at member
    split at member
    · rename_i same
      exact ⟨same, Multiset.mem_singleton.mp member⟩
    · cases Multiset.notMem_zero _ member
  constructor
  · intro kind
    rw [ran.subscribed]
    exact wrapped.runs kind
  · intro kind
    rw [ran.subscribed]
    exact wrapped.abandons kind
  · rw [ran.bodies, ran.status]
    intro running
    cases Multiset.mem_cons.mp running with
    | inl new =>
        have called : registration.callback = .run derived := by
          cases callback : registration.callback <;> rw [callback] at new <;> cases new
          rfl
        obtain ⟨rfl, rfl⟩ := own _ called _ (wrapped.runs kind)
        simpa [Status.fires] using fires
    | inr old => exact wrapped.running old
  · rw [ran.bodies, ran.status]
    intro abandoning
    cases Multiset.mem_cons.mp abandoning with
    | inl new =>
        have called : registration.callback = .abandon derived := by
          cases callback : registration.callback <;> rw [callback] at new <;> cases new
          rfl
        obtain ⟨rfl, rfl⟩ := own _ called _ (wrapped.abandons kind)
        exact fires
    | inr old => exact wrapped.abandoning old
  · rw [ran.calls, ran.status]
    exact wrapped.completes
  · rw [ran.calls, ran.status]
    exact wrapped.destroys
  · rw [ran.status]
    exact wrapped.settled
  · rw [ran.status]
    exact wrapped.abandoned
  · rw [ran.notified, ran.bodies, ran.calls, ran.status]
    intro some
    by_cases called : kind = .onAny ∧ registration.callback = .run derived
    · refine .inl (Multiset.mem_cons.mpr (.inl ?_))
      rw [called.2]
      rfl
    · rw [if_neg called] at some
      obtain running | rest := wrapped.ran some
      · exact .inl (Multiset.mem_cons_of_mem running)
      · exact .inr rest
  · rw [ran.notified, ran.bodies, ran.calls, ran.status]
    intro some
    by_cases called : kind = .onAbandoned ∧ registration.callback = .abandon derived
    · refine .inl (Multiset.mem_cons.mpr (.inl ?_))
      rw [called.2]
      rfl
    · rw [if_neg called] at some
      obtain abandoning | rest := wrapped.lost some
      · exact .inl (Multiset.mem_cons_of_mem abandoning)
      · exact .inr rest

section Executed

variable {body : GatherBody T} {rest : Multiset (GatherBody T)} {made : Calls T}
  {entered : List (GatherBody T)}

/-- What a step does to a derived future: one of its callbacks runs, or nothing. -/
inductive Settling (status : Statuses T) (derived parent : FutureId) (continuation : Continuation) :
    GatherBody T → Calls T → List (GatherBody T) → Prop
  | settle {completion : Completion (Value T)} : Follows status parent continuation completion →
      Settling status derived parent continuation (.run derived) [(derived, completion.op)]
        [.release derived completion]
  | early : (status parent).state = .pending →
      Settling status derived parent continuation (.run derived) [(derived, .abandon false)] []
  | release {completion : Completion (Value T)} :
      Settling status derived parent continuation (.release derived completion)
        [(derived, .abandon false)] []
  | abandon : Settling status derived parent continuation (.abandon derived)
      [(derived, .abandon false)] []
  | apart {body : GatherBody T} {made : Calls T} {entered : List (GatherBody T)} :
      settles derived body = false → (∀ frame ∈ entered, settles derived frame = false) →
      (∀ call ∈ made, concerns derived call = false) →
      Settling status derived parent continuation body made entered

theorem concerns_completion (different : future ≠ derived) :
    concerns (T := T) derived (future, completion.op) = false := by
  cases completion <;> simpa [concerns, Completion.op] using different

theorem concerns_derivation {other : FutureId} (different : other ≠ derived) :
    ∀ call ∈ derivation (T := T) parent other, concerns derived call = false := by
  simp [derivation, concerns, different]

/-- A step of a process has nothing to do with a derived future. -/
theorem Acts.settling {name : FutureId} {process served : GatherProcess T}
    (acts : Acts status name body process served made entered) (different : name ≠ derived) :
    Settling status derived parent continuation body made entered := by
  cases acts with
  | start =>
      refine .apart rfl (by simp [settles]) ?_
      intro call member
      cases List.mem_cons.mp member with
      | inl own =>
          subst own
          rfl
      | inr rest =>
          obtain ⟨future, -, listed⟩ := List.mem_flatMap.mp rest
          simp only [List.mem_cons, List.not_mem_nil, or_false] at listed
          obtain rfl | rfl := listed <;> rfl
  | decide =>
      refine .apart rfl (by simp [settles]) ?_
      intro call member
      rw [List.mem_singleton.mp member]
      exact concerns_completion different
  | _ => exact .apart rfl (by simp [settles]) (by simp [concerns, different])

/-- The calls of the variadic `collect`, as one list of derivations. -/
theorem derivations_eq (call : Variadic) : derivations (T := T) call =
    (call.wrappers.zip call.futures ++ [(call.result, call.gathered)]).flatMap
      fun pair => derivation pair.2 pair.1 := by
  simp [derivations]

theorem concerns_derivations {call : Variadic}
    (different : ∀ future ∈ Variadic.made call, future ≠ derived) :
    ∀ made ∈ derivations (T := T) call, concerns derived made = false := by
  intro made member
  cases List.mem_append.mp member with
  | inl wrapped =>
      obtain ⟨⟨wrapper, future⟩, listed, here⟩ := List.mem_flatMap.mp wrapped
      exact concerns_derivation
        (different wrapper (List.mem_append_left _ (List.of_mem_zip listed).1)) made here
  | inr last => exact concerns_derivation (different _ (by simp [Variadic.made])) made last

theorem Kept.settling (kept : Kept before) (runs : Runs before.env body) {next : GatherEnv T}
    (moves : Moves before.status before.env body next made entered)
    (sound : ¬ Aborts before.status before.env body)
    (known : before.env.derived derived = some (parent, continuation)) :
    Settling before.status derived parent continuation body made entered := by
  obtain ⟨owned, -⟩ := kept.derived derived parent continuation known
  have differs : ∀ other, before.env.role other = .unmade → other ≠ derived := by
    rintro other unknown rfl
    exact owned.made unknown
  cases moves with
  | @acts name _ process served _ _ found acts =>
      apply acts.settling
      rintro rfl
      rw [(kept.process name process found).2.1] at known
      cases known
  | stray unknown | resumed unknown =>
      rw [Runs, unknown] at runs
      cases runs
  | request unknown =>
      rw [Runs, unknown] at runs
      cases runs.1
  | abort aborts => exact absurd aborts sound
  | promise | gather => exact .apart rfl (by simp [settles]) (by simp)
  | @call target op allowed =>
      refine .apart rfl (by simp [settles]) ?_
      intro call member
      rw [List.mem_singleton.mp member]
      by_cases same : target = derived
      · subst same
        obtain promised | ⟨-, shared⟩ := allowed
        · obtain returned | hidden := owned <;> simp_all
        · cases op <;> simp_all [Op.shared, Op.foreign, concerns]
      · cases op <;> simp [Op.foreign, concerns, same]
  | @empty gathering result fresh =>
      have different := differs result (unmade_iff.mp fresh).1
      exact .apart rfl (by simp [settles]) (by simp [concerns, different])
  | @none call fits =>
      have different : ∀ future ∈ Variadic.made call, future ≠ derived := fun future member =>
        differs future (unmade_iff.mp (fits.unmade future member)).1
      refine .apart rfl (by simp [settles]) ?_
      intro made member
      cases List.mem_cons.mp member with
      | inl own =>
          subst own
          simp [concerns, different call.gathered (by simp [Variadic.made])]
      | inr last => exact concerns_derivations different made (List.mem_append_right _ last)
  | @variadic call fits =>
      have different : ∀ future ∈ Variadic.made call, future ≠ derived := fun future member =>
        differs future (unmade_iff.mp (fits.unmade future member)).1
      exact .apart rfl (by simp [settles]) (concerns_derivations different)
  | finish => exact .apart rfl (by simp) (by simp)
  | @settle other parent' continuation' completion found follows =>
      by_cases same : other = derived
      · subst same
        rw [found] at known
        cases known
        exact .settle follows
      · refine .apart (by simp [settles, same]) (by simp [settles, same]) ?_
        intro call member
        rw [List.mem_singleton.mp member]
        exact concerns_completion same
  | @early other parent' continuation' found pending =>
      by_cases same : other = derived
      · subst same
        rw [found] at known
        cases known
        exact .early pending
      · exact .apart (by simp [settles, same]) (by simp) (by simp [concerns, same])
  | @release other =>
      by_cases same : other = derived
      · subst same
        exact .release
      · exact .apart (by simp [settles, same]) (by simp) (by simp [concerns, same])
  | @abandon other =>
      by_cases same : other = derived
      · subst same
        exact .abandon
      · exact .apart (by simp [settles, same]) (by simp) (by simp [concerns, same])
  | discard => exact .apart rfl (by simp) (by simp [concerns])

/-- The calls of a step register the callbacks of a derived future when it is derived. -/
theorem Settling.subscribed (settling : Settling status derived parent continuation body made entered)
    (executed : Executed before after body rest made entered) (kind : CallbackKind)
    {callback : GatherCallback} (own : callback = .run derived ∨ callback = .abandon derived) :
    after.subscribed kind callback = before.subscribed kind callback := by
  have plain : ∀ call ∈ made, call.2 ≠ .on kind callback := by
    rintro ⟨target, op⟩ member rfl
    cases settling with
    | @settle completion =>
        have same := (Prod.mk.inj (List.mem_singleton.mp member)).2
        cases completion <;> cases same
    | early | release | abandon => simp at member
    | apart _ _ calls =>
        have outside := calls _ member
        obtain rfl | rfl := own <;> simp [concerns] at outside
  have none : Snapshot.subscriptions (gathering T) made kind callback = 0 := by
    refine (Multiset.coe_eq_zero _).mpr (List.filterMap_eq_nil_iff.mpr ?_)
    rintro ⟨target, op⟩ member
    cases op with
    | on registered other =>
        refine if_neg ?_
        rintro ⟨rfl, rfl⟩
        exact plain _ member rfl
    | _ => rfl
  rw [Snapshot.subscribed_add executed.calls executed.registered, none]
  exact Multiset.zero_add _

theorem Settling.frames (settling : Settling status derived parent continuation body made entered)
    (executed : Executed before after body rest made entered) {frame : GatherBody T}
    (own : frame = .run derived ∨ frame = .abandon derived) (member : frame ∈ after.bodies) :
    frame ∈ before.bodies := by
  cases executed.mem_after.mp member with
  | inl enters =>
      cases settling with
      | settle =>
          rw [List.mem_singleton.mp enters] at own
          simp at own
      | early | release | abandon => cases enters
      | apart _ enters' =>
          have outside := enters' frame enters
          obtain rfl | rfl := own <;> simp [settles] at outside
  | inr stays => exact executed.mem_before.mpr (.inr stays)

theorem Wrapped.of_settling (wrapped : Wrapped before derived parent continuation)
    (executed : Executed before after body rest made entered)
    (settling : Settling before.status derived parent continuation body made entered)
    (relied : ∀ call ∈ relies body, call.2.Done (before.status call.1)) :
    Wrapped after derived parent continuation := by
  have running : body ∈ before.bodies := executed.mem_before.mpr (.inl rfl)
  have stays : ∀ frame, frame ≠ body → frame ∈ before.bodies → frame ∈ after.bodies := by
    intro frame other member
    exact executed.mem_after.mpr (.inr ((executed.mem_before.mp member).resolve_left other))
  have made' : ∀ op, (derived, op) ∈ made → op.completes = true → ∃ completion,
      op = completion.op ∧ Follows before.status parent continuation completion := by
    intro op member completes
    cases settling with
    | @settle completion follows =>
        exact ⟨completion, (Prod.mk.inj (List.mem_singleton.mp member)).2, follows⟩
    | early | release | abandon =>
        rw [(Prod.mk.inj (List.mem_singleton.mp member)).2] at completes
        cases completes
    | apart _ _ calls =>
        have outside := calls _ member
        cases op <;> simp_all [concerns, Op.completes]
  constructor
  · intro kind
    rw [settling.subscribed executed kind (.inl rfl)]
    exact wrapped.runs kind
  · intro kind
    rw [settling.subscribed executed kind (.inr rfl)]
    exact wrapped.abandons kind
  · rw [executed.status]
    exact fun member => wrapped.running (settling.frames executed (.inl rfl) member)
  · rw [executed.status]
    exact fun member => wrapped.abandoning (settling.frames executed (.inr rfl) member)
  · rw [executed.status]
    intro op member completes
    cases executed.mem_calls.mp member with
    | inl new => exact made' op new completes
    | inr old => exact wrapped.completes op old completes
  · rw [executed.status]
    intro propagating member
    cases executed.mem_calls.mp member with
    | inl new =>
        cases settling with
        | @settle completion =>
            have same := (Prod.mk.inj (List.mem_singleton.mp new)).2
            cases completion <;> cases same
        | early pending => exact absurd pending (wrapped.running running)
        | @release completion =>
            have done := relied (derived, completion.op) List.mem_cons_self
            refine .inl ?_
            cases completion <;> exact done
        | abandon => exact .inr (wrapped.abandoning running)
        | apart _ _ calls =>
            have outside := calls _ new
            simp [concerns] at outside
    | inr old => exact wrapped.destroys propagating old
  · rw [executed.status]
    exact wrapped.settled
  · rw [executed.status]
    exact wrapped.abandoned
  · rw [Snapshot.notified_congr executed.log, executed.status]
    intro some
    obtain runs | ⟨op, waits, completes⟩ | completed := wrapped.ran some
    · by_cases same : .run derived = body
      · subst same
        cases settling with
        | @settle completion =>
            refine .inr (.inl ⟨completion.op, ?_, by cases completion <;> rfl⟩)
            exact executed.mem_calls.mpr (.inl List.mem_cons_self)
        | early pending => exact absurd pending (wrapped.running running)
        | apart outside => simp [settles] at outside
      · exact .inl (stays _ same runs)
    · exact .inr (.inl ⟨op, executed.mem_calls.mpr (.inr waits), completes⟩)
    · exact .inr (.inr completed)
  · rw [Snapshot.notified_congr executed.log, executed.status]
    intro some
    obtain abandoning | waits | settled := wrapped.lost some
    · by_cases same : .abandon derived = body
      · subst same
        cases settling with
        | abandon => exact .inr (.inl (executed.mem_calls.mpr (.inl List.mem_cons_self)))
        | apart outside => simp [settles] at outside
      · exact .inl (stays _ same abandoning)
    · exact .inr (.inl (executed.mem_calls.mpr (.inr waits)))
    · exact .inr (.inr settled)

end Executed

end Steps

end Gather

end Libprocess
