import Libprocess.Future.CombinatorInvariant

/-!
# The effects of callbacks

What a derived or associated future is owed is never lost.  Once one of its callbacks has been
invoked, the effect has happened or is on its way through a frame or a call.  When no operation
is in flight, every effect has happened.
-/

namespace Libprocess

variable {α : Type}

open Snapshot (Entered Ran)

namespace Graph

/-- An effect has happened, or a frame or a call is on its way to it. -/
def Underway (snapshot : GraphSnapshot α) (body : GraphBody α → Prop)
    (call : FutureId → Op α GraphCallback → Prop) (done : GraphSnapshot α → Prop) : Prop :=
  (∃ frame ∈ snapshot.bodies, body frame) ∨
    (∃ future op, (future, op) ∈ snapshot.calls ∧ call future op) ∨ done snapshot

section Underway

variable {before after : GraphSnapshot α} {frame : (graph α).Frame} {body : GraphBody α → Prop}
  {call : FutureId → Op α GraphCallback → Prop} {done : GraphSnapshot α → Prop}

theorem Underway.mono {wider : GraphBody α → Prop}
    (underway : Underway before body call done) (implied : ∀ frame, body frame → wider frame) :
    Underway before wider call done := by
  obtain ⟨frame, member, here⟩ | later := underway
  · exact .inl ⟨frame, member, implied frame here⟩
  · exact .inr later

/-- It suffices that the frames and calls on the way get on. -/
theorem Underway.step (underway : Underway before body call done)
    (step : before.Step frame after) (stays : done before → done after)
    (advances : ∀ frame rest made entered, Executed before after frame rest made entered →
      body frame → Underway after body call done)
    (executes : ∀ future op, Entered before after future op → call future op → done after) :
    Underway after body call done := by
  obtain rfl | ⟨future, op, -, entered⟩ | ⟨called, other, registration, ran⟩ |
    ⟨running, rest, made, opened, -, executed⟩ := step_cases step
  · exact underway
  · obtain ⟨frame, member, here⟩ | ⟨other, called, member, here⟩ | past := underway
    · exact .inl ⟨frame, by rwa [entered.bodies], here⟩
    · cases entered.remains member with
      | inl now =>
          obtain ⟨rfl, rfl⟩ := now
          exact .inr (.inr (executes _ _ entered here))
      | inr remains => exact .inr (.inl ⟨other, called, remains, here⟩)
    · exact .inr (.inr (stays past))
  · obtain ⟨frame, member, here⟩ | ⟨other, called, member, here⟩ | past := underway
    · refine .inl ⟨frame, ?_, here⟩
      rw [ran.bodies]
      exact Multiset.mem_cons_of_mem member
    · exact .inr (.inl ⟨other, called, by rwa [ran.calls], here⟩)
    · exact .inr (.inr (stays past))
  · obtain ⟨frame, member, here⟩ | ⟨other, called, member, here⟩ | past := underway
    · rw [executed.running] at member
      cases Multiset.mem_cons.mp member with
      | inl same =>
          subst same
          exact advances _ _ _ _ executed here
      | inr remains =>
          refine .inl ⟨frame, ?_, here⟩
          rw [executed.bodies]
          exact Multiset.mem_add.mpr (.inr remains)
    · refine .inr (.inl ⟨other, called, ?_, here⟩)
      rw [executed.calls]
      exact Multiset.mem_add.mpr (.inr member)
    · exact .inr (.inr (stays past))

/-- A frame that enters another one on the way. -/
theorem Executed.enters {running next : GraphBody α} {rest : Multiset (GraphBody α)}
    {made : List (FutureId × Op α GraphCallback)} {entered : List (GraphBody α)}
    (executed : Executed before after running rest made entered) (member : next ∈ entered)
    (here : body next) : Underway after body call done := by
  refine .inl ⟨next, ?_, here⟩
  rw [executed.bodies]
  exact Multiset.mem_add.mpr (.inl member)

/-- A frame that makes a call on the way. -/
theorem Executed.makes {running : GraphBody α} {rest : Multiset (GraphBody α)}
    {made : List (FutureId × Op α GraphCallback)} {entered : List (GraphBody α)}
    (executed : Executed before after running rest made entered) {future : FutureId}
    {op : Op α GraphCallback} (member : (future, op) ∈ made) (here : call future op) :
    Underway after body call done := by
  refine .inr (.inl ⟨future, op, ?_, here⟩)
  rw [executed.calls]
  exact Multiset.mem_add.mpr (.inl member)

end Underway

/-- The future is completed or associated. -/
def Resolved (future : FutureId) (snapshot : GraphSnapshot α) : Prop :=
  (snapshot.status future).state ≠ .pending ∨ (snapshot.status future).associated = true

/-- The callback of `associate` that copies a completion. -/
def copies (future : FutureId) : GraphCallback → Prop
  | .set other | .fail other | .discarded other => other = future
  | _ => False

/-- A completion of an associated future. -/
def Copying (future : FutureId) (snapshot : GraphSnapshot α) : Prop :=
  Underway snapshot
    (fun frame => ∃ callback argument, frame = .bound callback argument ∧
      copies future callback)
    (fun other op => other = future ∧ op.completes = true)
    (fun snapshot => (snapshot.status future).state ≠ .pending)

/-- An abandonment of an associated future. -/
def Abandoning (future : FutureId) (snapshot : GraphSnapshot α) : Prop :=
  Underway snapshot
    (fun frame => ∃ argument, frame = .bound (.abandon future) argument)
    (fun other op => other = future ∧ op = .abandon true)
    (fun snapshot => (snapshot.status future).abandoned = true ∨
      (snapshot.status future).state ≠ .pending)

/-- An abandonment of a derived future. -/
def Orphaning (derived : FutureId) (snapshot : GraphSnapshot α) : Prop :=
  Underway snapshot
    (fun frame => ∃ argument, frame = .bound (.abandoned derived) argument)
    (fun other op => other = derived ∧ op = .abandon false)
    (fun snapshot => (snapshot.status derived).abandoned = true ∨ Resolved derived snapshot)

/-- A request to discard. -/
def Discarding (future : FutureId) (snapshot : GraphSnapshot α) : Prop :=
  Underway snapshot
    (fun frame => ∃ argument, frame = .bound (.discard future) argument)
    (fun other op => other = future ∧ op = .discard)
    (fun snapshot => (snapshot.status future).discard = true ∨
      (snapshot.status future).state ≠ .pending ∨ snapshot.env.gone future = true)

/-- The frames that resolve a derived future. -/
def resolves (derived : FutureId) : GraphBody α → Prop
  | .callable other | .settle other _ | .associate other _ => other = derived
  | _ => False

/-- The latch of `after` has been triggered. -/
def Latching (derived : FutureId) (snapshot : GraphSnapshot α) : Prop :=
  Underway snapshot (resolves derived)
    (fun other op => other = derived ∧ op.completes = true) (Resolved derived)

/-- The parent of a derived future is completed. -/
def Running (derived : FutureId) (snapshot : GraphSnapshot α) : Prop :=
  Underway snapshot
    (fun frame => frame = .run derived ∨ resolves derived frame)
    (fun other op => other = derived ∧ op.completes = true) (Resolved derived)

section Effects

variable {before after : GraphSnapshot α} {frame : (graph α).Frame} {future derived : FutureId}
  {status : FutureId → Status α} {env next : GraphEnv} {running : GraphBody α}
  {associated : FutureId → Bool} {made : List (FutureId × Op α GraphCallback)}
  {entered : List (GraphBody α)}

@[simp] theorem completes_op (completion : Completion α) :
    (completion.op : Op α GraphCallback).completes = true := by
  cases completion <;> rfl

/-- What a bound function does. -/
theorem Moves.bound {callback : GraphCallback} {argument : Argument α}
    (moves : Moves status env (.bound callback argument) next associated made entered) :
    (∃ future completion, forwards callback argument = some (future, completion) ∧
        made = [(future, completion.op)]) ∨
      (∃ future, callback = .abandon future ∧ made = [(future, .abandon true)]) ∨
      (∃ derived, callback = .abandoned derived ∧ made = [(derived, .abandon false)]) ∨
      ∃ future, callback = .discard future ∧ (made = [(future, .discard)] ∨
        env.gone future = true ∧ made = []) := by
  cases moves with
  | forward forwards => exact .inl ⟨_, _, forwards, rfl⟩
  | abandon => exact .inr (.inl ⟨_, rfl, rfl⟩)
  | abandoned => exact .inr (.inr (.inl ⟨_, rfl, rfl⟩))
  | discard => exact .inr (.inr (.inr ⟨_, rfl, .inl rfl⟩))
  | emptied freed => exact .inr (.inr (.inr ⟨_, rfl, .inr ⟨freed, rfl⟩⟩))
  | call runs | promise runs | settling runs | associating runs | destroy runs | derive runs
  | expire runs | free runs | orphan runs => cases runs
  | late runs => rcases runs with runs | runs <;> cases runs
  | refuse runs => rcases runs with ⟨_, runs⟩ | ⟨_, runs⟩ <;> cases runs

theorem forwards_copies {callback : GraphCallback} {argument : Argument α}
    {completion : Completion α} (found : forwards callback argument = some (future, completion)) :
    copies future callback := by
  unfold forwards at found
  split at found <;> simp_all [copies]

theorem copies_unique {callback : GraphCallback} {other : FutureId}
    (one : copies future callback) (two : copies other callback) : future = other := by
  cases callback <;> simp_all [copies]

theorem Copying.step (copying : Copying future before) (step : before.Step frame after) :
    Copying future after := by
  apply Underway.step copying step
  · intro completed
    rw [((step.later future).completed completed).1]
    exact completed
  · rintro frame rest made entered executed ⟨callback, argument, rfl, own⟩
    obtain ⟨other, completion, found, calls⟩ | ⟨_, rfl, -⟩ | ⟨_, rfl, -⟩ | ⟨_, rfl, -⟩ :=
      executed.moves.bound
    · have same := copies_unique own (forwards_copies found)
      subst same
      exact executed.makes (by rw [calls]; exact List.mem_cons_self)
        ⟨rfl, completes_op completion⟩
    all_goals exact own.elim
  · rintro other op entered ⟨rfl, completes⟩
    exact entered.completed completes

/-- A call to abandon has its effect unless the future is resolved. -/
theorem abandoned_of_entered {propagating : Bool}
    (entered : Entered before after future (.abandon propagating)) :
    (after.status future).abandoned = true ∨ (after.status future).state ≠ .pending ∨
      propagating = false ∧ (after.status future).associated = true := by
  rw [entered.status, Function.update_self]
  simp only [Status.enter]
  split
  · exact .inl rfl
  · rename_i refused
    cases abandoned : (before.status future).abandoned with
    | true => exact .inl rfl
    | false =>
        by_cases pending : (before.status future).state = .pending
        · right
          right
          simp only [abandoned, pending, Bool.not_false, true_and, not_or, Bool.not_eq_true,
            Bool.not_eq_false'] at refused
          exact ⟨refused.2, by simpa using refused.1⟩
        · exact .inr (.inl pending)

theorem Abandoning.step (abandoning : Abandoning future before) (kept : Kept before)
    (step : before.Step frame after) : Abandoning future after := by
  have progress := step_progress kept step
  apply Underway.step abandoning step
  · rintro (abandoned | completed)
    · exact .inl ((progress.status future).abandoned abandoned)
    · exact .inr (progress.completed completed)
  · rintro frame rest made entered executed ⟨argument, rfl⟩
    obtain ⟨_, _, found, -⟩ | ⟨_, same, calls⟩ | ⟨_, same, -⟩ | ⟨_, same, -⟩ :=
      executed.moves.bound
    · exact (forwards_copies found).elim
    · cases same
      exact executed.makes (by rw [calls]; exact List.mem_cons_self) ⟨rfl, rfl⟩
    · cases same
    · cases same
  · rintro other op entered ⟨rfl, rfl⟩
    obtain abandoned | completed | ⟨⟨⟩, _⟩ := abandoned_of_entered entered
    · exact .inl abandoned
    · exact .inr completed

theorem Resolved.progress (resolved : Resolved future before)
    (progress : Progress before after) : Resolved future after := by
  cases resolved with
  | inl completed => exact .inl (progress.completed completed)
  | inr associated => exact .inr (progress.associated future associated)

theorem Orphaning.step (orphaning : Orphaning derived before) (kept : Kept before)
    (step : before.Step frame after) : Orphaning derived after := by
  have progress := step_progress kept step
  apply Underway.step orphaning step
  · rintro (abandoned | resolved)
    · exact .inl ((progress.status derived).abandoned abandoned)
    · exact .inr (resolved.progress progress)
  · rintro frame rest made entered executed ⟨argument, rfl⟩
    obtain ⟨_, _, found, -⟩ | ⟨_, same, -⟩ | ⟨_, same, calls⟩ | ⟨_, same, -⟩ :=
      executed.moves.bound
    · exact (forwards_copies found).elim
    · cases same
    · cases same
      exact executed.makes (by rw [calls]; exact List.mem_cons_self) ⟨rfl, rfl⟩
    · cases same
  · rintro other op entered ⟨rfl, rfl⟩
    obtain abandoned | completed | ⟨-, associated⟩ := abandoned_of_entered entered
    · exact .inl abandoned
    · exact .inr (.inl completed)
    · exact .inr (.inr associated)

/-- A call to discard sets the flag unless the future is completed. -/
theorem discard_of_entered (entered : Entered before after future .discard) :
    (after.status future).discard = true ∨ (after.status future).state ≠ .pending := by
  rw [entered.status, Function.update_self]
  simp only [Status.enter]
  split
  · exact .inl rfl
  · rename_i refused
    by_cases pending : (before.status future).state = .pending
    · left
      simpa [pending] using refused
    · exact .inr pending

theorem Discarding.step (discarding : Discarding future before) (kept : Kept before)
    (step : before.Step frame after) : Discarding future after := by
  have progress := step_progress kept step
  apply Underway.step discarding step
  · rintro (discard | completed | freed)
    · exact .inl (progress.discard future discard)
    · exact .inr (.inl (progress.completed completed))
    · exact .inr (.inr (progress.env.gone future freed))
  · rintro frame rest made entered executed ⟨argument, rfl⟩
    obtain ⟨_, _, found, -⟩ | ⟨_, same, -⟩ | ⟨_, same, -⟩ | ⟨_, same, calls⟩ :=
      executed.moves.bound
    · exact (forwards_copies found).elim
    · cases same
    · cases same
    · cases same
      obtain calls | ⟨freed, -⟩ := calls
      · exact executed.makes (by rw [calls]; exact List.mem_cons_self) ⟨rfl, rfl⟩
      · exact .inr (.inr (.inr (.inr (progress.env.gone future freed))))
  · rintro other op entered ⟨rfl, rfl⟩
    obtain discard | completed := discard_of_entered entered
    · exact .inl discard
    · exact .inr (.inl completed)

/-- A frame that resolves a derived future gets on. -/
theorem Moves.resolves (moves : Moves status env running next associated made entered)
    (own : resolves derived running) :
    (∃ frame ∈ entered, resolves derived frame) ∨
      (∃ op, (derived, op) ∈ made ∧ op.completes = true) ∨
      (status derived).state ≠ .pending ∨ associated derived = true := by
  cases moves with
  | call runs | promise runs | destroy runs | derive runs | free runs | orphan runs =>
      exact .inl ⟨_, List.mem_cons_self, own⟩
  | settling runs | associating runs | expire runs =>
      exact .inl ⟨_, List.mem_cons_of_mem _ List.mem_cons_self, own⟩
  | yieldValue | yieldFuture =>
      cases own
      exact .inl ⟨_, List.mem_cons_self, rfl⟩
  | settle =>
      cases own
      exact .inr (.inl ⟨_, List.mem_cons_self, completes_op _⟩)
  | refuse runs _ refused =>
      obtain ⟨_, rfl⟩ | ⟨_, rfl⟩ := runs <;> cases own <;> exact .inr (.inr refused)
  | associate =>
      cases own
      exact .inr (.inr (.inr (Function.update_self _ _ _)))
  | late runs => rcases runs with rfl | rfl <;> exact own.elim
  | _ => exact own.elim

theorem Executed.resolves {rest : Multiset (GraphBody α)}
    (executed : Executed before after running rest made entered) (own : resolves derived running)
    {body : GraphBody α → Prop} (implied : ∀ frame, Graph.resolves derived frame → body frame) :
    Underway after body (fun other op => other = derived ∧ op.completes = true)
      (Resolved derived) := by
  obtain ⟨frame, member, own⟩ | ⟨op, member, completes⟩ | completed | associated :=
    executed.moves.resolves own
  · exact executed.enters member (implied frame own)
  · exact executed.makes member ⟨rfl, completes⟩
  · refine .inr (.inr (.inl ?_))
    rw [(executed.status derived).1]
    exact completed
  · exact .inr (.inr (.inr associated))

theorem Latching.step (latching : Latching derived before) (kept : Kept before)
    (step : before.Step frame after) : Latching derived after := by
  have progress := step_progress kept step
  apply Underway.step latching step
  · exact fun resolved => resolved.progress progress
  · intro frame rest made entered executed own
    exact executed.resolves own fun _ => id
  · rintro other op entered ⟨rfl, completes⟩
    exact .inl (entered.completed completes)

/-- What the `onAny` callback of a derived future does. -/
theorem Moves.run (moves : Moves status env (.run derived) next associated made entered) :
    (∃ frame ∈ entered, Graph.resolves derived frame) ∨ env.latch derived = true ∨
      ∃ combinator parent, env.parent derived = some (combinator, parent) ∧
        (status parent).state = .pending := by
  cases moves with
  | invoke | copy | repair | after => exact .inl ⟨_, List.mem_cons_self, rfl⟩
  | late runs triggered =>
      obtain same | same := runs <;> cases same
      exact .inr (.inl triggered)
  | unrun found pending => exact .inr (.inr ⟨_, _, found, pending⟩)
  | call runs | promise runs | settling runs | associating runs | destroy runs | derive runs
  | expire runs | free runs | orphan runs => cases runs
  | refuse runs => rcases runs with ⟨_, runs⟩ | ⟨_, runs⟩ <;> cases runs

/-- A latch is triggered by a frame that goes on to resolve the future. -/
theorem Moves.latch (moves : Moves status env running next associated made entered) :
    next.latch = env.latch ∨ ∃ derived, next.latch = Function.update env.latch derived true ∧
      ∃ frame ∈ entered, Graph.resolves derived frame := by
  cases moves with
  | after | expired => exact .inr ⟨_, rfl, _, List.mem_cons_self, rfl⟩
  | _ => exact .inl rfl

/-- The `onAny` callback is entered by its invocation only. -/
theorem Moves.not_run (moves : Moves status env running next associated made entered) :
    .run derived ∉ entered := by
  have different : ∀ frame : GraphBody α, frame.isForeign = true → .run derived ≠ frame := by
    rintro frame runs rfl
    cases runs
  cases moves with
  | call runs | promise runs | settling runs | associating runs | destroy runs | derive runs
  | expire runs | free runs | orphan runs => simp [different _ runs]
  | _ => simp

end Effects

/-- The effect of a callback that was invoked. -/
def Effected (snapshot : GraphSnapshot α) : GraphCallback → Prop
  | .other => True
  | .run derived => Running derived snapshot
  | .abandoned derived => Orphaning derived snapshot
  | .discard future => Discarding future snapshot
  | .set future | .fail future | .discarded future => Copying future snapshot
  | .abandon future => Abandoning future snapshot

/-- Every callback that was invoked has its effect or is on its way to it. -/
structure Forwarded (snapshot : GraphSnapshot α) : Prop where
  invoked : ∀ invocation ∈ snapshot.log, Effected snapshot invocation.registration.callback
  latch : ∀ derived, snapshot.env.latch derived = true → Latching derived snapshot
  completed : ∀ derived, .run derived ∈ snapshot.bodies →
    ∃ combinator parent, snapshot.env.parent derived = some (combinator, parent) ∧
      (snapshot.status parent).state ≠ .pending

section Forwarded

variable {before after : GraphSnapshot α} {frame : (graph α).Frame} {derived : FutureId}

theorem Forwarded.latched (forwarded : Forwarded before) (kept : Kept before)
    (step : before.Step frame after) (triggered : after.env.latch derived = true) :
    Latching derived after := by
  obtain rfl | ⟨future, op, -, entered⟩ | ⟨future, kind, registration, ran⟩ |
    ⟨body, rest, made, opened, -, executed⟩ := step_cases step
  · exact forwarded.latch derived triggered
  · rw [entered.env] at triggered
    exact (forwarded.latch derived triggered).step kept step
  · rw [ran.env] at triggered
    exact (forwarded.latch derived triggered).step kept step
  · obtain same | ⟨other, triggers, next, member, own⟩ := executed.moves.latch
    · rw [same] at triggered
      exact (forwarded.latch derived triggered).step kept step
    · by_cases here : derived = other
      · subst here
        exact executed.enters member own
      · rw [triggers, Function.update_of_ne here] at triggered
        exact (forwarded.latch derived triggered).step kept step

theorem Running.step (running : Running derived before) (forwarded : Forwarded before)
    (kept : Kept before) (step : before.Step frame after) : Running derived after := by
  have progress := step_progress kept step
  apply Underway.step running step
  · exact fun resolved => resolved.progress progress
  · rintro frame rest made entered executed (rfl | own)
    · obtain ⟨next, member, own⟩ | triggered | ⟨_, parent, found, pending⟩ := executed.moves.run
      · exact executed.enters member (.inr own)
      · exact ((forwarded.latch derived triggered).step kept step).mono fun _ => .inr
      · obtain ⟨_, _, same, completed⟩ :=
          forwarded.completed derived executed.mem
        rw [found, Option.some.injEq, Prod.mk.injEq] at same
        rw [← same.2] at completed
        exact absurd pending completed
    · exact executed.resolves own fun _ => .inr
  · rintro other op entered ⟨rfl, completes⟩
    exact .inl (entered.completed completes)

theorem Forwarded.completed_step (forwarded : Forwarded before) (placed : Placed before)
    (kept : Kept before) (step : before.Step frame after) (member : .run derived ∈ after.bodies) :
    ∃ combinator parent, after.env.parent derived = some (combinator, parent) ∧
      (after.status parent).state ≠ .pending := by
  have progress := step_progress kept step
  have earlier : .run derived ∈ before.bodies → ∃ combinator parent,
      after.env.parent derived = some (combinator, parent) ∧
        (after.status parent).state ≠ .pending := by
    intro member
    obtain ⟨combinator, parent, found, completed⟩ := forwarded.completed derived member
    exact ⟨combinator, parent, progress.parent kept found, progress.completed completed⟩
  obtain rfl | ⟨future, op, -, entered⟩ | ⟨future, kind, registration, ran⟩ |
    ⟨body, rest, made, opened, -, executed⟩ := step_cases step
  · exact earlier member
  · rw [entered.bodies] at member
    exact earlier member
  · rw [ran.bodies] at member
    cases Multiset.mem_cons.mp member with
    | inr old => exact earlier old
    | inl new =>
        have place := placed.registered _ ran.filed
        have invoked : registration.callback = .run derived := by
          cases callback : registration.callback <;> rw [callback] at new <;>
            simp_all [invoke]
        simp only [invoked, Place] at place
        obtain ⟨rfl, combinator, found⟩ := place
        have fires := ran.fires (by simp)
        refine ⟨combinator, future, progress.parent kept found, ?_⟩
        rw [ran.status]
        simpa [Status.fires] using fires
  · cases executed.source member with
    | inl new => exact absurd new executed.moves.not_run
    | inr old => exact earlier old

theorem Effected.step {callback : GraphCallback} (effected : Effected before callback)
    (forwarded : Forwarded before) (kept : Kept before) (step : before.Step frame after) :
    Effected after callback := by
  cases callback with
  | other => trivial
  | run derived => exact Running.step effected forwarded kept step
  | abandoned derived => exact Orphaning.step effected kept step
  | discard future => exact Discarding.step effected kept step
  | set future | fail future | discarded future => exact Copying.step effected step
  | abandon future => exact Abandoning.step effected kept step

/-- An invocation enters the frame that has the effect. -/
theorem Effected.of_ran {future : FutureId} {kind : CallbackKind}
    {registration : Registration GraphCallback} (ran : Ran before after future kind registration) :
    Effected after registration.callback := by
  have entered : invoke future (argument future kind (before.status future).result)
      registration.callback ∈ after.bodies := by
    rw [ran.bodies]
    exact Multiset.mem_cons_self _ _
  cases callback : registration.callback with
  | other => trivial
  | run derived =>
      rw [callback] at entered
      exact .inl ⟨_, entered, .inl rfl⟩
  | abandoned derived | discard future | abandon future =>
      rw [callback] at entered
      exact .inl ⟨_, entered, _, rfl⟩
  | set future | fail future | discarded future =>
      rw [callback] at entered
      exact .inl ⟨_, entered, _, _, rfl, rfl⟩

theorem Forwarded.step (forwarded : Forwarded before) (placed : Placed before)
    (kept : Kept before) (step : before.Step frame after) : Forwarded after := by
  have earlier : ∀ invocation ∈ before.log,
      Effected after invocation.registration.callback := by
    intro invocation member
    exact (forwarded.invoked invocation member).step forwarded kept step
  constructor
  · obtain rfl | ⟨future, op, -, entered⟩ | ⟨future, kind, registration, ran⟩ |
      ⟨body, rest, made, opened, -, executed⟩ := step_cases step
    · exact earlier
    · rw [entered.log]
      exact earlier
    · rw [ran.log]
      intro invocation member
      cases List.mem_cons.mp member with
      | inl now =>
          subst now
          exact .of_ran ran
      | inr old => exact earlier invocation old
    · rw [executed.log]
      exact earlier
  · intro derived triggered
    exact forwarded.latched kept step triggered
  · intro derived member
    exact forwarded.completed_step placed kept step member

end Forwarded

/-! ## No operation is in flight -/

structure Invariant (snapshot : GraphSnapshot α) : Prop where
  kept : Kept snapshot
  placed : Placed snapshot
  wired : Wired snapshot
  forwarded : Forwarded snapshot

theorem Invariant.step {before after : GraphSnapshot α} {frame : (graph α).Frame}
    (invariant : Invariant before) (step : before.Step frame after) : Invariant after where
  kept := invariant.kept.step step
  placed := invariant.placed.step invariant.kept step
  wired := invariant.wired.step step
  forwarded := invariant.forwarded.step invariant.placed invariant.kept step

variable {machine : Machine (graph α)}

theorem Invariant.initial (initial : machine.Initial) : Invariant machine.snapshot := by
  obtain ⟨env, filed, invoked, calls, bodies, -, -, status⟩ := initial.blank
  have environment : machine.snapshot.env = .new := env
  constructor
  · constructor
    · intro future
      rw [status, environment]
      rfl
    · intro future derived
      rw [environment] at derived
      cases derived
  · constructor
    · simp [filed]
    · simp [calls]
  · constructor
    · intro future target found
      rw [environment] at found
      cases found
    · intro derived combinator parent found
      rw [environment] at found
      cases found
  · constructor
    · simp [invoked]
    · intro derived triggered
      rw [environment] at triggered
      cases triggered
    · simp [bodies]

theorem Underway.spawn {snapshot : GraphSnapshot α} {body : GraphBody α → Prop}
    {call : FutureId → Op α GraphCallback → Prop} {done : GraphSnapshot α → Prop}
    (underway : Underway snapshot body call done)
    (same : done snapshot → done { snapshot with bodies := .other ::ₘ snapshot.bodies }) :
    Underway { snapshot with bodies := .other ::ₘ snapshot.bodies } body call done := by
  obtain ⟨frame, member, here⟩ | called | past := underway
  · exact .inl ⟨frame, Multiset.mem_cons_of_mem member, here⟩
  · exact .inr (.inl called)
  · exact .inr (.inr (same past))

theorem Invariant.spawn {snapshot : GraphSnapshot α} (invariant : Invariant snapshot) :
    Invariant { snapshot with bodies := .other ::ₘ snapshot.bodies } := by
  obtain ⟨kept, placed, wired, invoked, latch, completed⟩ := invariant
  refine ⟨⟨kept.associated, kept.made⟩, ⟨placed.registered, placed.calls⟩,
    ⟨wired.target, wired.parent⟩, ⟨?_, ?_, ?_⟩⟩
  · intro invocation member
    have effected := invoked invocation member
    generalize invocation.registration.callback = callback at effected ⊢
    cases callback with
    | other => trivial
    | run derived => exact Underway.spawn (show Running derived snapshot from effected) id
    | abandoned derived => exact Underway.spawn (show Orphaning derived snapshot from effected) id
    | discard future => exact Underway.spawn (show Discarding future snapshot from effected) id
    | abandon future => exact Underway.spawn (show Abandoning future snapshot from effected) id
    | set future | fail future | discarded future =>
        exact Underway.spawn (show Copying future snapshot from effected) id
  · intro derived triggered
    exact Underway.spawn (latch derived triggered) id
  · intro derived member
    cases Multiset.mem_cons.mp member with
    | inl same => cases same
    | inr old => exact completed derived old

theorem Invariant.of_reachable (reached : (futures (graph α)).Reachable machine) :
    Invariant machine.snapshot := by
  apply Machine.snapshot_invariant_of (fun _ _ => True) _ Invariant _ _ _ reached
  · intros
    trivial
  · exact fun _ => Invariant.initial
  · exact fun _ => Invariant.spawn
  · intro before frame after _ _ invariant _ step
    exact invariant.step step

/-- Every thread executes code outside promises and combinators. -/
abbrev Idle (machine : Machine (graph α)) : Prop := machine.Resting

instance main_decidable (frame : (graph α).Body) : Decidable (frame = (graph α).main) :=
  decidable_of_bool (match frame with | .other => true | _ => false) (by
    cases frame <;> simp [graph])

namespace Idle

variable {future : FutureId}

theorem no_call (idle : Idle machine) {op : Op α GraphCallback} :
    (future, op) ∉ machine.snapshot.calls :=
  (idle.quiescent future).no_call op

/-- What is on its way has happened. -/
theorem done (idle : Idle machine) {body : GraphBody α → Prop}
    {call : FutureId → Op α GraphCallback → Prop} {done : GraphSnapshot α → Prop}
    (underway : Underway machine.snapshot body call done) (skips : ¬ body .other) :
    done machine.snapshot := by
  obtain ⟨frame, member, here⟩ | ⟨future, op, member, -⟩ | past := underway
  · rw [idle.body member] at here
    exact absurd here skips
  · exact absurd member idle.no_call
  · exact past

/-- A callback whose event has happened has been invoked. -/
theorem invoked (idle : Idle machine) (reached : (futures (graph α)).Reachable machine)
    {kind : CallbackKind} {callback : GraphCallback}
    (subscribed : Subscribed machine.snapshot future kind callback)
    (fires : (machine.snapshot.status future).fires kind = true) :
    Effected machine.snapshot callback := by
  obtain waits | ⟨ticket, filed⟩ := subscribed
  · exact absurd waits idle.no_call
  · have invariant := Machine.Invariant.of_reachable reached
    have counts := invariant.invoked_of_fires (idle.quiescent future) kind
      (fun _ => disciplined future) fires fun registration => registration.callback = callback
    have some : 0 < machine.snapshot.registrations future kind fun registration =>
        registration.callback = callback :=
      List.countP_pos_iff.mpr ⟨_, filed, by simp⟩
    rw [← counts] at some
    obtain ⟨invocation, member, selected⟩ := List.countP_pos_iff.mp some
    simp only [decide_eq_true_eq, Bool.decide_and, Bool.and_eq_true] at selected
    have effected := (Invariant.of_reachable reached).forwarded.invoked invocation member
    rwa [selected.2.2] at effected

end Idle

/-- What an associated future owes to its target. -/
structure Associated (snapshot : GraphSnapshot α) (future target : FutureId) : Prop where
  completed : (snapshot.status target).state ≠ .pending → (snapshot.status future).state ≠ .pending
  abandoned : (snapshot.status target).abandoned = true →
    (snapshot.status future).abandoned = true ∨ (snapshot.status future).state ≠ .pending
  discard : (snapshot.status future).discard = true →
    (snapshot.status target).discard = true ∨ (snapshot.status target).state ≠ .pending ∨
      snapshot.env.gone target = true

/-- What a derived future owes to its parent. -/
structure Derived (snapshot : GraphSnapshot α) (derived parent : FutureId) : Prop where
  completed : (snapshot.status parent).state ≠ .pending → Resolved derived snapshot
  abandoned : (snapshot.status parent).abandoned = true →
    (snapshot.status derived).abandoned = true ∨ Resolved derived snapshot
  discard : (snapshot.status derived).discard = true →
    (snapshot.status parent).discard = true ∨ (snapshot.status parent).state ≠ .pending ∨
      snapshot.env.gone parent = true

theorem Idle.associated (idle : Idle machine) (reached : (futures (graph α)).Reachable machine)
    {future target : FutureId} (found : machine.snapshot.env.target future = some target) :
    Associated machine.snapshot future target := by
  have wired := (Invariant.of_reachable reached).wired.target future target found
  have copied : ∀ kind callback, (target, .on kind callback) ∈
      (associations future target : List (FutureId × Op α GraphCallback)) →
      copies future callback → (machine.snapshot.status target).fires kind = true →
      (machine.snapshot.status future).state ≠ .pending := by
    intro kind callback member own fires
    have effected := idle.invoked reached (wired target kind callback member) fires
    have copying : Copying future machine.snapshot := by
      cases callback <;> first | exact own.elim | (cases own; exact effected)
    exact idle.done copying (by simp)
  constructor
  · intro completed
    cases state : (machine.snapshot.status target).state with
    | pending => exact absurd state completed
    | ready =>
        exact copied .onReady (.set future) (by simp [associations]) rfl
          (decide_eq_true state)
    | failed =>
        exact copied .onFailed (.fail future) (by simp [associations]) rfl
          (decide_eq_true state)
    | discarded =>
        exact copied .onDiscarded (.discarded future) (by simp [associations]) rfl
          (decide_eq_true state)
  · intro abandoned
    have abandoning : Abandoning future machine.snapshot := idle.invoked reached
      (wired target .onAbandoned (.abandon future) (by simp [associations])) abandoned
    exact idle.done abandoning (by simp)
  · intro discard
    have discarding : Discarding target machine.snapshot := idle.invoked reached
      (wired future .onDiscard (.discard target) (by simp [associations])) discard
    exact idle.done discarding (by simp)

theorem Idle.derived (idle : Idle machine) (reached : (futures (graph α)).Reachable machine)
    {derived parent : FutureId} {combinator : Combinator}
    (found : machine.snapshot.env.parent derived = some (combinator, parent)) :
    Derived machine.snapshot derived parent := by
  have wired := (Invariant.of_reachable reached).wired.parent derived combinator parent found
  constructor
  · intro completed
    have running : Running derived machine.snapshot := idle.invoked reached
      (wired parent .onAny (.run derived) (by simp [derivations])) (decide_eq_true completed)
    exact idle.done running (by simp [resolves])
  · intro abandoned
    have orphaning : Orphaning derived machine.snapshot := idle.invoked reached
      (wired parent .onAbandoned (.abandoned derived) (by simp [derivations])) abandoned
    exact idle.done orphaning (by simp)
  · intro discard
    have discarding : Discarding parent machine.snapshot := idle.invoked reached
      (wired derived .onDiscard (.discard parent) (by simp [derivations])) discard
    exact idle.done discarding (by simp)

end Graph

end Libprocess
