import Libprocess.Queue.Machine

/-!
# What runs while the lock of a queue is held

`put` completes its promise outside of the critical section, because the callbacks of the future may
take the lock again.  The handler that `get` registers discards its promise inside of the critical
section.  A callback that waits for the completion of the future then runs under the lock, and a
function of the queue that it calls spins forever.
-/

namespace Libprocess

open Concurrency

variable {α : Type}

namespace Queue

/-- A frame of a thread that holds the lock. -/
def holding : (queue α).Frame → Bool
  | .body (.erase _) | .body .unlock => true
  | _ => false

/-- A frame that runs a callback, or needs the lock. -/
def reenters : (queue α).Frame → Bool
  | .body .user | .body (.put _) | .body (.get _) | .body .size | .body (.withdraw _) => true
  | _ => false

/-- No thread that holds the lock runs a callback or needs the lock. -/
def Outside (machine : Machine (queue α)) : Prop :=
  machine.threads.Covered fun above frame => holding frame = true → ∀ other ∈ above,
    reenters other = false

/-- Nobody waits for the completion of a future. -/
def Unheard (memory : Memory (queue α)) (future : FutureId) : Prop :=
  (memory.data future).callbacks .onDiscarded = [] ∧ (memory.data future).callbacks .onAny = []

instance (memory : Memory (queue α)) (future : FutureId) : Decidable (Unheard memory future) :=
  inferInstanceAs (Decidable (_ ∧ _))

/-- `Promise::discard` completes no future whose completion somebody waits for. -/
def DiscardsUnheard (memory : Memory (queue α)) : (queue α).Frame → Prop
  | .enter future .discarded =>
      (memory.data future).state = .pending → Unheard memory future
  | _ => True

instance (memory : Memory (queue α)) :
    (frame : (queue α).Frame) → Decidable (DiscardsUnheard memory frame)
  | .enter _ .discarded => inferInstanceAs (Decidable (_ → _))
  | .enter _ (.set _) | .enter _ (.fail _) | .enter _ .discard | .enter _ (.abandon _)
  | .enter _ (.on _ _) | .running _ _ _ | .clearing _ | .swapped _ _ _ | .invoking _ _ _
  | .body _ => inferInstanceAs (Decidable True)

/-- The handler of `get` discards only promises whose completion nobody waits for. -/
def Considerate (machine : Machine (queue α)) : Move (queue α) → Prop
  | .spawn => True
  | .advance thread _ =>
      ∀ frame ∈ machine.threads.top? thread, DiscardsUnheard machine.memory frame

instance (machine : Machine (queue α)) :
    (move : Move (queue α)) → Decidable (Considerate machine move)
  | .spawn => inferInstanceAs (Decidable True)
  | .advance thread _ => inferInstanceAs (Decidable (∀ frame ∈ machine.threads.top? thread, _))

/-- The call of `Promise::discard` inside the block of the handler. -/
inductive Discarding (memory : Memory (queue α)) (future : FutureId) : (queue α).Frame → Prop where
  | enter : Discarding memory future (.enter future .discarded)
  | run {kind : CallbackKind} {index : Nat} : (memory.data future).state ≠ .pending →
      Unheard memory future → kind = .onDiscarded ∨ kind = .onAny →
      Discarding memory future (.running future kind index)
  | clear : (memory.data future).state ≠ .pending → Unheard memory future →
      Discarding memory future (.clearing future)

/-- The destruction of a completed promise. -/
inductive Releasing (memory : Memory (queue α)) : (queue α).Frame → Prop where
  | release {future : FutureId} : (memory.data future).state ≠ .pending →
      Releasing memory (.body (.release future))
  | abandon {future : FutureId} : (memory.data future).state ≠ .pending →
      Releasing memory (.enter future (.abandon false))

/-- What stands above a frame that holds the lock. -/
def Allows (memory : Memory (queue α)) (above : List (queue α).Frame) : (queue α).Frame → Prop
  | .body (.erase future) =>
      above = [] ∧ (memory.data future).state ≠ .pending ∨
        ∃ frame, above = [frame] ∧ Discarding memory future frame
  | .body .unlock => above = [] ∨ ∃ frame, above = [frame] ∧ Releasing memory frame
  | _ => True

theorem split_pair {Item : Type} {first second other : Item} {above below : List Item}
    (split : [first, second] = above ++ other :: below) :
    above = [] ∧ other = first ∧ below = [second] ∨
      above = [first] ∧ other = second ∧ below = [] := by
  cases above with
  | nil =>
      cases split
      exact .inl ⟨rfl, rfl, rfl⟩
  | cons head rest =>
      simp only [List.cons_append, List.cons.injEq] at split
      obtain ⟨rfl, split⟩ := split
      obtain ⟨rfl, single⟩ := List.append_eq_singleton_iff.mp split.symm |>.resolve_right (by simp)
      cases single
      exact .inr ⟨rfl, rfl, rfl⟩

section Step

variable {memory next : Memory (queue α)} {frame : (queue α).Frame} {choice : QueueChoice α}
  {continuation : List (queue α).Frame} {future : FutureId}

theorem allows_of_not_holding (above : List (queue α).Frame) (free : holding frame = false) :
    Allows memory above frame := by
  cases frame with
  | body body => cases body <;> first | exact True.intro | cases free
  | _ => exact True.intro

/-- Nothing is registered any more on a future that is completed. -/
theorem unheard_step (completed : (memory.data future).state ≠ .pending)
    (unheard : Unheard memory future)
    (stepped : memory.step frame choice = some (next, continuation)) : Unheard next future := by
  by_cases clearing : frame = .clearing future
  · subst clearing
    simp only [Memory.step] at stepped
    cases stepped
    simp [Unheard, Memory.returns, Memory.store, Data.clearAllCallbacks]
  · obtain ⟨flags, same⟩ := Memory.step_data_of_not_pending completed clearing stepped
    rw [Unheard, same]
    exact unheard

theorem completed_step (completed : (memory.data future).state ≠ .pending)
    (stepped : memory.step frame choice = some (next, continuation)) :
    (next.data future).state ≠ .pending := by
  rw [(Memory.step_state_of_not_pending completed stepped).1]
  exact completed

/-- A step of any thread leaves what the others rely on. -/
theorem Allows.mono {above : List (queue α).Frame} {other : (queue α).Frame}
    (allows : Allows memory above other)
    (stepped : memory.step frame choice = some (next, continuation)) :
    Allows next above other := by
  cases free : holding other with
  | false => exact allows_of_not_holding above free
  | true =>
      cases other with
      | body body =>
          cases body with
          | erase future =>
              obtain ⟨alone, completed⟩ | ⟨frame, single, discarding⟩ := allows
              · exact .inl ⟨alone, completed_step completed stepped⟩
              · refine .inr ⟨frame, single, ?_⟩
                cases discarding with
                | enter => exact .enter
                | run completed unheard kind =>
                    exact .run (completed_step completed stepped)
                      (unheard_step completed unheard stepped) kind
                | clear completed unheard =>
                    exact .clear (completed_step completed stepped)
                      (unheard_step completed unheard stepped)
          | unlock =>
              obtain alone | ⟨frame, single, releasing⟩ := allows
              · exact .inl alone
              · refine .inr ⟨frame, single, ?_⟩
                cases releasing with
                | release completed => exact .release (completed_step completed stepped)
                | abandon completed => exact .abandon (completed_step completed stepped)
          | _ => cases free
      | _ => cases free

/-- Only the handler takes the lock, and keeps it. -/
theorem opens {status : FutureId → Status α} {env : QueueEnv α} {body : QueueBody α}
    {effect : Outcome α} (stepped : step status env body choice = some effect) :
    (∀ activation ∈ effect.next, holding activation.frame = false) ∨
      (∃ future, body = .withdraw future ∧
        effect.next = [.call future .discarded, .body (.erase future)]) ∨
      ∃ future, body = .erase future ∧ effect.next = [.body (.release future), .body .unlock] := by
  cases body with
  | user =>
      left
      obtain ⟨activations, found, rfl⟩ := Option.map_eq_some_iff.mp stepped
      cases choice <;> simp only [user, Option.ite_none_right_eq_some, Option.some.injEq] at found
      case discard | on =>
        obtain ⟨-, rfl⟩ := found
        simp [outcome, Activation.frame, holding]
      all_goals
        subst found
        simp [outcome, Activation.frame, holding]
  | put value =>
      left
      simp only [step, Option.ite_none_left_eq_some, Option.some.injEq] at stepped
      obtain ⟨-, rfl⟩ := stepped
      simp only [outcome, put]
      split <;> simp [Activation.frame, holding]
  | release future =>
      cases stepped
      simp [outcome, Activation.frame, holding]
  | get future =>
      left
      simp only [step, Option.ite_none_left_eq_some, Option.some.injEq] at stepped
      obtain ⟨-, rfl⟩ := stepped
      simp only [outcome, get]
      split <;> simp [Activation.frame, holding]
  | size =>
      left
      simp only [step, Option.ite_none_left_eq_some, Option.some.injEq] at stepped
      obtain ⟨-, rfl⟩ := stepped
      simp [outcome]
  | withdraw future =>
      simp only [step, Option.ite_none_left_eq_some, Option.some.injEq] at stepped
      obtain ⟨-, rfl⟩ := stepped
      by_cases waits : future ∈ env.promises
      · right
        left
        exact ⟨future, rfl, by simp [outcome, withdraw, waits]⟩
      · left
        simp [outcome, withdraw, waits]
  | erase future =>
      cases stepped
      exact .inr (.inr ⟨future, rfl, rfl⟩)
  | unlock =>
      cases stepped
      simp [outcome]

theorem callback_not_holding (kind : CallbackKind) (registration : Registration QueueCallback) :
    holding (memory.callback future kind registration) = false := by
  obtain ⟨ticket, callback⟩ := registration
  cases callback <;> rfl

/-- A function of a future opens no block of the queue. -/
theorem internal_not_holding (internal : ∀ body, frame ≠ .body body)
    (stepped : memory.step frame choice = some (next, continuation)) :
    ∀ other ∈ continuation, holding other = false := by
  intro other member
  cases frame with
  | body body => exact absurd rfl (internal body)
  | enter future op =>
      simp only [Memory.step, Option.some.injEq] at stepped
      obtain ⟨-, -, hidden⟩ := memory.enter_frame future op
      rw [stepped] at hidden
      have outside := (hidden other member).2
      cases other with
      | body body => cases outside
      | _ => rfl
  | running future kind index =>
      simp only [Memory.step, Memory.iterate, Option.some.injEq] at stepped
      split at stepped
      · cases stepped
        simp only [List.mem_cons, List.not_mem_nil, or_false] at member
        obtain rfl | rfl := member
        · exact callback_not_holding kind _
        · rfl
      · cases stepped
        split at member <;> rw [List.mem_singleton.mp member] <;> rfl
  | clearing future =>
      cases stepped
      cases member
  | swapped future kind callbacks =>
      cases callbacks with
      | nil =>
          cases stepped
          cases member
      | cons registration rest =>
          cases stepped
          simp only [List.mem_cons, List.not_mem_nil, or_false] at member
          obtain rfl | rfl := member
          · exact callback_not_holding kind registration
          · rfl
  | invoking future kind registration =>
      cases stepped
      rw [List.mem_singleton.mp member]
      exact callback_not_holding kind registration

/-- The frames that a step enters allow each other. -/
theorem own_allows (alone : Allows memory [] frame)
    (stepped : memory.step frame choice = some (next, continuation))
    {above below : List (queue α).Frame} {other : (queue α).Frame}
    (split : continuation = above ++ other :: below) : Allows next above other := by
  have member : other ∈ continuation := by simp [split]
  cases frame with
  | body body =>
      have executed := stepped
      simp only [Memory.step, Memory.execute, Option.map_eq_some_iff, Prod.mk.injEq] at executed
      obtain ⟨effect, does, -, rfl⟩ := executed
      obtain outside | ⟨future, -, entered⟩ | ⟨future, rfl, entered⟩ := opens does
      · obtain ⟨activation, inside, rfl⟩ := List.mem_map.mp member
        exact allows_of_not_holding above (outside activation inside)
      · rw [entered] at split
        obtain ⟨rfl, rfl, -⟩ | ⟨rfl, rfl, -⟩ := split_pair split
        · exact True.intro
        · exact .inr ⟨_, rfl, .enter⟩
      · rw [entered] at split
        have completed : (memory.data future).state ≠ .pending := by
          obtain ⟨-, completed⟩ | ⟨_, single, -⟩ := alone
          · exact completed
          · cases single
        obtain ⟨rfl, rfl, -⟩ | ⟨rfl, rfl, -⟩ := split_pair split
        · exact True.intro
        · exact .inr ⟨_, rfl, .release (completed_step completed stepped)⟩
  | _ =>
      apply allows_of_not_holding
      apply internal_not_holding _ stepped other member
      simp

/-- A call of `Promise::discard` that nobody waits for returns without having run a callback. -/
theorem discarding_step (discarding : Discarding memory future frame)
    (unheard : DiscardsUnheard memory frame)
    (stepped : memory.step frame choice = some (next, continuation)) :
    continuation = [] ∧ (next.data future).state ≠ .pending ∨
      ∃ other, continuation = [other] ∧ Discarding next future other := by
  cases discarding with
  | enter =>
      by_cases pending : (memory.data future).state = .pending
      · have silent := unheard pending
        simp only [Memory.step, Memory.enter, Memory.completed, Data.discarded, Data.complete,
          pending, if_true, Option.some.injEq, Prod.mk.injEq] at stepped
        obtain ⟨rfl, rfl⟩ := stepped
        refine .inr ⟨_, rfl, .run ?_ ?_ (.inl rfl)⟩
        · simp [Memory.store]
        · simpa [Unheard, Memory.store] using silent
      · have completed := completed_step pending stepped
        simp only [Memory.step, Memory.enter, Memory.completed, Data.discarded, Data.complete,
          pending, if_false, Bool.false_eq_true, Option.some.injEq, Prod.mk.injEq] at stepped
        exact .inl ⟨stepped.2.symm, completed⟩
  | @run kind index completed silent own =>
      have stays := completed_step completed stepped
      have hears := unheard_step completed silent stepped
      have nobody : (memory.data future).callbacks kind = [] := by
        cases own with
        | inl same => rw [same, silent.1]
        | inr same => rw [same, silent.2]
      simp only [Memory.step, Memory.iterate, nobody, List.getElem?_nil, Option.some.injEq,
        Prod.mk.injEq] at stepped
      obtain ⟨-, rfl⟩ := stepped
      split
      · exact .inr ⟨_, rfl, .clear stays hears⟩
      · exact .inr ⟨_, rfl, .run stays hears (.inr rfl)⟩
  | clear completed =>
      have stays := completed_step completed stepped
      simp only [Memory.step, Option.some.injEq, Prod.mk.injEq] at stepped
      exact .inl ⟨stepped.2.symm, stays⟩

/-- The destruction of a completed promise runs no callback. -/
theorem releasing_step (releasing : Releasing memory frame)
    (stepped : memory.step frame choice = some (next, continuation)) :
    continuation = [] ∨ ∃ other, continuation = [other] ∧ Releasing next other := by
  cases releasing with
  | @release future completed =>
      have stays := completed_step completed stepped
      simp only [Memory.step, Memory.execute, Queue.step, Option.map_some, Option.some.injEq,
        Prod.mk.injEq] at stepped
      exact .inr ⟨_, stepped.2.symm, .abandon stays⟩
  | abandon completed =>
      simp only [Memory.step, Memory.enter, Memory.swappedOut, Data.abandon, completed,
        false_and, and_false, if_false, Option.some.injEq, Prod.mk.injEq] at stepped
      exact .inl stepped.2.symm

/-- What a step leaves above the frames of its thread. -/
theorem under_allows (unheard : DiscardsUnheard memory frame)
    (stepped : memory.step frame choice = some (next, continuation))
    {between : List (queue α).Frame} {other : (queue α).Frame}
    (allows : Allows memory (frame :: between) other) :
    Allows next (continuation ++ between) other := by
  cases free : holding other with
  | false => exact allows_of_not_holding _ free
  | true =>
      cases other with
      | body body =>
          cases body with
          | erase future =>
              obtain ⟨alone, -⟩ | ⟨_, single, discarding⟩ := allows
              · cases alone
              · cases single
                rw [List.append_nil]
                exact discarding_step discarding unheard stepped
          | unlock =>
              obtain alone | ⟨_, single, releasing⟩ := allows
              · cases alone
              · cases single
                rw [List.append_nil]
                exact releasing_step releasing stepped
          | _ => cases free
      | _ => cases free

end Step

/-- Only the call of `Promise::discard` or the destruction of its promise stands above a frame that
holds the lock. -/
theorem covered_of_reaches {machine : Machine (queue α)}
    (reached : (futures (queue α)).Reaches Considerate machine) :
    machine.threads.Covered (Allows machine.memory) := by
  apply reached.invariant fun machine : Machine (queue α) =>
    machine.threads.Covered (Allows machine.memory)
  · intro machine initial
    obtain ⟨-, -, -, -, -, threads⟩ := initial
    intro stack member
    rw [threads] at member
    cases member
  · intro machine move next covered unheard moved
    cases move with
    | spawn =>
        cases moved
        exact covered.spawn True.intro
    | advance thread choice =>
        obtain ⟨frame, continuation, running, stepped, threads⟩ := Machine.step_advance moved
        rw [threads]
        refine covered.resume running ?_ ?_ ?_
        · intro above other allows
          exact allows.mono stepped
        · intro alone above other below split
          exact own_allows alone stepped split
        · intro between other allows
          exact under_allows (unheard frame running) stepped allows

theorem Discarding.not_reenters {memory : Memory (queue α)} {future : FutureId}
    {frame : (queue α).Frame} (discarding : Discarding memory future frame) :
    reenters frame = false := by
  cases discarding <;> rfl

theorem Releasing.not_reenters {memory : Memory (queue α)} {frame : (queue α).Frame}
    (releasing : Releasing memory frame) : reenters frame = false := by
  cases releasing <;> rfl

end Queue

open Queue in
/-- As long as the handler of `get` discards no promise whose completion somebody waits for, no
callback runs under the lock. -/
theorem queue_outside {machine : Machine (queue α)}
    (reached : (futures (queue α)).Reaches Considerate machine) : Outside machine := by
  intro stack member above frame below split held other inside
  have allows := covered_of_reaches reached stack member above frame below split
  cases frame with
  | body body =>
      cases body with
      | erase future =>
          obtain ⟨rfl, -⟩ | ⟨_, rfl, discarding⟩ := allows
          · cases inside
          · rw [List.mem_singleton.mp inside]
            exact discarding.not_reenters
      | unlock =>
          obtain rfl | ⟨_, rfl, releasing⟩ := allows
          · cases inside
          · rw [List.mem_singleton.mp inside]
            exact releasing.not_reenters
      | _ => cases held
  | _ => cases held

/-- A future is discarded, and nobody waits for its completion. -/
def unheardSchedule : List (Move (queue Nat)) :=
  [.spawn, .advance 0 (.get 0), .advance 0 .finish, .advance 0 .finish, .advance 0 (.discard 0)] ++
  List.replicate 5 (.advance 0 .finish)

open Queue in
theorem queue_outside_unheard : ∃ machine : Machine (queue Nat),
    Outside machine ∧ machine.memory.env.lock = true ∧
      (machine.memory.data 0).state = .discarded := by
  have allowed : (futures (queue Nat)).Along Considerate (Machine.new (queue Nat) fun _ => false)
      unheardSchedule := by
    decide +kernel
  obtain ⟨machine, executed, observed⟩ : ∃ machine ∈ (futures (queue Nat)).run
      (Machine.new _ fun _ => false) unheardSchedule, machine.memory.env.lock = true ∧
      (machine.memory.data 0).state = .discarded := by
    decide +kernel
  have started : (futures (queue Nat)).Reaches Considerate
      (Machine.new (queue Nat) fun _ => false) :=
    .start (Machine.new_initial (queue Nat) fun _ => false)
  exact ⟨machine, queue_outside (started.of_along allowed executed), observed⟩

/-- A callback waits for the completion of the future that is discarded, and puts an element. -/
def spinningSchedule : List (Move (queue Nat)) :=
  List.flatten [[.spawn, .advance 0 (.get 0), .advance 0 .finish, .advance 0 .finish,
     .advance 0 (.on 0 .onDiscarded), .advance 0 .finish, .advance 0 (.discard 0)],
    List.replicate 5 (.advance 0 .finish), [.advance 0 (.put 7)]]

/-- A thread that puts an element in a callback, inside the block of the handler. -/
def Queue.spins : List (queue α).Frame → Bool
  | .body (.put _) :: .body .user :: .running _ _ _ :: .body (.erase _) :: _ => true
  | _ => false

theorem Queue.spins_shape {stack : List (queue α).Frame} (spinning : spins stack = true) :
    ∃ value future kind index erased below, stack = .body (.put value) :: .body .user ::
      .running future kind index :: .body (.erase erased) :: below := by
  unfold spins at spinning
  split at spinning
  · exact ⟨_, _, _, _, _, _, rfl⟩
  · cases spinning

open Queue in
theorem queue_callback_spins : ∃ machine : Machine (queue Nat),
    (futures (queue Nat)).Reachable machine ∧ ¬ Outside machine ∧
      ∀ choice, machine.step (.advance 0 choice) = none := by
  obtain ⟨machine, executed, locked, stack, present, spinning⟩ : ∃ machine ∈
      (futures (queue Nat)).run (Machine.new _ fun _ => false) spinningSchedule,
      machine.memory.env.lock = true ∧ ∃ stack ∈ machine.threads[0]?, spins stack = true := by
    decide +kernel
  obtain ⟨value, future, kind, index, erased, below, rfl⟩ := spins_shape spinning
  have member := List.mem_of_getElem? present
  refine ⟨machine, .of_run (Machine.new_initial (queue Nat) fun _ => false) executed, ?_, ?_⟩
  · intro outside
    have free := outside _ member [_, _, _] (.body (.erase erased)) below rfl rfl
      (.body (.put value)) List.mem_cons_self
    cases free
  · intro choice
    have running : machine.threads.top? 0 = some (.body (.put value)) := by
      simp [Threads.top?, Option.mem_def.mp present]
    simp [Machine.step, running, Memory.step, Memory.execute, Queue.step, locked]

end Libprocess
