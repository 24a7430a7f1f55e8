import Libprocess.Future.Abandonment
import Libprocess.Future.Callables

/-!
# Discarding a chain of futures

`Future::discard` on the last future of a chain that was built with `then`, when operations are
executed one at a time.  The request goes back along the chain until it meets a future that is
completed or that nothing refers to any more.  From then on no callable of the chain that was not
invoked before is invoked.
-/

namespace Libprocess

open Concurrency

variable {α : Type}

open Snapshot (Entered Ran)

namespace Graph

/-- The choices that begin an operation, or come between operations. -/
def begins : Option (graph α).Frame → GraphChoice α → Bool
  | some (.body .other), .finish => false
  | some (.body .other), _ => true
  | _, .free _ => true
  | _, _ => false

/-- Operations are executed one at a time: code outside starts one only if none is in flight, and
the callbacks it registered just return.  Callables may do anything, but shared state is freed
between operations only. -/
def Sequential (machine : Machine (graph α)) : Move (graph α) → Prop
  | .spawn => True
  | .advance thread choice => begins (machine.threads.top? thread) choice = true → Idle machine

instance sequential_decidable (machine : Machine (graph α)) :
    (move : Move (graph α)) → Decidable (Sequential machine move)
  | .spawn => .isTrue trivial
  | .advance thread choice => inferInstanceAs
      (Decidable (begins (machine.threads.top? thread) choice = true → Idle machine))

section Sequential

variable {machine next : Machine (graph α)} {thread : Nat} {choice : GraphChoice α}

theorem Sequential.other (sequential : Sequential machine (.advance thread choice))
    (running : machine.threads.top? thread = some (.body .other)) :
    choice = .finish ∨ Idle machine := by
  rw [Sequential, running] at sequential
  cases choice with
  | finish => exact .inl rfl
  | _ => exact .inr (sequential rfl)

theorem Sequential.free {future : FutureId}
    (sequential : Sequential machine (.advance thread (.free future))) : Idle machine := by
  apply sequential
  unfold begins
  split <;> simp_all

/-- Only one choice frees the shared state of a future. -/
theorem gone_of_foreign {status : FutureId → Status α} {env : GraphEnv} {frame : GraphBody α}
    {effect : Outcome α} (stepped : foreign status env frame choice = some effect) :
    effect.env.gone = env.gone ∨ ∃ future, choice = .free future := by
  cases choice with
  | free future => exact .inr ⟨future, rfl⟩
  | call | promise | settle | associate | destroy | expire =>
      left
      simp only [foreign] at stepped
      split at stepped <;> cases stepped
      rfl
  | derive =>
      left
      simp only [foreign, derive] at stepped
      split at stepped <;> cases stepped
      rfl
  | orphan derived =>
      left
      simp only [foreign] at stepped
      split at stepped
      · split at stepped <;> cases stepped
        rfl
      · cases stepped
  | finish | yield => cases stepped

theorem gone_of_yield {status : FutureId → Status α} {env : GraphEnv} {derived : FutureId}
    {recovery : Recovery α} {effect : Outcome α}
    (stepped : yield status env derived recovery = some effect) : effect.env.gone = env.gone := by
  cases recovery with
  | value value =>
      simp only [yield] at stepped
      split at stepped <;> cases stepped
      rfl
  | future future =>
      simp only [yield] at stepped
      split at stepped
      · split at stepped <;> cases stepped
        rfl
      · split at stepped <;> cases stepped
        rfl
      · split at stepped <;> cases stepped
        rfl
      · cases stepped

theorem gone_of_step {status : FutureId → Status α} {env : GraphEnv} {frame : GraphBody α}
    {effect : Outcome α} (stepped : step status env frame choice = some effect) :
    effect.env.gone = env.gone ∨ ∃ future, choice = .free future := by
  obtain same | ⟨_, -, runs, -⟩ := (step_does stepped).1.gone
  · exact .inl same
  · cases frame with
    | other =>
        cases choice with
        | finish =>
            cases stepped
            exact .inl rfl
        | _ =>
            simp only [step] at stepped
            exact gone_of_foreign stepped
    | callable derived =>
        cases choice with
        | yield recovery => exact .inl (gone_of_yield stepped)
        | _ =>
            simp only [step] at stepped
            exact gone_of_foreign stepped
    | _ => cases runs

theorem Sequential.gone (sequential : Sequential machine (.advance thread choice))
    (stepped : machine.step (.advance thread choice) = some next) :
    next.memory.env.gone = machine.memory.env.gone ∨ Idle machine := by
  obtain ⟨frame, continuation, running, moved, -⟩ := Machine.step_advance stepped
  cases frame with
  | body body =>
      obtain ⟨effect, acted, result⟩ := Option.map_eq_some_iff.mp moved
      rw [Prod.mk.injEq] at result
      rw [← result.1]
      cases gone_of_step acted with
      | inl same => exact .inl same
      | inr frees =>
          obtain ⟨future, rfl⟩ := frees
          exact .inr sequential.free
  | enter | running | clearing | swapped | invoking =>
      left
      rw [env_of_step moved rfl]

end Sequential

/-! ## Futures that nothing completes any more -/

/-- The frames on the way to complete a future. -/
def revives (env : GraphEnv) (future : FutureId) (body : GraphBody α) : Prop :=
  (env.target future = none ∧
    (body = .run future ∨ body = .expired future ∨ resolves future body)) ∨
  ∃ callback argument, body = .bound callback argument ∧ copies future callback

/-- Nothing will complete the future. -/
structure Sealed (snapshot : GraphSnapshot α) (future : FutureId) : Prop where
  target : ∀ target, snapshot.env.target future = some target →
    snapshot.env.gone target = true ∧ (snapshot.status target).state = .pending
  parent : snapshot.env.target future = none → ∀ combinator parent,
    snapshot.env.parent future = some (combinator, parent) →
    snapshot.env.gone parent = true ∧ (snapshot.status parent).state = .pending
  timer : snapshot.env.target future = none → snapshot.env.timer future = false
  unowned : snapshot.env.target future = none → snapshot.env.owns future = false
  bodies : ∀ body ∈ snapshot.bodies, ¬ revives snapshot.env future body
  calls : ∀ op, (future, op) ∈ snapshot.calls → op.completes = false

/-- What was freed while it was pending stays pending. -/
def Locked (snapshot : GraphSnapshot α) : Prop :=
  ∀ future, snapshot.env.gone future = true → (snapshot.status future).state = .pending →
    Sealed snapshot future

section Locked

variable {before after : GraphSnapshot α} {frame : (graph α).Frame} {future : FutureId}

section Moves

variable {status : FutureId → Status α} {env next : GraphEnv} {body : GraphBody α}
  {associated : FutureId → Bool} {made : List (FutureId × Op α GraphCallback)}
  {entered : List (GraphBody α)}

/-- A freed future is not given to anyone. -/
theorem Moves.frozen (moves : Moves status env body next associated made entered)
    (gone : next.gone future = true) :
    next.parent future = env.parent future ∧
      (next.owns future = true → env.owns future = true) ∧
      (next.timer future = true → env.timer future = true) := by
  cases moves with
  | @promise frame other runs fresh referenced =>
      have different : future ≠ other := by
        rintro rfl
        exact Bool.false_ne_true (referenced.symm.trans gone)
      simp [GraphEnv.owns, different]
  | @derive frame combinator parent derived runs fresh referenced =>
      have different : future ≠ derived := by
        rintro rfl
        exact Bool.false_ne_true (referenced.symm.trans gone)
      simp [GraphEnv.owns, different]
  | @destroy frame other runs =>
      refine ⟨rfl, ?_, id⟩
      by_cases here : future = other
      · subst here
        simp [GraphEnv.owns]
      · simp [GraphEnv.owns, here]
  | @expire frame derived runs | @after derived parent =>
      refine ⟨rfl, id, ?_⟩
      by_cases here : future = derived
      · subst here
        simp
      · simp [here]
  | _ => exact ⟨rfl, id, id⟩

/-- Where frames on the way to complete a future come from. -/
theorem Moves.revives_origin (moves : Moves status env body next associated made entered)
    {present : GraphBody α} (member : present ∈ entered)
    (same : next.target future = env.target future) (alive : revives next future present) :
    revives env future body ∨ env.target future = none ∧
      (env.owns future = true ∨ env.timer future = true) := by
  obtain ⟨none, own⟩ | ⟨callback, argument, rfl, own⟩ := alive
  · rw [same] at none
    have stays : present = body → revives env future body := by
      rintro rfl
      exact .inl ⟨none, own⟩
    cases moves with
    | call | promise | destroy | derive | free | orphan =>
        exact .inl (stays (List.mem_singleton.mp member))
    | settling runs owned | associating runs owned =>
        simp only [List.mem_cons, List.not_mem_nil, or_false] at member
        rcases member with rfl | here
        · obtain ⟨⟨⟩⟩ | ⟨⟨⟩⟩ | rfl := own
          exact .inr ⟨none, .inl owned⟩
        · exact .inl (stays here)
    | expire runs armed =>
        simp only [List.mem_cons, List.not_mem_nil, or_false] at member
        rcases member with rfl | here
        · obtain ⟨⟨⟩⟩ | ⟨⟨⟩⟩ | own := own
          · exact .inr ⟨none, .inr armed⟩
          · exact own.elim
        · exact .inl (stays here)
    | invoke | copy | repair | after =>
        rw [List.mem_singleton.mp member] at own
        obtain ⟨⟨⟩⟩ | ⟨⟨⟩⟩ | rfl := own
        exact .inl (.inl ⟨none, .inl rfl⟩)
    | expired =>
        rw [List.mem_singleton.mp member] at own
        obtain ⟨⟨⟩⟩ | ⟨⟨⟩⟩ | rfl := own
        exact .inl (.inl ⟨none, .inr (.inl rfl)⟩)
    | yieldValue | yieldFuture =>
        rw [List.mem_singleton.mp member] at own
        obtain ⟨⟨⟩⟩ | ⟨⟨⟩⟩ | rfl := own
        exact .inl (.inl ⟨none, .inr (.inr rfl)⟩)
    | settle | forward =>
        rw [List.mem_singleton.mp member] at own
        obtain ⟨⟨⟩⟩ | ⟨⟨⟩⟩ | own := own
        exact own.elim
    | _ => cases member
  · exact absurd member moves.not_bound

end Moves

theorem Locked.pending (locked : Locked before) (step : before.Step frame after)
    (gone : before.env.gone future = true) (pending : (before.status future).state = .pending) :
    (after.status future).state = .pending := by
  obtain rfl | ⟨other, op, -, entered⟩ | ⟨other, kind, registration, ran⟩ |
    ⟨body, rest, calls, opened, -, executed⟩ := step_cases step
  · exact pending
  · by_contra completed
    obtain ⟨rfl, completes, -⟩ := entered.completes pending completed
    have call : (future, op) ∈ before.calls := by
      rw [entered.calls]
      exact Multiset.mem_cons_self _ _
    rw [(locked future gone pending).calls op call] at completes
    cases completes
  · rw [ran.status]
    exact pending
  · rw [(executed.status future).1]
    exact pending

/-- The callback that runs is not on the way to complete a sealed future. -/
theorem Sealed.not_revived {other : FutureId} {kind : CallbackKind}
    {registration : Registration GraphCallback} (sealed : Sealed before future)
    (placed : Placed before) (ran : Ran before after other kind registration) :
    ¬ revives before.env future (invoke other (argument other kind (before.status other).result)
      registration.callback) := by
  have place := placed.registered _ ran.filed
  have fires := ran.fires fun _ => disciplined other
  rintro (⟨none, own⟩ | ⟨callback, argument, same, own⟩)
  · cases called : registration.callback <;> rw [called] at own place <;>
      obtain ⟨⟨⟩⟩ | ⟨⟨⟩⟩ | ⟨⟨⟩⟩ := own
    obtain ⟨rfl, combinator, found⟩ := place
    have waits := (sealed.parent none combinator other found).2
    simp [Status.fires, waits] at fires
  · cases called : registration.callback <;> rw [called] at same place <;> cases same <;>
      cases own
    all_goals
      obtain ⟨rfl, target⟩ := place
      have waits := (sealed.target other target).2
      simp [Status.fires, waits] at fires

/-- It suffices that nobody gets hold of a sealed future. -/
theorem Sealed.carry (sealed : Sealed before future)
    (stays : ∀ other, before.env.gone other = true ∧ (before.status other).state = .pending →
      after.env.gone other = true ∧ (after.status other).state = .pending)
    (target : after.env.target future = before.env.target future)
    (frozen : after.env.parent future = before.env.parent future ∧
      (after.env.owns future = true → before.env.owns future = true) ∧
      (after.env.timer future = true → before.env.timer future = true))
    (bodies : ∀ body ∈ after.bodies, ¬ revives after.env future body)
    (calls : ∀ op, (future, op) ∈ after.calls → op.completes = false) : Sealed after future := by
  obtain ⟨parent, owns, timer⟩ := frozen
  refine ⟨?_, ?_, ?_, ?_, bodies, calls⟩
  · intro other found
    rw [target] at found
    exact stays other (sealed.target other found)
  · intro none combinator other found
    rw [target] at none
    rw [parent] at found
    exact stays other (sealed.parent none combinator other found)
  · intro none
    rw [target] at none
    rw [sealed.timer none] at timer
    exact Bool.eq_false_iff.mpr fun armed => Bool.false_ne_true (timer armed)
  · intro none
    rw [target] at none
    rw [sealed.unowned none] at owns
    exact Bool.eq_false_iff.mpr fun owned => Bool.false_ne_true (owns owned)

theorem Sealed.step (sealed : Sealed before future) (locked : Locked before)
    (placed : Placed before) (kept : Kept before) (step : before.Step frame after)
    (gone : after.env.gone future = true) : Sealed after future := by
  have progress := step_progress kept step
  have stays : ∀ other, before.env.gone other = true ∧ (before.status other).state = .pending →
      after.env.gone other = true ∧ (after.status other).state = .pending := by
    rintro other ⟨gone, pending⟩
    exact ⟨progress.env.gone other gone, locked.pending step gone pending⟩
  obtain rfl | ⟨other, op, -, entered⟩ | ⟨other, kind, registration, ran⟩ |
    ⟨body, rest, calls, opened, -, executed⟩ := step_cases step
  · exact sealed
  · apply sealed.carry stays
    · rw [entered.env]
    · rw [entered.env]
      exact ⟨rfl, id, id⟩
    · rw [entered.env, entered.bodies]
      exact sealed.bodies
    · intro op member
      apply sealed.calls op
      rw [entered.calls]
      exact Multiset.mem_cons_of_mem member
  · apply sealed.carry stays
    · rw [ran.env]
    · rw [ran.env]
      exact ⟨rfl, id, id⟩
    · intro body member
      rw [ran.env]
      rw [ran.bodies] at member
      cases Multiset.mem_cons.mp member with
      | inl new =>
          rw [new]
          exact sealed.not_revived placed ran
      | inr old => exact sealed.bodies body old
    · rw [ran.calls]
      exact sealed.calls
  · have target : after.env.target future = before.env.target future := by
      obtain ⟨same, -⟩ | ⟨other, target, rfl, -, -, free, targets, -, -⟩ := executed.moves.target
      · rw [same]
      · by_cases here : future = other
        · subst here
          have none := kept.untargeted free
          exact absurd (.inl ⟨none, .inr (.inr rfl)⟩) (sealed.bodies _ executed.mem)
        · rw [targets, Function.update_of_ne here]
    apply sealed.carry stays target (executed.moves.frozen gone)
    · intro present member alive
      cases executed.source member with
      | inl new =>
          obtain old | ⟨none, owned | armed⟩ := executed.moves.revives_origin new target alive
          · exact sealed.bodies _ executed.mem old
          · rw [sealed.unowned none] at owned
            cases owned
          · rw [sealed.timer none] at armed
            cases armed
      | inr old =>
          apply sealed.bodies present old
          rw [revives, target] at alive
          exact alive
    · intro op member
      rw [executed.calls] at member
      cases Multiset.mem_add.mp member with
      | inr old => exact sealed.calls op old
      | inl new =>
          rw [Bool.eq_false_iff]
          intro completes
          apply sealed.bodies _ executed.mem
          obtain ⟨completion, rfl, -, free⟩ | ⟨callback, argument, completion, rfl, found, -⟩ :=
            executed.moves.completing_origin new completes
          · exact .inl ⟨kept.untargeted free, .inr (.inr rfl)⟩
          · exact .inr ⟨callback, argument, rfl, forwards_copies found⟩

end Locked

section Runs

variable {machine next : Machine (graph α)} {future : FutureId}

theorem Idle.pending_parent (idle : Idle machine)
    (reached : (futures (graph α)).Reachable machine) {parent : FutureId}
    {combinator : Combinator}
    (found : machine.snapshot.env.parent future = some (combinator, parent))
    (untargeted : machine.snapshot.env.target future = none)
    (pending : (machine.snapshot.status future).state = .pending) :
    (machine.snapshot.status parent).state = .pending := by
  by_contra completed
  obtain final | associated := (idle.derived reached found).completed completed
  · exact final pending
  · rw [(Invariant.of_reachable reached).kept.associated, untargeted] at associated
    cases associated

/-- A future that can be freed between operations is sealed. -/
theorem Idle.sealed (idle : Idle machine) (reached : (futures (graph α)).Reachable machine)
    (pending : (machine.snapshot.status future).state = .pending)
    (freed : freeable machine.snapshot.status machine.snapshot.env future = true) :
    Sealed machine.snapshot future := by
  have unowned : machine.snapshot.env.unowned future = true := by
    simp only [freeable, pending, ne_eq, not_true_eq_false, false_or, decide_eq_true_eq] at freed
    exact freed.2
  constructor
  · intro target found
    constructor
    · simpa only [GraphEnv.unowned, found] using unowned
    · by_contra completed
      exact (idle.associated reached found).completed completed pending
  · intro untargeted combinator parent found
    simp only [GraphEnv.unowned, untargeted, found, decide_eq_true_eq] at unowned
    exact ⟨unowned.1, idle.pending_parent reached found untargeted pending⟩
  · intro untargeted
    rw [Bool.eq_false_iff]
    intro armed
    obtain ⟨parent, found⟩ := (Decided.of_reachable reached).timed future (.inl armed)
    simp [GraphEnv.unowned, untargeted, found, armed] at unowned
  · intro untargeted
    rw [Bool.eq_false_iff]
    intro owned
    simp only [GraphEnv.owns, decide_eq_true_eq] at owned
    obtain ⟨made, source, kept⟩ := owned
    simp only [GraphEnv.unowned, untargeted, source, made, Bool.not_true, Bool.false_eq_true,
      or_false, decide_eq_true_eq] at unowned
    rw [unowned] at kept
    cases kept
  · intro body member alive
    rw [idle.body member] at alive
    obtain ⟨-, ⟨⟨⟩⟩ | ⟨⟨⟩⟩ | ⟨⟨⟩⟩⟩ | ⟨_, _, ⟨⟩, -⟩ := alive
  · intro op member
    exact absurd member idle.no_call

theorem freeable_of_step {before after : GraphSnapshot α} {frame : (graph α).Frame}
    (step : before.Step frame after) (old : before.env.gone future = false)
    (gone : after.env.gone future = true) : freeable before.status before.env future = true := by
  obtain rfl | ⟨other, op, -, entered⟩ | ⟨other, kind, registration, ran⟩ |
    ⟨body, rest, calls, opened, -, executed⟩ := step_cases step
  · exact absurd (old.symm.trans gone) Bool.false_ne_true
  · rw [entered.env] at gone
    exact absurd (old.symm.trans gone) Bool.false_ne_true
  · rw [ran.env] at gone
    exact absurd (old.symm.trans gone) Bool.false_ne_true
  · obtain same | ⟨other, frees, -, freed⟩ := executed.moves.gone
    · rw [same] at gone
      exact absurd (old.symm.trans gone) Bool.false_ne_true
    · by_cases here : future = other
      · rw [here]
        exact freed
      · rw [frees, Function.update_of_ne here] at gone
        exact absurd (old.symm.trans gone) Bool.false_ne_true

theorem Locked.spawn {snapshot : GraphSnapshot α} (locked : Locked snapshot) :
    Locked { snapshot with bodies := .other ::ₘ snapshot.bodies } := by
  intro future gone pending
  obtain ⟨target, parent, timer, unowned, bodies, calls⟩ := locked future gone pending
  refine ⟨target, parent, timer, unowned, ?_, calls⟩
  intro body member alive
  cases Multiset.mem_cons.mp member with
  | inr old => exact bodies body old alive
  | inl new =>
      subst new
      obtain ⟨-, ⟨⟨⟩⟩ | ⟨⟨⟩⟩ | ⟨⟨⟩⟩⟩ | ⟨_, _, ⟨⟩, -⟩ := alive

theorem Locked.step {move : Move (graph α)} (locked : Locked machine.snapshot)
    (reached : (futures (graph α)).Reachable machine) (sequential : Sequential machine move)
    (stepped : machine.step move = some next) : Locked next.snapshot := by
  have invariant := Invariant.of_reachable reached
  cases move with
  | spawn =>
      rw [Machine.spawn_snapshot stepped]
      exact locked.spawn
  | advance thread choice =>
      obtain ⟨frame, running, step⟩ :=
        Machine.advance_snapshot (.of_reachable reached) (.of_reachable reached) stepped
      intro future gone waits
      have progress := step_progress invariant.kept step
      have pending : (machine.snapshot.status future).state = .pending := by
        by_contra completed
        exact progress.completed completed waits
      have sealed : Sealed machine.snapshot future := by
        cases old : machine.snapshot.env.gone future with
        | true => exact locked future old pending
        | false =>
            obtain same | idle := sequential.gone stepped
            · have same : next.snapshot.env.gone future = machine.snapshot.env.gone future :=
                congrFun same future
              rw [same, old] at gone
              cases gone
            · exact idle.sealed reached pending (freeable_of_step step old gone)
      exact sealed.step locked invariant.placed invariant.kept step gone

theorem Locked.of_reaches (reached : (futures (graph α)).Reaches Sequential machine) :
    Locked machine.snapshot := by
  induction reached with
  | start started =>
      intro future gone
      change _ = true at gone
      rw [Machine.snapshot, Memory.snapshot, started.2.1] at gone
      cases gone
  | step prior sequential stepped ih => exact ih.step prior.reachable sequential stepped

end Runs

/-! ## The request -/

/-- The frames of a request to discard, and of the code that waits for it. -/
def requests : (graph α).Frame → Prop
  | .body .other | .body (.bound (.discard _) _) | .enter _ .discard
  | .swapped _ .onDiscard _ => True
  | _ => False

/-- Nothing but requests to discard is in flight. -/
def Requesting (machine : Machine (graph α)) : Prop :=
  ∀ frame ∈ machine.threads.frames, requests frame

section Requesting

variable {machine next : Machine (graph α)} {memory after : Memory (graph α)}
  {continuation : List (graph α).Frame} {choice : GraphChoice α} {future : FutureId}

/-- The callbacks that a request invokes. -/
theorem requests_callback {registration : Registration GraphCallback}
    (place : Place memory.env future .onDiscard registration.callback) :
    requests (memory.callback future .onDiscard registration) := by
  rw [Memory.callback]
  cases callback : registration.callback <;> rw [callback] at place <;>
    first | trivial | cases place.1

/-- A step of a request sets `discard` flags only. -/
theorem step_of_requests {frame : (graph α).Frame}
    (stepped : memory.step frame choice = some (after, continuation)) (request : requests frame)
    (returns : frame = .body .other → choice = .finish)
    (placed : ∀ entry ∈ frame.carried, Place memory.env entry.1 entry.2.1 entry.2.2.callback) :
    (∀ entered ∈ continuation, requests entered) ∧ after.env = memory.env ∧
      ∀ other, (after.data other).state = (memory.data other).state := by
  cases frame with
  | enter called op =>
      cases op with
      | discard =>
          refine ⟨?_, env_of_step stepped rfl, ?_⟩
          · simp only [Memory.step, Memory.enter, Memory.swappedOut, Option.some.injEq] at stepped
            intro entered member
            split at stepped <;> cases stepped
            · rw [List.mem_singleton.mp member]
              trivial
            · cases member
          · intro other
            simp only [Memory.step, Option.some.injEq, Prod.ext_iff] at stepped
            have status := congrFun (Memory.enter_status memory called .discard) other
            rw [stepped.1] at status
            by_cases here : other = called
            · subst here
              rw [Function.update_self] at status
              rw [status]
              exact (Status.enter_of_open _ rfl).1
            · rw [Function.update_of_ne here] at status
              rw [status]
      | set | fail | discarded | abandon | on => exact request.elim
  | swapped called kind rest =>
      cases kind with
      | onDiscard =>
          cases rest with
          | nil =>
              cases stepped
              simp
          | cons registration rest =>
              cases stepped
              refine ⟨?_, rfl, fun _ => rfl⟩
              intro entered member
              simp only [List.mem_cons, List.not_mem_nil, or_false] at member
              obtain rfl | rfl := member
              · exact requests_callback (placed (called, .onDiscard, registration)
                  (by simp [Frame.carried]))
              · trivial
      | onAbandoned | onAny | onDiscarded | onFailed | onReady => exact request.elim
  | body body =>
      obtain ⟨effect, acted, result⟩ := Option.map_eq_some_iff.mp stepped
      rw [Prod.mk.injEq] at result
      rw [← result.1, ← result.2]
      cases body with
      | other =>
          cases returns rfl
          cases acted
          simp [outcome]
      | bound callback argument =>
          cases callback with
          | discard target =>
              obtain ⟨activations, found, rfl⟩ := Option.map_eq_some_iff.mp acted
              refine ⟨?_, rfl, fun _ => rfl⟩
              cases argument with
              | nothing =>
                  simp only [bound, Option.some.injEq] at found
                  intro entered member
                  rw [← found] at member
                  split at member
                  · cases member
                  · rw [List.mem_singleton.mp member]
                    trivial
              | _ => cases found
          | _ => exact request.elim
      | _ => exact request.elim
  | running | clearing | invoking => exact request.elim

theorem Requesting.step {move : Move (graph α)} (requesting : Requesting machine)
    (reached : (futures (graph α)).Reachable machine) (sequential : Sequential machine move)
    (busy : ¬ Idle machine) (stepped : machine.step move = some next) :
    Requesting next ∧ next.memory.env = machine.memory.env ∧
      ∀ future, (next.memory.data future).state = (machine.memory.data future).state := by
  cases move with
  | spawn =>
      cases stepped
      refine ⟨?_, rfl, fun _ => rfl⟩
      intro frame member
      rw [Threads.frames_spawn] at member
      cases List.mem_append.mp member with
      | inl old => exact requesting frame old
      | inr new =>
          rw [List.mem_singleton.mp new]
          trivial
  | advance thread choice =>
      obtain ⟨frame, continuation, running, moved, threads⟩ := Machine.step_advance stepped
      have exchange := Threads.exchange running continuation
      have filed := Machine.Filed.of_reachable reached
      have placed := (Invariant.of_reachable reached).placed
      obtain ⟨requests, same⟩ := step_of_requests moved (requesting frame exchange.member)
        (by
          rintro rfl
          exact (sequential.other running).resolve_right busy)
        (fun entry owed =>
          placed.registered entry (filed.carried frame exchange.member entry owed))
      refine ⟨?_, same⟩
      intro other member
      rw [threads] at member
      cases exchange.source member with
      | inl new => exact requests other new
      | inr old => exact requesting other old

end Requesting

/-! ## Chains -/

/-- The futures of a chain that was built with `then`, the last one first and the source at the
end. -/
inductive ThenChain (env : GraphEnv) : List FutureId → Prop where
  | source (future : FutureId) : ThenChain env [future]
  | derive {combinator : Combinator} {derived parent : FutureId} {rest : List FutureId} :
      env.parent derived = some (combinator, parent) → combinator.isThen = true →
      ThenChain env (parent :: rest) → ThenChain env (derived :: parent :: rest)

/-- The future waits, and the request to discard has reached it or nothing refers to it. -/
def Flagged (snapshot : GraphSnapshot α) (future : FutureId) : Prop :=
  (snapshot.status future).state = .pending ∧
    ((snapshot.status future).discard = true ∨ snapshot.env.gone future = true)

section Chain

variable {machine : Machine (graph α)} {future : FutureId} {rest : List FutureId}

/-- Everything before a future with a value has a value. -/
theorem ThenChain.ready {snapshot : GraphSnapshot α} (decided : Decided snapshot)
    (chain : ThenChain snapshot.env (future :: rest))
    (ready : (snapshot.status future).state = .ready) :
    (∀ other ∈ future :: rest, (snapshot.status other).state = .ready) ∧
      ∀ other ∈ (future :: rest).dropLast, snapshot.env.called other = true := by
  induction rest generalizing future with
  | nil =>
      constructor
      · intro other member
        rw [List.mem_singleton.mp member]
        exact ready
      · intro other member
        cases member
  | cons parent rest ih =>
      cases chain with
      | derive found isThen chain =>
          have called := (decided.engaged future (.inl ready)).2 _ _ found isThen
          have source := (decided.called future called).2 _ _ found isThen
          obtain ⟨states, calls⟩ := ih chain source
          constructor
          · intro other member
            cases List.mem_cons.mp member with
            | inl same =>
                rw [same]
                exact ready
            | inr earlier => exact states other earlier
          · intro other member
            rw [List.dropLast_cons_cons] at member
            cases List.mem_cons.mp member with
            | inl same =>
                rw [same]
                exact called
            | inr earlier => exact calls other earlier

/-- A request to discard goes on to the parent. -/
theorem Flagged.parent (flagged : Flagged machine.snapshot future) (idle : Idle machine)
    (reached : (futures (graph α)).Reaches Sequential machine) {combinator : Combinator}
    {parent : FutureId} (found : machine.snapshot.env.parent future = some (combinator, parent))
    (isThen : combinator.isThen = true) (uncalled : machine.snapshot.env.called future = false) :
    Flagged machine.snapshot parent := by
  have decided := Decided.of_reachable reached.reachable
  have untargeted : machine.snapshot.env.target future = none := by
    by_contra targeted
    have called := (decided.engaged future
      (.inr (.inl (Option.isSome_iff_ne_none.mpr targeted)))).2 _ _ found isThen
    rw [uncalled] at called
    cases called
  have pending := idle.pending_parent reached.reachable found untargeted flagged.1
  refine ⟨pending, ?_⟩
  cases flagged.2 with
  | inl discard =>
      obtain discard | completed | gone := (idle.derived reached.reachable found).discard discard
      · exact .inl discard
      · exact absurd pending completed
      · exact .inr gone
  | inr gone =>
      have sealed := Locked.of_reaches reached future gone flagged.1
      exact .inr (sealed.parent untargeted combinator parent found).1

/-- A request to discard goes back along the chain up to the first future that has a value. -/
theorem ThenChain.flagged (chain : ThenChain machine.snapshot.env (future :: rest))
    (idle : Idle machine) (reached : (futures (graph α)).Reaches Sequential machine)
    (flagged : Flagged machine.snapshot future) :
    (∀ other ∈ future :: rest, (machine.snapshot.status other).state = .pending →
        Flagged machine.snapshot other) ∧
      ∀ other ∈ (future :: rest).dropLast, machine.snapshot.env.called other = false →
        ∃ combinator parent, machine.snapshot.env.parent other = some (combinator, parent) ∧
          combinator.isThen = true ∧ Flagged machine.snapshot parent := by
  induction rest generalizing future with
  | nil =>
      constructor
      · intro other member _
        rw [List.mem_singleton.mp member]
        exact flagged
      · intro other member
        cases member
  | cons parent rest ih =>
      have decided := Decided.of_reachable reached.reachable
      cases chain with
      | @derive combinator _ _ _ found isThen chain =>
          rw [List.dropLast_cons_cons]
          cases called : machine.snapshot.env.called future with
          | true =>
              have ready := (decided.called future called).2 _ _ found isThen
              obtain ⟨states, calls⟩ := chain.ready decided ready
              constructor
              · intro other member pending
                cases List.mem_cons.mp member with
                | inl same =>
                    rw [same]
                    exact flagged
                | inr earlier =>
                    rw [states other earlier] at pending
                    cases pending
              · intro other member uncalled
                cases List.mem_cons.mp member with
                | inl same =>
                    rw [same, called] at uncalled
                    cases uncalled
                | inr earlier =>
                    rw [calls other earlier] at uncalled
                    cases uncalled
          | false =>
              have waits := flagged.parent idle reached found isThen called
              obtain ⟨states, calls⟩ := ih chain waits
              constructor
              · intro other member pending
                cases List.mem_cons.mp member with
                | inl same =>
                    rw [same]
                    exact flagged
                | inr earlier => exact states other earlier pending
              · intro other member uncalled
                cases List.mem_cons.mp member with
                | inl same =>
                    rw [same]
                    exact ⟨combinator, parent, found, isThen, waits⟩
                | inr earlier => exact calls other earlier uncalled

end Chain

/-- After the request, a callable that was not invoked waits for a future whose value would be
thrown away. -/
structure Guarded (called : FutureId → Bool) (chain : List FutureId)
    (snapshot : GraphSnapshot α) : Prop where
  uncalled : ∀ derived ∈ chain.dropLast, called derived = false →
    snapshot.env.called derived = false ∧ ∃ combinator parent,
      snapshot.env.parent derived = some (combinator, parent) ∧ combinator.isThen = true ∧
      ((snapshot.status parent).discard = true ∨
        snapshot.env.gone parent = true ∧ (snapshot.status parent).state = .pending)
  requested : ∀ future ∈ chain, (snapshot.status future).state = .pending →
    snapshot.env.gone future = false → (snapshot.status future).discard = true

section Guarded

variable {before after : GraphSnapshot α} {frame : (graph α).Frame} {chain : List FutureId}
  {called : FutureId → Bool}

/-- A callable is not invoked if its parent was discarded or is never completed. -/
theorem uncalled_of_step (decided : Decided before) (step : before.Step frame after)
    {derived parent : FutureId} {combinator : Combinator}
    (found : before.env.parent derived = some (combinator, parent))
    (isThen : combinator.isThen = true)
    (guard : (before.status parent).discard = true ∨
      before.env.gone parent = true ∧ (before.status parent).state = .pending)
    (uncalled : before.env.called derived = false) : after.env.called derived = false := by
  obtain rfl | ⟨other, op, -, entered⟩ | ⟨other, kind, registration, ran⟩ |
    ⟨body, rest, calls, opened, -, executed⟩ := step_cases step
  · exact uncalled
  · rw [entered.env]
    exact uncalled
  · rw [ran.env]
    exact uncalled
  · obtain same | ⟨other, calls, source⟩ := executed.moves.called
    · rw [same]
      exact uncalled
    · by_cases here : derived = other
      · subst here
        obtain rfl | ⟨_, _, same, invokes⟩ := source
        · obtain ⟨_, same⟩ := decided.timed derived (.inr executed.mem)
          rw [found] at same
          cases same
          cases isThen
        · rw [found] at same
          cases same
          obtain ⟨ready, kept⟩ := invokes isThen
          obtain discard | ⟨-, pending⟩ := guard
          · rw [discard] at kept
            cases kept
          · rw [pending] at ready
            cases ready
      · rw [calls, Function.update_of_ne here]
        exact uncalled

theorem Guarded.step (guarded : Guarded called chain before) (kept : Kept before)
    (decided : Decided before) (locked : Locked before) (step : before.Step frame after) :
    Guarded called chain after := by
  have progress := step_progress kept step
  constructor
  · intro derived member uninvoked
    obtain ⟨uncalled, combinator, parent, found, isThen, guard⟩ :=
      guarded.uncalled derived member uninvoked
    refine ⟨uncalled_of_step decided step found isThen guard uncalled, combinator, parent,
      progress.parent kept found, isThen, ?_⟩
    obtain discard | ⟨gone, pending⟩ := guard
    · exact .inl (progress.discard parent discard)
    · exact .inr ⟨progress.env.gone parent gone, locked.pending step gone pending⟩
  · intro future member pending referenced
    apply progress.discard future
    apply guarded.requested future member
    · by_contra completed
      exact progress.completed completed pending
    · rw [Bool.eq_false_iff]
      intro gone
      rw [progress.env.gone future gone] at referenced
      cases referenced

theorem Guarded.advance {machine next : Machine (graph α)} {move : Move (graph α)}
    (guarded : Guarded called chain machine.snapshot)
    (reached : (futures (graph α)).Reaches Sequential machine)
    (stepped : machine.step move = some next) : Guarded called chain next.snapshot := by
  cases move with
  | spawn =>
      rw [Machine.spawn_snapshot stepped]
      exact ⟨guarded.uncalled, guarded.requested⟩
  | advance thread choice =>
      obtain ⟨frame, -, step⟩ := Machine.advance_snapshot (.of_reachable reached.reachable)
        (.of_reachable reached.reachable) stepped
      exact guarded.step (Invariant.of_reachable reached.reachable).kept
        (.of_reachable reached.reachable) (.of_reaches reached) step

end Guarded

/-! ## The law -/

/-- The request is in flight: nothing has happened but that flags were set. -/
structure Requested (before machine : Machine (graph α)) (last : FutureId) : Prop where
  requesting : Requesting machine
  env : machine.memory.env = before.memory.env
  state : ∀ future, (machine.memory.data future).state = (before.memory.data future).state
  discarding : Discarding last machine.snapshot

section Requested

variable {before machine next : Machine (graph α)} {last : FutureId} {chain : List FutureId}

theorem Requested.start {thread : Nat} (idle : Idle before)
    (stepped : before.step (.advance thread (.call last .discard)) = some next) :
    Requested before next last ∧ before.memory.env.gone last = false := by
  obtain ⟨frame, continuation, running, moved, threads⟩ := Machine.step_advance stepped
  have exchange := Threads.exchange running continuation
  have outside := idle frame exchange.member
  subst outside
  obtain ⟨effect, acted, result⟩ := Option.map_eq_some_iff.mp moved
  rw [Prod.mk.injEq] at result
  simp only [step, foreign] at acted
  split at acted
  · rename_i permitted
    cases acted
    have entered : .enter last .discard ∈ next.threads.frames := by
      rw [threads, ← result.2]
      exact Threads.mem_resume_of_mem running (by simp [outcome, Activation.frame, Op.foreign])
    refine ⟨⟨?_, ?_, ?_, ?_⟩, by simpa using permitted.2⟩
    · intro other member
      rw [threads, ← result.2] at member
      cases (Threads.exchange running _).source member with
      | inl new =>
          simp only [outcome, List.map_cons, List.map_nil, Activation.frame, List.mem_cons,
            List.not_mem_nil, or_false] at new
          obtain rfl | rfl := new
          · trivial
          · trivial
      | inr old =>
          rw [idle other old]
          trivial
    · rw [← result.1]
      rfl
    · rw [← result.1]
      exact fun _ => rfl
    · refine .inr (.inl ⟨last, .discard, ?_, rfl, rfl⟩)
      exact (Multiset.mem_filterMap Frame.call? _).mpr ⟨_, Multiset.mem_coe.mpr entered, rfl⟩
  · cases acted

theorem Requested.step {move : Move (graph α)} (requested : Requested before machine last)
    (reached : (futures (graph α)).Reaches Sequential machine)
    (sequential : Sequential machine move) (busy : ¬ Idle machine)
    (stepped : machine.step move = some next) : Requested before next last := by
  obtain ⟨requesting, env, state⟩ :=
    requested.requesting.step reached.reachable sequential busy stepped
  refine ⟨requesting, env.trans requested.env, ?_, ?_⟩
  · intro future
    rw [state, requested.state]
  · cases move with
    | spawn =>
        rw [Machine.spawn_snapshot stepped]
        exact Underway.spawn requested.discarding id
    | advance thread choice =>
        obtain ⟨frame, -, step⟩ := Machine.advance_snapshot (.of_reachable reached.reachable)
          (.of_reachable reached.reachable) stepped
        exact requested.discarding.step (Invariant.of_reachable reached.reachable).kept step

/-- When the request returns, it has reached the whole chain. -/
theorem Requested.guarded (requested : Requested before machine last) (idle : Idle machine)
    (reached : (futures (graph α)).Reaches Sequential machine)
    (chained : ThenChain before.memory.env (last :: chain))
    (pending : (before.memory.data last).state = .pending)
    (referenced : before.memory.env.gone last = false) :
    Guarded before.memory.env.called (last :: chain) machine.snapshot := by
  have env : machine.snapshot.env = before.memory.env := requested.env
  have waits : (machine.snapshot.status last).state = .pending :=
    (requested.state last).trans pending
  have flagged : Flagged machine.snapshot last := by
    refine ⟨waits, .inl ?_⟩
    obtain discard | completed | gone := idle.done requested.discarding (by simp)
    · exact discard
    · exact absurd waits completed
    · rw [env, referenced] at gone
      cases gone
  rw [← env] at chained
  obtain ⟨states, calls⟩ := chained.flagged idle reached flagged
  constructor
  · intro derived member uninvoked
    rw [← env] at uninvoked
    obtain ⟨combinator, parent, found, isThen, pending, guard⟩ := calls derived member uninvoked
    refine ⟨uninvoked, combinator, parent, found, isThen, ?_⟩
    cases guard with
    | inl discard => exact .inl discard
    | inr gone => exact .inr ⟨gone, pending⟩
  · intro future member pending referenced
    cases (states future member pending).2 with
    | inl discard => exact discard
    | inr gone =>
        rw [referenced] at gone
        cases gone

end Requested

/-- What a request to discard the last future of a chain leads to. -/
structure Discards (before later : Machine (graph α)) (last : FutureId)
    (chain : List FutureId) : Prop where
  /-- No callable is invoked that was not invoked before. -/
  uninvoked : ∀ derived ∈ chain.dropLast, before.memory.env.called derived = false →
    later.memory.env.called derived = false
  requested : Idle later → ∀ future ∈ chain, (later.memory.data future).state = .pending →
    later.memory.env.gone future = false → (later.memory.data future).discard = true
  associated : Idle later → ∀ future ∈ chain, (later.memory.data future).state = .pending →
    ∀ target, later.memory.env.target future = some target →
    later.memory.env.gone target = false → (later.memory.data target).discard = true
  unready : (later.memory.data last).state = .ready → before.memory.env.called last = true

theorem Guarded.discards {before later : Machine (graph α)} {last : FutureId}
    {chain : List FutureId} (guarded : Guarded before.memory.env.called chain later.snapshot)
    (reached : (futures (graph α)).Reaches Sequential later) (inside : last ∈ chain.dropLast) :
    Discards before later last chain := by
  have decided := Decided.of_reachable reached.reachable
  constructor
  · intro derived member uninvoked
    exact (guarded.uncalled derived member uninvoked).1
  · intro _ future member pending referenced
    exact guarded.requested future member pending referenced
  · intro idle future member pending target found referenced
    have waits : (later.snapshot.status target).state = .pending := by
      by_contra completed
      exact (idle.associated reached.reachable found).completed completed pending
    have named : later.snapshot.env.gone future = false := by
      rw [Bool.eq_false_iff]
      intro gone
      have lost := ((Locked.of_reaches reached future gone pending).target target found).1
      exact Bool.false_ne_true (referenced.symm.trans lost)
    obtain discard | completed | gone := (idle.associated reached.reachable found).discard
      (guarded.requested future member pending named)
    · exact discard
    · exact absurd waits completed
    · exact absurd (referenced.symm.trans gone) Bool.false_ne_true
  · intro ready
    by_contra uninvoked
    obtain ⟨uncalled, combinator, parent, found, isThen, -⟩ :=
      guarded.uncalled last inside (by simpa using uninvoked)
    have called := (decided.engaged last (.inl ready)).2 _ _ found isThen
    rw [uncalled] at called
    cases called

theorem Requested.discards {before later : Machine (graph α)} {last : FutureId}
    {chain : List FutureId} (requested : Requested before later last)
    (pending : (before.memory.data last).state = .pending) (busy : ¬ Idle later) :
    Discards before later last chain := by
  constructor
  · intro derived _ uninvoked
    rw [requested.env]
    exact uninvoked
  · exact fun idle => absurd idle busy
  · exact fun idle => absurd idle busy
  · intro ready
    rw [requested.state, pending] at ready
    cases ready

end Graph

open Libprocess.Graph in
/-- The law of discard for chains of `then`, when operations are executed one at a time. -/
theorem discard_stops_chain {before requested later : Machine (graph α)} {thread : Nat}
    {last parent : FutureId} {ancestors : List FutureId} {schedule : List (Move (graph α))}
    (reached : (futures (graph α)).Reaches Sequential before) (idle : Idle before)
    (chained : ThenChain before.memory.env (last :: parent :: ancestors))
    (pending : (before.memory.data last).state = .pending)
    (called : before.step (.advance thread (.call last .discard)) = some requested)
    (sequential : (futures (graph α)).Along Sequential requested schedule)
    (executed : (futures (graph α)).run requested schedule = some later) :
    Discards before later last (last :: parent :: ancestors) := by
  obtain ⟨start, referenced⟩ := Requested.start idle called
  have permitted : Sequential before (.advance thread (.call last .discard)) := fun _ => idle
  have phases : (futures (graph α)).Reaches Sequential later ∧ (Requested before later last ∨
      Guarded before.memory.env.called (last :: parent :: ancestors) later.snapshot) := by
    apply sequential.preserves executed fun machine =>
      (futures (graph α)).Reaches Sequential machine ∧ (Requested before machine last ∨
        Guarded before.memory.env.called (last :: parent :: ancestors) machine.snapshot)
    · exact ⟨.step reached permitted called, .inl start⟩
    · rintro machine move next ⟨reached, phase⟩ permitted stepped
      refine ⟨.step reached permitted stepped, ?_⟩
      cases phase with
      | inr guarded => exact .inr (guarded.advance reached stepped)
      | inl request =>
          by_cases idle : Idle machine
          · right
            exact (request.guarded idle reached chained pending referenced).advance reached stepped
          · exact .inl (request.step reached permitted idle stepped)
  obtain ⟨reached, request | guarded⟩ := phases
  · by_cases idle : Idle later
    · exact (request.guarded idle reached chained pending referenced).discards reached (by simp)
    · exact request.discards pending idle
  · exact guarded.discards reached (by simp)

/-- The first callable of a chain has returned the future of another promise. -/
def chainSchedule : List (Move (graph Nat)) :=
  List.flatten [[.spawn], Graph.perform 0 (.promise 0) 0, Graph.perform 0 (.promise 9) 0,
    Graph.perform 0 (.derive .thenf 0 1) 3, Graph.perform 0 (.derive .thenValue 1 2) 3,
    Graph.perform 0 (.settle 0 (.set 3)) 5, Graph.perform 0 (.yield (.future 9)) 10]

/-- The request returns, and that promise is set. -/
def requestSchedule : List (Move (graph Nat)) :=
  List.replicate 13 (.advance 0 .finish) ++ Graph.perform 0 (.settle 9 (.set 4)) 22

open Libprocess.Graph in
theorem discard_stops_chain_associated : ∃ before later : Machine (graph Nat),
    Discards before later 2 [2, 1, 0] ∧ before.memory.env.called 1 = true ∧
      (later.memory.data 1).state = .ready ∧ (later.memory.data 2).state = .discarded ∧
      (later.memory.data 9).discard = true ∧ later.memory.env.called 2 = false := by
  obtain ⟨before, executed, ⟨idle, pending, invoked, uninvoked, second, first⟩, requested, called,
      sequential, later, finished, ready, discarded, discard⟩ :
      ∃ before ∈ (futures (graph Nat)).run (Machine.new _ fun _ => false) chainSchedule,
      (Idle before ∧ (before.memory.data 2).state = .pending ∧
        before.memory.env.called 1 = true ∧ before.memory.env.called 2 = false ∧
        before.memory.env.parent 2 = some (.thenValue, 1) ∧
        before.memory.env.parent 1 = some (.thenf, 0)) ∧
      ∃ requested ∈ before.step (.advance 0 (.call 2 .discard)),
      (futures (graph Nat)).Along Sequential requested requestSchedule ∧
      ∃ later ∈ (futures (graph Nat)).run requested requestSchedule,
      (later.memory.data 1).state = .ready ∧ (later.memory.data 2).state = .discarded ∧
      (later.memory.data 9).discard = true := by
    decide +kernel
  have permitted : (futures (graph Nat)).Along Sequential
      (Machine.new (graph Nat) fun _ => false) chainSchedule := by
    decide +kernel
  have law := discard_stops_chain
    (.of_along (.start (Machine.new_initial (graph Nat) fun _ => false)) permitted executed) idle
    (.derive second rfl (.derive first rfl (.source 0))) pending called sequential finished
  exact ⟨before, later, law, invoked, ready, discarded, discard,
    law.uninvoked 2 (by simp) uninvoked⟩

end Libprocess
