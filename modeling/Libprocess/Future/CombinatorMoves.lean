import Libprocess.Future.Combinators

/-!
# The steps of promises and combinators

One relation lists everything that a step of a promise, of a combinator and of the code around
them can do.  The lemmas say where calls and frames come from, so that the invariants need no
case analysis of the code.
-/

namespace Libprocess

variable {α : Type}

/-- Frames that execute arbitrary code. -/
def GraphBody.isForeign : GraphBody α → Bool
  | .other | .callable _ => true
  | _ => false

/-- `then` with either kind of callable. -/
def Combinator.isThen : Combinator → Bool
  | .thenValue | .thenf => true
  | .repair | .after => false

namespace Graph

/-- The future that a bound function completes, and how. -/
def forwards : GraphCallback → Argument α → Option (FutureId × Completion α)
  | .set future, .value value => some (future, .set value)
  | .fail future, .message message => some (future, .fail message)
  | .discarded future, .nothing => some (future, .discard)
  | _, _ => none

/-- The call that destroys the promise of a derived future. -/
def released (env : GraphEnv) (future : FutureId) : List (FutureId × Op α GraphCallback) :=
  if (env.parent future).isSome then [(future, .abandon false)] else []

/-- The registrations of `Promise::associate`. -/
def associations (future target : FutureId) : List (FutureId × Op α GraphCallback) :=
  [(future, .on .onDiscard (.discard target)), (target, .on .onReady (.set future)),
    (target, .on .onFailed (.fail future)), (target, .on .onDiscarded (.discarded future)),
    (target, .on .onAbandoned (.abandon future))]

/-- The registrations of `then`, `repair` and `after`. -/
def derivations (parent derived : FutureId) : List (FutureId × Op α GraphCallback) :=
  [(parent, .on .onAny (.run derived)), (parent, .on .onAbandoned (.abandoned derived)),
    (derived, .on .onDiscard (.discard parent))]

/-- What a step of one frame does: the new environment, the `associated` flags, and the calls and
frames it turns into. -/
inductive Moves (status : FutureId → Status α) (env : GraphEnv) : GraphBody α → GraphEnv →
    (FutureId → Bool) → List (FutureId × Op α GraphCallback) → List (GraphBody α) → Prop where
  | call {frame : GraphBody α} {future : FutureId} {op : Op α Unit} : frame.isForeign = true →
      op.shared = true → env.gone future = false →
      Moves status env frame env (fun other => (status other).associated)
        [(future, op.foreign .other)] [frame]
  | promise {frame : GraphBody α} {future : FutureId} : frame.isForeign = true →
      env.made future = false → env.gone future = false → (status future).abandoned = false →
      Moves status env frame { env with made := Function.update env.made future true }
        (fun other => (status other).associated) [] [frame]
  | settling {frame : GraphBody α} {future : FutureId} {completion : Completion α} :
      frame.isForeign = true → env.owns future = true →
      Moves status env frame env (fun other => (status other).associated) []
        [.settle future completion, frame]
  | associating {frame : GraphBody α} {future target : FutureId} : frame.isForeign = true →
      env.owns future = true → env.gone target = false →
      Moves status env frame env (fun other => (status other).associated) []
        [.associate future target, frame]
  | destroy {frame : GraphBody α} {future : FutureId} : frame.isForeign = true →
      env.owns future = true →
      Moves status env frame { env with destroyed := Function.update env.destroyed future true }
        (fun other => (status other).associated) [(future, .abandon false)] [frame]
  | derive {frame : GraphBody α} {combinator : Combinator} {parent derived : FutureId} :
      frame.isForeign = true → env.made derived = false → env.gone derived = false →
      (status derived).abandoned = false → env.gone parent = false → derived ≠ parent →
      Moves status env frame
        { env with
          made := Function.update env.made derived true
          parent := Function.update env.parent derived (some (combinator, parent))
          timer := Function.update env.timer derived (combinator = .after) }
        (fun other => (status other).associated) (derivations parent derived) [frame]
  | expire {frame : GraphBody α} {derived : FutureId} : frame.isForeign = true →
      env.timer derived = true →
      Moves status env frame { env with timer := Function.update env.timer derived false }
        (fun other => (status other).associated) [] [.expired derived, frame]
  | free {frame : GraphBody α} {future : FutureId} : frame.isForeign = true →
      freeable status env future = true →
      Moves status env frame { env with gone := Function.update env.gone future true }
        (fun other => (status other).associated) [] [frame]
  | orphan {frame : GraphBody α} {derived parent : FutureId} {combinator : Combinator} :
      frame.isForeign = true → env.parent derived = some (combinator, parent) →
      env.gone parent = true → (status parent).state = .pending →
      Moves status env frame env (fun other => (status other).associated)
        [(derived, .abandon false)] [frame]
  | finish : Moves status env .other env (fun other => (status other).associated) [] []
  | invoke {derived parent : FutureId} {combinator : Combinator} :
      env.parent derived = some (combinator, parent) → (status parent).state ≠ .pending →
      (combinator.isThen = true →
        (status parent).state = .ready ∧ (status parent).discard = false) →
      Moves status env (.run derived)
        { env with called := Function.update env.called derived true }
        (fun other => (status other).associated) [] [.callable derived]
  | copy {derived parent : FutureId} {combinator : Combinator} {completion : Completion α} :
      env.parent derived = some (combinator, parent) → combinator.isThen = true →
      (status parent).state ≠ .pending → (∀ value, completion ≠ .set value) →
      Moves status env (.run derived) env (fun other => (status other).associated) []
        [.settle derived completion]
  | unrun {derived parent : FutureId} {combinator : Combinator} :
      env.parent derived = some (combinator, parent) → (status parent).state = .pending →
      Moves status env (.run derived) env (fun other => (status other).associated)
        (released env derived) []
  | repair {derived parent : FutureId} : env.parent derived = some (.repair, parent) →
      (status parent).state ≠ .pending →
      Moves status env (.run derived) env (fun other => (status other).associated) []
        [.associate derived parent]
  | after {derived parent : FutureId} : env.parent derived = some (.after, parent) →
      (status parent).state ≠ .pending → env.latch derived = false →
      Moves status env (.run derived)
        { env with
          latch := Function.update env.latch derived true
          timer := Function.update env.timer derived false }
        (fun other => (status other).associated) [] [.associate derived parent]
  | late {frame : GraphBody α} {derived : FutureId} :
      frame = .run derived ∨ frame = .expired derived → env.latch derived = true →
      Moves status env frame env (fun other => (status other).associated) [] []
  | expired {derived : FutureId} : env.latch derived = false →
      Moves status env (.expired derived)
        { env with
          latch := Function.update env.latch derived true
          called := Function.update env.called derived true }
        (fun other => (status other).associated) [] [.callable derived]
  | yieldValue {derived parent : FutureId} {value : α} :
      env.parent derived = some (.thenValue, parent) →
      Moves status env (.callable derived) env (fun other => (status other).associated) []
        [.settle derived (.set value)]
  | yieldFuture {derived parent future : FutureId} {combinator : Combinator} :
      env.parent derived = some (combinator, parent) → env.gone future = false →
      Moves status env (.callable derived) env (fun other => (status other).associated) []
        [.associate derived future]
  | settle {future : FutureId} {completion : Completion α} : env.destroyed future = false →
      (status future).associated = false →
      Moves status env (.settle future completion) env (fun other => (status other).associated)
        [(future, completion.op)] [.promised future completion]
  | refuse {frame : GraphBody α} {future : FutureId} :
      ((∃ completion, frame = .settle future completion) ∨
        ∃ target, frame = .associate future target) → env.destroyed future = false →
      (status future).state ≠ .pending ∨ (status future).associated = true →
      ((∃ completion, frame = .settle future completion) → (status future).associated = true) →
      Moves status env frame env (fun other => (status other).associated) (released env future) []
  | promised {future : FutureId} {completion : Completion α} :
      Moves status env (.promised future completion) env
        (fun other => (status other).associated) (released env future) []
  | associate {future target : FutureId} : env.destroyed future = false →
      (status future).state = .pending → (status future).associated = false →
      Moves status env (.associate future target)
        { env with target := Function.update env.target future (some target) }
        (Function.update (fun other => (status other).associated) future true)
        (associations future target ++ released env future) []
  | forward {callback : GraphCallback} {argument : Argument α} {future : FutureId}
      {completion : Completion α} : forwards callback argument = some (future, completion) →
      Moves status env (.bound callback argument) env (fun other => (status other).associated)
        [(future, completion.op)] [.forwarded future completion]
  | abandon {future : FutureId} :
      Moves status env (.bound (.abandon future) .nothing) env
        (fun other => (status other).associated) [(future, .abandon true)] []
  | abandoned {derived : FutureId} :
      Moves status env (.bound (.abandoned derived) .nothing) env
        (fun other => (status other).associated) [(derived, .abandon false)] []
  | discard {future : FutureId} : env.gone future = false →
      Moves status env (.bound (.discard future) .nothing) env
        (fun other => (status other).associated) [(future, .discard)] []
  | emptied {future : FutureId} : env.gone future = true →
      Moves status env (.bound (.discard future) .nothing) env
        (fun other => (status other).associated) [] []
  | forwarded {future : FutureId} {completion : Completion α} :
      Moves status env (.forwarded future completion) env
        (fun other => (status other).associated) [] []

section Inversion

variable {status : FutureId → Status α} {env : GraphEnv} {frame : GraphBody α}
  {choice : GraphChoice α} {effect : Outcome α}

/-- The relation between a frame and its effect. -/
abbrev Does (status : FutureId → Status α) (env : GraphEnv) (frame : GraphBody α)
    (effect : Outcome α) : Prop :=
  Moves status env frame effect.env (fun future => (effect.flags future).associated)
    (effect.next.filterMap Activation.call?) (effect.next.filterMap Activation.body?) ∧
  ∀ future, (effect.flags future).discard = (status future).discard

theorem filterMap_call?_release (env : GraphEnv) (future : FutureId) :
    (release (α := α) env future).filterMap Activation.call? = released env future := by
  rw [release, released]
  split <;> rfl

theorem filterMap_body?_release (env : GraphEnv) (future : FutureId) :
    (release (α := α) env future).filterMap Activation.body? = [] := by
  rw [release]
  split <;> rfl

theorem outcome_does {next : GraphEnv} {activations : List (Activation α GraphCallback (GraphBody α))}
    {calls : List (FutureId × Op α GraphCallback)} {bodies : List (GraphBody α)}
    (called : activations.filterMap Activation.call? = calls)
    (entered : activations.filterMap Activation.body? = bodies)
    (moves : Moves status env frame next (fun other => (status other).associated) calls bodies) :
    Does status env frame (outcome status next activations) := by
  subst called entered
  exact ⟨moves, fun _ => rfl⟩

theorem derive_does {combinator : Combinator} {parent derived : FutureId}
    (runs : frame.isForeign = true)
    (stepped : derive status env frame combinator parent derived = some effect) :
    Does status env frame effect := by
  rw [derive] at stepped
  split at stepped
  · cases stepped
  · rename_i fresh
    simp only [not_or, Bool.not_eq_true] at fresh
    cases stepped
    exact outcome_does rfl rfl
      (.derive runs fresh.1 fresh.2.1 fresh.2.2.1 fresh.2.2.2.1 fresh.2.2.2.2)

theorem foreign_does (runs : frame.isForeign = true)
    (stepped : foreign status env frame choice = some effect) : Does status env frame effect := by
  cases choice with
  | call future op =>
      simp only [foreign] at stepped
      split at stepped
      · rename_i permitted
        cases stepped
        exact outcome_does rfl rfl (.call runs permitted.1 (by simpa using permitted.2))
      · cases stepped
  | promise future =>
      simp only [foreign] at stepped
      split at stepped
      · cases stepped
      · rename_i fresh
        simp only [not_or, Bool.not_eq_true] at fresh
        cases stepped
        exact outcome_does rfl rfl (.promise runs fresh.1 fresh.2.1 fresh.2.2)
  | settle future completion =>
      simp only [foreign] at stepped
      split at stepped
      · rename_i owned
        cases stepped
        exact outcome_does rfl rfl (.settling runs owned)
      · cases stepped
  | associate future target =>
      simp only [foreign] at stepped
      split at stepped
      · rename_i permitted
        cases stepped
        exact outcome_does rfl rfl (.associating runs permitted.1 (by simpa using permitted.2))
      · cases stepped
  | destroy future =>
      simp only [foreign] at stepped
      split at stepped
      · rename_i owned
        cases stepped
        exact outcome_does rfl rfl (.destroy runs owned)
      · cases stepped
  | derive combinator parent derived => exact derive_does runs stepped
  | expire derived =>
      simp only [foreign] at stepped
      split at stepped
      · rename_i armed
        cases stepped
        exact outcome_does rfl rfl (.expire runs armed)
      · cases stepped
  | free future =>
      simp only [foreign] at stepped
      split at stepped
      · rename_i unneeded
        cases stepped
        exact outcome_does rfl rfl (.free runs unneeded)
      · cases stepped
  | orphan derived =>
      simp only [foreign] at stepped
      split at stepped
      · rename_i derivation
        split at stepped
        · rename_i freed
          cases stepped
          exact outcome_does rfl rfl (.orphan runs derivation freed.2.1 freed.2.2)
        · cases stepped
      · cases stepped
  | finish | yield => cases stepped

theorem run_does {derived : FutureId} (stepped : run status env derived = some effect) :
    Does status env (.run derived) effect := by
  cases derivation : env.parent derived with
  | none => simp [run, derivation] at stepped
  | some ran =>
      obtain ⟨combinator, parent⟩ := ran
      rw [run, derivation] at stepped
      cases combinator with
      -- The two kinds of `then` differ in the callable only.
      | thenValue | thenf =>
          dsimp only at stepped
          split at stepped
          · rename_i ready
            split at stepped
            · cases stepped
              exact outcome_does rfl rfl (.copy derivation rfl (by simp [ready]) (by simp))
            · rename_i kept
              cases stepped
              exact outcome_does rfl rfl
                (.invoke derivation (by simp [ready]) fun _ => ⟨ready, by simpa using kept⟩)
          · rename_i failed _
            cases stepped
            exact outcome_does rfl rfl (.copy derivation rfl (by simp [failed]) (by simp))
          · cases stepped
          · rename_i discarded
            cases stepped
            exact outcome_does rfl rfl (.copy derivation rfl (by simp [discarded]) (by simp))
          · rename_i pending
            cases stepped
            exact outcome_does (filterMap_call?_release env derived)
              (filterMap_body?_release env derived) (.unrun derivation pending)
      | repair =>
          dsimp only at stepped
          split at stepped
          · cases stepped
          · rename_i failed
            cases stepped
            exact outcome_does rfl rfl
              (.invoke derivation (by simp [failed]) (by simp [Combinator.isThen]))
          · rename_i ready
            cases stepped
            exact outcome_does rfl rfl (.repair derivation (by simp [ready]))
          · rename_i discarded
            cases stepped
            exact outcome_does rfl rfl (.repair derivation (by simp [discarded]))
      | after =>
          dsimp only at stepped
          split at stepped
          · cases stepped
          · rename_i completed
            split at stepped
            · rename_i triggered
              cases stepped
              exact outcome_does rfl rfl (.late (.inl rfl) triggered)
            · rename_i untriggered
              cases stepped
              exact outcome_does rfl rfl (.after derivation completed (by simpa using untriggered))

theorem yield_does {derived : FutureId} {recovery : Recovery α}
    (stepped : yield status env derived recovery = some effect) :
    Does status env (.callable derived) effect := by
  have returns : ∀ future combinator parent, env.parent derived = some (combinator, parent) →
      (if env.gone future then none
        else some (outcome status env [.body (.associate derived future)])) = some effect →
      Does status env (.callable derived) effect := by
    intro future combinator parent derivation stepped
    split at stepped
    · cases stepped
    · rename_i referenced
      cases stepped
      exact outcome_does rfl rfl (.yieldFuture derivation (by simpa using referenced))
  cases recovery with
  | value value =>
      simp only [yield] at stepped
      split at stepped
      · rename_i derivation
        cases stepped
        exact outcome_does rfl rfl (.yieldValue derivation)
      · cases stepped
  | future future =>
      simp only [yield] at stepped
      split at stepped
      · rename_i derivation
        exact returns _ _ _ derivation stepped
      · rename_i derivation
        exact returns _ _ _ derivation stepped
      · rename_i derivation
        exact returns _ _ _ derivation stepped
      · cases stepped

theorem settle_does {future : FutureId} {completion : Completion α}
    (stepped : settle status env future completion = some effect) :
    Does status env (.settle future completion) effect := by
  rw [settle] at stepped
  split at stepped
  · cases stepped
  · rename_i alive
    split at stepped
    · rename_i associated
      cases stepped
      exact outcome_does (filterMap_call?_release env future) (filterMap_body?_release env future)
        (.refuse (.inl ⟨_, rfl⟩) (by simpa using alive) (.inr associated) fun _ => associated)
    · rename_i unassociated
      cases stepped
      exact outcome_does rfl rfl (.settle (by simpa using alive) (by simpa using unassociated))

theorem associate_does {future target : FutureId}
    (stepped : associate status env future target = some effect) :
    Does status env (.associate future target) effect := by
  rw [associate] at stepped
  split at stepped
  · cases stepped
  · rename_i alive
    split at stepped
    · rename_i free
      cases stepped
      have moves := @Moves.associate _ status env future target (by simpa using alive) free.1
        (by simpa using free.2)
      constructor
      · have flags : (fun other => (Function.update (fun other => (status other).toFlags) future
            { (status future).toFlags with associated := true } other).associated) =
            Function.update (fun other => (status other).associated) future true := by
          funext other
          by_cases same : other = future
          · subst same
            simp
          · simp [same]
        have calls : ([Activation.call future (.on .onDiscard (GraphCallback.discard target)),
            .call target (.on .onReady (.set future)), .call target (.on .onFailed (.fail future)),
            .call target (.on .onDiscarded (.discarded future)),
            .call target (.on .onAbandoned (.abandon future))] ++
              release (α := α) env future).filterMap
              Activation.call? = associations future target ++ released env future := by
          rw [List.filterMap_append, filterMap_call?_release]
          rfl
        have bodies : ([Activation.call future (.on .onDiscard (GraphCallback.discard target)),
            .call target (.on .onReady (.set future)), .call target (.on .onFailed (.fail future)),
            .call target (.on .onDiscarded (.discarded future)),
            .call target (.on .onAbandoned (.abandon future))] ++
              release (α := α) env future).filterMap
              Activation.body? = [] := by
          rw [List.filterMap_append, filterMap_body?_release]
          rfl
        rw [← flags, ← calls, ← bodies] at moves
        exact moves
      · intro other
        by_cases same : other = future
        · subst same
          simp
        · simp [same]
    · rename_i taken
      cases stepped
      apply outcome_does (filterMap_call?_release env future) (filterMap_body?_release env future)
      apply Moves.refuse (.inr ⟨_, rfl⟩) (by simpa using alive)
      · by_cases pending : (status future).state = .pending
        · right
          simpa [pending] using taken
        · exact .inl pending
      · rintro ⟨_, same⟩
        cases same

theorem bound_does {callback : GraphCallback} {argument : Argument α}
    (stepped : (bound env callback argument).map (outcome status env) = some effect) :
    Does status env (.bound callback argument) effect := by
  obtain ⟨activations, found, rfl⟩ := Option.map_eq_some_iff.mp stepped
  unfold bound at found
  split at found
  · rename_i future value
    cases found
    exact outcome_does rfl rfl (@Moves.forward _ _ _ _ _ future (.set value) rfl)
  · rename_i future message
    cases found
    exact outcome_does rfl rfl (@Moves.forward _ _ _ _ _ future (.fail message) rfl)
  · rename_i future
    cases found
    exact outcome_does rfl rfl (@Moves.forward _ _ _ _ _ future .discard rfl)
  · cases found
    exact outcome_does rfl rfl .abandon
  · cases found
    exact outcome_does rfl rfl .abandoned
  · split at found
    · rename_i freed
      cases found
      exact outcome_does rfl rfl (.emptied freed)
    · rename_i referenced
      cases found
      exact outcome_does rfl rfl (.discard (by simpa using referenced))
  · cases found

/-- Every step is one of the moves, and no step writes a `discard` flag. -/
theorem step_does (stepped : step status env frame choice = some effect) :
    Does status env frame effect := by
  cases frame with
  | other =>
      cases choice with
      | finish =>
          cases stepped
          exact outcome_does rfl rfl .finish
      | _ =>
          simp only [step] at stepped
          exact foreign_does rfl stepped
  | run derived => exact run_does stepped
  | expired derived =>
      cases stepped
      rw [expired]
      split
      · rename_i triggered
        exact outcome_does rfl rfl (.late (.inr rfl) triggered)
      · rename_i untriggered
        exact outcome_does rfl rfl (.expired (by simpa using untriggered))
  | callable derived =>
      cases choice with
      | yield recovery => exact yield_does stepped
      | _ =>
          simp only [step] at stepped
          exact foreign_does rfl stepped
  | settle future completion => exact settle_does stepped
  | promised future completion =>
      cases stepped
      exact outcome_does (filterMap_call?_release env future) (filterMap_body?_release env future)
        .promised
  | associate future target => exact associate_does stepped
  | bound callback argument => exact bound_does stepped
  | forwarded future completion =>
      cases stepped
      exact outcome_does rfl rfl .forwarded

end Inversion

end Graph

end Libprocess
