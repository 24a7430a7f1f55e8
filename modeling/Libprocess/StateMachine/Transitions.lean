import Libprocess.Concurrency.Automaton
import Mathlib.Data.List.Basic
import Mathlib.Logic.Function.Basic

/-!
# `StateMachine`

A transition changes the state, sets the promises of the new state one after the other and clears
their vector, then calls its side effect.  Setting a promise runs the callbacks of its future, and
they may call the state machine again, like a side effect may.  The calls of one state machine do
not run in parallel, so its threads are a single stack of frames.
-/

namespace Libprocess.Transitions

open Concurrency

universe u

variable {State : Type u}

/-- A future that `when` has returned, for the state it waits for.  `entered` records whether the
machine was in the state at the call, or has entered it since. -/
structure Waiting (State : Type u) where
  state : State
  entered : Bool
  ready : Bool
  deriving DecidableEq, Repr

/-- The machine enters a state. -/
def Waiting.enter [DecidableEq State] (target : State) (waiting : Waiting State) : Waiting State :=
  { waiting with entered := waiting.entered || waiting.state = target }

/-- Program points. -/
inductive Frame (State : Type u) where
  /-- Code that uses the state machine: of its owner, of a callback or of a side effect. -/
  | code
  /-- The loop of `transition` over the promises of a state, with the place of the next promise and
  the number of promises at its begin. -/
  | notifying (state : State) (place size : Nat)
  /-- `promises[state].clear()` -/
  | clearing
  deriving DecidableEq, Repr

/-- A state machine, with the futures that `when` returned and the calls that have begun. -/
structure StateMachine (State : Type u) where
  state : State
  /-- The vectors of promises, by the numbers of their futures. -/
  promises : State → List Nat
  futures : List (Waiting State)
  stack : List (Frame State)
  /-- A vector was modified while a loop was iterating over it. -/
  undefined : Bool

inductive Call (State : Type u) where
  | transition (source target : State)
  | when (state : State)
  /-- Code returns to its caller. -/
  | finish
  /-- A transition goes on. -/
  | proceed
  deriving DecidableEq, Repr

namespace StateMachine

variable [DecidableEq State] (machine : StateMachine State)

def new (initial : State) : StateMachine State := ⟨initial, fun _ => [], [], [.code], false⟩

/-- A loop over the promises of a state is in progress. -/
def iterates (state : State) : Bool :=
  machine.stack.any fun frame =>
    match frame with
    | .notifying other _ _ => other = state
    | _ => false

/-- `state = to;` and the begin of the loop. -/
def enter (target : State) : StateMachine State :=
  { machine with
    state := target
    futures := machine.futures.map (.enter target)
    stack := .notifying target 0 (machine.promises target).length :: machine.stack }

/-- The begin of `transition<source, target>`; it returns an error in any other state. -/
def transition (source target : State) : StateMachine State :=
  if machine.state ≠ source then machine else machine.enter target

/-- `when<state>` -/
def when (state : State) : StateMachine State :=
  if machine.state ≠ state then
    { machine with
      promises := Function.update machine.promises state
        (machine.promises state ++ [machine.futures.length])
      futures := machine.futures ++ [⟨state, false, false⟩]
      undefined := machine.undefined || machine.iterates state }
  else { machine with futures := machine.futures ++ [⟨state, true, true⟩] }

/-- `promise.set(Nothing())`, whose callbacks run before the loop over `rest` goes on. -/
def notify (future : Nat) (rest : List (Frame State)) : StateMachine State :=
  match machine.futures[future]? with
  | some ⟨state, entered, false⟩ =>
      { machine with
        futures := machine.futures.set future ⟨state, entered, true⟩
        stack := .code :: rest }
  | _ => { machine with stack := rest }

/-- `promises[state].clear(); return f();` -/
def clear (rest : List (Frame State)) : StateMachine State :=
  { machine with
    promises := Function.update machine.promises machine.state []
    stack := .code :: rest
    undefined := machine.undefined || machine.iterates machine.state }

/-- One step; nothing is known of the program once its behaviour is undefined. -/
def step (call : Call State) : Option (StateMachine State) :=
  if machine.undefined then none
  else
    match machine.stack, call with
    | .code :: _, .transition source target => some (machine.transition source target)
    | .code :: _, .when state => some (machine.when state)
    | .code :: rest, .finish => some { machine with stack := rest }
    | .notifying state place size :: rest, .proceed =>
        if place < size then
          (machine.promises state)[place]?.map fun future =>
            machine.notify future (.notifying state (place + 1) size :: rest)
        else some { machine with stack := .clearing :: rest }
    | .clearing :: rest, .proceed => some (machine.clear rest)
    | _, _ => none

end StateMachine

/-- All runs of a state machine. -/
def runs (State : Type u) [DecidableEq State] : Automaton (StateMachine State) (Call State) where
  start machine := ∃ initial, machine = .new initial
  step := StateMachine.step

namespace StateMachine

variable [DecidableEq State] {machine next : StateMachine State}

/-- A loop in progress is going to set the promise of a future. -/
def Covers (machine : StateMachine State) (state : State) (future : Nat) : Prop :=
  ∃ first place size, .notifying state first size ∈ machine.stack ∧ first ≤ place ∧ place < size ∧
    (machine.promises state)[place]? = some future

/-- What users of `when` may expect of every state of a run. -/
structure Notified (machine : StateMachine State) : Prop where
  intact : machine.undefined = false
  /-- A future is not ready before the machine enters its state. -/
  sound : ∀ (future : Nat) (waiting : Waiting State), machine.futures[future]? = some waiting →
    waiting.ready = true → waiting.entered = true
  /-- It is ready then, or the loop that makes it so is in progress. -/
  complete : ∀ (future : Nat) (waiting : Waiting State), machine.futures[future]? = some waiting →
    waiting.entered = true → waiting.ready = true ∨ machine.Covers waiting.state future
  /-- The promise of a future that is not ready is not dropped. -/
  kept : ∀ (future : Nat) (waiting : Waiting State), machine.futures[future]? = some waiting →
    waiting.ready = false → future ∈ machine.promises waiting.state

/-- No code waits for a state that is being notified of and has been left, and no transition ends
in a state that is still being notified of. -/
def Calm (machine : StateMachine State) (call : Call State) : Prop :=
  match machine.stack, call with
  | .code :: _, .when state => machine.state ≠ state → machine.iterates state = false
  | .clearing :: _, .proceed => machine.iterates machine.state = false
  | _, _ => True

/-- What a machine keeps as long as nothing is modified under a loop. -/
structure Kept (machine : StateMachine State) : Prop extends machine.Notified where
  /-- The promises of a state are those of futures that wait for it. -/
  filed : ∀ (state : State) (future : Nat), future ∈ machine.promises state →
    ∃ waiting, machine.futures[future]? = some waiting ∧ waiting.state = state
  /-- The machine has entered its state since the last call that waits for it. -/
  present : ∀ (future : Nat) (waiting : Waiting State), machine.futures[future]? = some waiting →
    waiting.state = machine.state → waiting.entered = true
  /-- It has entered the states that it is notifying of since then, too. -/
  entered : ∀ (state : State), machine.iterates state = true → ∀ (future : Nat),
    future ∈ machine.promises state → ∀ waiting, machine.futures[future]? = some waiting →
      waiting.entered = true

theorem kept_new (initial : State) : (new initial).Kept where
  intact := rfl
  sound := by simp [new]
  complete := by simp [new]
  kept := by simp [new]
  filed := by simp [new]
  present := by simp [new]
  entered := by simp [new]

theorem iterates_iff {state : State} : machine.iterates state = true ↔
    ∃ place size, .notifying state place size ∈ machine.stack := by
  rw [iterates, List.any_eq_true]
  constructor
  · rintro ⟨frame, member, found⟩
    cases frame with
    | code | clearing => cases found
    | notifying other place size =>
        obtain rfl := of_decide_eq_true found
        exact ⟨place, size, member⟩
  · rintro ⟨place, size, member⟩
    exact ⟨_, member, decide_eq_true rfl⟩

theorem Covers.iterates {state : State} {future : Nat} (covers : machine.Covers state future) :
    machine.iterates state = true := by
  obtain ⟨first, _, size, member, _⟩ := covers
  exact iterates_iff.mpr ⟨first, size, member⟩

omit [DecidableEq State] in
/-- A loop goes on to cover a future when the loop remains and the promise does. -/
theorem Covers.mono {state : State} {future : Nat} (covers : machine.Covers state future)
    (loops : ∀ place size, .notifying state place size ∈ machine.stack →
      .notifying state place size ∈ next.stack)
    (promises : ∀ place : Nat, (machine.promises state)[place]? = some future →
      (next.promises state)[place]? = some future) : next.Covers state future := by
  obtain ⟨first, place, size, member, lower, upper, found⟩ := covers
  exact ⟨first, place, size, loops first size member, lower, upper, promises place found⟩

/-! ## Steps -/

theorem getElem?_enter {target : State} {future : Nat} {waiting : Waiting State} :
    (machine.enter target).futures[future]? = some waiting ↔
      ∃ before, machine.futures[future]? = some before ∧ before.enter target = waiting := by
  rw [enter, List.getElem?_map, Option.map_eq_some_iff]

theorem Kept.enter (kept : machine.Kept) (target : State) : (machine.enter target).Kept := by
  constructor
  · constructor
    · exact kept.intact
    · intro future waiting found ready
      obtain ⟨before, present, rfl⟩ := getElem?_enter.mp found
      simp [Waiting.enter, kept.sound future before present ready]
    · intro future waiting found entered
      obtain ⟨before, present, rfl⟩ := getElem?_enter.mp found
      cases ready : before.ready with
      | true => exact .inl ready
      | false =>
          right
          simp only [Waiting.enter, Bool.or_eq_true, decide_eq_true_iff] at entered ⊢
          rcases entered with entered | rfl
          · have pending : ¬ before.ready = true := by simp [ready]
            have covers := (kept.complete future before present entered).resolve_left pending
            exact covers.mono (fun _ _ member => List.mem_cons_of_mem _ member) fun _ found => found
          · -- The new loop covers the promises of the state that the machine enters.
            obtain ⟨place, bound, filed⟩ :=
              List.mem_iff_getElem.mp (kept.kept future before present ready)
            exact ⟨0, place, _, List.mem_cons_self, Nat.zero_le place, bound,
              List.getElem?_eq_some_iff.mpr ⟨bound, filed⟩⟩
    · intro future waiting found ready
      obtain ⟨before, present, rfl⟩ := getElem?_enter.mp found
      exact kept.kept future before present ready
  · intro state future member
    obtain ⟨before, found, same⟩ := kept.filed state future member
    exact ⟨_, getElem?_enter.mpr ⟨before, found, rfl⟩, same⟩
  · intro future waiting found same
    obtain ⟨before, _, rfl⟩ := getElem?_enter.mp found
    have arrived : before.state = target := same
    simp [Waiting.enter, arrived]
  · intro state iterates future member waiting found
    obtain ⟨before, present, rfl⟩ := getElem?_enter.mp found
    obtain ⟨_, again, rfl⟩ := kept.filed state future member
    obtain rfl := Option.some.inj (present.symm.trans again)
    simp only [Waiting.enter, Bool.or_eq_true, decide_eq_true_iff]
    rcases eq_or_ne before.state target with arrived | elsewhere
    · exact .inr arrived
    · obtain ⟨place, size, inside⟩ := iterates_iff.mp iterates
      have older : .notifying before.state place size ∈ machine.stack := by
        simpa [StateMachine.enter, elsewhere] using inside
      have iterates := iterates_iff.mpr ⟨place, size, older⟩
      exact .inl (kept.entered _ iterates future member before present)

theorem Kept.transition (kept : machine.Kept) (source target : State) :
    (machine.transition source target).Kept := by
  rw [StateMachine.transition]
  split
  · exact kept
  · exact kept.enter target

omit [DecidableEq State] in
/-- The future that `when` returns is the last one. -/
theorem getElem?_returned {futures : List (Waiting State)} {added waiting : Waiting State}
    {future : Nat} : (futures ++ [added])[future]? = some waiting ↔
      futures[future]? = some waiting ∨ future = futures.length ∧ waiting = added := by
  rcases Nat.lt_trichotomy future futures.length with earlier | rfl | later
  · have different : future ≠ futures.length := by omega
    simp [List.getElem?_append_left earlier, different]
  · simp [eq_comm]
  · have bound : (futures ++ [added]).length ≤ future := by simp; omega
    simp [List.getElem?_eq_none bound, List.getElem?_eq_none (Nat.le_of_lt later),
      show future ≠ futures.length by omega]

theorem Kept.when (kept : machine.Kept) (state : State)
    (quiet : machine.state ≠ state → machine.iterates state = false) :
    (machine.when state).Kept := by
  rw [StateMachine.when]
  split
  case isTrue elsewhere =>
    have silent := quiet elsewhere
    have same : ∀ other, machine.iterates other = true →
        Function.update machine.promises state
          (machine.promises state ++ [machine.futures.length]) other = machine.promises other := by
      intro other iterates
      exact Function.update_of_ne (by rintro rfl; simp [silent] at iterates) _ _
    constructor
    · constructor
      · simp [kept.intact, silent]
      · intro future waiting found ready
        rcases getElem?_returned.mp found with present | ⟨-, rfl⟩
        · exact kept.sound future waiting present ready
        · cases ready
      · intro future waiting found entered
        rcases getElem?_returned.mp found with present | ⟨-, rfl⟩
        · refine (kept.complete future waiting present entered).imp_right fun covers => ?_
          refine covers.mono (fun _ _ member => member) fun place filed => ?_
          exact (congrArg (·[place]?) (same _ covers.iterates)).trans filed
        · cases entered
      · intro future waiting found ready
        rcases getElem?_returned.mp found with present | ⟨rfl, rfl⟩
        · have member := kept.kept future waiting present ready
          simp only [Function.update_apply]
          split
          · rename_i same
            exact List.mem_append_left _ (same ▸ member)
          · exact member
        · simp
    · intro other future member
      simp only [Function.update_apply] at member
      split at member
      · rename_i arrived
        rcases List.mem_append.mp member with older | last
        · obtain ⟨waiting, present, filed⟩ := kept.filed state future older
          exact ⟨waiting, getElem?_returned.mpr (.inl present), filed.trans arrived.symm⟩
        · exact ⟨_, getElem?_returned.mpr (.inr ⟨List.mem_singleton.mp last, rfl⟩), arrived.symm⟩
      · obtain ⟨waiting, present, filed⟩ := kept.filed other future member
        exact ⟨waiting, getElem?_returned.mpr (.inl present), filed⟩
    · intro future waiting found same
      rcases getElem?_returned.mp found with present | ⟨-, rfl⟩
      · exact kept.present future waiting present same
      · exact absurd same.symm elsewhere
    · intro other iterates future member waiting found
      have older : future ∈ machine.promises other := same other iterates ▸ member
      rcases getElem?_returned.mp found with present | ⟨rfl, rfl⟩
      · exact kept.entered other iterates future older waiting present
      · obtain ⟨_, present, -⟩ := kept.filed other _ older
        simp at present
  case isFalse here =>
    have arrived : machine.state = state := Decidable.not_not.mp here
    constructor
    · constructor
      · exact kept.intact
      · intro future waiting found ready
        rcases getElem?_returned.mp found with present | ⟨-, rfl⟩
        · exact kept.sound future waiting present ready
        · rfl
      · intro future waiting found entered
        rcases getElem?_returned.mp found with present | ⟨-, rfl⟩
        · exact kept.complete future waiting present entered
        · exact .inl rfl
      · intro future waiting found ready
        rcases getElem?_returned.mp found with present | ⟨-, rfl⟩
        · exact kept.kept future waiting present ready
        · cases ready
    · intro other future member
      obtain ⟨waiting, present, filed⟩ := kept.filed other future member
      exact ⟨waiting, getElem?_returned.mpr (.inl present), filed⟩
    · intro future waiting found same
      rcases getElem?_returned.mp found with present | ⟨-, rfl⟩
      · exact kept.present future waiting present same
      · rfl
    · intro other iterates future member waiting found
      rcases getElem?_returned.mp found with present | ⟨rfl, rfl⟩
      · exact kept.entered other iterates future member waiting present
      · rfl

/-- The promise of a future is set. -/
theorem Kept.ready (kept : machine.Kept) {future : Nat} {waiting : Waiting State}
    (present : machine.futures[future]? = some waiting) (entered : waiting.entered = true) :
    Kept { machine with futures := machine.futures.set future { waiting with ready := true } } := by
  have known : ∀ (other : Nat) (after : Waiting State),
      (machine.futures.set future { waiting with ready := true })[other]? = some after →
        after = { waiting with ready := true } ∧ other = future ∨
          machine.futures[other]? = some after := by
    intro other after found
    rw [List.getElem?_set] at found
    split at found
    · rename_i same
      split at found
      · exact .inl ⟨(Option.some.inj found).symm, same.symm⟩
      · cases found
    · exact .inr found
  constructor
  · constructor
    · exact kept.intact
    · intro other after found ready
      rcases known other after found with ⟨rfl, -⟩ | before
      · exact entered
      · exact kept.sound other after before ready
    · intro other after found entered
      rcases known other after found with ⟨rfl, -⟩ | before
      · exact .inl rfl
      · exact kept.complete other after before entered
    · intro other after found pending
      rcases known other after found with ⟨rfl, -⟩ | before
      · cases pending
      · exact kept.kept other after before pending
  · intro state other member
    obtain ⟨before, found, filed⟩ := kept.filed state other member
    rcases eq_or_ne future other with rfl | different
    · obtain rfl := Option.some.inj (present.symm.trans found)
      obtain ⟨bound, -⟩ := List.getElem?_eq_some_iff.mp present
      exact ⟨_, List.getElem?_set_self bound, filed⟩
    · exact ⟨before, (List.getElem?_set_ne different).trans found, filed⟩
  · intro other after found same
    rcases known other after found with ⟨rfl, -⟩ | before
    · exact entered
    · exact kept.present other after before same
  · intro state iterates other member after found
    rcases known other after found with ⟨rfl, -⟩ | before
    · exact entered
    · exact kept.entered state iterates other member after before

/-- A stack may lose the loops that cover nothing but futures that are ready. -/
theorem Kept.restack (kept : machine.Kept) {stack : List (Frame State)}
    (loops : ∀ state, StateMachine.iterates { machine with stack := stack } state = true →
      machine.iterates state = true)
    (covers : ∀ future waiting, machine.futures[future]? = some waiting → waiting.ready = false →
      machine.Covers waiting.state future →
        Covers { machine with stack := stack } waiting.state future) :
    Kept { machine with stack := stack } where
  intact := kept.intact
  sound := kept.sound
  complete future waiting found entered := by
    rcases kept.complete future waiting found entered with ready | covered
    · exact .inl ready
    · cases ready : waiting.ready with
      | true => exact .inl rfl
      | false => exact .inr (covers future waiting found ready covered)
  kept := kept.kept
  filed := kept.filed
  present := kept.present
  entered state iterates := kept.entered state (loops state iterates)

omit [DecidableEq State] in
/-- After its round for a ready future, a loop covers the same futures that are not ready. -/
theorem Covers.advance {state other : State} {place size future covered : Nat}
    {stack rest : List (Frame State)} (covers : machine.Covers other covered)
    (before : machine.stack = .notifying state place size :: rest)
    (after : ∀ frame, frame ∈ .notifying state (place + 1) size :: rest → frame ∈ stack)
    (promise : (machine.promises state)[place]? = some future) (different : covered ≠ future) :
    Covers { machine with stack := stack } other covered := by
  obtain ⟨first, index, bound, member, lower, upper, found⟩ := covers
  rw [before] at member
  rcases List.mem_cons.mp member with top | below
  · cases top
    have later : place ≠ index := by
      rintro rfl
      exact different (Option.some.inj (found.symm.trans promise))
    exact ⟨place + 1, index, size, after _ List.mem_cons_self, by omega, upper, found⟩
  · exact ⟨first, index, bound, after _ (List.mem_cons_of_mem _ below), lower, upper, found⟩

/-- One round of a loop. -/
theorem Kept.notify (kept : machine.Kept) {state : State} {place size future : Nat}
    {rest : List (Frame State)} (stack : machine.stack = .notifying state place size :: rest)
    (promise : (machine.promises state)[place]? = some future) :
    (machine.notify future (.notifying state (place + 1) size :: rest)).Kept := by
  have iterates : machine.iterates state = true := iterates_iff.mpr ⟨place, size, by simp [stack]⟩
  obtain ⟨waiting, present, -⟩ := kept.filed state future (List.mem_of_getElem? promise)
  have entered := kept.entered state iterates future (List.mem_of_getElem? promise) waiting present
  have loops : ∀ (callback : List (Frame State)) (other : State), callback ⊆ [.code] →
      StateMachine.iterates { machine with
        stack := callback ++ .notifying state (place + 1) size :: rest } other = true →
      machine.iterates other = true := by
    intro callback other code iterates
    obtain ⟨first, bound, member⟩ := iterates_iff.mp iterates
    rcases List.mem_append.mp member with inside | member
    · cases List.mem_singleton.mp (code inside)
    · rcases List.mem_cons.mp member with top | below
      · cases top
        exact iterates_iff.mpr ⟨place, size, by simp [stack]⟩
      · exact iterates_iff.mpr ⟨first, bound, by simp [stack, below]⟩
  rw [StateMachine.notify]
  split
  · rename_i awaited was present'
    obtain rfl := Option.some.inj (present.symm.trans present')
    refine (kept.ready present entered).restack
      (fun other => loops [.code] other (List.Subset.refl _)) ?_
    intro covered after found pending covers
    have before : Covers { machine with futures := machine.futures.set future _ } _ _ := covers
    refine before.advance stack (fun _ member => List.mem_cons_of_mem _ member) promise ?_
    rintro rfl
    obtain ⟨bound, -⟩ := List.getElem?_eq_some_iff.mp present
    obtain rfl := Option.some.inj ((List.getElem?_set_self bound).symm.trans found)
    cases pending
  · rename_i unset
    refine kept.restack (fun other => loops [] other (List.nil_subset _)) ?_
    intro covered after found pending covers
    refine covers.advance stack (fun _ member => member) promise ?_
    rintro rfl
    exact unset after.state after.entered (pending ▸ found)

/-- `promises[state].clear()` drops no promise that has not been set. -/
theorem Kept.clear (kept : machine.Kept) {rest : List (Frame State)}
    (stack : machine.stack = .clearing :: rest) (quiet : machine.iterates machine.state = false) :
    (machine.clear rest).Kept := by
  have loops : ∀ state, (machine.clear rest).iterates state = machine.iterates state := by
    intro state
    simp [StateMachine.iterates, StateMachine.clear, stack]
  have covers : ∀ {state future}, machine.Covers state future →
      (machine.clear rest).Covers state future := by
    intro state future covered
    have different : state ≠ machine.state := by
      rintro rfl
      exact absurd covered.iterates (by simp [quiet])
    refine covered.mono (fun place size member => ?_) fun place found => ?_
    · simpa [StateMachine.clear, stack] using member
    · simpa [StateMachine.clear, Function.update_of_ne different] using found
  have fewer : ∀ {state future}, future ∈ (machine.clear rest).promises state →
      future ∈ machine.promises state := by
    intro state future member
    simp only [StateMachine.clear, Function.update_apply] at member
    split at member
    · cases member
    · exact member
  constructor
  · constructor
    · simp [StateMachine.clear, kept.intact, quiet]
    · exact kept.sound
    · intro future waiting found entered
      exact (kept.complete future waiting found entered).imp_right covers
    · intro future waiting found pending
      have different : waiting.state ≠ machine.state := by
        intro here
        have entered := kept.present future waiting found here
        rcases kept.complete future waiting found entered with ready | covered
        · simp [ready] at pending
        · have iterates := covered.iterates
          simp [here, quiet] at iterates
      simpa [StateMachine.clear, Function.update_of_ne different] using
        kept.kept future waiting found pending
  · exact fun state future member => kept.filed state future (fewer member)
  · exact kept.present
  · intro state iterates future member
    exact kept.entered state (loops state ▸ iterates) future (fewer member)

/-- A calm step keeps what the machine keeps. -/
theorem Kept.step (kept : machine.Kept) {call : Call State} (calm : machine.Calm call)
    (stepped : machine.step call = some next) : next.Kept := by
  rw [StateMachine.step.eq_def, if_neg (by simp [kept.intact])] at stepped
  split at stepped
  · cases stepped
    exact kept.transition _ _
  · rename_i stack
    cases stepped
    exact kept.when _ (by simpa only [Calm, stack] using calm)
  · rename_i rest stack
    cases stepped
    refine kept.restack (fun state iterates => ?_) fun future waiting found pending covers => ?_
    · simpa [StateMachine.iterates, stack] using iterates
    · refine covers.mono (fun place size member => ?_) fun _ found => found
      simpa [stack] using member
  · rename_i state place size rest stack
    split at stepped
    · obtain ⟨future, promise, rfl⟩ := Option.map_eq_some_iff.mp stepped
      exact kept.notify stack promise
    · rename_i past
      cases stepped
      refine kept.restack (fun other iterates => ?_) fun future waiting found pending covers => ?_
      · simp only [StateMachine.iterates, stack, List.any_cons] at iterates ⊢
        simp_all
      · obtain ⟨first, index, bound, member, lower, upper, found⟩ := covers
        have below : .notifying waiting.state first bound ∈ rest := by
          rw [stack] at member
          rcases List.mem_cons.mp member with top | below
          · cases top
            omega
          · exact below
        exact ⟨first, index, bound, List.mem_cons_of_mem _ below, lower, upper, found⟩
  · rename_i stack
    cases stepped
    exact kept.clear stack (by simpa only [Calm, stack] using calm)
  · cases stepped

/-- Any other step modifies a vector under a loop. -/
theorem undefined_of_step {call : Call State} (hasty : ¬ machine.Calm call)
    (stepped : machine.step call = some next) : next.undefined = true := by
  rw [StateMachine.step.eq_def] at stepped
  split at stepped
  · cases stepped
  · rw [Calm.eq_def] at hasty
    split at hasty
    · rename_i state stack
      simp only [stack, Option.some.injEq] at stepped
      obtain ⟨elsewhere, iterates⟩ := Classical.not_imp.mp hasty
      rw [← stepped, StateMachine.when, if_pos elsewhere]
      simp [eq_true_of_ne_false iterates]
    · rename_i rest stack
      simp only [stack, Option.some.injEq] at stepped
      rw [← stepped]
      simp [StateMachine.clear, eq_true_of_ne_false hasty]
    · exact absurd True.intro hasty

/-- In a run, users of `when` are notified exactly on entry, and no loop iterates over a vector
that is modified, exactly if no code waits for a state that has been left while the machine
notifies of it, and no transition ends in a state while the machine notifies of it. -/
theorem notified_iff {initial : State} {calls : List (Call State)} {last : StateMachine State}
    (executed : (runs State).run (.new initial) calls = some last) :
    (runs State).Throughout Notified (.new initial) calls ↔
      (runs State).Along Calm (.new initial) calls := by
  refine Automaton.throughout_iff_along Notified Kept (kept_new initial)
    (fun _ kept => kept.toNotified)
    (fun _ _ _ kept calm stepped => kept.step calm stepped) ?_ executed
  intro machine call next kept hasty stepped notified
  have undefined := undefined_of_step hasty stepped
  simp [notified.intact] at undefined

instance calm_decidable (machine : StateMachine State) (call : Call State) :
    Decidable (machine.Calm call) := by
  unfold Calm
  split <;> infer_instance

/-- A callback leaves the state that the machine notifies of, and waits for both states. -/
def leavingSchedule : List (Call Bool) :=
  [.when true, .when true, .transition false true, .proceed, .when true, .when false,
    .transition true false, .proceed, .finish, .proceed, .proceed, .finish, .finish, .proceed,
    .finish, .proceed, .proceed, .finish, .transition false true]

theorem notified_iff_leaving :
    (runs Bool).Throughout Notified (.new false) leavingSchedule := by
  have outcome : ((runs Bool).run (.new false) leavingSchedule).isSome = true := by decide
  obtain ⟨last, executed⟩ := Option.isSome_iff_exists.mp outcome
  exact (notified_iff executed).mpr (by decide)

/-- A callback leaves the state that the machine notifies of, and waits for it again. -/
def waitingSchedule : List (Call Bool) :=
  [.when true, .transition false true, .proceed, .transition true false, .proceed, .proceed,
    .finish, .when true]

/-- A callback leaves the state that the machine notifies of, and enters it again. -/
def returningSchedule : List (Call Bool) :=
  [.when true, .when true, .transition false true, .proceed, .transition true false, .proceed,
    .proceed, .finish, .transition false true, .proceed, .proceed, .finish, .proceed, .proceed]

/-- The vector under the loop grows, or is cleared. -/
theorem not_notified :
    (∃ last, (runs Bool).run (.new false) waitingSchedule = some last ∧
      last.iterates true = true ∧ last.promises true = [0, 1] ∧ ¬ last.Notified) ∧
    ∃ last, (runs Bool).run (.new false) returningSchedule = some last ∧
      last.iterates true = true ∧ last.promises true = [] ∧ ¬ last.Notified := by
  have grows : ((runs Bool).run (.new false) waitingSchedule).any (fun last =>
      last.undefined && last.iterates true && last.promises true == [0, 1]) = true := by decide
  have cleared : ((runs Bool).run (.new false) returningSchedule).any (fun last =>
      last.undefined && last.iterates true && last.promises true == []) = true := by decide
  simp only [Option.any_eq_true, Bool.and_eq_true, beq_iff_eq] at grows cleared
  obtain ⟨last, executed, ⟨undefined, iterates⟩, promises⟩ := grows
  obtain ⟨last', executed', ⟨undefined', iterates'⟩, promises'⟩ := cleared
  exact ⟨⟨last, executed, iterates, promises, fun notified => by
      simp [notified.intact] at undefined⟩,
    last', executed', iterates', promises', fun notified => by
      simp [notified.intact] at undefined'⟩

end StateMachine

end Libprocess.Transitions
