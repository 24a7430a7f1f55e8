import Libprocess.Loop.Steps

/-!
# The synchronous loop

`iterate() >>= (x -> body(x) >>= (Continue -> iterate() ... | Break v -> v))` as a
recursion over the futures that the calls return, with what is known of them.  It says
which calls are made and how far they have come.  `Right` relates it to the place where
the control of a loop is, and the control advances as the recursion does.
-/

namespace Libprocess.Loop

variable {T R : Type}

/-- How far a loop has come. -/
inductive Progress (R : Type) where
  /-- The last call has not returned. -/
  | running (stage : Stage)
  /-- The last future that was returned is not completed. -/
  | blocked
  | ended (ending : Ending R)
  deriving DecidableEq, Repr

/-- The calls of a loop and how far they have come. -/
@[ext] structure History (T R : Type) where
  calls : List (LoopCall T)
  progress : Progress R
  deriving DecidableEq, Repr

/-- A call with the future it returned, and what follows it. -/
def bind (call : LoopCall T) (status : Status (LoopValue T R))
    (rest : LoopValue T R → History T R) : History T R :=
  match status.state, status.result with
  | .ready, .some value => ⟨call :: (rest value).calls, (rest value).progress⟩
  | .failed, .error message => ⟨[call], .ended (.failed message)⟩
  | .discarded, _ => ⟨[call], .ended .discarded⟩
  | _, _ => ⟨[call], .blocked⟩

section Reference

variable (status : FutureId → Status (LoopValue T R))

mutual

/-- `L = iterate() >>= (x -> ...)`, with the futures that the calls return. -/
def iterating : List FutureId → History T R
  | [] => ⟨[.iterate], .running .next⟩
  | future :: rest =>
      bind .iterate (status future) fun
        | .next value => bodying value rest
        | _ => ⟨[], .blocked⟩

/-- `body(x) >>= (Continue -> L | Break v -> v)`. -/
def bodying (value : T) : List FutureId → History T R
  | [] => ⟨[.body value], .running .flow⟩
  | future :: rest =>
      bind (.body value) (status future) fun
        | .flow .Continue => iterating rest
        | .flow (.Break result) => ⟨[], .ended (.ready result)⟩
        | _ => ⟨[], .blocked⟩

end

/-- The history agrees with the place of the control. -/
def Right (calls : List (LoopCall T)) (returned : List FutureId) : Option (Control R) → Prop
  | none => calls = [] ∧ returned = []
  | some .entering => iterating status returned = ⟨calls ++ [.iterate], .running .next⟩
  | some (.calling stage) => iterating status returned = ⟨calls, .running stage⟩
  | some (.awaiting stage future) => ∃ earlier, returned = earlier ++ [future] ∧
      iterating status earlier = ⟨calls, .running stage⟩
  | some (.ended ending) => iterating status returned = ⟨calls, .ended ending⟩

end Reference

/-- Calls alternate, and each call of `body` receives the value of the future that the
call of `iterate` before it returned. -/
def Alternates (status : FutureId → Status (LoopValue T R)) (returned : List FutureId)
    (calls : List (LoopCall T)) : Prop :=
  (∀ index call, calls[2 * index]? = some call → call = .iterate) ∧
    ∀ index call, calls[2 * index + 1]? = some call → ∃ future value,
      returned[2 * index]? = some future ∧ (status future).Holds (.next value) ∧
        call = .body value

/-- What a returned future adds to a history. -/
def follow (stage : Stage) (status : Status (LoopValue T R)) : History T R :=
  match status.state, stage, status.result with
  | .ready, .next, .some (.next value) => ⟨[.body value], .running .flow⟩
  | .ready, .flow, .some (.flow .Continue) => ⟨[.iterate], .running .next⟩
  | .ready, .flow, .some (.flow (.Break result)) => ⟨[], .ended (.ready result)⟩
  | .failed, _, .error message => ⟨[], .ended (.failed message)⟩
  | .discarded, _, _ => ⟨[], .ended .discarded⟩
  | _, _, _ => ⟨[], .blocked⟩

section Facts

variable {status after : FutureId → Status (LoopValue T R)} {calls : List (LoopCall T)}
  {returned : List FutureId} {stage : Stage} {control target : Control R}

/-- A call that is not blocked stays as it is. -/
theorem bind_later {call : LoopCall T} {before after : Status (LoopValue T R)}
    {rest restLater : LoopValue T R → History T R} (evolves : before.Later after)
    (same : ∀ value, (rest value).progress ≠ .blocked → restLater value = rest value)
    (known : (bind call before rest).progress ≠ .blocked) :
    bind call after restLater = bind call before rest := by
  have completed : before.state ≠ .pending := by
    intro pending
    simp [bind, pending] at known
  obtain ⟨state, result, -⟩ := evolves.completed completed
  simp only [bind, state, result] at known ⊢
  split <;> simp_all

/-- What is not blocked does not change when further futures complete. -/
theorem iterating_later (evolves : ∀ future, (status future).Later (after future))
    (known : (iterating status returned).progress ≠ .blocked) :
    iterating after returned = iterating status returned := by
  suffices both : ((iterating status returned).progress ≠ .blocked →
      iterating after returned = iterating status returned) ∧
      ∀ value, (bodying status value returned).progress ≠ .blocked →
        bodying after value returned = bodying status value returned from both.1 known
  clear known
  induction returned with
  | nil => simp [iterating, bodying]
  | cons future rest ih =>
      constructor
      · simp only [iterating]
        refine bind_later (evolves future) ?_
        rintro (value | flow | value) known
        · exact ih.2 value known
        · rfl
        · rfl
      · intro value
        simp only [bodying]
        refine bind_later (evolves future) ?_
        rintro (value | (_ | result) | value) known
        · rfl
        · exact ih.1 known
        · rfl
        · rfl

theorem bind_of_holds {call : LoopCall T} {status : Status (LoopValue T R)}
    {rest : LoopValue T R → History T R} {value : LoopValue T R} (holds : status.Holds value) :
    bind call status rest = ⟨call :: (rest value).calls, (rest value).progress⟩ := by
  simp [bind, holds.1, holds.2]

/-- Only a call whose future is ready is followed by a running one. -/
theorem bind_running {call : LoopCall T} {status : Status (LoopValue T R)}
    {rest : LoopValue T R → History T R}
    (running : bind call status rest = ⟨calls, .running stage⟩) :
    ∃ value tail, status.Holds value ∧ rest value = ⟨tail, .running stage⟩ ∧
      calls = call :: tail := by
  simp only [bind] at running
  split at running <;> simp only [History.mk.injEq, reduceCtorEq, and_false] at running
  next value ready result =>
    obtain ⟨rfl, progress⟩ := running
    exact ⟨value, (rest value).calls, ⟨ready, result⟩, History.ext rfl progress, rfl⟩

/-- A history grows by what its next future adds. -/
theorem iterating_append (running : iterating status returned = ⟨calls, .running stage⟩)
    (future : FutureId) :
    iterating status (returned ++ [future]) =
      ⟨calls ++ (follow stage (status future)).calls,
        (follow stage (status future)).progress⟩ := by
  suffices both : ∀ calls, (iterating status returned = ⟨calls, .running stage⟩ →
      iterating status (returned ++ [future]) =
        ⟨calls ++ (follow stage (status future)).calls,
          (follow stage (status future)).progress⟩) ∧
      ∀ value, bodying status value returned = ⟨calls, .running stage⟩ →
        bodying status value (returned ++ [future]) =
          ⟨calls ++ (follow stage (status future)).calls,
            (follow stage (status future)).progress⟩ from (both calls).1 running
  clear running
  induction returned with
  | nil =>
      refine fun calls => ⟨fun running => ?_, fun value running => ?_⟩
      · simp only [iterating, History.mk.injEq, Progress.running.injEq] at running
        obtain ⟨rfl, rfl⟩ := running
        simp only [List.nil_append, iterating, bodying, follow, bind]
        cases (status future).state <;> cases (status future).result <;> simp
        split <;> simp_all
      · simp only [bodying, History.mk.injEq, Progress.running.injEq] at running
        obtain ⟨rfl, rfl⟩ := running
        simp only [List.nil_append, iterating, bodying, follow, bind]
        cases (status future).state <;> cases (status future).result <;> simp
        split <;> simp_all
  | cons first rest ih =>
      refine fun calls => ⟨fun running => ?_, fun value running => ?_⟩
      · simp only [iterating] at running
        obtain ⟨value, tail, holds, continued, rfl⟩ := bind_running running
        simp only [List.cons_append, iterating, bind_of_holds holds]
        cases value with
        | next value => simp [(ih tail).2 value continued]
        | flow | result => simp at continued
      · simp only [bodying] at running
        obtain ⟨value, tail, holds, continued, rfl⟩ := bind_running running
        simp only [List.cons_append, bodying, bind_of_holds holds]
        rcases value with _ | (_ | _) | _ <;> simp only [History.mk.injEq, reduceCtorEq,
          and_false] at continued
        simp [(ih tail).1 continued]

theorem follow_of_ending {status : Status (LoopValue T R)} {ending : Ending R}
    (ends : status.ending? stage = some ending) :
    follow stage status = (⟨[], .ended ending⟩ : History T R) := by
  simp only [Status.ending?] at ends
  split at ends <;> simp_all [follow]

/-- The control advances as the recursion does. -/
theorem Advance.right {next : List (LoopCall T)} {nextReturned : List FutureId}
    (advance : Advance status calls returned control target next nextReturned)
    (right : Right status calls returned (some control)) :
    Right status next nextReturned (some target) := by
  cases advance with
  | iterate => exact right
  | yield future => exact ⟨returned, rfl, right⟩
  | body holds | again holds | «continue» holds =>
      obtain ⟨earlier, rfl, running⟩ := right
      simp [Right, iterating_append running, follow, holds.1, holds.2]
  | ends ends =>
      obtain ⟨earlier, rfl, running⟩ := right
      simp [Right, iterating_append running, follow_of_ending ends]

/-- The history stays right while futures complete. -/
theorem Right.later {control : Option (Control R)} (right : Right status calls returned control)
    (evolves : ∀ future, (status future).Later (after future)) :
    Right after calls returned control := by
  match control with
  | none => exact right
  | some .entering | some (.calling _) | some (.ended _) =>
      simp only [Right] at right ⊢
      rw [iterating_later evolves (by simp [right])]
      exact right
  | some (.awaiting stage future) =>
      obtain ⟨earlier, rfl, running⟩ := right
      exact ⟨earlier, rfl, by rw [iterating_later evolves (by simp [running]), running]⟩

/-- The calls made are the first calls of the recursion. -/
theorem Right.calls_isPrefix {control : Option (Control R)}
    (right : Right status calls returned control) :
    calls <+: (iterating status returned).calls := by
  match control with
  | none =>
      obtain ⟨rfl, rfl⟩ := right
      exact List.nil_prefix
  | some .entering =>
      simp only [Right] at right
      simp [right]
  | some (.calling _) | some (.ended _) =>
      simp only [Right] at right
      simp [right]
  | some (.awaiting stage future) =>
      obtain ⟨earlier, rfl, running⟩ := right
      simp [iterating_append running]

/-- The calls that follow a call are those of its continuation. -/
theorem bind_calls (call : LoopCall T) (status : Status (LoopValue T R))
    (rest : LoopValue T R → History T R) :
    (bind call status rest).calls = [call] ∨
      ∃ value, status.Holds value ∧ (bind call status rest).calls = call :: (rest value).calls := by
  simp only [bind]
  split
  · next value ready result => exact .inr ⟨value, ⟨ready, result⟩, rfl⟩
  all_goals exact .inl rfl

theorem alternates_iterate (returned : List FutureId) :
    Alternates status returned [.iterate] := by
  constructor
  · rintro (_ | index) call found
    · simpa using found.symm
    · simp [Nat.mul_add] at found
  · intro index call found
    simp at found

theorem alternates_pair {first : FutureId} {value : T}
    (holds : (status first).Holds (.next value)) (returned : List FutureId) :
    Alternates status (first :: returned) [.iterate, .body value] := by
  constructor
  · rintro (_ | index) call found
    · simpa using found.symm
    · simp [Nat.mul_add] at found
  · rintro (_ | index) call found
    · exact ⟨first, value, rfl, holds, by simpa using found.symm⟩
    · simp [Nat.mul_add] at found

theorem Alternates.cons {first second : FutureId} {value : T}
    (tail : Alternates status returned calls) (holds : (status first).Holds (.next value)) :
    Alternates status (first :: second :: returned) (.iterate :: .body value :: calls) := by
  constructor
  · rintro (_ | index) call found
    · simpa using found.symm
    · exact tail.1 index call (by simpa [Nat.mul_add] using found)
  · rintro (_ | index) call found
    · exact ⟨first, value, rfl, holds, by simpa using found.symm⟩
    · obtain ⟨future, received, member, ready, rfl⟩ :=
        tail.2 index call (by simpa [Nat.mul_add] using found)
      exact ⟨future, received, by simpa [Nat.mul_add] using member, ready, rfl⟩

/-- The recursion calls `iterate` and `body` in turn. -/
theorem iterating_alternates (returned : List FutureId) :
    Alternates status returned (iterating status returned).calls := by
  suffices both : Alternates status returned (iterating status returned).calls ∧
      ∀ value first, (status first).Holds (.next value) →
        Alternates status (first :: returned) (.iterate :: (bodying status value returned).calls)
    from both.1
  induction returned with
  | nil =>
      simp only [iterating, bodying]
      exact ⟨alternates_iterate [], fun value first holds => alternates_pair holds []⟩
  | cons future rest ih =>
      constructor
      · simp only [iterating]
        rcases bind_calls .iterate (status future) _ with only | ⟨value, holds, continued⟩
        · rw [only]
          exact alternates_iterate _
        · rw [continued]
          cases value with
          | next value => exact ih.2 value future holds
          | flow | result => exact alternates_iterate _
      · intro value first holds
        simp only [bodying]
        rcases bind_calls (.body value) (status future) _ with only | ⟨flow, _, continued⟩
        · rw [only]
          exact alternates_pair holds _
        · rw [continued]
          rcases flow with _ | (_ | _) | _
          · exact alternates_pair holds _
          · exact ih.1.cons holds
          · exact alternates_pair holds _
          · exact alternates_pair holds _

theorem Alternates.mono {fewer : List (LoopCall T)} (alternates : Alternates status returned calls)
    (first : fewer <+: calls) : Alternates status returned fewer := by
  have kept : ∀ (index : Nat) (call : LoopCall T), fewer[index]? = some call →
      calls[index]? = some call := by
    intro index call found
    obtain ⟨bound, rfl⟩ := List.getElem?_eq_some_iff.mp found
    exact List.prefix_iff_getElem?.mp first index bound
  exact ⟨fun index call found => alternates.1 index call (kept _ _ found),
    fun index call found => alternates.2 index call (kept _ _ found)⟩

end Facts

end Libprocess.Loop
