import Libprocess.Collect.Agreement

/-!
# The variadic `collect`

When everything that it has set in motion has happened, the variadic `collect` of some futures has
ended like the `collect` of the vector of them.  It differs if a future is ready although somebody
has asked to discard it: `then` makes a discarded future of that one, and the variadic `collect`
fails.
-/

namespace Libprocess

variable {T : Type}

namespace Gather

variable {machine : Machine (gathering T)} {name : FutureId} {call : Variadic}
  {process inner : GatherProcess T}

/-- Everything that a call of the variadic `collect` has set in motion has happened. -/
structure Finished (machine : Machine (gathering T)) (call : Variadic)
    (inner : GatherProcess T) : Prop where
  wrappers : ∀ wrapper future, (wrapper, future) ∈ call.wrappers.zip call.futures →
    Rested machine wrapper future
  gathered : Delivered machine call.gathered inner
  result : Rested machine call.result call.gathered

/-- Nobody requested a discard of what `collect` returned, and nobody terminated its process. -/
structure Undisturbed (status : Statuses T) (returned : FutureId) (process : GatherProcess T) :
    Prop where
  wanted : (status returned).discard = false
  running : process.terminated = false

/-- The futures and the results of both calls. -/
structure Called (machine : Machine (gathering T)) (name : FutureId) (call : Variadic)
    (process inner : GatherProcess T) : Prop where
  known : machine.snapshot.env.process name = some process
  collects : process.gathering = .collect
  inputs : process.inputs = call.futures
  made : call ∈ machine.snapshot.env.variadics
  spawned : machine.snapshot.env.process call.gathered = some inner

theorem Idle.rested (idle : Idle machine) (derived parent : FutureId) :
    Rested machine derived parent := by
  have quiescent : ∀ future, machine.Quiescent future := by
    intro future frame member
    rw [idle frame member]
    simp [Frame.subject]
  refine ⟨quiescent parent, quiescent derived, ?_⟩
  intro body member
  cases idle _ (Machine.mem_frames_of_body member)
  rfl

theorem Idle.finished (idle : Idle machine)
    (stage : inner.stage = .blocked ∨ inner.stage = .deleted) (events : inner.events = []) :
    Finished machine call inner :=
  ⟨fun wrapper future _ => idle.rested wrapper future, idle.delivered stage events,
    idle.rested call.result call.gathered⟩

section Verdicts

variable (reached : (futures (gathering T)).Reachable machine)
  (called : Called machine name call process inner)
include reached called

/-- The verdict of the vector. -/
theorem Called.vector (delivered : Delivered machine name process)
    (undisturbed : Undisturbed machine.snapshot.status name process)
    (unmixed : Unmixed machine.snapshot.status call.futures) :
    Verdict machine.snapshot.status call.futures (machine.snapshot.status name) := by
  have tracked := (Whole.of_reachable reached).tracked name process called.known
  have dropped := (Closed.of_reachable reached).dropped name process called.known
  rw [← called.inputs] at unmixed ⊢
  exact delivered.verdict (.of_reachable reached) tracked dropped called.collects
    undisturbed.running undisturbed.wanted unmixed

theorem Called.links : Links machine.snapshot.env call :=
  (Whole.of_reachable reached).linked.calls call called.made

theorem Called.mirrored (finished : Finished machine call inner) :
    Mirrored machine.snapshot.status call := by
  have links := called.links reached
  refine ⟨links.length, fun wrapper future pair => ?_⟩
  have wrapped := (Whole.of_reachable reached).wrapped wrapper future .nothing
    (links.wrapper wrapper future pair)
  exact (finished.wrappers wrapper future pair).mirrors (.of_reachable reached) wrapped

/-- The process of the variadic `collect` has the wrappers as its inputs. -/
theorem Called.wrappers : inner.inputs = call.wrappers ∧ inner.gathering = .collect := by
  have links := called.links reached
  have tracked := (Whole.of_reachable reached).tracked name process called.known
  have some : call.wrappers ≠ [] := by
    intro none
    have nothing : call.futures = [] := by
      apply List.eq_nil_of_length_eq_zero
      rw [← links.length, none]
      rfl
    exact tracked.shaped.nonempty (called.inputs.trans nothing)
  obtain ⟨other, found, inputs, collects⟩ := links.process some
  cases called.spawned.symm.trans found
  exact ⟨inputs, collects⟩

/-- The verdict of the variadic form on its wrappers. -/
theorem Called.variadic (finished : Finished machine call inner)
    (undisturbed : Undisturbed machine.snapshot.status call.result inner)
    (unmixed : Unmixed machine.snapshot.status call.wrappers) :
    Verdict machine.snapshot.status call.wrappers (machine.snapshot.status call.result) := by
  have whole := Whole.of_reachable reached
  have closed := Closed.of_reachable reached
  obtain ⟨inputs, collects⟩ := called.wrappers reached
  have tracked := whole.tracked call.gathered inner called.spawned
  have dropped := closed.dropped call.gathered inner called.spawned
  have wanted : (machine.snapshot.status call.gathered).discard = false := by
    apply Bool.eq_false_of_not_eq_true
    intro requested
    have passed := (closed.sheltered call called.made).requested requested
    rw [undisturbed.wanted] at passed
    cases passed
  have verdict : Verdict machine.snapshot.status call.wrappers
      (machine.snapshot.status call.gathered) := by
    rw [← inputs] at unmixed ⊢
    exact finished.gathered.verdict (.of_reachable reached) tracked dropped collects
      undisturbed.running wanted unmixed
  have wrapped := whole.wrapped call.result call.gathered _ (called.links reached).result
  exact verdict.mirrored (finished.result.mirrors (.of_reachable reached) wrapped) wanted

/-- A tuple has the values of the futures. -/
theorem Called.tuple (finished : Finished machine call inner)
    (ready : (machine.snapshot.status call.result).state = .ready) :
    ∃ values, gets machine.snapshot.status call.futures = some values ∧
      (machine.snapshot.status call.result).result = .some (.values values) := by
  have invariant := Machine.Invariant.of_reachable reached
  have wrapped := (Whole.of_reachable reached).wrapped call.result call.gathered _
    (called.links reached).result
  have completed : (machine.snapshot.status call.gathered).state ≠ .pending := by
    intro pending
    rw [(finished.result.waits invariant wrapped pending).1] at ready
    cases ready
  obtain ⟨completion, follows, settles⟩ := finished.result.follows invariant wrapped completed
  cases follows with
  | tuple _ _ found => exact ⟨_, found, settles.2⟩
  | requested | discarded => cases ready.symm.trans settles
  | failed => cases ready.symm.trans settles.1

/-- The two ways agree. -/
theorem Called.agrees (delivered : Delivered machine name process)
    (finished : Finished machine call inner)
    (undisturbed : Undisturbed machine.snapshot.status name process)
    (untouched : Undisturbed machine.snapshot.status call.result inner)
    (unmixed : Unmixed machine.snapshot.status call.futures)
    (unasked : Unasked machine.snapshot.status call.futures) :
    Agrees (machine.snapshot.status name) (machine.snapshot.status call.result) := by
  have vector := called.vector reached delivered undisturbed unmixed
  have mirrored := called.mirrored reached finished
  have verdict := called.variadic reached finished untouched (mirrored.unmixed unasked unmixed)
  obtain ⟨state, abandoned⟩ := vector.same (mirrored.verdict unasked unmixed verdict)
  refine ⟨state, abandoned, fun ready => ?_⟩
  have tracked := (Whole.of_reachable reached).tracked name process called.known
  obtain ⟨values, found, result⟩ := tracked.values called.collects ready
  obtain ⟨others, same, tuple⟩ := called.tuple reached finished (state ▸ ready)
  rw [called.inputs, same] at found
  cases found
  exact ⟨values, result, tuple⟩

end Verdicts

theorem Unmixed.of_kept {status : Statuses T} {inputs : List FutureId}
    (kept : ∀ future ∈ inputs, (status future).abandoned = false) : Unmixed status inputs :=
  ⟨fun future member abandoned => (Bool.eq_false_iff.mp (kept future member) abandoned).elim,
    fun _ => kept⟩

end Gather

/-- A process that nobody terminated has collected the inputs and was deleted. -/
def GatherProcess.Collected (process : GatherProcess T) (inputs : List FutureId) : Prop :=
  process.inputs = inputs ∧ process.gathering = .collect ∧ process.stage = .deleted ∧
    process.events.isEmpty = true ∧ process.terminated = false

instance collected_decidable (process : GatherProcess T) (inputs : List FutureId) :
    Decidable (process.Collected inputs) :=
  inferInstanceAs (Decidable (_ ∧ _ ∧ _ ∧ _ ∧ _))

namespace Gather

/-- Both processes are done, nobody has asked for anything else, and all calls have returned. -/
def Collects (machine : Machine (gathering T)) (name : FutureId) (call : Variadic) : Prop :=
  Idle machine ∧ (∃ process ∈ machine.memory.env.process name, process.Collected call.futures) ∧
    (∃ inner ∈ machine.memory.env.process call.gathered, inner.Collected call.wrappers) ∧
    call ∈ machine.memory.env.variadics ∧ (machine.memory.data name).discard = false ∧
    (machine.memory.data call.result).discard = false

instance collects_decidable (machine : Machine (gathering T)) (name : FutureId)
    (call : Variadic) : Decidable (Collects machine name call) :=
  inferInstanceAs (Decidable (_ ∧ _ ∧ _ ∧ _ ∧ _ ∧ _))

theorem Collects.settled (collects : Collects machine name call) :
    ∃ process inner, Called machine name call process inner ∧ Delivered machine name process ∧
      Finished machine call inner ∧ Undisturbed machine.snapshot.status name process ∧
        Undisturbed machine.snapshot.status call.result inner := by
  obtain ⟨idle, ⟨process, known, inputs, collects, stage, events, running⟩,
    ⟨inner, spawned, -, -, deleted, purged, continues⟩, made, wanted, unasked⟩ := collects
  exact ⟨process, inner, ⟨known, collects, inputs, made, spawned⟩,
    idle.delivered (.inr stage) (List.isEmpty_iff.mp events),
    idle.finished (.inr deleted) (List.isEmpty_iff.mp purged), ⟨wanted, running⟩,
    ⟨unasked, continues⟩⟩

end Gather

section Agreement

open Gather

variable {machine : Machine (gathering T)} {name : FutureId} {call : Variadic}
  {process inner : GatherProcess T}

/-- The variadic `collect` agrees with the `collect` of a vector, whenever they were called, unless
a future is ready although somebody has asked to discard it.  Then it fails, and that of the vector
does not. -/
theorem variadic_agrees (reached : (futures (gathering T)).Reachable machine)
    (called : Called machine name call process inner)
    (delivered : Delivered machine name process) (finished : Finished machine call inner)
    (undisturbed : Undisturbed machine.snapshot.status name process)
    (untouched : Undisturbed machine.snapshot.status call.result inner)
    (unmixed : Unmixed machine.snapshot.status call.futures) :
    (Unasked machine.snapshot.status call.futures →
      Agrees (machine.snapshot.status name) (machine.snapshot.status call.result)) ∧
    (¬ Unasked machine.snapshot.status call.futures →
      (∀ future ∈ call.futures, (machine.snapshot.status future).abandoned = false) →
        (machine.snapshot.status call.result).state = .failed ∧
          (machine.snapshot.status name).state ≠ .failed) := by
  refine ⟨called.agrees reached delivered finished undisturbed untouched unmixed,
    fun asked kept => ?_⟩
  obtain ⟨errs, clean⟩ := (called.mirrored reached finished).asked asked kept
  have verdict := called.variadic reached finished untouched clean
  exact ⟨(verdict.errs errs).1,
    (called.vector reached delivered undisturbed unmixed).not_failed asked kept⟩

/-- A future is collected twice, and becomes ready although somebody has asked to discard it. -/
def variadicSchedule : List (Move (gathering Nat)) :=
  List.flatten [[.spawn], Gather.perform 0 (.promise 0) 0,
    Gather.perform 0 (.gather .collect [0] 1) 1, Gather.perform 0 (.variadic ⟨[0], [2], 3, 4⟩) 7,
    Gather.perform 0 (.resume 1) 4, Gather.perform 0 (.resume 3) 4,
    Gather.perform 0 (.call 0 .discard) 2, Gather.perform 0 (.call 0 (.set (.value 7))) 16,
    Gather.perform 0 (.resume 1) 8, Gather.perform 0 (.resume 3) 16]

theorem variadic_agrees_discard : ∃ machine : Machine (gathering Nat),
    (machine.snapshot.status 4).state = .failed ∧
      (machine.snapshot.status 1).state ≠ .failed := by
  obtain ⟨machine, reached, collects, ready, asked, kept⟩ :
      ∃ machine : Machine (gathering Nat), (futures (gathering Nat)).Reachable machine ∧
        Collects machine 1 ⟨[0], [2], 3, 4⟩ ∧ (machine.memory.data 0).state = .ready ∧
        (machine.memory.data 0).discard = true ∧ (machine.memory.data 0).abandoned = false :=
    Concurrency.Automaton.exists_of_run variadicSchedule (Machine.new_initial _ fun _ => false)
      (by decide +kernel)
  obtain ⟨process, inner, called, delivered, finished, undisturbed, untouched⟩ := collects.settled
  have only : ∀ future ∈ [0], future = 0 := fun future => List.mem_singleton.mp
  have clean : ∀ future ∈ [0], (machine.snapshot.status future).abandoned = false :=
    fun future member => only future member ▸ kept
  have agrees := variadic_agrees reached called delivered finished undisturbed untouched
    (.of_kept clean)
  refine ⟨machine, agrees.2 (fun held => ?_) clean⟩
  obtain unrequested | ⟨future, member, error⟩ := held
  · have quiet : (machine.snapshot.status 0).discard = false :=
      unrequested 0 (List.mem_singleton_self 0) ready
    cases asked.symm.trans quiet
  · obtain rfl := only future member
    obtain failed | discarded := error
    · cases ready.symm.trans failed
    · cases ready.symm.trans discarded

end Agreement

end Libprocess
