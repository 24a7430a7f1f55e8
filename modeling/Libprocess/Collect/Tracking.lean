import Libprocess.Collect.Ownership

/-!
# What a process knows

A process has registered its callbacks on its inputs, and counts those that have answered.  Nothing
else completes its promise.  The invariant of one process is kept by its own steps, which are few,
and by the steps of everybody else, which do not touch it.
-/

namespace Libprocess

variable {T : Type}

open Snapshot (Entered Ran)

namespace Gather

section Names

variable (name : FutureId)

/-- The frames in which the process is resumed. -/
def handles : GatherBody T → Bool
  | .serve other | .discarding other _ | .asked other _ _ | .terminate other _ => other = name
  | _ => false

/-- The frame that spawns the process. -/
def spawns : GatherBody T → Bool
  | .spawn other => other = name
  | _ => false

/-- The frames that concern the process. -/
def about : GatherBody T → Bool
  | .dispatch other _ => other = name
  | body => handles name body || spawns name body

/-- The callback dispatches to the process. -/
def notifies : GatherCallback → Bool
  | .waited other | .abandoned other | .discarded other => other = name
  | _ => false

/-- The call needs the promise, or registers a callback of the process. -/
def touches (call : FutureId × Op (Value T) GatherCallback) : Bool :=
  match call.2 with
  | .set _ | .fail _ | .discarded | .abandon _ => call.1 = name
  | .discard => false
  | .on _ callback => notifies name callback

/-- The future of a dispatch to `waited`. -/
def answer : GatherBody T → Option FutureId
  | .dispatch other (.waited future) => if other = name then some future else none
  | _ => none

end Names

/-- The future of an event for `waited`. -/
def answered : GatherEvent → Option FutureId
  | .waited future => some future
  | _ => none

/-- A step of everybody else. -/
structure Elsewhere (name : FutureId) (process : GatherProcess T) (body : GatherBody T)
    (next : GatherEnv T) (made : Calls T) (entered : List (GatherBody T)) : Prop where
  same : next.process name = some process
  body : about name body = false
  entered : ∀ frame ∈ entered, about name frame = false
  made : ∀ call ∈ made, touches name call = false

section Elsewhere

variable {before : GatherSnapshot T} {status : Statuses T} {env next : GatherEnv T}
  {body : GatherBody T} {made : Calls T} {entered : List (GatherBody T)}
  {name other : FutureId} {process served : GatherProcess T}

theorem touches_completion {future : FutureId} {completion : Completion (Value T)}
    (different : future ≠ name) : touches name (future, completion.op) = false := by
  cases completion <;> simpa [touches, Completion.op] using different

theorem touches_derivation {parent derived : FutureId} :
    ∀ call ∈ derivation (T := T) parent derived, touches name call = false := by
  simp [derivation, touches, notifies]

theorem touches_derivations {call : Variadic} :
    ∀ made ∈ derivations (T := T) call, touches name made = false := by
  intro made member
  cases List.mem_append.mp member with
  | inl wrapped =>
      obtain ⟨pair, -, here⟩ := List.mem_flatMap.mp wrapped
      exact touches_derivation made here
  | inr last => exact touches_derivation made last

/-- A step of another process. -/
theorem Acts.elsewhere (acts : Acts status other body process served made entered)
    (different : other ≠ name) :
    about name body = false ∧ (∀ frame ∈ entered, about name frame = false) ∧
      ∀ call ∈ made, touches name call = false := by
  cases acts with
  | start =>
      refine ⟨rfl, by simp [about, handles, spawns, different], ?_⟩
      intro call member
      cases List.mem_cons.mp member with
      | inl own =>
          subst own
          simp [touches, notifies, different]
      | inr rest =>
          obtain ⟨future, -, listed⟩ := List.mem_flatMap.mp rest
          simp only [List.mem_cons, List.not_mem_nil, or_false] at listed
          obtain rfl | rfl := listed <;> simp [touches, notifies, different]
  | decide =>
      refine ⟨by simp [about, handles, spawns, different],
        by simp [about, handles, spawns, different], ?_⟩
      intro call member
      rw [List.mem_singleton.mp member]
      exact touches_completion different
  | _ => simp [about, handles, spawns, touches, different]

/-- A step is one of the process, or one of everybody else. -/
theorem Kept.splits (kept : Kept before) (runs : Runs before.env body)
    (moves : Moves before.status before.env body next made entered)
    (sound : ¬ Aborts before.status before.env body)
    (known : before.env.process name = some process) :
    (∃ served, Acts before.status name body process served made entered ∧
        next.process name = some served) ∨ Elsewhere name process body next made entered := by
  obtain ⟨owned, underived, -⟩ := kept.process name process known
  have differs : ∀ other, before.env.role other = .unmade → other ≠ name := by
    rintro other unknown rfl
    exact owned.made unknown
  have derives : ∀ derived, (before.env.derived derived).isSome → derived ≠ name := by
    rintro derived exist rfl
    rw [underived] at exist
    cases exist
  cases moves with
  | @acts other _ acting served _ _ found acts =>
      by_cases same : other = name
      · subst same
        rw [found] at known
        cases known
        exact .inl ⟨served, acts, Function.update_self _ _ _⟩
      · obtain ⟨outside, enters, calls⟩ := acts.elsewhere same
        exact .inr ⟨(Function.update_of_ne (Ne.symm same) _ _).trans known, outside, enters, calls⟩
  | abort aborts => exact absurd aborts sound
  | stray unknown | resumed unknown =>
      rw [Runs, unknown] at runs
      cases runs
  | request unknown =>
      rw [Runs, unknown] at runs
      cases runs.1
  | promise => exact .inr ⟨known, rfl, by simp [about, handles, spawns], by simp⟩
  | @call target op allowed =>
      refine .inr ⟨known, rfl, by simp [about, handles, spawns], ?_⟩
      intro call member
      rw [List.mem_singleton.mp member]
      by_cases same : target = name
      · subst same
        obtain promised | ⟨-, shared⟩ := allowed
        · obtain returned | hidden := owned <;> simp_all
        · cases op <;> simp_all [Op.shared, Op.foreign, touches, notifies]
      · cases op <;> simp [Op.foreign, touches, notifies, same]
  | @empty gathering result fresh =>
      have different := differs result (unmade_iff.mp fresh).1
      exact .inr ⟨known, rfl, by simp [about, handles, spawns], by simp [touches, different]⟩
  | @gather gathering futures result fresh =>
      have different := differs result (unmade_iff.mp fresh).1
      refine .inr ⟨(Function.update_of_ne (Ne.symm different) _ _).trans known, rfl, ?_, by simp⟩
      simp [about, handles, spawns, different]
  | @none call fits =>
      have different := differs call.gathered
        (unmade_iff.mp (fits.unmade _ (by simp [Variadic.made]))).1
      refine .inr ⟨known, rfl, by simp [about, handles, spawns], ?_⟩
      intro made member
      cases List.mem_cons.mp member with
      | inl own =>
          subst own
          simp [touches, different]
      | inr last => exact touches_derivation made last
  | @variadic call fits =>
      have different := differs call.gathered
        (unmade_iff.mp (fits.unmade _ (by simp [Variadic.made]))).1
      exact .inr ⟨(Function.update_of_ne (Ne.symm different) _ _).trans known, rfl,
        by simp [about, handles, spawns, different], touches_derivations⟩
  | finish => exact .inr ⟨known, rfl, by simp, by simp⟩
  | @settle derived parent continuation completion found =>
      have different := derives derived (by simp [found])
      refine .inr ⟨known, rfl, by simp [about, handles, spawns], ?_⟩
      intro call member
      rw [List.mem_singleton.mp member]
      exact touches_completion different
  | @early derived parent continuation found =>
      have different := derives derived (by simp [found])
      exact .inr ⟨known, rfl, by simp, by simp [touches, different]⟩
  | @release derived | @abandon derived =>
      have different := derives derived runs
      exact .inr ⟨known, rfl, by simp, by simp [touches, different]⟩
  | discard => exact .inr ⟨known, rfl, by simp, by simp [touches]⟩

end Elsewhere

/-- The inputs that the process has registered its callbacks on, or is about to. -/
def due (process : GatherProcess T) : Multiset FutureId :=
  if process.stage = .constructed ∨ process.stage = .bottom then 0 else ↑process.inputs

/-- Some input will never complete. -/
def Lost (status : Statuses T) (process : GatherProcess T) : Prop :=
  ∃ future ∈ process.inputs, (status future).abandoned = true

/-- What the members of a process say. -/
structure Shaped (process : GatherProcess T) : Prop where
  nonempty : process.inputs ≠ []
  ready : process.ready = process.heard.length
  undecided : process.completions = [] →
    process.futures = process.inputs ∧ process.heard.length < process.inputs.length
  unstarted : process.stage = .constructed ∨ process.stage = .bottom → process.completions = []
  single : process.completions.length ≤ 1

/-- At most one frame runs the process. -/
structure Staffed (snapshot : GatherSnapshot T) (name : FutureId) (process : GatherProcess T) :
    Prop where
  handled : snapshot.bodies.countP (fun body => handles name body = true) =
    if process.stage = .running then 1 else 0
  spawned : snapshot.bodies.countP (fun body => spawns name body = true) =
    if process.stage = .constructed then 1 else 0

/-- Which callbacks of the process are registered. -/
structure Registers (snapshot : GatherSnapshot T) (name : FutureId) (process : GatherProcess T) :
    Prop where
  waited : ∀ kind, snapshot.subscribed kind (.waited name) =
    if kind = .onAny then due process else 0
  abandoned : ∀ kind, snapshot.subscribed kind (.abandoned name) =
    if kind = .onAbandoned then due process else 0
  discarded : ∀ kind, ∀ future ∈ snapshot.subscribed kind (.discarded name),
    future = name ∧ kind = .onDiscard

/-- No answer of an input is lost or counted twice, until the process is done. -/
structure Counted (snapshot : GatherSnapshot T) (name : FutureId) (process : GatherProcess T) :
    Prop where
  answers : process.stage ≠ .deleted → process.completions = [] →
    snapshot.bodies.filterMap (answer name) + ↑(process.events.filterMap answered) +
      ↑process.heard = snapshot.notified .onAny (.waited name)
  heard : ∀ future ∈ process.heard, (snapshot.status future).state ≠ .pending ∧
    (process.gathering = .collect → (snapshot.status future).state = .ready)

/-- The loop of `discarded` has some inputs left. -/
structure Discards (snapshot : GatherSnapshot T) (name : FutureId) (process : GatherProcess T)
    (rest : List FutureId) : Prop where
  undecided : process.completions = []
  asked : process.asked ++ rest = process.inputs
  requested : (snapshot.status name).discard = true

/-- Why the process ends. -/
structure Ends (snapshot : GatherSnapshot T) (name : FutureId) (process : GatherProcess T) :
    Prop where
  decided : process.completions ≠ [] → process.stage = .deleted ∨ process.termination = true ∨
    ∃ completion, .terminate name (some completion) ∈ snapshot.bodies
  completing : ∀ completion, .terminate name (some completion) ∈ snapshot.bodies →
    process.completions = [completion]
  losing : .terminate name none ∈ snapshot.bodies →
    process.completions = [] ∧ Lost snapshot.status process
  discarding : ∀ rest, .discarding name rest ∈ snapshot.bodies →
    Discards snapshot name process rest
  asking : ∀ future rest, .asked name future rest ∈ snapshot.bodies →
    Discards snapshot name process (future :: rest)
  asked : ∀ future ∈ process.asked, (snapshot.status future).discard = true ∨
    (snapshot.status future).state ≠ .pending
  unasked : process.completions = [] → process.asked = [] ∨
    (∃ rest, .discarding name rest ∈ snapshot.bodies) ∨
      ∃ future rest, .asked name future rest ∈ snapshot.bodies
  ended : .terminate ∈ process.events ∨ process.termination = true ∨ process.stage = .deleted →
    process.terminated = true ∨ Lost snapshot.status process ∨
      (snapshot.status name).state ≠ .pending
  queued : process.termination = true → process.stage ≠ .deleted → .terminate ∈ process.events

/-- Why the process has an event. -/
structure Heeds (snapshot : GatherSnapshot T) (name : FutureId) (process : GatherProcess T) :
    Prop where
  lost : .abandoned ∈ process.events ∨ .dispatch name .abandoned ∈ snapshot.bodies →
    Lost snapshot.status process
  requested : .discarded ∈ process.events ∨ .dispatch name .discarded ∈ snapshot.bodies →
    (snapshot.status name).discard = true
  dispatches : .dispatch name .terminate ∉ snapshot.bodies
  abandoned : snapshot.notified .onAbandoned (.abandoned name) ≠ 0 → process.stage = .deleted ∨
    process.termination = true ∨ .terminate name none ∈ snapshot.bodies ∨
      .abandoned ∈ process.events ∨ .dispatch name .abandoned ∈ snapshot.bodies

/-- The process alone completes and abandons its promise. -/
structure Promises (snapshot : GatherSnapshot T) (name : FutureId) (process : GatherProcess T) :
    Prop where
  completes : ∀ op, (name, op) ∈ snapshot.calls → op.completes = true →
    ∃ completion, process.completions = [completion] ∧ op = completion.op
  abandons : ∀ propagating, (name, .abandon propagating) ∈ snapshot.calls →
    process.stage = .deleted
  decided : ∀ completion, process.completions = [completion] →
    (name, completion.op) ∈ snapshot.calls ∨ (snapshot.status name).state ≠ .pending
  settled : (snapshot.status name).state ≠ .pending → ∃ completion,
    process.completions = [completion] ∧
      (snapshot.status name).Settles (completion.op : Op (Value T) GatherCallback)
  abandoned : (snapshot.status name).abandoned = true →
    process.terminated = true ∨ Lost snapshot.status process

/-- What the inputs say when the promise is completed. -/
inductive Justified (status : Statuses T) (name : FutureId) (process : GatherProcess T) :
    Completion (Value T) → Prop
  | collected {values : List (Value T)} : process.gathering = .collect →
      gets status process.inputs = some values → Justified status name process (.set (.values values))
  | awaited : process.gathering = .await →
      (∀ future ∈ process.inputs, (status future).state ≠ .pending) →
      Justified status name process (.set (.futures process.inputs))
  | failed {future : FutureId} {message : String} : process.gathering = .collect →
      future ∈ process.inputs → (status future).state = .failed →
      (status future).result = .error message →
      Justified status name process (.fail ("Collect failed: " ++ message))
  | discarded {future : FutureId} : process.gathering = .collect → future ∈ process.inputs →
      (status future).state = .discarded →
      Justified status name process (.fail "Collect failed: future discarded")
  | requested : (status name).discard = true → process.asked = process.inputs →
      (∀ future ∈ process.inputs, (status future).discard = true ∨
        (status future).state ≠ .pending) →
      Justified status name process .discard

/-- The invariant of one process. -/
structure Tracked (snapshot : GatherSnapshot T) (name : FutureId) (process : GatherProcess T) :
    Prop where
  shaped : Shaped process
  staffed : Staffed snapshot name process
  registers : Registers snapshot name process
  counted : Counted snapshot name process
  ends : Ends snapshot name process
  heeds : Heeds snapshot name process
  promises : Promises snapshot name process
  justified : ∀ completion, process.completions = [completion] →
    Justified snapshot.status name process completion

end Gather

end Libprocess
