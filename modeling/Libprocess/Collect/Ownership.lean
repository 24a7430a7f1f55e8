import Libprocess.Collect.Steps
import Libprocess.Future.Subscriptions

/-!
# Who owns what

Every future that is in use has been made, every callback and every frame belongs to a process or
to a derived future, and nobody but these completes the futures they own.
-/

namespace Libprocess

variable {T : Type}

abbrev GatherSnapshot (T : Type) := Snapshot (gathering T)

open Snapshot (Entered Ran)

namespace Gather

section Order

/-- The calls that stand above a frame when it is entered. -/
def relies : GatherBody T → Calls T
  | .asked _ future _ => [(future, .discard)]
  | .terminate name (some completion) => [(name, completion.op)]
  | .release derived completion => [(derived, completion.op)]
  | _ => []

/-- Every frame stands below the calls it relies on. -/
def Sorted (next : Activations T) : Prop :=
  ∀ above frame below, next = above ++ .body frame :: below →
    ∀ call ∈ relies frame, .call call.1 call.2 ∈ above

theorem sorted_of_free {next : Activations T}
    (free : ∀ frame, .body frame ∈ next → relies frame = []) : Sorted next := by
  rintro above frame below rfl call member
  rw [free frame (List.mem_append_right above List.mem_cons_self)] at member
  cases member

theorem sorted_pair {future : FutureId} {op : Op (Value T) GatherCallback} {frame : GatherBody T}
    (relied : relies frame = [(future, op)]) : Sorted [.call future op, .body frame] := by
  intro above other below split call member
  cases above with
  | nil => cases split
  | cons first above =>
      cases above with
      | nil =>
          cases split
          rw [relied] at member
          cases List.mem_singleton.mp member
          exact List.mem_cons_self
      | cons second above => simp at split

variable {status : Statuses T} {env : GatherEnv T} {name future : FutureId}
  {process : GatherProcess T} {result : GatherEnv T × Activations T}

theorem complete_sorted (completion : Completion (Value T)) :
    Sorted (complete env name process completion).2 :=
  sorted_pair rfl

theorem count_sorted : Sorted (count status env name process future).2 := by
  unfold count
  split
  · unfold filled
    split
    · split
      · exact complete_sorted _
      · exact sorted_of_free (by simp [abort])
    · exact complete_sorted _
  · exact sorted_of_free (by simp [relies])

theorem waited_sorted : Sorted (waited status env name process future).2 := by
  unfold waited
  split
  · unfold collected
    split
    · exact complete_sorted _
    · exact sorted_of_free (by simp [abort])
    · exact complete_sorted _
    · exact sorted_of_free (by simp [abort])
    · exact count_sorted
  · unfold awaited
    split
    · exact sorted_of_free (by simp [abort])
    · exact count_sorted

theorem serve_sorted (served : serve status env name = some result) : Sorted result.2 := by
  unfold serve at served
  split at served
  · cases served
  · split at served
    · cases served
      exact sorted_of_free (by simp)
    · rename_i event rest _
      cases served
      cases event with
      | waited future => exact waited_sorted
      | abandoned | discarded | terminate => exact sorted_of_free (by simp [handle, relies])

theorem run_sorted (ran : run status env future = some result) : Sorted result.2 := by
  unfold run at ran
  split at ran
  · cases ran
  · split at ran
    · split at ran
      · cases ran
        exact sorted_pair rfl
      · split at ran
        · cases ran
          exact sorted_pair rfl
        · split at ran <;> cases ran
          · exact sorted_pair rfl
          · exact sorted_of_free (by simp [abort])
    · cases ran
      exact sorted_pair rfl
    · cases ran
      exact sorted_of_free (by simp [abort])
    · cases ran
      exact sorted_pair rfl
    · cases ran
      exact sorted_of_free (by simp)

/-- Code outside a process enters only frames that rely on nothing. -/
theorem user_free {choice : GatherChoice T} (chosen : user status env choice = some result)
    (frame : GatherBody T) (member : .body frame ∈ result.2) : relies frame = [] := by
  have entered : frame ∈ framed result.2 := List.mem_filterMap.mpr ⟨_, member, rfl⟩
  have moves := user_does chosen
  unfold Does at moves
  generalize framed result.2 = frames at moves entered
  generalize called result.2 = made at moves
  generalize result.1 = next at moves
  cases moves with
  | acts known acts => cases acts <;> simp at entered <;> (try cases entered) <;> simp_all [relies]
  | _ => simp at entered <;> (try cases entered) <;> simp_all [relies]

theorem execute_sorted {choice : GatherChoice T} {body : GatherBody T}
    (executed : execute status env choice body = some result) : Sorted result.2 := by
  cases body with
  | user => exact sorted_of_free (user_free executed)
  | spawn name | asked name future rest =>
      simp only [execute, Option.map_eq_some_iff] at executed
      obtain ⟨process, known, rfl⟩ := executed
      exact sorted_of_free (by simp [relies])
  | serve name => exact serve_sorted executed
  | run derived => exact run_sorted executed
  | discarding name rest =>
      cases rest with
      | nil =>
          simp only [execute, discarding, Option.map_eq_some_iff] at executed
          obtain ⟨process, known, rfl⟩ := executed
          exact complete_sorted _
      | cons future rest =>
          cases executed
          exact sorted_pair rfl
  | dispatch | terminate | release | abandon | discard =>
      cases executed
      exact sorted_of_free (by simp [relies])

theorem ordered : Ordered (gathering T) relies where
  main := rfl
  invoke := by
    intro future argument callback
    cases callback <;> rfl
  step := by
    intro status env body choice effect stepped above frame below split call member
    obtain ⟨result, executed, rfl⟩ := Option.map_eq_some_iff.mp stepped
    exact .inl (execute_sorted executed above frame below split call member)
  disciplined := by
    intro future status env body choice effect stepped
    obtain ⟨result, executed, rfl⟩ := Option.map_eq_some_iff.mp stepped
    rfl

end Order

/-- What the frame that runs relies on. -/
def Relied (snapshot : GatherSnapshot T) (frame : (gathering T).Frame) : Prop :=
  ∀ body, frame = .body body → ∀ call ∈ relies body, call.2.Done (snapshot.status call.1)

/-- A snapshot before and after a step of the code. -/
structure Executed (before after : GatherSnapshot T) (body : GatherBody T)
    (rest : Multiset (GatherBody T)) (made : Calls T) (entered : List (GatherBody T)) : Prop where
  moves : Moves before.status before.env body after.env made entered
  running : before.bodies = body ::ₘ rest
  bodies : after.bodies = ↑entered + rest
  calls : after.calls = ↑made + before.calls
  registered : after.registered = before.registered
  log : after.log = before.log
  status : after.status = before.status

theorem step_cases {before after : GatherSnapshot T} {frame : (gathering T).Frame}
    (step : before.Step frame after) :
    after = before ∨
      (∃ future op, frame = .enter future op ∧ Entered before after future op) ∨
      (∃ future kind registration, Ran before after future kind registration) ∨
      ∃ body rest made entered, frame = .body body ∧
        Executed before after body rest made entered := by
  refine (Snapshot.Step.cases step).imp id (Or.imp id (Or.imp id ?_))
  rintro ⟨body, rest, choice, effect, rfl, running, moved, rfl⟩
  obtain ⟨result, executed, rfl⟩ := Option.map_eq_some_iff.mp moved
  exact ⟨body, rest, _, _, rfl, execute_does executed, running, rfl, rfl, rfl, rfl, rfl⟩

/-- A promise was constructed for the future. -/
def Made (env : GatherEnv T) (future : FutureId) : Prop := env.role future ≠ .unmade

/-- Its promise belongs to a process or to a callback. -/
def Private (env : GatherEnv T) (future : FutureId) : Prop :=
  env.role future = .returned ∨ env.role future = .hidden

theorem Private.made {env : GatherEnv T} {future : FutureId} (owned : Private env future) :
    Made env future := by
  obtain returned | hidden := owned
  · simp [Made, returned]
  · simp [Made, hidden]

/-- Who a callback belongs to exists. -/
def Owned (env : GatherEnv T) : GatherCallback → Prop
  | .user => True
  | .waited name | .abandoned name | .discarded name => (env.process name).isSome
  | .run derived | .abandon derived => (env.derived derived).isSome
  | .discard future => Made env future

/-- Who a frame belongs to exists. -/
def Runs (env : GatherEnv T) : GatherBody T → Prop
  | .user => True
  | .spawn name | .dispatch name _ | .serve name | .terminate name _ => (env.process name).isSome
  | .discarding name rest | .asked name _ rest =>
      (env.process name).isSome ∧ ∀ future ∈ rest, Made env future
  | .run derived | .release derived _ | .abandon derived => (env.derived derived).isSome
  | .discard future => Made env future

/-- A call refers to a future that was made, and registers a callback that belongs to someone. -/
structure Refers (env : GatherEnv T) (call : FutureId × Op (Value T) GatherCallback) : Prop where
  made : Made env call.1
  owned : ∀ kind callback, call.2 = .on kind callback → Owned env callback

/-- The order of the environments of a run. -/
structure Grows (env next : GatherEnv T) : Prop where
  role : ∀ future, Made env future → next.role future = env.role future
  process : ∀ name, (env.process name).isSome → (next.process name).isSome
  derived : ∀ derived parent, env.derived derived = some parent →
    next.derived derived = some parent
  variadics : ∀ call ∈ env.variadics, call ∈ next.variadics

namespace Grows

variable {env next : GatherEnv T} {future : FutureId}

theorem refl (env : GatherEnv T) : Grows env env :=
  ⟨fun _ _ => rfl, fun _ known => known, fun _ _ known => known, fun _ known => known⟩

section

variable (grows : Grows env next)

include grows

theorem made (known : Made env future) : Made next future := by
  unfold Made
  rw [grows.role future known]
  exact known

theorem unmade (unknown : next.role future = .unmade) :
    env.role future = .unmade := by
  by_contra known
  exact grows.made known unknown

theorem isPrivate (owned : Private env future) : Private next future := by
  unfold Private
  rw [grows.role future owned.made]
  exact owned

theorem isDerived (known : (env.derived future).isSome) :
    (next.derived future).isSome := by
  obtain ⟨parent, derived⟩ := Option.isSome_iff_exists.mp known
  rw [grows.derived future parent derived]
  rfl

theorem owned {callback : GatherCallback} (owned : Owned env callback) :
    Owned next callback := by
  cases callback with
  | user => exact True.intro
  | waited name | abandoned name | discarded name => exact grows.process name owned
  | run derived | abandon derived => exact grows.isDerived owned
  | discard future => exact grows.made owned

theorem runs {body : GatherBody T} (runs : Runs env body) :
    Runs next body := by
  cases body with
  | user => exact True.intro
  | spawn name | dispatch name | serve name | terminate name => exact grows.process name runs
  | discarding name rest | asked name _ rest =>
      exact ⟨grows.process name runs.1, fun future member => grows.made (runs.2 future member)⟩
  | run derived | release derived | abandon derived => exact grows.isDerived runs
  | discard future => exact grows.made runs

theorem refers {call : FutureId × Op (Value T) GatherCallback}
    (refers : Refers env call) : Refers next call :=
  ⟨grows.made refers.made, fun kind callback same => grows.owned (refers.owned kind callback same)⟩

end

end Grows

/-- Every future that is referred to was made, and everything has an owner. -/
structure Kept (snapshot : GatherSnapshot T) : Prop where
  process : ∀ name process, snapshot.env.process name = some process →
    Private snapshot.env name ∧ snapshot.env.derived name = none ∧
      ∀ future ∈ process.inputs, Made snapshot.env future
  futures : ∀ name process, snapshot.env.process name = some process →
    ∀ future ∈ process.futures, Made snapshot.env future
  derived : ∀ derived parent continuation,
    snapshot.env.derived derived = some (parent, continuation) →
    Private snapshot.env derived ∧ Made snapshot.env parent
  calls : ∀ call ∈ snapshot.calls, Refers snapshot.env call
  registered : ∀ entry ∈ snapshot.registered,
    Made snapshot.env entry.1 ∧ Owned snapshot.env entry.2.2.callback
  bodies : ∀ body ∈ snapshot.bodies, Runs snapshot.env body
  unmade : ∀ future, snapshot.env.role future = .unmade →
    (snapshot.status future).state = .pending ∧ (snapshot.status future).discard = false

section Prepare

variable {env : GatherEnv T} {status : Statuses T} {call : Variadic} {derived parent : FutureId}

theorem prepare_role (fits : Fits status env call) {future : FutureId} (known : Made env future) :
    (prepare env call).role future = env.role future := by
  have outside : future ∉ Variadic.made call := by
    intro member
    have unknown := fits.unmade future member
    simp only [unmade, decide_eq_true_eq] at unknown
    exact known unknown.1
  have other : future ≠ call.result := by
    rintro rfl
    exact outside (by simp [Variadic.made])
  simp only [prepare, if_neg other, if_neg outside]

theorem lookup_wrapper (fits : Fits status env call)
    (member : (derived, parent) ∈ call.wrappers.zip call.futures) :
    (call.wrappers.zip call.futures).lookup derived = some parent := by
  have nodup : call.wrappers.Nodup := (List.nodup_append.mp fits.nodup).1
  obtain ⟨before, rest, split⟩ := List.append_of_mem member
  refine List.lookup_eq_some_iff.mpr ⟨before, rest, split, ?_⟩
  intro pair earlier
  have keys : (call.wrappers.zip call.futures).map Prod.fst = call.wrappers :=
    List.map_fst_zip (Nat.le_of_eq fits.length)
  rw [← keys, split, List.map_append] at nodup
  have different := (List.nodup_append.mp nodup).2.2 pair.1 (List.mem_map_of_mem earlier) derived
    (by simp)
  simpa using different.symm

/-- What the variadic `collect` derives. -/
theorem prepare_derived {continuation : Continuation}
    (known : (prepare env call).derived derived = some (parent, continuation)) :
    (derived = call.result ∧ parent = call.gathered ∧ continuation = .tuple call.futures) ∨
      ((derived, parent) ∈ call.wrappers.zip call.futures ∧ continuation = .nothing) ∨
      (env.derived derived = some (parent, continuation)) := by
  simp only [prepare] at known
  split at known
  · rename_i result
    cases known
    exact .inl ⟨result, rfl, rfl⟩
  · split at known
    · rename_i found
      cases known
      obtain ⟨before, rest, split, -⟩ := List.lookup_eq_some_iff.mp found
      refine .inr (.inl ⟨?_, rfl⟩)
      rw [split]
      simp
    · exact .inr (.inr known)

theorem prepare_result : (prepare env call).derived call.result =
    some (call.gathered, .tuple call.futures) := by
  simp [prepare]

theorem prepare_wrapper (fits : Fits status env call)
    (member : (derived, parent) ∈ call.wrappers.zip call.futures) :
    (prepare env call).derived derived = some (parent, .nothing) := by
  have other : derived ≠ call.result := by
    intro same
    exact (List.nodup_append.mp fits.nodup).2.2 derived (List.of_mem_zip member).1 call.result
      (by simp) same
  simp only [prepare, if_neg other, lookup_wrapper fits member]

theorem prepare_gathered (fits : Fits status env call)
    (unknown : env.derived call.gathered = none) :
    (prepare env call).derived call.gathered = none := by
  have other : call.gathered ≠ call.result := by
    have pair := (List.nodup_append.mp fits.nodup).2.1
    simpa using pair
  cases known : (prepare env call).derived call.gathered with
  | none => rfl
  | some pair =>
      obtain ⟨result, -⟩ | ⟨wrapper, -⟩ | old := prepare_derived known
      · exact absurd result other
      · exact absurd rfl ((List.nodup_append.mp fits.nodup).2.2 _ (List.of_mem_zip wrapper).1 _
          (by simp))
      · rw [unknown] at old
        cases old

theorem prepare_private (member : derived ∈ Variadic.made call) :
    Private (prepare env call) derived := by
  simp only [Private, prepare, if_pos member]
  split
  · exact .inl rfl
  · exact .inr rfl

end Prepare

section Kept

variable {before after : GatherSnapshot T} {status : Statuses T} {env next : GatherEnv T}
  {body : GatherBody T} {made : Calls T} {entered : List (GatherBody T)} {future : FutureId}

theorem unmade_iff : unmade status env future = true ↔
    env.role future = .unmade ∧ (status future).abandoned = false := by
  simp [unmade]

theorem visible_made (seen : visible env future = true) : Made env future := by
  simp only [visible, decide_eq_true_eq] at seen
  obtain promised | returned := seen
  · simp [Made, promised]
  · simp [Made, returned]

theorem Kept.not_process (kept : Kept before) (unknown : before.env.role future = .unmade) :
    before.env.process future = none := by
  cases known : before.env.process future with
  | none => rfl
  | some process => exact absurd unknown (kept.process future process known).1.made

theorem Kept.not_derived (kept : Kept before) (unknown : before.env.role future = .unmade) :
    before.env.derived future = none := by
  cases known : before.env.derived future with
  | none => rfl
  | some parent => exact absurd unknown (kept.derived future parent.1 parent.2 known).1.made

theorem store_grows {process : GatherProcess T} {name : FutureId} :
    Grows env (store env name process) where
  role _ _ := rfl
  process := by
    intro other known
    simp only [store]
    by_cases same : other = name
    · subst same
      simp
    · rwa [Function.update_of_ne same]
  derived _ _ known := known
  variadics _ known := known

theorem assign_grows {role : Role} (unknown : env.role future = .unmade) :
    Grows env (assign env future role) where
  role := by
    intro other known
    have different : other ≠ future := by
      rintro rfl
      exact known unknown
    simp [assign, different]
  process _ known := known
  derived _ _ known := known
  variadics _ known := known

theorem prepare_grows {call : Variadic} (kept : Kept before)
    (fits : Fits before.status before.env call) :
    Grows before.env (prepare before.env call) where
  role := fun _ known => prepare_role fits known
  process _ known := known
  derived := by
    intro derived parent known
    have made : Made before.env derived := (kept.derived derived parent.1 parent.2 known).1.made
    have outside : ∀ future ∈ Variadic.made call, derived ≠ future := by
      rintro future member rfl
      exact made (unmade_iff.mp (fits.unmade _ member)).1
    have other := outside call.result (by simp [Variadic.made])
    have none : (call.wrappers.zip call.futures).lookup derived = none := by
      refine List.lookup_eq_none_iff.mpr fun pair member => ?_
      have wrapper := outside pair.1
        (List.mem_append_left _ (List.of_mem_zip (show (pair.1, pair.2) ∈ _ from member)).1)
      simpa using wrapper
    simp only [prepare, if_neg other, none]
    exact known
  variadics _ known := List.mem_cons_of_mem _ known

theorem Grows.trans {last : GatherEnv T} (first : Grows env next) (second : Grows next last) :
    Grows env last where
  role := fun future known => (second.role future (first.made known)).trans (first.role future known)
  process := fun name known => second.process name (first.process name known)
  derived := fun derived parent known => second.derived derived parent
    (first.derived derived parent known)
  variadics := fun call known => second.variadics call (first.variadics call known)

theorem Kept.grows (kept : Kept before)
    (moves : Moves before.status before.env body next made entered) : Grows before.env next := by
  cases moves with
  | acts => exact store_grows
  | abort => exact ⟨fun _ _ => rfl, fun _ known => known, fun _ _ known => known, fun _ known => known⟩
  | promise fresh | empty fresh => exact assign_grows (unmade_iff.mp fresh).1
  | gather fresh => exact (assign_grows (unmade_iff.mp fresh).1).trans store_grows
  | none fits => exact prepare_grows kept fits
  | variadic fits => exact (prepare_grows kept fits).trans store_grows
  | _ => exact Grows.refl _

/-- A step of a process keeps the vector it was constructed with. -/
theorem Acts.keeps {name : FutureId} {process served : GatherProcess T}
    (acts : Acts status name body process served made entered) :
    served.inputs = process.inputs ∧ served.gathering = process.gathering ∧
      (served.futures = process.futures ∨ served.futures = []) := by
  cases acts with
  | decide _ decides =>
      cases decides with
      | failed | discarded | collected => exact ⟨rfl, rfl, .inl rfl⟩
      | awaited => exact ⟨rfl, rfl, .inr rfl⟩
  | _ => exact ⟨rfl, rfl, .inl rfl⟩

theorem Refers.plain {op : Op (Value T) GatherCallback} (known : Made env future)
    (plain : ∀ kind callback, op ≠ .on kind callback) : Refers env (future, op) :=
  ⟨known, fun kind callback same => absurd same (plain kind callback)⟩

theorem Refers.completes (known : Made env future) (completion : Completion (Value T)) :
    Refers env (future, completion.op) := by
  apply Refers.plain known
  cases completion <;> simp [Completion.op]

/-- The calls of a step of a process refer to futures that were made. -/
theorem Acts.refers (kept : Kept before) {name : FutureId} {process served : GatherProcess T}
    (known : before.env.process name = some process) (runs : Runs before.env body)
    (acts : Acts status name body process served made entered) :
    ∀ call ∈ made, Refers before.env call := by
  have mine := (kept.process name process known).1.made
  have exist : (before.env.process name).isSome := by simp [known]
  intro call member
  cases acts with
  | start =>
      cases List.mem_cons.mp member with
      | inl own =>
          subst own
          refine ⟨mine, ?_⟩
          rintro _ _ ⟨⟩
          exact exist
      | inr rest =>
          obtain ⟨future, input, listed⟩ := List.mem_flatMap.mp rest
          have seen := kept.futures name process known future input
          cases List.mem_cons.mp listed with
          | inl same =>
              subst same
              refine ⟨seen, ?_⟩
              rintro _ _ ⟨⟩
              exact exist
          | inr last =>
              rw [List.mem_singleton.mp last]
              refine ⟨seen, ?_⟩
              rintro _ _ ⟨⟩
              exact exist
  | decide =>
      rw [List.mem_singleton.mp member]
      exact .completes mine _
  | delete | discard =>
      rw [List.mem_singleton.mp member]
      exact .plain mine (by simp)
  | request =>
      rw [List.mem_singleton.mp member]
      exact .plain (runs.2 _ List.mem_cons_self) (by simp)
  | _ => cases member

theorem derivation_refers {derived parent : FutureId} (seen : Made env parent)
    (mine : Made env derived) (exist : (env.derived derived).isSome) :
    ∀ call ∈ derivation (T := T) parent derived, Refers env call := by
  intro call member
  simp only [derivation, List.mem_cons, List.not_mem_nil, or_false] at member
  obtain rfl | rfl | rfl := member
  · refine ⟨seen, ?_⟩
    rintro _ _ ⟨⟩
    exact exist
  · refine ⟨seen, ?_⟩
    rintro _ _ ⟨⟩
    exact exist
  · refine ⟨mine, ?_⟩
    rintro _ _ ⟨⟩
    exact seen

theorem derivations_refers {call : Variadic} (kept : Kept before)
    (fits : Fits before.status before.env call) :
    ∀ made ∈ derivations (T := T) call, Refers (prepare before.env call) made := by
  have grows := prepare_grows kept fits
  intro made member
  cases List.mem_append.mp member with
  | inl wrapped =>
      obtain ⟨⟨derived, parent⟩, listed, here⟩ := List.mem_flatMap.mp wrapped
      obtain ⟨wrapper, future⟩ := List.of_mem_zip listed
      apply derivation_refers _ _ _ _ here
      · exact grows.made (visible_made (fits.visible parent future))
      · exact (prepare_private (List.mem_append_left _ wrapper)).made
      · rw [prepare_wrapper fits listed]
        rfl
  | inr last =>
      apply derivation_refers _ _ _ _ last
      · exact (prepare_private (by simp [Variadic.made])).made
      · exact (prepare_private (by simp [Variadic.made])).made
      · rw [prepare_result]
        rfl

/-- The calls of a step refer to futures that were made. -/
theorem Kept.refers (kept : Kept before) (runs : Runs before.env body)
    (moves : Moves before.status before.env body next made entered) :
    ∀ call ∈ made, Refers next call := by
  have grows := kept.grows moves
  intro call member
  cases moves with
  | acts known acts => exact grows.refers (acts.refers kept known runs call member)
  | request unknown =>
      rw [Runs, unknown] at runs
      cases runs.1
  | @call target op allowed =>
      rw [List.mem_singleton.mp member]
      constructor
      · obtain promised | ⟨returned, -⟩ := allowed
        · simp [Made, promised]
        · simp [Made, returned]
      · intro kind callback same
        cases op <;> cases same
        exact True.intro
  | empty fresh =>
      rw [List.mem_singleton.mp member]
      exact .plain (by simp [Made, assign]) (by simp)
  | none fits nothing =>
      cases List.mem_cons.mp member with
      | inl gathers =>
          subst gathers
          exact .plain (prepare_private (by simp [Variadic.made])).made (by simp)
      | inr last => exact derivations_refers kept fits call (List.mem_append_right _ last)
  | variadic fits some =>
      exact store_grows.refers (derivations_refers kept fits call member)
  | settle known =>
      rw [List.mem_singleton.mp member]
      exact .completes (kept.derived _ _ _ known).1.made _
  | early known =>
      rw [List.mem_singleton.mp member]
      exact .plain (kept.derived _ _ _ known).1.made (by simp)
  | release | abandon =>
      rw [List.mem_singleton.mp member]
      obtain ⟨parent, known⟩ := Option.isSome_iff_exists.mp runs
      exact .plain (kept.derived _ _ _ known).1.made (by simp)
  | discard =>
      rw [List.mem_singleton.mp member]
      exact .plain runs (by simp)
  | _ => cases member

/-- The frames of a step have an owner. -/
theorem Kept.enters (kept : Kept before) (runs : Runs before.env body)
    (moves : Moves before.status before.env body next made entered) :
    ∀ frame ∈ entered, Runs next frame := by
  have grows := kept.grows moves
  intro frame member
  cases moves with
  | @acts name _ process served _ _ known acts =>
      have exist : ((store before.env name served).process name).isSome := by simp [store]
      cases acts with
      | start | wake =>
          simp only [List.mem_cons, List.not_mem_nil, or_false] at member
          obtain rfl | rfl := member
          · exact exist
          · exact True.intro
      | terminated =>
          rw [List.mem_singleton.mp member]
          exact True.intro
      | decide | count | lose | discard | terminate | stray =>
          rw [List.mem_singleton.mp member]
          exact exist
      | ask =>
          rw [List.mem_singleton.mp member]
          exact ⟨exist, fun future input => grows.made (kept.futures name process known future input)⟩
      | request =>
          rw [List.mem_singleton.mp member]
          exact ⟨exist, fun future later =>
            grows.made (runs.2 future (List.mem_cons_of_mem _ later))⟩
      | asked =>
          rw [List.mem_singleton.mp member]
          exact ⟨exist, fun future later => grows.made (runs.2 future later)⟩
      | _ => cases member
  | request unknown =>
      rw [Runs, unknown] at runs
      cases runs.1
  | resumed unknown =>
      rw [Runs, unknown] at runs
      cases runs
  | promise | call | empty | none =>
      rw [List.mem_singleton.mp member]
      exact True.intro
  | gather | variadic =>
      simp only [List.mem_cons, List.not_mem_nil, or_false] at member
      obtain rfl | rfl := member
      · simp [Runs, store]
      · exact True.intro
  | settle known =>
      rw [List.mem_singleton.mp member]
      simp [Runs, known]
  | _ => cases member

/-- What a step does to the processes. -/
theorem Kept.processes (kept : Kept before)
    (moves : Moves before.status before.env body next made entered) {name : FutureId}
    {served : GatherProcess T} (found : next.process name = some served) :
    (∃ process, before.env.process name = some process ∧ served.inputs = process.inputs ∧
        (served.futures = process.futures ∨ served.futures = [])) ∨
      before.env.role name = .unmade ∧ Private next name ∧ next.derived name = none ∧
        served.futures = served.inputs ∧ ∀ future ∈ served.inputs, Made next future := by
  have grows := kept.grows moves
  cases moves with
  | @acts other _ process stored _ _ known acts =>
      left
      simp only [store] at found
      by_cases same : name = other
      · subst same
        rw [Function.update_self] at found
        cases found
        exact ⟨process, known, acts.keeps.1, acts.keeps.2.2⟩
      · rw [Function.update_of_ne same] at found
        exact ⟨served, found, rfl, .inl rfl⟩
  | @gather gathering futures result fresh known some =>
      simp only [store, assign] at found
      by_cases same : name = result
      · subst same
        rw [Function.update_self] at found
        cases found
        have unknown := (unmade_iff.mp fresh).1
        refine .inr ⟨unknown, .inl (by simp [store, assign]), kept.not_derived unknown, rfl, ?_⟩
        intro future input
        exact grows.made (visible_made (known future input))
      · rw [Function.update_of_ne same] at found
        exact .inl ⟨served, found, rfl, .inl rfl⟩
  | @variadic call fits some =>
      simp only [store, prepare] at found
      by_cases same : name = call.gathered
      · subst same
        rw [Function.update_self] at found
        cases found
        have member : call.gathered ∈ Variadic.made call := by simp [Variadic.made]
        have unknown := (unmade_iff.mp (fits.unmade _ member)).1
        refine .inr ⟨unknown, prepare_private member,
          prepare_gathered fits (kept.not_derived unknown), rfl, ?_⟩
        intro future input
        exact (prepare_private (List.mem_append_left _ input)).made
      · rw [Function.update_of_ne same] at found
        exact .inl ⟨served, found, rfl, .inl rfl⟩
  | _ => exact .inl ⟨served, found, rfl, .inl rfl⟩

theorem prepare_derives (kept : Kept before) {call : Variadic}
    (fits : Fits before.status before.env call) {derived parent : FutureId}
    {continuation : Continuation}
    (found : (prepare before.env call).derived derived = some (parent, continuation)) :
    before.env.derived derived = some (parent, continuation) ∨
      before.env.role derived = .unmade ∧ Private (prepare before.env call) derived ∧
        Made (prepare before.env call) parent := by
  have grows := prepare_grows kept fits
  obtain ⟨rfl, rfl, -⟩ | ⟨wrapper, -⟩ | old := prepare_derived found
  · have member : call.result ∈ Variadic.made call := by simp [Variadic.made]
    refine .inr ⟨(unmade_iff.mp (fits.unmade _ member)).1, prepare_private member, ?_⟩
    exact (prepare_private (by simp [Variadic.made])).made
  · obtain ⟨wraps, future⟩ := List.of_mem_zip wrapper
    have member : derived ∈ Variadic.made call := List.mem_append_left _ wraps
    refine .inr ⟨(unmade_iff.mp (fits.unmade _ member)).1, prepare_private member, ?_⟩
    exact grows.made (visible_made (fits.visible parent future))
  · exact .inl old

/-- What a step does to the derived futures. -/
theorem Kept.derives (kept : Kept before)
    (moves : Moves before.status before.env body next made entered) {derived parent : FutureId}
    {continuation : Continuation} (found : next.derived derived = some (parent, continuation)) :
    before.env.derived derived = some (parent, continuation) ∨
      before.env.role derived = .unmade ∧ Private next derived ∧ Made next parent := by
  cases moves with
  | none fits | variadic fits => exact prepare_derives kept fits found
  | _ => exact .inl found

theorem Kept.of_entered {op : Op (Value T) GatherCallback} (kept : Kept before)
    (entered : Entered before after future op) : Kept after := by
  have called : (future, op) ∈ before.calls := by
    rw [entered.calls]
    exact Multiset.mem_cons_self _ _
  have refers := kept.calls _ called
  obtain ⟨ticket, filed⟩ := entered.filed
  constructor
  · rw [entered.env]
    exact kept.process
  · rw [entered.env]
    exact kept.futures
  · rw [entered.env]
    exact kept.derived
  · intro call member
    rw [entered.env]
    apply kept.calls
    rw [entered.calls]
    exact Multiset.mem_cons_of_mem member
  · rw [entered.env, filed]
    cases op with
    | on kind callback =>
        intro entry member
        cases List.mem_cons.mp member with
        | inl new =>
            subst new
            exact ⟨refers.made, refers.owned kind callback rfl⟩
        | inr old => exact kept.registered entry old
    | _ => exact kept.registered
  · rw [entered.env, entered.bodies]
    exact kept.bodies
  · intro other unknown
    rw [entered.env] at unknown
    have different : other ≠ future := by
      rintro rfl
      exact refers.made unknown
    rw [entered.status, Function.update_of_ne different]
    exact kept.unmade other unknown

theorem Kept.of_ran {kind : CallbackKind} {registration : Registration GatherCallback}
    (kept : Kept before) (ran : Ran before after future kind registration) : Kept after := by
  obtain ⟨-, owned⟩ := kept.registered _ ran.filed
  constructor
  · rw [ran.env]
    exact kept.process
  · rw [ran.env]
    exact kept.futures
  · rw [ran.env]
    exact kept.derived
  · rw [ran.env, ran.calls]
    exact kept.calls
  · rw [ran.env, ran.registered]
    exact kept.registered
  · rw [ran.env, ran.bodies]
    intro body member
    cases Multiset.mem_cons.mp member with
    | inl new =>
        subst new
        cases called : registration.callback <;> simp only [called] at owned ⊢ <;> exact owned
    | inr old => exact kept.bodies body old
  · rw [ran.env, ran.status]
    exact kept.unmade

theorem Kept.of_executed {rest : Multiset (GatherBody T)} (kept : Kept before)
    (executed : Executed before after body rest made entered) : Kept after := by
  have moves := executed.moves
  have grows := kept.grows moves
  have runs : Runs before.env body := kept.bodies body (by
    rw [executed.running]
    exact Multiset.mem_cons_self _ _)
  constructor
  · intro name served found
    obtain ⟨process, known, inputs, -⟩ | ⟨-, owned, none, -, inputs⟩ := kept.processes moves found
    · obtain ⟨owned, none, seen⟩ := kept.process name process known
      refine ⟨grows.isPrivate owned, ?_, ?_⟩
      · cases derived : after.env.derived name with
        | none => rfl
        | some parent =>
            obtain old | ⟨unknown, -⟩ := kept.derives moves derived
            · rw [none] at old
              cases old
            · exact absurd unknown owned.made
      · rw [inputs]
        exact fun future input => grows.made (seen future input)
    · exact ⟨owned, none, inputs⟩
  · intro name served found
    obtain ⟨process, known, -, same | empty⟩ | ⟨-, -, -, same, inputs⟩ := kept.processes moves found
    · rw [same]
      exact fun future input => grows.made (kept.futures name process known future input)
    · rw [empty]
      simp
    · rw [same]
      exact inputs
  · intro derived parent continuation found
    obtain old | ⟨-, owned, seen⟩ := kept.derives moves found
    · obtain ⟨owned, seen⟩ := kept.derived derived parent continuation old
      exact ⟨grows.isPrivate owned, grows.made seen⟩
    · exact ⟨owned, seen⟩
  · intro call member
    rw [executed.calls] at member
    cases Multiset.mem_add.mp member with
    | inl new => exact kept.refers runs moves call (Multiset.mem_coe.mp new)
    | inr old => exact grows.refers (kept.calls call old)
  · rw [executed.registered]
    intro entry member
    obtain ⟨seen, owned⟩ := kept.registered entry member
    exact ⟨grows.made seen, grows.owned owned⟩
  · intro frame member
    rw [executed.bodies] at member
    cases Multiset.mem_add.mp member with
    | inl new => exact kept.enters runs moves frame (Multiset.mem_coe.mp new)
    | inr old =>
        apply grows.runs
        apply kept.bodies
        rw [executed.running]
        exact Multiset.mem_cons_of_mem old
  · intro future unknown
    rw [executed.status]
    exact kept.unmade future (grows.unmade unknown)

theorem Kept.of_blank {snapshot : GatherSnapshot T} (blank : Machine.Blank snapshot) :
    Kept snapshot := by
  obtain ⟨env, registered, -, calls, bodies, state, discard, -⟩ := blank
  change snapshot.env = .new at env
  constructor <;> simp [env, registered, calls, bodies, state, discard, GatherEnv.new]

theorem Kept.spawn {snapshot : GatherSnapshot T} (kept : Kept snapshot) :
    Kept { snapshot with bodies := .user ::ₘ snapshot.bodies } := by
  refine ⟨kept.process, kept.futures, kept.derived, kept.calls, kept.registered, ?_, kept.unmade⟩
  intro body member
  cases Multiset.mem_cons.mp member with
  | inl new =>
      subst new
      exact True.intro
  | inr old => exact kept.bodies body old

end Kept

end Gather

end Libprocess
