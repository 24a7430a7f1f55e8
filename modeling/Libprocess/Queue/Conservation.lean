import Libprocess.Queue.Machine

/-!
# A queue delivers in order, without loss or duplication

The history of a queue says which elements were put, which futures were handed out, and which of
these were withdrawn by a discard.  The elements go in the order of the puts to the futures that
were not withdrawn, in the order of the gets.
-/

namespace Libprocess

variable {α : Type}

abbrev QueueSnapshot (α : Type) := Snapshot (queue α)

open Snapshot (Entered Ran)

namespace Queue

/-- The futures that were not withdrawn, in the order of the gets. -/
def takers (env : QueueEnv α) : List FutureId :=
  env.gets.filter fun future => future ∉ env.withdrawn

/-- What the history says about the queue. -/
structure Balanced (env : QueueEnv α) : Prop where
  takers : takers env = env.handed.map Prod.fst ++ env.promises
  puts : env.puts = env.handed.map Prod.snd ++ env.elements
  alternative : env.promises = [] ∨ env.elements = []
  gets : env.gets.Nodup
  withdrawn : ∀ future ∈ env.withdrawn, future ∈ env.gets

section Balanced

variable {env next : QueueEnv α} {body : QueueBody α} {made : List (FutureId × Op α QueueCallback)}
  {entered : List (QueueBody α)} {future : FutureId}

section

variable (balanced : Balanced env)

include balanced

theorem Balanced.nodup :
    (env.handed.map Prod.fst ++ env.promises).Nodup := by
  rw [← balanced.takers]
  exact balanced.gets.filter _

/-- A future that waits has got nothing. -/
theorem Balanced.not_handed (waits : future ∈ env.promises) (value : α) :
    (future, value) ∉ env.handed := by
  intro got
  exact (List.nodup_append.mp balanced.nodup).2.2 future
    (List.mem_map_of_mem got) future waits rfl

/-- A future that was withdrawn neither waits nor has got anything. -/
theorem Balanced.not_taker (withdrawn : future ∈ env.withdrawn) :
    future ∉ env.handed.map Prod.fst ++ env.promises := by
  rw [← balanced.takers, Queue.takers]
  simp [withdrawn]

theorem Balanced.mem_gets
    (taker : future ∈ env.handed.map Prod.fst ++ env.promises) : future ∈ env.gets := by
  rw [← balanced.takers] at taker
  exact List.mem_of_mem_filter taker

theorem takers_get (fresh : future ∉ env.gets) :
    (env.gets ++ [future]).filter (fun other => other ∉ env.withdrawn) =
      takers env ++ [future] := by
  have kept : future ∉ env.withdrawn := fun withdrawn => fresh (balanced.withdrawn _ withdrawn)
  simp [takers, List.filter_append, kept]

theorem Balanced.gets_nodup (fresh : future ∉ env.gets) :
    (env.gets ++ [future]).Nodup := by
  refine List.nodup_append.mpr ⟨balanced.gets, List.nodup_singleton future, ?_⟩
  rintro known member other single rfl
  exact fresh (List.mem_singleton.mp single ▸ member)

/-- Withdrawing a future takes it out of the line. -/
theorem takers_erase (waits : future ∈ env.promises) :
    takers (erase env future) = env.handed.map Prod.fst ++ env.promises.erase future := by
  have nodup := balanced.nodup
  have first : future ∉ env.handed.map Prod.fst := fun got =>
    (List.nodup_append.mp nodup).2.2 future got future waits rfl
  calc
    takers (erase env future) = (takers env).filter fun other => other ≠ future := by
      simp only [takers, erase, List.filter_filter]
      congr 1
      funext other
      simp [and_comm]
    _ = (takers env).erase future := by
      have single : (takers env).Nodup := balanced.gets.filter _
      rw [single.erase_eq_filter]
      congr 1
      funext other
      simp [bne, BEq.beq]
    _ = env.handed.map Prod.fst ++ env.promises.erase future := by
      rw [balanced.takers, List.erase_append_right _ first]

theorem Balanced.step (moves : Moves env body next made entered)
    (erases : ∀ future, body = .erase future → future ∈ env.promises) : Balanced next := by
  cases moves with
  | enter | call | release | size | find | miss | unlock =>
      exact ⟨balanced.takers, balanced.puts, balanced.alternative, balanced.gets,
        balanced.withdrawn⟩
  | store free nobody =>
      refine ⟨balanced.takers, ?_, .inl nobody, balanced.gets, balanced.withdrawn⟩
      simp [balanced.puts]
  | hand free waiting =>
      have nothing : env.elements = [] := by
        cases balanced.alternative with
        | inl nobody =>
            rw [nobody] at waiting
            cases waiting
        | inr nothing => exact nothing
      refine ⟨?_, ?_, .inr nothing, balanced.gets, balanced.withdrawn⟩
      · change Queue.takers env = _
        rw [balanced.takers, waiting]
        simp
      · simp [balanced.puts, nothing]
  | wait free fresh nothing =>
      constructor
      · refine (takers_get balanced fresh).trans ?_
        rw [balanced.takers, List.append_assoc]
      · exact balanced.puts
      · exact .inr nothing
      · exact balanced.gets_nodup fresh
      · intro other withdrawn
        exact List.mem_append_left _ (balanced.withdrawn other withdrawn)
  | take free fresh stored =>
      have nobody : env.promises = [] := by
        cases balanced.alternative with
        | inl nobody => exact nobody
        | inr nothing =>
            rw [nothing] at stored
            cases stored
      constructor
      · refine (takers_get balanced fresh).trans ?_
        simp [balanced.takers, nobody]
      · simp [balanced.puts, stored]
      · exact .inl nobody
      · exact balanced.gets_nodup fresh
      · intro other withdrawn
        exact List.mem_append_left _ (balanced.withdrawn other withdrawn)
  | @erase future =>
      have waits := erases future rfl
      have nothing : env.elements = [] := by
        cases balanced.alternative with
        | inl nobody =>
            rw [nobody] at waits
            cases waits
        | inr nothing => exact nothing
      refine ⟨takers_erase balanced waits, balanced.puts, .inr nothing, balanced.gets, ?_⟩
      intro other withdrawn
      cases List.mem_append.mp withdrawn with
      | inl old => exact balanced.withdrawn other old
      | inr new =>
          rw [List.mem_singleton.mp new]
          exact balanced.mem_gets (List.mem_append_right _ waits)

end

end Balanced

/-- A snapshot before and after a step of the code. -/
structure Executed (before after : QueueSnapshot α) (body : QueueBody α)
    (rest : Multiset (QueueBody α)) (made : List (FutureId × Op α QueueCallback))
    (entered : List (QueueBody α)) : Prop where
  moves : Moves before.env body after.env made entered
  running : before.bodies = body ::ₘ rest
  bodies : after.bodies = ↑entered + rest
  calls : after.calls = ↑made + before.calls
  registered : after.registered = before.registered
  status : after.status = before.status

theorem step_cases {before after : QueueSnapshot α} {frame : (queue α).Frame}
    (step : before.Step frame after) :
    after = before ∨
      (∃ future op, frame = .enter future op ∧ Entered before after future op) ∨
      (∃ future kind registration, Ran before after future kind registration) ∨
      ∃ body rest made entered, frame = .body body ∧
        Executed before after body rest made entered := by
  refine (Snapshot.Step.cases step).imp id (Or.imp id (Or.imp id ?_))
  rintro ⟨body, rest, choice, effect, rfl, running, moved, rfl⟩
  obtain ⟨moves, flags⟩ := step_does moved
  refine ⟨body, rest, _, _, rfl, moves, running, rfl, rfl, rfl, ?_⟩
  funext future
  exact congrArg (fun flags => { before.status future with toFlags := flags }) (flags future)

/-- The frames inside the block of the handler. -/
def holds : QueueBody α → Bool
  | .erase _ | .unlock => true
  | _ => false

/-- The lock is taken while one frame is inside its block, and the promise that it is about to
erase waits. -/
structure Locked (snapshot : QueueSnapshot α) : Prop where
  lock : snapshot.bodies.countP (fun body => holds body = true) =
    if snapshot.env.lock then 1 else 0
  erasing : ∀ future, .erase future ∈ snapshot.bodies → future ∈ snapshot.env.promises

/-- Every future of the queue is completed by the one who decided about it. -/
structure Decides (snapshot : QueueSnapshot α) : Prop where
  set : ∀ future value, (future, .set value) ∈ snapshot.calls →
    (future, value) ∈ snapshot.env.handed
  discarded : ∀ future, (future, .discarded) ∈ snapshot.calls →
    .erase future ∈ snapshot.bodies ∨ future ∈ snapshot.env.withdrawn
  unfailed : ∀ future message, (future, .fail message) ∉ snapshot.calls
  failed : ∀ future, (snapshot.status future).state ≠ .failed
  ready : ∀ future, (snapshot.status future).state = .ready → ∃ value,
    (snapshot.status future).result = .some value ∧ (future, value) ∈ snapshot.env.handed
  withdraws : ∀ future, (snapshot.status future).state = .discarded →
    .erase future ∈ snapshot.bodies ∨ future ∈ snapshot.env.withdrawn
  handed : ∀ future value, (future, value) ∈ snapshot.env.handed →
    (snapshot.status future).state = .ready ∨
      (snapshot.status future).state = .pending ∧ (future, .set value) ∈ snapshot.calls
  withdrawn : ∀ future, .erase future ∈ snapshot.bodies ∨ future ∈ snapshot.env.withdrawn →
    (snapshot.status future).state = .discarded ∨
      (snapshot.status future).state = .pending ∧ (future, .discarded) ∈ snapshot.calls

section Locked

variable {before after : QueueSnapshot α} {frame : (queue α).Frame}

theorem Locked.free (locked : Locked before) (free : before.env.lock = false)
    {body : QueueBody α} (inside : holds body = true) : body ∉ before.bodies := by
  intro member
  have none := locked.lock
  rw [free] at none
  exact Multiset.countP_eq_zero.mp none body member inside

theorem invoke_not_holds (future : FutureId) (argument : Argument α) (callback : QueueCallback) :
    holds (invoke future argument callback) = false := by
  cases callback <;> rfl

/-- A frame takes the lock when it enters its block, and keeps it. -/
theorem Moves.lock {env next : QueueEnv α} {body : QueueBody α}
    {made : List (FutureId × Op α QueueCallback)} {entered : List (QueueBody α)}
    (moves : Moves env body next made entered) (inside : holds body = true → env.lock = true) :
    (entered.countP fun body => holds body = true) + (if env.lock then 1 else 0) =
      (if holds body then 1 else 0) + if next.lock then 1 else 0 := by
  cases moves with
  | enter shape => rcases shape with rfl | ⟨_, rfl⟩ | ⟨_, rfl⟩ | rfl <;> simp [holds]
  | find free => simp [holds, free]
  | erase => rfl
  | unlock => simp [holds, inside rfl]
  | _ => simp [holds]

/-- The promise that is about to be erased waits. -/
theorem Moves.promises {env next : QueueEnv α} {body : QueueBody α}
    {made : List (FutureId × Op α QueueCallback)} {entered : List (QueueBody α)}
    (moves : Moves env body next made entered) (locked : env.lock = true) {future : FutureId}
    (waits : future ∈ env.promises) : body = .erase future ∨ future ∈ next.promises ∨
      ∃ other, body = .erase other := by
  cases moves with
  | hand free | wait free => exact absurd (free.symm.trans locked) Bool.false_ne_true
  | erase => exact .inr (.inr ⟨_, rfl⟩)
  | _ => exact .inr (.inl waits)

theorem Moves.erases {env next : QueueEnv α} {body : QueueBody α}
    {made : List (FutureId × Op α QueueCallback)} {entered : List (QueueBody α)}
    (moves : Moves env body next made entered) {future : FutureId}
    (member : .erase future ∈ entered) :
    env.lock = false ∧ future ∈ env.promises ∧ made = [(future, .discarded)] ∧
      next = { env with lock := true } := by
  cases moves with
  | enter shape => rcases shape with rfl | ⟨_, rfl⟩ | ⟨_, rfl⟩ | rfl <;> simp at member
  | find free waits =>
      cases List.mem_singleton.mp member
      exact ⟨free, waits, rfl, rfl⟩
  | _ => simp at member

theorem Locked.executed {body : QueueBody α} {rest : Multiset (QueueBody α)}
    {made : List (FutureId × Op α QueueCallback)} {entered : List (QueueBody α)}
    (locked : Locked before) (executed : Executed before after body rest made entered) :
    Locked after := by
  have member : body ∈ before.bodies := by
    rw [executed.running]
    exact Multiset.mem_cons_self _ _
  have taken : ∀ inside ∈ before.bodies, holds inside = true → before.env.lock = true := by
    intro inside present holding
    by_contra free
    exact locked.free (by simpa using free) holding present
  have lock := locked.lock
  rw [executed.running, Multiset.countP_cons] at lock
  have balance := executed.moves.lock (taken body member)
  constructor
  · rw [executed.bodies, Multiset.countP_add, Multiset.coe_countP]
    omega
  · intro future erases
    rw [executed.bodies] at erases
    cases Multiset.mem_add.mp erases with
    | inl new =>
        obtain ⟨-, waits, -, same⟩ := executed.moves.erases new
        rw [same]
        exact waits
    | inr old =>
        have present : .erase future ∈ before.bodies := by
          rw [executed.running]
          exact Multiset.mem_cons_of_mem old
        have locks := taken _ present rfl
        have another : body ≠ .erase future ∧ ∀ other, body ≠ .erase other := by
          have inside : 0 < rest.countP fun body => holds body = true :=
            Multiset.countP_pos.mpr ⟨_, old, rfl⟩
          have single : ∀ other, body ≠ .erase other := by
            rintro other rfl
            have holding : holds (.erase other : QueueBody α) = true := rfl
            rw [if_pos holding, if_pos locks] at lock
            omega
          exact ⟨single future, single⟩
        obtain same | waits | ⟨other, same⟩ :=
          executed.moves.promises locks (locked.erasing future present)
        · exact absurd same another.1
        · exact waits
        · exact absurd same (another.2 other)

theorem Locked.step (locked : Locked before) (step : before.Step frame after) : Locked after := by
  obtain rfl | ⟨future, op, -, entered⟩ | ⟨future, kind, registration, ran⟩ |
    ⟨body, rest, made, opened, -, executed⟩ := step_cases step
  · exact locked
  · constructor
    · rw [entered.bodies, entered.env]
      exact locked.lock
    · rw [entered.bodies, entered.env]
      exact locked.erasing
  · have outside : ∀ body, body = (queue α).invoke future
        (argument future kind (before.status future).result) registration.callback →
        holds body = false := by
      rintro body rfl
      exact invoke_not_holds future (argument future kind (before.status future).result)
        registration.callback
    constructor
    · rw [ran.bodies, ran.env, Multiset.countP_cons_of_neg _ (by simp [outside _ rfl])]
      exact locked.lock
    · rw [ran.bodies, ran.env]
      intro other member
      cases Multiset.mem_cons.mp member with
      | inl new => cases outside _ new
      | inr old => exact locked.erasing other old
  · exact locked.executed executed

end Locked

section Decides

variable {before after : QueueSnapshot α} {frame : (queue α).Frame} {future : FutureId}

/-- A future is not both handed an element and withdrawn. -/
theorem Balanced.apart {snapshot : QueueSnapshot α} (balanced : Balanced snapshot.env)
    (locked : Locked snapshot) {value : α} (got : (future, value) ∈ snapshot.env.handed) :
    ¬ (.erase future ∈ snapshot.bodies ∨ future ∈ snapshot.env.withdrawn) := by
  rintro (erasing | withdrawn)
  · exact balanced.not_handed (locked.erasing future erasing) value got
  · exact balanced.not_taker withdrawn (List.mem_append_left _ (List.mem_map_of_mem got))

theorem Decides.entered {other : FutureId} {op : Op α QueueCallback} (decides : Decides before)
    (balanced : Balanced before.env) (locked : Locked before)
    (entered : Entered before after other op) : Decides after := by
  have call : (other, op) ∈ before.calls := by
    rw [entered.calls]
    exact Multiset.mem_cons_self _ _
  have earlier : ∀ future called, (future, called) ∈ after.calls →
      (future, called) ∈ before.calls := by
    intro future called member
    rw [entered.calls]
    exact Multiset.mem_cons_of_mem member
  -- A future that is completed now is completed by the call.
  have source : ∀ future, (after.status future).state ≠ .pending →
      (before.status future).state = .pending →
      future = other ∧ op.completes = true ∧ (after.status future).Settles op := by
    intro future completed pending
    obtain ⟨same, completes, settles, -⟩ := entered.completes pending completed
    exact ⟨same, completes, settles⟩
  have stays : ∀ future, (before.status future).state ≠ .pending →
      (after.status future).state = (before.status future).state ∧
        (after.status future).result = (before.status future).result := by
    intro future completed
    have later := (entered.later future).completed completed
    exact ⟨later.1, later.2.1⟩
  constructor
  · intro future value member
    rw [entered.env]
    exact decides.set future value (earlier _ _ member)
  · intro future member
    rw [entered.env, entered.bodies]
    exact decides.discarded future (earlier _ _ member)
  · intro future message member
    exact decides.unfailed future message (earlier _ _ member)
  · intro future failed
    by_cases pending : (before.status future).state = .pending
    · obtain ⟨rfl, completes, settles⟩ := source future (by simp [failed]) pending
      cases op with
      | set value =>
          rw [settles.1] at failed
          cases failed
      | fail message => exact decides.unfailed future message call
      | discarded =>
          rw [show (after.status future).state = .discarded from settles] at failed
          cases failed
      | discard | abandon | on => cases completes
    · rw [(stays future pending).1] at failed
      exact decides.failed future failed
  · intro future ready
    rw [entered.env]
    by_cases pending : (before.status future).state = .pending
    · obtain ⟨rfl, completes, settles⟩ := source future (by simp [ready]) pending
      cases op with
      | set value => exact ⟨value, settles.2, decides.set future value call⟩
      | fail message => exact absurd call (decides.unfailed future message)
      | discarded =>
          rw [show (after.status future).state = .discarded from settles] at ready
          cases ready
      | discard | abandon | on => cases completes
    · obtain ⟨state, result⟩ := stays future pending
      rw [state] at ready
      rw [result]
      exact decides.ready future ready
  · intro future discarded
    rw [entered.env, entered.bodies]
    by_cases pending : (before.status future).state = .pending
    · obtain ⟨rfl, completes, settles⟩ := source future (by simp [discarded]) pending
      cases op with
      | set value =>
          rw [settles.1] at discarded
          cases discarded
      | fail message => exact absurd call (decides.unfailed future message)
      | discarded => exact decides.discarded future call
      | discard | abandon | on => cases completes
    · rw [(stays future pending).1] at discarded
      exact decides.withdraws future discarded
  · intro future value got
    rw [entered.env] at got
    obtain ready | ⟨pending, member⟩ := decides.handed future value got
    · left
      rw [(stays future (by simp [ready])).1]
      exact ready
    · by_cases waits : (after.status future).state = .pending
      · right
        refine ⟨waits, ?_⟩
        obtain ⟨rfl, rfl⟩ | remains := entered.remains member
        · exact absurd waits (entered.completed rfl)
        · exact remains
      · obtain ⟨rfl, completes, settles⟩ := source future waits pending
        cases op with
        | set value => exact .inl settles.1
        | fail message => exact absurd call (decides.unfailed future message)
        | discarded => exact absurd (decides.discarded future call) (balanced.apart locked got)
        | discard | abandon | on => cases completes
  · intro future withdraws
    rw [entered.env, entered.bodies] at withdraws
    obtain discarded | ⟨pending, member⟩ := decides.withdrawn future withdraws
    · left
      rw [(stays future (by simp [discarded])).1]
      exact discarded
    · by_cases waits : (after.status future).state = .pending
      · right
        refine ⟨waits, ?_⟩
        obtain ⟨rfl, rfl⟩ | remains := entered.remains member
        · exact absurd waits (entered.completed rfl)
        · exact remains
      · obtain ⟨rfl, completes, settles⟩ := source future waits pending
        cases op with
        | set value =>
            exact absurd withdraws (balanced.apart locked (decides.set future value call))
        | fail message => exact absurd call (decides.unfailed future message)
        | discarded => exact .inl settles
        | discard | abandon | on => cases completes

theorem Decides.ran {other : FutureId} {kind : CallbackKind}
    {registration : Registration QueueCallback} (decides : Decides before)
    (ran : Ran before after other kind registration) : Decides after := by
  have erasing : ∀ future, .erase future ∈ after.bodies ↔ .erase future ∈ before.bodies := by
    intro future
    rw [ran.bodies, Multiset.mem_cons]
    constructor
    · rintro (new | old)
      · cases callback : registration.callback <;> rw [callback] at new <;> cases new
      · exact old
    · exact .inr
  constructor
  · rw [ran.calls, ran.env]
    exact decides.set
  · intro future member
    rw [ran.calls] at member
    rw [ran.env, erasing]
    exact decides.discarded future member
  · rw [ran.calls]
    exact decides.unfailed
  · rw [ran.status]
    exact decides.failed
  · rw [ran.status, ran.env]
    exact decides.ready
  · intro future discarded
    rw [ran.status] at discarded
    rw [ran.env, erasing]
    exact decides.withdraws future discarded
  · rw [ran.status, ran.env, ran.calls]
    exact decides.handed
  · intro future withdraws
    rw [ran.env, erasing] at withdraws
    rw [ran.status, ran.calls]
    exact decides.withdrawn future withdraws

section Moves

variable {env next : QueueEnv α} {body : QueueBody α}
  {made : List (FutureId × Op α QueueCallback)} {entered : List (QueueBody α)}

section

variable (moves : Moves env body next made entered)

include moves

/-- The history only grows. -/
theorem Moves.grows :
    (∀ entry ∈ env.handed, entry ∈ next.handed) ∧
      ∀ future ∈ env.withdrawn, future ∈ next.withdrawn := by
  cases moves with
  | hand | take => exact ⟨fun _ => List.mem_append_left _, fun _ => id⟩
  | erase => exact ⟨fun _ => id, fun _ => List.mem_append_left _⟩
  | _ => exact ⟨fun _ => id, fun _ => id⟩

theorem Moves.completes {op : Op α QueueCallback}
    (member : (future, op) ∈ made) (completes : op.completes = true) :
    (∃ value, op = .set value ∧ (future, value) ∈ next.handed) ∨
      op = .discarded ∧ .erase future ∈ entered := by
  cases moves with
  | @hand value promise rest | @take other value rest =>
      cases List.mem_singleton.mp member
      exact .inl ⟨value, rfl, List.mem_append_right _ List.mem_cons_self⟩
  | find =>
      cases List.mem_singleton.mp member
      exact .inr ⟨rfl, List.mem_cons_self⟩
  | call known shape =>
      cases List.mem_singleton.mp member
      obtain rfl | ⟨_, rfl⟩ := shape <;> cases completes
  | release | wait =>
      cases List.mem_singleton.mp member
      cases completes
  | _ => cases member

theorem Moves.hands {value : α}
    (got : (future, value) ∈ next.handed) :
    (future, value) ∈ env.handed ∨ (future, .set value) ∈ made ∧ env.lock = false ∧
      (future ∈ env.promises ∨ future ∉ env.gets) := by
  cases moves with
  | hand free waiting =>
      cases List.mem_append.mp got with
      | inl old => exact .inl old
      | inr new =>
          cases List.mem_singleton.mp new
          exact .inr ⟨List.mem_cons_self, free, .inl (by simp [waiting])⟩
  | take free fresh =>
      cases List.mem_append.mp got with
      | inl old => exact .inl old
      | inr new =>
          cases List.mem_singleton.mp new
          exact .inr ⟨List.mem_cons_self, free, .inr fresh⟩
  | _ => exact .inl got

theorem Moves.withdraws (withdrawn : future ∈ next.withdrawn) :
    future ∈ env.withdrawn ∨ body = .erase future := by
  cases moves with
  | erase =>
      cases List.mem_append.mp withdrawn with
      | inl old => exact .inl old
      | inr new =>
          rw [List.mem_singleton.mp new]
          exact .inr rfl
  | _ => exact .inl withdrawn

end

/-- An erased promise is withdrawn. -/
theorem Moves.withdrawn (moves : Moves env (.erase future) next made entered) :
    future ∈ next.withdrawn := by
  cases moves with
  | erase => exact List.mem_append_right _ List.mem_cons_self

end Moves

/-- Nobody has decided about a future that waits or does not exist yet. -/
theorem Decides.pending (decides : Decides before) (balanced : Balanced before.env)
    (locked : Locked before) (free : before.env.lock = false)
    (undecided : future ∈ before.env.promises ∨ future ∉ before.env.gets) :
    (before.status future).state = .pending := by
  have unhanded : ∀ value, (future, value) ∉ before.env.handed := by
    intro value got
    cases undecided with
    | inl waits => exact balanced.not_handed waits value got
    | inr fresh =>
        exact fresh (balanced.mem_gets (List.mem_append_left _ (List.mem_map_of_mem got)))
  cases state : (before.status future).state with
  | pending => rfl
  | failed => exact absurd state (decides.failed future)
  | ready =>
      obtain ⟨value, -, got⟩ := decides.ready future state
      exact absurd got (unhanded value)
  | discarded =>
      obtain erasing | withdrawn := decides.withdraws future state
      · exact absurd erasing (locked.free free rfl)
      · cases undecided with
        | inl waits =>
            exact absurd (List.mem_append_right _ waits) (balanced.not_taker withdrawn)
        | inr fresh => exact absurd (balanced.withdrawn future withdrawn) fresh

theorem Decides.executed {body : QueueBody α} {rest : Multiset (QueueBody α)}
    {made : List (FutureId × Op α QueueCallback)} {entered : List (QueueBody α)}
    (decides : Decides before) (balanced : Balanced before.env) (locked : Locked before)
    (executed : Executed before after body rest made entered) : Decides after := by
  obtain ⟨handed, withdrawn⟩ := executed.moves.grows
  have source : ∀ call ∈ after.calls, call ∈ made ∨ call ∈ before.calls := by
    intro call member
    rw [executed.calls] at member
    exact Multiset.mem_add.mp member
  have remains : ∀ call ∈ before.calls, call ∈ after.calls := by
    intro call member
    rw [executed.calls]
    exact Multiset.mem_add.mpr (.inr member)
  have makes : ∀ call ∈ made, call ∈ after.calls := by
    intro call member
    rw [executed.calls]
    exact Multiset.mem_add.mpr (.inl member)
  have opens : ∀ body ∈ entered, body ∈ after.bodies := by
    intro body member
    rw [executed.bodies]
    exact Multiset.mem_add.mpr (.inl member)
  -- The handler that was about to erase is still there, or has erased.
  have continues : ∀ future, .erase future ∈ before.bodies ∨ future ∈ before.env.withdrawn →
      .erase future ∈ after.bodies ∨ future ∈ after.env.withdrawn := by
    rintro future (erasing | old)
    · rw [executed.running] at erasing
      cases Multiset.mem_cons.mp erasing with
      | inl now =>
          have moves := executed.moves
          rw [← now] at moves
          exact .inr moves.withdrawn
      | inr later =>
          left
          rw [executed.bodies]
          exact Multiset.mem_add.mpr (.inr later)
    · exact .inr (withdrawn future old)
  constructor
  · intro future value member
    cases source _ member with
    | inr old => exact handed _ (decides.set future value old)
    | inl new =>
        obtain ⟨other, same, got⟩ | ⟨same, -⟩ := executed.moves.completes new rfl
        · cases same
          exact got
        · cases same
  · intro future member
    cases source _ member with
    | inr old => exact continues future (decides.discarded future old)
    | inl new =>
        obtain ⟨_, same, -⟩ | ⟨-, erases⟩ := executed.moves.completes new rfl
        · cases same
        · exact .inl (opens _ erases)
  · intro future message member
    cases source _ member with
    | inr old => exact decides.unfailed future message old
    | inl new =>
        obtain ⟨_, same, -⟩ | ⟨same, -⟩ := executed.moves.completes new rfl
        · cases same
        · cases same
  · rw [executed.status]
    exact decides.failed
  · intro future ready
    rw [executed.status] at ready ⊢
    obtain ⟨value, result, got⟩ := decides.ready future ready
    exact ⟨value, result, handed _ got⟩
  · intro future discarded
    rw [executed.status] at discarded
    exact continues future (decides.withdraws future discarded)
  · intro future value got
    rw [executed.status]
    obtain old | ⟨new, free, undecided⟩ := executed.moves.hands got
    · obtain ready | ⟨pending, member⟩ := decides.handed future value old
      · exact .inl ready
      · exact .inr ⟨pending, remains _ member⟩
    · exact .inr ⟨decides.pending balanced locked free undecided, makes _ new⟩
  · intro future withdraws
    rw [executed.status]
    have earlier : .erase future ∈ before.bodies ∨ future ∈ before.env.withdrawn →
        (before.status future).state = .discarded ∨
          (before.status future).state = .pending ∧ (future, .discarded) ∈ after.calls := by
      intro old
      obtain discarded | ⟨pending, member⟩ := decides.withdrawn future old
      · exact .inl discarded
      · exact .inr ⟨pending, remains _ member⟩
    cases withdraws with
    | inr now =>
        obtain old | same := executed.moves.withdraws now
        · exact earlier (.inr old)
        · apply earlier
          left
          rw [executed.running, same]
          exact Multiset.mem_cons_self _ _
    | inl erasing =>
        rw [executed.bodies] at erasing
        cases Multiset.mem_add.mp erasing with
        | inr old =>
            apply earlier
            left
            rw [executed.running]
            exact Multiset.mem_cons_of_mem old
        | inl new =>
            obtain ⟨free, waits, calls, -⟩ := executed.moves.erases new
            refine .inr ⟨decides.pending balanced locked free (.inl waits), makes _ ?_⟩
            rw [calls]
            exact List.mem_cons_self

end Decides

structure Invariant (snapshot : QueueSnapshot α) : Prop where
  balanced : Balanced snapshot.env
  locked : Locked snapshot
  decides : Decides snapshot

theorem Invariant.step {before after : QueueSnapshot α} {frame : (queue α).Frame}
    (invariant : Invariant before) (step : before.Step frame after) : Invariant after := by
  have locked := invariant.locked.step step
  obtain rfl | ⟨future, op, -, entered⟩ | ⟨future, kind, registration, ran⟩ |
    ⟨body, rest, made, opened, -, executed⟩ := step_cases step
  · exact invariant
  · refine ⟨?_, locked, invariant.decides.entered invariant.balanced invariant.locked entered⟩
    rw [entered.env]
    exact invariant.balanced
  · refine ⟨?_, locked, invariant.decides.ran ran⟩
    rw [ran.env]
    exact invariant.balanced
  · refine ⟨?_, locked, invariant.decides.executed invariant.balanced invariant.locked executed⟩
    apply invariant.balanced.step executed.moves
    rintro future rfl
    apply invariant.locked.erasing
    rw [executed.running]
    exact Multiset.mem_cons_self _ _

variable {machine : Machine (queue α)}

theorem Invariant.initial (initial : machine.Initial) : Invariant machine.snapshot := by
  obtain ⟨env, -, -, calls, bodies, pending, -, -⟩ := initial.blank
  have environment : machine.snapshot.env = .new := env
  have pending : ∀ future, (machine.memory.data future).state = .pending := pending
  constructor
  · rw [environment]
    constructor <;> simp [QueueEnv.new, takers]
  · constructor
    · rw [environment, bodies]
      rfl
    · simp [bodies]
  · constructor <;> simp [environment, bodies, calls, pending, QueueEnv.new]

theorem Invariant.spawn {snapshot : QueueSnapshot α} (invariant : Invariant snapshot) :
    Invariant { snapshot with bodies := .user ::ₘ snapshot.bodies } := by
  obtain ⟨balanced, locked, decides⟩ := invariant
  refine ⟨balanced, ⟨?_, ?_⟩, ⟨decides.set, ?_, decides.unfailed, decides.failed, decides.ready, ?_,
    decides.handed, ?_⟩⟩
  · change Multiset.countP _ (.user ::ₘ snapshot.bodies) = _
    rw [Multiset.countP_cons_of_neg _ (by simp [holds])]
    exact locked.lock
  · intro future member
    exact locked.erasing future (by simpa using member)
  · intro future member
    simpa using decides.discarded future member
  · intro future discarded
    simpa using decides.withdraws future discarded
  · intro future withdraws
    exact decides.withdrawn future (by simpa using withdraws)

theorem Invariant.of_reachable (reached : (futures (queue α)).Reachable machine) :
    Invariant machine.snapshot := by
  apply Machine.snapshot_invariant_of (fun _ _ => True) _ Invariant _ _ _ reached
  · intros
    trivial
  · exact fun _ => Invariant.initial
  · exact fun _ => Invariant.spawn
  · intro before frame after _ _ invariant _ step
    exact invariant.step step

/-- What a queue guarantees in every state. -/
structure Delivers (machine : Machine (queue α)) : Prop where
  alternative : machine.memory.env.promises ≠ [] → machine.memory.env.elements = []
  /-- The futures that were not withdrawn get elements in the order of the gets, -/
  gets : takers machine.memory.env =
    machine.memory.env.handed.map Prod.fst ++ machine.memory.env.promises
  /-- and the elements are handed out in the order of the puts. -/
  puts : machine.memory.env.puts =
    machine.memory.env.handed.map Prod.snd ++ machine.memory.env.elements
  once : (machine.memory.env.handed.map Prod.fst).Nodup
  /-- A future has its element, or the call that sets it is in flight. -/
  handed : ∀ future value, (future, value) ∈ machine.memory.env.handed →
    (machine.memory.data future).state = .ready ∧
        (machine.memory.data future).result = .some value ∨
      (machine.memory.data future).state = .pending ∧
        .enter future (.set value) ∈ machine.threads.frames
  ready : ∀ future, (machine.memory.data future).state = .ready → ∃ value,
    (machine.memory.data future).result = .some value ∧
      (future, value) ∈ machine.memory.env.handed
  discarded : ∀ future, (machine.memory.data future).state = .discarded →
    ∀ value, (future, value) ∉ machine.memory.env.handed
  /-- A withdrawn future is discarded, or the call that discards it is in flight. -/
  withdrawn : ∀ future ∈ machine.memory.env.withdrawn,
    (machine.memory.data future).state = .discarded ∨
      (machine.memory.data future).state = .pending ∧
        .enter future .discarded ∈ machine.threads.frames

end Queue

open Queue in
/-- Elements are delivered first in, first out, each to one future, and none is lost. -/
theorem queue_delivers {machine : Machine (queue α)}
    (reached : (futures (queue α)).Reachable machine) : Delivers machine := by
  obtain ⟨balanced, locked, decides⟩ := Invariant.of_reachable reached
  have nodup : (machine.memory.env.handed.map Prod.fst).Nodup :=
    (List.nodup_append.mp balanced.nodup).1
  constructor
  · intro waiting
    exact balanced.alternative.resolve_left waiting
  · exact balanced.takers
  · exact balanced.puts
  · exact nodup
  · intro future value got
    obtain ready | ⟨pending, member⟩ := decides.handed future value got
    · obtain ⟨other, result, also⟩ := decides.ready future ready
      have same : other = value := by
        have equal := List.inj_on_of_nodup_map nodup also got rfl
        exact congrArg Prod.snd equal
      rw [same] at result
      exact .inl ⟨ready, result⟩
    · exact .inr ⟨pending, Machine.mem_frames_of_call member⟩
  · exact decides.ready
  · intro future state value got
    obtain ready | ⟨pending, -⟩ := decides.handed future value got
    · exact absurd (state.symm.trans ready) (by simp)
    · exact absurd (state.symm.trans pending) (by simp)
  · intro future withdrawn
    obtain discarded | ⟨pending, member⟩ := decides.withdrawn future (.inr withdrawn)
    · exact .inl discarded
    · exact .inr ⟨pending, Machine.mem_frames_of_call member⟩

/-- Two futures wait, the first one is discarded, and the element goes to the second one. -/
def withdrawnSchedule : List (Move (queue Nat)) :=
  List.flatten [[.spawn, .advance 0 (.get 0), .advance 0 .finish, .advance 0 .finish,
     .advance 0 (.get 1), .advance 0 .finish, .advance 0 .finish, .advance 0 (.discard 0)],
    List.replicate 12 (.advance 0 .finish),
    [.advance 0 (.put 7), .advance 0 .finish, .advance 0 .finish]]

open Queue in
theorem queue_delivers_withdrawn : ∃ machine : Machine (queue Nat),
    Delivers machine ∧ machine.memory.env.withdrawn = [0] ∧
      machine.memory.env.handed = [(1, 7)] ∧ (machine.memory.data 0).state = .discarded ∧
      (machine.memory.data 1).state = .ready := by
  obtain ⟨machine, executed, observed⟩ : ∃ machine ∈ (futures (queue Nat)).run
      (Machine.new _ fun _ => false) withdrawnSchedule, machine.memory.env.withdrawn = [0] ∧
      machine.memory.env.handed = [(1, 7)] ∧ (machine.memory.data 0).state = .discarded ∧
      (machine.memory.data 1).state = .ready := by
    decide +kernel
  exact ⟨machine, queue_delivers
    (.of_run (Machine.new_initial (queue Nat) fun _ => false) executed), observed⟩

end Libprocess
