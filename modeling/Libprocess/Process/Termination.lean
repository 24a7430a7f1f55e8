import Libprocess.Process.Scheduling

/-!
# Terminating a process

The history of a process: the events that its queue has accepted, those that were served and how
each event was deleted.  A `TerminateEvent` is served by `finalize`.

The proofs look at one process.  At most one thread holds its token, and where this thread is
decides how far the process has come on its way to the end.
-/

namespace Libprocess

open Concurrency

/-- Where an event is deleted. -/
inductive Disposal where
  | served
  | filtered
  | purged
  | decomissioned
  deriving DecidableEq, Repr

/-- `begun` are the events that `serve` was called with. -/
structure History where
  accepted : List Event
  begun : List Event
  deleted : List (Event × Disposal)
  deriving DecidableEq, Repr

namespace History

def new : History := ⟨[], [], []⟩

def accept (history : History) (event : Event) : History :=
  { history with accepted := history.accepted ++ [event] }

def begin (history : History) (event : Event) : History :=
  { history with begun := history.begun ++ [event] }

def delete (history : History) (events : List Event) (disposal : Disposal) : History :=
  { history with deleted := history.deleted ++ events.map (·, disposal) }

@[simp] theorem accepted_delete (history : History) (events : List Event)
    (disposal : Disposal) : (history.delete events disposal).accepted = history.accepted := rfl

@[simp] theorem begun_delete (history : History) (events : List Event) (disposal : Disposal) :
    (history.delete events disposal).begun = history.begun := rfl

@[simp] theorem deleted_begin (history : History) (event : Event) :
    (history.begin event).deleted = history.deleted := rfl

/-- The history of a process after a step of a thread. -/
def record (history : History) (process : ProcessId) (fields : ProcessBase)
    (frame : ManagerFrame) (choice : ManagerChoice) : History :=
  match frame with
  | .enqueueEvent other event =>
      if other = process ∧ fields.events.comissioned then history.accept event else history
  | .purge other event =>
      if other = process ∧ ¬ event.isTerminate then history.delete [event] .purged else history
  | .filter other event _ =>
      if other = process then
        match choice with
        | .filtered => history.delete [event] .filtered
        | .proceed => history.begin event
        | .call _ => history
      else history
  | .serve other event =>
      if other = process ∧ choice = .proceed then history.delete [event] .served else history
  | .decomission other =>
      if other = process then history.delete fields.events.events .decomissioned else history
  | _ => history

end History

/-- The scheduler with the histories of all processes. -/
structure Recording where
  scheduler : Scheduler
  history : ProcessId → History

namespace Recording

def step (recording : Recording) (move : SchedulerMove) : Option Recording :=
  (recording.scheduler.step move).map fun scheduler =>
    { scheduler
      history := match move with
        | .advance thread choice =>
            match recording.scheduler.threads.top? thread with
            | some frame => fun process => (recording.history process).record process
                (recording.scheduler.manager.process process) frame choice
            | none => recording.history
        | .user | .worker => recording.history }

def new : Recording := ⟨.new, fun _ => .new⟩

/-- The filter does not drop a `TerminateEvent`. -/
def KeepsTerminates (recording : Recording) : SchedulerMove → Prop
  | .advance thread .filtered => ∀ process event terminate,
      recording.scheduler.threads.top? thread = some (.filter process event terminate) →
      event.isTerminate = false
  | _ => True

end Recording

/-- All interleavings, with histories. -/
def recorded : Automaton Recording SchedulerMove where
  start recording := recording = .new
  step := Recording.step

/-- How far a process has come. -/
inductive ShutdownStage where
  | running
  /-- A `TerminateEvent` is looked for or has been found. -/
  | ending
  /-- `finalize` has returned. -/
  | finalized
  /-- The event queue is decommissioned. -/
  | closed
  deriving DecidableEq, Repr

namespace ManagerFrame

/-- The event that a thread has dequeued. -/
def held : ManagerFrame → List Event
  | .loadTermination _ event => [event]
  | .purge _ event => [event]
  | .filter _ event _ => [event]
  | .serve _ event => [event]
  | _ => []

/-- The event that a thread serves. -/
def serving : ManagerFrame → List Event
  | .serve _ event => [event]
  | _ => []

def stage : ManagerFrame → ShutdownStage
  | .purge _ _ => .ending
  | .filter _ _ true => .ending
  | .serve _ event => if event.isTerminate then .ending else .running
  | .checkReady _ => .finalized
  | .storeTerminating _ => .finalized
  | .decomission _ => .finalized
  | .removeHelp _ => .closed
  | .erase _ => .closed
  | .exited _ => .closed
  | _ => .running

end ManagerFrame

/-- The program point of the thread that holds the token of a process. -/
def pointOf (frames : List ManagerFrame) (process : ProcessId) : Option ManagerFrame :=
  (frames.filter (·.holds process)).head?

/-- The stage of a process whose token is at a program point. -/
def stageOf (point : Option ManagerFrame) (state : ProcessState) : ShutdownStage :=
  match point with
  | some frame => frame.stage
  | none => if state = .terminating then .closed else .running

/-- An ordinary event that was served or filtered. -/
def Plain (entry : Event × Disposal) : Prop :=
  entry.1.isTerminate = false ∧ (entry.2 = .served ∨ entry.2 = .filtered)

/-- An ordinary event that was purged. -/
def Purged (entry : Event × Disposal) : Prop :=
  entry.1.isTerminate = false ∧ entry.2 = .purged

/-- How the events of a process are deleted: ordinary events are served or filtered, then some may
be purged, then a `TerminateEvent` is served, and then the rest is dropped. -/
inductive Deleted : ShutdownStage → List (Event × Disposal) → Prop where
  | running {plain : List (Event × Disposal)} : (∀ entry ∈ plain, Plain entry) →
      Deleted .running plain
  | ending {plain purged : List (Event × Disposal)} : (∀ entry ∈ plain, Plain entry) →
      (∀ entry ∈ purged, Purged entry) → Deleted .ending (plain ++ purged)
  | finalized {earlier : List (Event × Disposal)} {event : Event} : Deleted .ending earlier →
      event.isTerminate = true → Deleted .finalized (earlier ++ [(event, .served)])
  | closed {earlier : List (Event × Disposal)} {dropped : List Event} :
      Deleted .finalized earlier →
      Deleted .closed (earlier ++ dropped.map (·, .decomissioned))

section Point

variable {manager next : Manager} {process : ProcessId} {frame : ManagerFrame}
  {continuation before after : List ManagerFrame}

theorem head?_eq_of_perm {α : Type} {left right : List α} (perm : left.Perm right)
    (short : left.length ≤ 1) : left.head? = right.head? := by
  match left, short with
  | [], _ => rw [perm.symm.eq_nil]
  | [only], _ => rw [List.perm_singleton.mp perm.symm]

theorem Tokens.length_holders_le (tokens : Tokens manager before process) :
    (before.filter (·.holds process)).length ≤ 1 := by
  have atMost := tokens.atMost
  rw [Manager.tokens, List.countP_eq_length_filter] at atMost
  omega

theorem pointOf_eq_some (tokens : Tokens manager before process) (member : frame ∈ before)
    (held : frame.holds process = true) : pointOf before process = some frame := by
  have short := tokens.length_holders_le
  have inside : frame ∈ before.filter (·.holds process) := List.mem_filter.mpr ⟨member, held⟩
  rw [pointOf]
  generalize before.filter (·.holds process) = holders at short inside ⊢
  match holders, short with
  | [], _ => cases inside
  | [only], _ =>
      rw [List.mem_singleton.mp inside]
      rfl

/-- The holder of the token moves. -/
theorem pointOf_holder (tokens : Tokens manager before process)
    (kept : Tokens next after process) (exchange : Exchange frame continuation before after)
    (held : frame.holds process = true) :
    pointOf after process = (continuation.filter (·.holds process)).head? :=
  head?_eq_of_perm (tokens.alone exchange (.inl held)).2 kept.length_holders_le

/-- Another thread moves and may take the token. -/
theorem pointOf_other (kept : Tokens next after process)
    (exchange : Exchange frame continuation before after) (free : frame.holds process = false) :
    pointOf after process =
      ((continuation.filter (·.holds process)) ++ before.filter (·.holds process)).head? ∧
    ((continuation.filter (·.holds process)).length ≠ 0 → pointOf before process = none) := by
  have perm := exchange.perm.filter (·.holds process)
  rw [List.filter_append, List.filter_cons_of_neg (by simp [free])] at perm
  have short := kept.length_holders_le
  constructor
  · exact head?_eq_of_perm perm short
  · intro entered
    have length := perm.length_eq
    rw [List.length_append] at length
    rw [pointOf, List.eq_nil_of_length_eq_zero (by omega :
      (before.filter (·.holds process)).length = 0)]
    rfl

end Point

def heldAt (point : Option ManagerFrame) : List Event := point.elim [] ManagerFrame.held

def servingAt (point : Option ManagerFrame) : List Event := point.elim [] ManagerFrame.serving

/-- The events that were served, among those deleted. -/
def servedOf (entries : List (Event × Disposal)) : List Event :=
  (entries.filter (·.2 = .served)).map Prod.fst

theorem servedOf_append (left right : List (Event × Disposal)) :
    servedOf (left ++ right) = servedOf left ++ servedOf right := by
  rw [servedOf, List.filter_append, List.map_append]
  rfl

/-- The events that `serve` has returned for. -/
def History.served (history : History) : List Event := servedOf history.deleted

theorem History.served_delete (history : History) (events : List Event) (disposal : Disposal) :
    (history.delete events disposal).served =
      history.served ++ if disposal = .served then events else [] := by
  have mapped : servedOf (events.map (·, disposal)) =
      if disposal = .served then events else [] := by
    rw [servedOf]
    induction events with
    | nil => split <;> rfl
    | cons event events ih =>
        by_cases same : disposal = .served <;> simp_all
  rw [served, delete, servedOf_append, mapped, served]

theorem History.map_fst_delete (history : History) (events : List Event) (disposal : Disposal) :
    (history.delete events disposal).deleted.map Prod.fst =
      history.deleted.map Prod.fst ++ events := by
  simp [delete, Function.comp_def]

theorem History.exists_purged_delete {history : History} {events : List Event}
    {disposal : Disposal}
    (purged : ∃ entry ∈ (history.delete events disposal).deleted, entry.2 = .purged) :
    (∃ entry ∈ history.deleted, entry.2 = .purged) ∨ disposal = .purged := by
  obtain ⟨entry, member, here⟩ := purged
  cases List.mem_append.mp member with
  | inl earlier => exact .inl ⟨entry, earlier, here⟩
  | inr now =>
      obtain ⟨event, _, rfl⟩ := List.mem_map.mp now
      exact .inr here

/-- Nothing has to be purged before a `TerminateEvent` is found. -/
theorem Deleted.ending_of_running {entries : List (Event × Disposal)}
    (deleted : Deleted .running entries) : Deleted .ending entries := by
  cases deleted with
  | running plain =>
      have found := Deleted.ending plain (by simp : ∀ entry ∈ [], Purged entry)
      rwa [List.append_nil] at found

theorem Deleted.plain {entries : List (Event × Disposal)} {entry : Event × Disposal}
    (deleted : Deleted .running entries) (plain : Plain entry) :
    Deleted .running (entries ++ [entry]) := by
  cases deleted with
  | running earlier =>
      apply Deleted.running
      intro other member
      cases List.mem_append.mp member with
      | inl old => exact earlier other old
      | inr now => exact List.mem_singleton.mp now ▸ plain

theorem Deleted.purge {entries : List (Event × Disposal)} {entry : Event × Disposal}
    (deleted : Deleted .ending entries) (purged : Purged entry) :
    Deleted .ending (entries ++ [entry]) := by
  cases deleted with
  | ending plain earlier =>
      rw [List.append_assoc]
      apply Deleted.ending plain
      intro other member
      cases List.mem_append.mp member with
      | inl old => exact earlier other old
      | inr now => exact List.mem_singleton.mp now ▸ purged

/-- The thread has seen that `termination` is set. -/
def ManagerFrame.purges : ManagerFrame → Bool
  | .purge _ _ => true
  | .filter _ _ terminate => terminate
  | _ => false

/-- The history of a process agrees with its queue and with the thread that holds its token. -/
structure Ending (point : Option ManagerFrame) (fields : ProcessBase) (injecting : Prop)
    (history : History) : Prop where
  accounts : history.accepted =
    history.deleted.map Prod.fst ++ heldAt point ++ fields.events.events
  begun : history.begun = history.served ++ servingAt point
  injected : fields.termination = true ∨ injecting →
    ∃ event ∈ history.accepted, event.isTerminate = true
  purges : (∃ entry ∈ history.deleted, entry.2 = .purged) ∨
    (∃ frame, point = some frame ∧ frame.purges = true) → fields.termination = true
  deleted : Deleted (stageOf point fields.state) history.deleted
  closed : fields.events.comissioned = false ↔ stageOf point fields.state = .closed
  empty : fields.events.comissioned = false → fields.events.events = []
  found : ∀ other event, point = some (.filter other event true) → event.isTerminate = true

namespace Ending

variable {point next : Option ManagerFrame} {fields after : ProcessBase} {injecting left : Prop}
  {history : History}

theorem new : Ending none .new False .new where
  accounts := rfl
  begun := rfl
  injected := by
    rintro (set | wrong)
    · cases set
    · exact wrong.elim
  purges := by
    rintro (⟨_, member, _⟩ | ⟨_, here, _⟩)
    · cases member
    · cases here
  deleted := .running (by simp [History.new])
  closed := by decide
  empty := nofun
  found _ _ here := by cases here

section

variable (ending : Ending point fields injecting history)

include ending

/-- The token moves on, or the state is stored, and the history stays. -/
theorem walk
    (events : after.events = fields.events) (termination : after.termination = fields.termination)
    (held : heldAt next = heldAt point)
    (serves : servingAt next = servingAt point)
    (stage : stageOf next after.state = stageOf point fields.state)
    (purges : ∀ frame, next = some frame → frame.purges = true → fields.termination = true)
    (found : ∀ other event, next = some (.filter other event true) → event.isTerminate = true) :
    Ending next after injecting history where
  accounts := by rw [held, events]; exact ending.accounts
  begun := by rw [serves]; exact ending.begun
  injected := by rw [termination]; exact ending.injected
  purges := by
    rw [termination]
    rintro (some | ⟨frame, here, purging⟩)
    · exact ending.purges (.inl some)
    · exact purges frame here purging
  deleted := by rw [stage]; exact ending.deleted
  closed := by rw [stage, events]; exact ending.closed
  empty := by rw [events]; exact ending.empty
  found := found

theorem weaken (injects : left → injecting) :
    Ending point fields left history :=
  { ending with
    injected := by
      rintro (set | injecting)
      · exact ending.injected (.inl set)
      · exact ending.injected (.inr (injects injecting)) }

/-- `EventQueue::enqueue` accepts an event. -/
theorem accept {event : Event}
    (active : fields.events.comissioned = true)
    (injects : left → injecting ∨ event.isTerminate = true) :
    Ending point { fields with
      events := { fields.events with events := fields.events.events ++ [event] } } left
      (history.accept event) where
  accounts := by
    change history.accepted ++ [event] = _ ++ _ ++ (fields.events.events ++ [event])
    rw [ending.accounts, List.append_assoc _ fields.events.events]
    rfl
  begun := ending.begun
  injected := by
    have kept : (∃ event ∈ history.accepted, event.isTerminate = true) →
        ∃ other ∈ history.accepted ++ [event], other.isTerminate = true := by
      rintro ⟨other, member, terminates⟩
      exact ⟨other, List.mem_append_left _ member, terminates⟩
    rintro (set | injecting)
    · exact kept (ending.injected (.inl set))
    · cases injects injecting with
      | inl earlier => exact kept (ending.injected (.inr earlier))
      | inr terminates => exact ⟨event, List.mem_append_right _ List.mem_cons_self, terminates⟩
  purges := ending.purges
  deleted := ending.deleted
  closed := ending.closed
  empty closed := by
    change fields.events.comissioned = false at closed
    rw [active] at closed
    cases closed
  found := ending.found

/-- `termination.store(true)` comes after the event was enqueued. -/
theorem inject (pending : injecting) :
    Ending point { fields with termination := true } left history where
  accounts := ending.accounts
  begun := ending.begun
  injected _ := ending.injected (.inr pending)
  purges _ := rfl
  deleted := ending.deleted
  closed := ending.closed
  empty := ending.empty
  found := ending.found

end

variable {process : ProcessId} {event : Event} {rest : List Event}

/-- The first event is dequeued. -/
theorem take (ending : Ending (some (.dequeue process)) fields injecting history)
    (first : fields.events.events = event :: rest) :
    Ending (some (.loadTermination process event))
      { fields with events := { fields.events with events := rest } } injecting history where
  accounts := by
    rw [ending.accounts, first]
    simp [heldAt, ManagerFrame.held]
  begun := ending.begun
  injected := ending.injected
  purges := by
    rintro (some | ⟨frame, ⟨⟩, purging⟩)
    · exact ending.purges (.inl some)
    · cases purging
  deleted := ending.deleted
  closed := ending.closed
  empty closed := by
    have nothing := ending.empty closed
    rw [first] at nothing
    cases nothing
  found := nofun

/-- `termination` is set. -/
theorem search (ending : Ending (some (.loadTermination process event)) fields injecting history)
    (set : fields.termination = true) :
    Ending (some (.purge process event)) fields injecting history where
  accounts := ending.accounts
  begun := ending.begun
  injected := ending.injected
  purges _ := set
  deleted := Deleted.ending_of_running ending.deleted
  closed := by
    have closed := ending.closed
    simpa [stageOf, ManagerFrame.stage] using closed
  empty := ending.empty
  found := nofun

/-- The `TerminateEvent` is found. -/
theorem find (ending : Ending (some (.purge process event)) fields injecting history)
    (terminates : event.isTerminate = true) :
    Ending (some (.filter process event true)) fields injecting history where
  accounts := ending.accounts
  begun := ending.begun
  injected := ending.injected
  purges _ := ending.purges (.inr ⟨_, rfl, rfl⟩)
  deleted := ending.deleted
  closed := ending.closed
  empty := ending.empty
  found _ _ same := by cases same; exact terminates

/-- An event is purged, and the next one is dequeued. -/
theorem purge {following : Event}
    (ending : Ending (some (.purge process event)) fields injecting history)
    (ordinary : event.isTerminate = false)
    (first : fields.events.events = following :: rest) :
    Ending (some (.purge process following))
      { fields with events := { fields.events with events := rest } } injecting
      (history.delete [event] .purged) where
  accounts := by
    rw [History.map_fst_delete]
    change history.accepted = _
    rw [ending.accounts, first]
    simp [heldAt, ManagerFrame.held]
  begun := by
    rw [History.served_delete, if_neg (by decide), List.append_nil]
    exact ending.begun
  injected := ending.injected
  purges _ := ending.purges (.inr ⟨_, rfl, rfl⟩)
  deleted := Deleted.purge ending.deleted ⟨ordinary, rfl⟩
  closed := ending.closed
  empty closed := by
    have nothing := ending.empty closed
    rw [first] at nothing
    cases nothing
  found := nofun

/-- The filter drops an ordinary event. -/
theorem filtered (ending : Ending (some (.filter process event false)) fields injecting history)
    (ordinary : event.isTerminate = false) :
    Ending (some (.testEmpty process)) fields injecting (history.delete [event] .filtered) where
  accounts := by
    rw [History.map_fst_delete]
    change history.accepted = _
    rw [ending.accounts]
    simp [heldAt, ManagerFrame.held]
  begun := by
    rw [History.served_delete, if_neg (by decide), List.append_nil]
    exact ending.begun
  injected := ending.injected
  purges := by
    rintro (purged | ⟨frame, ⟨⟩, purging⟩)
    · cases History.exists_purged_delete purged with
      | inl earlier => exact ending.purges (.inl earlier)
      | inr now => cases now
    · cases purging
  deleted := Deleted.plain ending.deleted ⟨ordinary, .inr rfl⟩
  closed := ending.closed
  empty := ending.empty
  found := nofun

/-- `serve` is called. -/
theorem serve {terminate : Bool}
    (ending : Ending (some (.filter process event terminate)) fields injecting history)
    :
    Ending (some (.serve process event)) fields injecting (history.begin event) where
  accounts := ending.accounts
  begun := by
    change history.begun ++ [event] = history.served ++ [event]
    rw [ending.begun]
    simp [servingAt, ManagerFrame.serving]
  injected := ending.injected
  purges := by
    rintro (some | ⟨frame, ⟨⟩, purging⟩)
    · exact ending.purges (.inl some)
    · cases purging
  deleted := by
    have deleted := ending.deleted
    cases terminate with
    | true =>
        have terminates := ending.found process event rfl
        simpa [stageOf, ManagerFrame.stage, terminates] using deleted
    | false =>
        change Deleted (if event.isTerminate then .ending else .running) history.deleted
        split
        · exact Deleted.ending_of_running deleted
        · exact deleted
  closed := by
    have closed := ending.closed
    cases terminate <;> cases kind : event.isTerminate <;>
      simpa [stageOf, ManagerFrame.stage, kind] using closed
  empty := ending.empty
  found := nofun

/-- `serve` returns, and the event is deleted. -/
theorem served (ending : Ending (some (.serve process event)) fields injecting history)
    :
    Ending (some (if event.isTerminate then .checkReady process else .testEmpty process)) fields
      injecting (history.delete [event] .served) := by
  have deleted := ending.deleted
  have closed := ending.closed
  have accounts := ending.accounts
  have begun := ending.begun
  have purges : (∃ entry ∈ (history.delete [event] .served).deleted, entry.2 = .purged) →
      fields.termination = true := by
    intro purged
    cases History.exists_purged_delete purged with
    | inl earlier => exact ending.purges (.inl earlier)
    | inr now => cases now
  cases kind : event.isTerminate with
  | true =>
      simp only [stageOf, ManagerFrame.stage, kind, if_true] at deleted closed ⊢
      constructor
      · rw [History.map_fst_delete]
        simpa [heldAt, ManagerFrame.held] using accounts
      · rw [History.served_delete, if_pos rfl]
        simpa [servingAt, ManagerFrame.serving] using begun
      · exact ending.injected
      · rintro (purged | ⟨frame, ⟨⟩, purging⟩)
        · exact purges purged
        · cases purging
      · exact Deleted.finalized deleted kind
      · simpa [stageOf, ManagerFrame.stage] using closed
      · exact ending.empty
      · nofun
  | false =>
      simp only [stageOf, ManagerFrame.stage, kind, Bool.false_eq_true, if_false] at deleted closed ⊢
      constructor
      · rw [History.map_fst_delete]
        simpa [heldAt, ManagerFrame.held] using accounts
      · rw [History.served_delete, if_pos rfl]
        simpa [servingAt, ManagerFrame.serving] using begun
      · exact ending.injected
      · rintro (purged | ⟨frame, ⟨⟩, purging⟩)
        · exact purges purged
        · cases purging
      · exact Deleted.plain deleted ⟨kind, .inl rfl⟩
      · simpa [stageOf, ManagerFrame.stage] using closed
      · exact ending.empty
      · nofun

/-- The event queue is decommissioned. -/
theorem decomission (ending : Ending (some (.decomission process)) fields injecting history)
    :
    Ending (some (.removeHelp process))
      { fields with events := fields.events.decomission.1 } injecting
      (history.delete fields.events.events .decomissioned) where
  accounts := by
    rw [History.map_fst_delete]
    change history.accepted = _
    rw [ending.accounts]
    simp [heldAt, ManagerFrame.held, EventQueue.decomission]
  begun := by
    rw [History.served_delete, if_neg (by decide), List.append_nil]
    exact ending.begun
  injected := ending.injected
  purges := by
    rintro (purged | ⟨frame, ⟨⟩, purging⟩)
    · cases History.exists_purged_delete purged with
      | inl earlier => exact ending.purges (.inl earlier)
      | inr now => cases now
    · cases purging
  deleted := Deleted.closed ending.deleted
  closed := ⟨fun _ => rfl, fun _ => rfl⟩
  empty _ := rfl
  found := nofun

end Ending

end Libprocess
