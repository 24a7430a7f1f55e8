import Libprocess.Process.Termination

/-!
# The shutdown protocol

Every step of the manager keeps the history of every process in agreement with its queue, so
events are served in order, a set `termination` means that a `TerminateEvent` is still to come,
`finalize` is called once, and every event that was accepted is deleted once.
-/

namespace Libprocess

open Concurrency

/-- The process that a frame is about. -/
def ManagerFrame.subject : ManagerFrame → Option ProcessId
  | .user | .workerStart | .workerIdle | .workerWait | .workerWoken | .workerDequeue | .epoch
  | .waitDone => none
  | .spawnLoad process | .spawnInsert process | .push process | .enqueueLoad process _
  | .enqueueEvent process _ | .enqueueTermination process | .enqueueReload process
  | .enqueueExchange process | .waitUse process | .waitLoad process | .waitRunning process
  | .waitExtract process | .resumeLoad process | .initializing process | .storeReady process
  | .testEmpty process | .storeBlocked process | .retestEmpty process | .exchangeBack process
  | .dequeue process | .loadTermination process _ | .purge process _ | .filter process _ _
  | .serve process _ | .checkReady process | .storeTerminating process | .decomission process
  | .removeHelp process | .erase process | .exited process => some process

/-- The filter is asked about a `TerminateEvent`. -/
def ManagerFrame.filtersTerminate : ManagerFrame → Bool
  | .filter _ event _ => event.isTerminate
  | _ => false

namespace Manager

variable {manager next : Manager} {process : ProcessId} {frame : ManagerFrame}
  {continuation before after : List ManagerFrame} {choice : ManagerChoice} {history : History}

theorem store_process_of_ne {other : ProcessId} (different : process ≠ other)
    (fields : ProcessBase) : (manager.store other fields).process process = manager.process process :=
  Function.update_of_ne different _ _

theorem store_process_self (fields : ProcessBase) :
    (manager.store process fields).process process = fields :=
  Function.update_self _ _ _

/-- A step for another process. -/
structure Foreign (manager next : Manager) (process : ProcessId) (frame : ManagerFrame)
    (continuation : List ManagerFrame) : Prop where
  fields : next.process process = manager.process process
  injects : ∀ entered ∈ continuation, entered ≠ .enqueueTermination process
  holds : ∀ entered ∈ continuation, entered.holder = some process →
    frame = .workerDequeue ∧ entered = .resumeLoad process

theorem subject_of_holder {frame : ManagerFrame} (held : frame.holder = some process) :
    frame.subject = some process := by
  cases frame <;> first | exact held | cases held

/-- The frame goes on with what it is about. -/
theorem Foreign.pass {entered : ManagerFrame} (foreign : frame.subject ≠ some process)
    (same : entered.subject = frame.subject ∨ entered.holder = none)
    (injects : entered ≠ .enqueueTermination process)
    (fields : next.process process = manager.process process) :
    Foreign manager next process frame [entered] := by
  refine ⟨fields, by simpa using injects, ?_⟩
  intro other member held
  obtain rfl := List.mem_singleton.mp member
  obtain same | free := same
  · exact absurd (same ▸ subject_of_holder held) foreign
  · cases free.symm.trans held

theorem step_foreign (stepped : manager.step frame choice = some (next, continuation))
    (foreign : frame.subject ≠ some process) : Foreign manager next process frame continuation := by
  have different : ∀ other, frame.subject = some other → process ≠ other := by
    rintro other subject rfl
    exact foreign subject
  cases step_cases stepped with
  | returns | user | exited | waitDone | epoch => exact ⟨rfl, by simp, by simp⟩
  | leads leads =>
      cases leads with
      | workerWait | workerDequeue | waitExtract => exact .pass foreign (.inr rfl) (by simp) rfl
      | _ => exact .pass foreign (.inl rfl) (by simp) rfl
  | @call _ request _ code _ called =>
      obtain ⟨fields, -⟩ := call_cases called
      refine ⟨by rw [fields], ?_, ?_⟩
      · intro entered member
        simp only [List.mem_cons, List.not_mem_nil, or_false] at member
        obtain rfl | rfl := member
        · cases request <;> simp [Request.entry]
        · rintro rfl
          cases code
      · intro entered member held
        simp only [List.mem_cons, List.not_mem_nil, or_false] at member
        obtain rfl | rfl := member
        · rw [entry_holder] at held
          cases held
        · exact absurd (subject_of_holder held) foreign
  | take =>
      refine ⟨rfl, by simp, ?_⟩
      intro entered member held
      simp only [List.mem_cons, List.not_mem_nil, or_false] at member
      obtain rfl | rfl := member
      · cases held
        exact ⟨rfl, rfl⟩
      · cases held
  | extract other =>
      exact ⟨rfl, by simp, by simp [ManagerFrame.holder, Ne.symm (different other rfl)]⟩
  | serve | filtered =>
      refine .pass foreign (.inl ?_) ?_ rfl <;> split <;> first | rfl | simp
  | accept other =>
      refine .pass foreign (.inl ?_) ?_ (store_process_of_ne (different other rfl) _)
      · split <;> rfl
      · split <;> simp [Ne.symm (different other rfl)]
  | inject other | wake other | back other | storeReady other | storeBlocked other
  | storeTerminating other | dequeue other | purge other | decomission other =>
      exact .pass foreign (.inl rfl) (by simp) (store_process_of_ne (different other rfl) _)
  | workerStart | workerIdle | workerWoken | push => exact .pass foreign (.inr rfl) (by simp) rfl
  | _ => exact .pass foreign (.inl rfl) (by simp) rfl

/-- A step for another process is not recorded. -/
theorem record_of_foreign (fields : ProcessBase) (foreign : frame.subject ≠ some process) :
    history.record process fields frame choice = history := by
  have different : ∀ other, frame.subject = some other → ¬ other = process := by
    rintro other subject rfl
    exact foreign subject
  cases frame with
  | enqueueEvent other event | purge other event | serve other event =>
      exact if_neg fun both => different other rfl both.1
  | decomission other | filter other event terminate => exact if_neg (different other rfl)
  | _ => rfl

/-- A process that has not come to its end is not terminating. -/
theorem ne_terminating_of_phase {frame : ManagerFrame} {state : ProcessState}
    (held : frame.holder = some process) (runs : frame.stage = .running)
    (phase : frame.phase state = true) : state ≠ .terminating := by
  rintro rfl
  cases frame <;> simp_all [ManagerFrame.holder, ManagerFrame.phase, ManagerFrame.stage]

/-- The threads that are about to store `termination`. -/
def Injecting (frames : List ManagerFrame) (process : ProcessId) : Prop :=
  .enqueueTermination process ∈ frames

theorem injecting_of_after (exchange : Exchange frame continuation before after)
    (injects : ∀ entered ∈ continuation, entered ≠ .enqueueTermination process) :
    Injecting after process → Injecting before process := by
  intro present
  cases exchange.source present with
  | inl entered => exact absurd rfl (injects _ entered)
  | inr old => exact old

section Ending

variable (tokens : Tokens manager before process) (kept : Tokens next after process)
  (ending : Ending (pointOf before process) (manager.process process) (Injecting before process)
    history)

include kept ending

/-- A thread without the token does nothing to the process. -/
theorem ending_stay (exchange : Exchange frame continuation before after)
    (free : frame.holder ≠ some process)
    (holds : ∀ entered ∈ continuation, entered.holder ≠ some process)
    (injects : ∀ entered ∈ continuation, entered ≠ .enqueueTermination process)
    (fields : next.process process = manager.process process) :
    Ending (pointOf after process) (next.process process) (Injecting after process) history := by
  have nobody : continuation.filter (·.holds process) = [] := by
    apply List.filter_eq_nil_iff.mpr
    intro entered member
    simpa [ManagerFrame.holds] using holds entered member
  have point := (pointOf_other kept exchange (by simpa [ManagerFrame.holds] using free)).1
  rw [nobody, List.nil_append] at point
  rw [fields, point]
  exact ending.weaken (injecting_of_after exchange injects)

/-- A thread takes the token and runs or queues the process. -/
theorem ending_gain (exchange : Exchange frame continuation before after)
    (free : frame.holder ≠ some process) (entered : ManagerFrame)
    (gained : continuation.filter (·.holds process) = [entered])
    (plain : entered.held = [] ∧ entered.serving = [] ∧ entered.stage = .running ∧
      entered.purges = false)
    (injects : ∀ entered ∈ continuation, entered ≠ .enqueueTermination process)
    (events : (next.process process).events = (manager.process process).events)
    (termination : (next.process process).termination = (manager.process process).termination)
    (alive : (manager.process process).state ≠ .terminating) :
    Ending (pointOf after process) (next.process process) (Injecting after process) history := by
  obtain ⟨point, unheld⟩ := pointOf_other kept exchange (by simpa [ManagerFrame.holds] using free)
  rw [unheld (by simp [gained])] at ending
  rw [gained] at point
  rw [point]
  apply (ending.walk events termination _ _ _ _ _).weaken
    (injecting_of_after exchange injects)
  · exact plain.1
  · exact plain.2.1
  · change entered.stage = if _ then _ else _
    rw [plain.2.2.1, if_neg alive]
  · intro frame same purging
    cases same
    rw [plain.2.2.2] at purging
    cases purging
  · intro other event same
    cases same
    cases plain.2.2.2

/-- A thread without the token gets it by a test or from the queue. -/
theorem ending_enter {entered : ManagerFrame} {below : List ManagerFrame}
    (exchange : Exchange frame (entered :: below) before after) (free : frame.holder = none)
    (holds : entered.holder = some process) (alone : ∀ other ∈ below, other.holder = none)
    (plain : entered.held = [] ∧ entered.serving = [] ∧ entered.stage = .running ∧
      entered.purges = false)
    (injects : ∀ entered ∈ below, entered ≠ .enqueueTermination process)
    (events : (next.process process).events = (manager.process process).events)
    (termination : (next.process process).termination = (manager.process process).termination)
    (alive : (manager.process process).state ≠ .terminating) :
    Ending (pointOf after process) (next.process process) (Injecting after process) history := by
  apply ending_gain kept ending exchange (by simp [free]) entered _ plain _ events termination alive
  · have nobody : below.filter (·.holds process) = [] := by
      apply List.filter_eq_nil_iff.mpr
      intro other member
      simp [ManagerFrame.holds, alone other member]
    rw [List.filter_cons_of_pos (by simp [ManagerFrame.holds, holds]), nobody]
  · rintro other member rfl
    cases List.mem_cons.mp member with
    | inl same =>
        cases same
        cases holds
    | inr old => exact injects _ old rfl

/-- The queue accepts the event of a call of `enqueue`. -/
theorem ending_accept {event : Event}
    (active : (manager.process process).events.comissioned = true)
    (exchange : Exchange (.enqueueEvent process event)
      [if event.injects then .enqueueTermination process else .enqueueReload process]
      before after) :
    Ending (pointOf after process)
      ((manager.storeEvents process { (manager.process process).events with
        events := (manager.process process).events.events ++ [event] }).process process)
      (Injecting after process)
      (history.record process (manager.process process) (.enqueueEvent process event) choice) := by
  have holds : ∀ entered ∈ [if event.injects then ManagerFrame.enqueueTermination process
      else .enqueueReload process], ¬ entered.holds process = true := by
    split <;> simp [ManagerFrame.holds, ManagerFrame.holder]
  have point := (pointOf_other kept exchange (by simp [ManagerFrame.holds,
    ManagerFrame.holder])).1
  rw [List.filter_eq_nil_iff.mpr holds, List.nil_append] at point
  rw [point, storeEvents, store_process_self, History.record, if_pos ⟨rfl, active⟩]
  apply ending.accept active
  intro present
  cases exchange.source present with
  | inr old => exact .inl old
  | inl entered =>
      right
      cases event with
      | ordinary id => simp [Event.injects] at entered
      | terminate id inject => rfl

include tokens

/-- The thread that holds the token moves. -/
theorem ending_holder (exchange : Exchange frame continuation before after)
    (held : frame.holder = some process) (following : Option ManagerFrame)
    (passed : (continuation.filter (·.holds process)).head? = following)
    (injects : ∀ entered ∈ continuation, entered ≠ .enqueueTermination process)
    {fields : ProcessBase} {recorded : History}
    (moved : Ending (some frame) (manager.process process) (Injecting before process) history →
      Ending following fields (Injecting before process) recorded) :
    Ending (pointOf after process) fields (Injecting after process) recorded := by
  have holding : frame.holds process = true := by simpa [ManagerFrame.holds] using held
  rw [pointOf_eq_some tokens exchange.member holding] at ending
  rw [pointOf_holder tokens kept exchange holding, passed]
  exact (moved ending).weaken (injecting_of_after exchange injects)

/-- The token moves between two points at which nothing is recorded. -/
theorem ending_pass (exchange : Exchange frame continuation before after)
    (held : frame.holder = some process) (following : Option ManagerFrame)
    (passed : (continuation.filter (·.holds process)).head? = following)
    (injects : ∀ entered ∈ continuation, entered ≠ .enqueueTermination process)
    (events : (next.process process).events = (manager.process process).events)
    (termination : (next.process process).termination = (manager.process process).termination)
    (holds : heldAt following = frame.held) (serves : servingAt following = frame.serving)
    (stage : stageOf following (next.process process).state = frame.stage)
    (purges : ∀ other, following = some other → other.purges = false) :
    Ending (pointOf after process) (next.process process) (Injecting after process) history := by
  apply ending_holder tokens kept ending exchange held following passed injects
  intro ending
  apply ending.walk events termination holds serves stage
  · intro other same purging
    rw [purges other same] at purging
    cases purging
  · intro other event same
    cases purges _ same

/-- User code of the process calls into the manager. -/
theorem ending_call {request : Request}
    (exchange : Exchange frame [request.entry, frame] before after)
    (held : frame.holder = some process) (unaware : frame.purges = false)
    (called : manager.call request = some next) :
    Ending (pointOf after process) (next.process process) (Injecting after process) history := by
  obtain ⟨fields, -⟩ := call_cases called
  apply ending_pass tokens kept ending exchange held (some frame)
  · have own : frame.holds process = true := by simpa [ManagerFrame.holds] using held
    have other : request.entry.holds process = false := by
      simp [ManagerFrame.holds, entry_holder]
    rw [List.filter_cons_of_neg (by simp [other]), List.filter_cons_of_pos own]
    rfl
  · intro entered member
    simp only [List.mem_cons, List.not_mem_nil, or_false] at member
    obtain rfl | rfl := member
    · cases request <;> simp [Request.entry]
    · rintro rfl
      cases held
  · rw [fields]
  · rw [fields]
  · rfl
  · rfl
  · rfl
  · intro other same
    cases same
    exact unaware

/-- The thread that holds the token moves to one other point. -/
theorem ending_move {entered : ManagerFrame}
    (exchange : Exchange frame [entered] before after) (held : frame.holder = some process)
    (holds : entered.holder = some process) {fields : ProcessBase} {recorded : History}
    (moved : Ending (some frame) (manager.process process) (Injecting before process) history →
      Ending (some entered) fields (Injecting before process) recorded) :
    Ending (pointOf after process) fields (Injecting after process) recorded := by
  apply ending_holder tokens kept ending exchange held (some entered) _ _ moved
  · simp [ManagerFrame.holds, holds]
  · rintro other member rfl
    cases List.mem_singleton.mp member
    cases holds

/-- It moves between two points at which nothing is recorded. -/
theorem ending_next {entered : ManagerFrame}
    (exchange : Exchange frame [entered] before after) (held : frame.holder = some process)
    (holds : entered.holder = some process)
    (events : (next.process process).events = (manager.process process).events)
    (termination : (next.process process).termination = (manager.process process).termination)
    (same : entered.held = frame.held) (serves : entered.serving = frame.serving)
    (stage : entered.stage = frame.stage) (purges : entered.purges = false) :
    Ending (pointOf after process) (next.process process) (Injecting after process) history := by
  apply ending_pass tokens kept ending exchange held (some entered) _ _ events termination same
    serves stage
  · rintro other same
    cases same
    exact purges
  · simp [ManagerFrame.holds, holds]
  · rintro other member rfl
    cases List.mem_singleton.mp member
    cases holds

omit kept in
/-- A step of `resume` that only tests. -/
theorem leads_ending (kept : Tokens manager after process) {entered : ManagerFrame}
    (own : frame.subject = some process) (leads : manager.Leads frame entered)
    (exchange : Exchange frame [entered] before after) :
    Ending (pointOf after process) (manager.process process) (Injecting after process)
      (history.record process (manager.process process) frame choice) := by
  cases leads with
  | workerWait | workerDequeue => cases own
  | initializing | resume | block | dequeue | filter | checkReady =>
      cases own
      exact ending_next tokens kept ending exchange rfl rfl rfl rfl rfl rfl rfl rfl
  | purge _ _ set =>
      cases own
      exact ending_move tokens kept ending exchange rfl rfl fun ending => ending.search set
  | found _ _ terminates =>
      cases own
      rw [History.record, if_neg fun both => both.2 terminates]
      exact ending_move tokens kept ending exchange rfl rfl fun ending => ending.find terminates
  | _ =>
      exact ending_stay kept ending exchange (by rintro ⟨⟩) (by simp [ManagerFrame.holder])
        (by simp) rfl

/-- The steps that are recorded, and those of `resume` and `cleanup`. -/
theorem step_ending_own (keeps : choice = .filtered → ∀ other event terminate,
      frame = .filter other event terminate → event.isTerminate = false)
    (own : frame.subject = some process)
    (stepped : manager.step frame choice = some (next, continuation))
    (exchange : Exchange frame continuation before after) :
    Ending (pointOf after process) (next.process process) (Injecting after process)
      (history.record process (manager.process process) frame choice) := by
  have phase : ∀ entered ∈ continuation, entered.holder = some process →
      entered.phase (next.process process).state = true :=
    fun entered member => kept.phases entered (exchange.entered _ member)
  cases step_cases stepped with
  | user | workerStart | workerIdle | workerWoken | take | waitDone | epoch => cases own
  | returns returns =>
      cases returns with
      | enqueueEvent _ _ closed =>
          cases own
          rw [History.record, if_neg fun both => by simp [closed] at both]
          exact ending_stay kept ending exchange (by rintro ⟨⟩) (by simp) (by simp) rfl
      | _ => exact ending_stay kept ending exchange (by rintro ⟨⟩) (by simp) (by simp) rfl
  | leads leads => exact leads_ending tokens ending kept own leads exchange
  | call code chosen called =>
      subst chosen
      cases frame with
      | user => cases own
      | serve =>
          cases own
          rw [History.record, if_neg (by simp)]
          exact ending_call tokens kept ending exchange rfl rfl called
      | initializing | removeHelp | exited =>
          cases own
          exact ending_call tokens kept ending exchange rfl rfl called
      | _ => cases code
  | initializing | removeHelp | erase =>
      cases own
      exact ending_next tokens kept ending exchange rfl rfl rfl rfl rfl rfl rfl rfl
  | storeReady | storeTerminating =>
      cases own
      exact ending_next tokens kept ending exchange rfl rfl (by simp) (by simp [storeState, store])
        rfl rfl rfl rfl
  | storeBlocked =>
      cases own
      exact ending_pass tokens kept ending exchange rfl none
        (by simp [ManagerFrame.holds, ManagerFrame.holder]) (by simp) (by simp)
        (by simp [storeState, store]) rfl rfl (by simp [stageOf, ManagerFrame.stage]) (by simp)
  | waitRunning =>
      exact ending_stay kept ending exchange (by rintro ⟨⟩) (by simp [ManagerFrame.holder])
        (by simp) rfl
  | insert | extract =>
      cases own
      exact ending_enter kept ending exchange rfl rfl (by simp [ManagerFrame.holder])
        ⟨rfl, rfl, rfl, rfl⟩ (by simp) rfl rfl
        (ne_terminating_of_phase rfl rfl (phase _ List.mem_cons_self rfl))
  | wake _ blocked | back _ blocked =>
      cases own
      exact ending_enter kept ending exchange rfl rfl (by simp) ⟨rfl, rfl, rfl, rfl⟩ (by simp)
        (by simp) (by simp [storeState, store]) (by simp [blocked])
  | push =>
      cases own
      have phase := tokens.phases _ exchange.member rfl
      apply ending_pass tokens kept ending exchange rfl none
        (by simp [ManagerFrame.holds, ManagerFrame.holder]) (by simp) rfl rfl rfl rfl _ (by simp)
      exact if_neg (ne_terminating_of_phase rfl rfl phase)
  | exited =>
      cases own
      have phase := tokens.phases _ exchange.member rfl
      apply ending_pass tokens kept ending exchange rfl none (by simp) (by simp) rfl rfl rfl rfl
        _ (by simp)
      exact if_pos (of_decide_eq_true phase)
  | accept _ _ active =>
      cases own
      exact ending_accept kept ending active exchange
  | inject =>
      cases own
      have point := (pointOf_other kept exchange (by simp [ManagerFrame.holds,
        ManagerFrame.holder])).1
      rw [show pointOf after process = pointOf before process from point,
        storeTermination, store_process_self]
      exact ending.inject exchange.member
  | dequeue _ _ _ first =>
      cases own
      rw [storeEvents, store_process_self]
      exact ending_move tokens kept ending exchange rfl rfl fun ending => ending.take first
  | purge _ _ _ _ ordinary first =>
      cases own
      rw [History.record, if_pos ⟨rfl, by simp [ordinary]⟩, storeEvents, store_process_self]
      exact ending_move tokens kept ending exchange rfl rfl fun ending =>
        ending.purge ordinary first
  | filter _ _ _ chosen =>
      subst chosen
      cases own
      simp only [History.record, if_true]
      exact ending_move tokens kept ending exchange rfl rfl Ending.serve
  | filtered _ event terminate chosen =>
      subst chosen
      cases own
      have ordinary := keeps rfl process event terminate rfl
      simp only [History.record, if_true]
      cases terminate with
      | true =>
          have point := pointOf_eq_some tokens exchange.member
            (by simp [ManagerFrame.holds, ManagerFrame.holder])
          have terminates := ending.found process event point
          rw [ordinary] at terminates
          cases terminates
      | false =>
          exact ending_move tokens kept ending exchange rfl rfl fun ending =>
            ending.filtered ordinary
  | serve _ _ chosen =>
      subst chosen
      cases own
      rw [History.record, if_pos ⟨rfl, rfl⟩]
      refine ending_move tokens kept ending exchange rfl ?_ Ending.served
      split <;> rfl
  | decomission =>
      cases own
      rw [History.record, if_pos rfl, storeEvents, store_process_self]
      exact ending_move tokens kept ending exchange rfl rfl fun ending => ending.decomission

theorem step_ending (keeps : choice = .filtered → ∀ other event terminate,
      frame = .filter other event terminate → event.isTerminate = false)
    (stepped : manager.step frame choice = some (next, continuation))
    (exchange : Exchange frame continuation before after) :
    Ending (pointOf after process) (next.process process) (Injecting after process)
      (history.record process (manager.process process) frame choice) := by
  by_cases own : frame.subject = some process
  · exact step_ending_own tokens kept ending keeps own stepped exchange
  · obtain ⟨fields, injects, holds⟩ := step_foreign stepped own
    rw [record_of_foreign _ own]
    have free : frame.holder ≠ some process := fun held => own (subject_of_holder held)
    by_cases gains : ∃ entered ∈ continuation, entered.holder = some process
    · obtain ⟨entered, member, held⟩ := gains
      obtain ⟨rfl, rfl⟩ := holds entered member held
      have phase := kept.phases (.resumeLoad process) (exchange.entered _ member) rfl
      simp only [step] at stepped
      split at stepped
      · cases stepped
        cases List.mem_singleton.mp member
      · cases stepped
        simp only [List.mem_cons, List.not_mem_nil, or_false, reduceCtorEq,
          ManagerFrame.resumeLoad.injEq] at member
        subst member
        exact ending_gain kept ending exchange free (.resumeLoad process)
          (by simp [ManagerFrame.holds, ManagerFrame.holder]) ⟨rfl, rfl, rfl, rfl⟩ injects rfl rfl
          (ne_terminating_of_phase rfl rfl phase)
    · apply ending_stay kept ending exchange free _ injects fields
      intro entered member held
      exact gains ⟨entered, member, held⟩

end Ending

end Manager

namespace Recording

variable {recording next : Recording}

def frames (recording : Recording) : List ManagerFrame := recording.scheduler.threads.frames

def fields (recording : Recording) (process : ProcessId) : ProcessBase :=
  recording.scheduler.manager.process process

/-- The histories agree with the queues. -/
def Invariant (recording : Recording) : Prop :=
  ∀ process, Tokens recording.scheduler.manager recording.frames process ∧
    Ending (pointOf recording.frames process) (recording.fields process)
      (Manager.Injecting recording.frames process) (recording.history process)

theorem new_invariant : new.Invariant := by
  intro process
  constructor
  · exact (Scheduler.new_invariant process).1
  · exact Ending.new.weaken (by simp [Manager.Injecting, frames, new, Scheduler.new])

theorem spawn_invariant (invariant : recording.Invariant) (frame : ManagerFrame)
    (free : ∀ process, frame.holder ≠ some process) (past : ∀ process, frame.spawns process = false)
    (injects : ∀ process, frame ≠ .enqueueTermination process) :
    { recording with scheduler := { recording.scheduler with
      threads := recording.scheduler.threads.spawn frame } }.Invariant := by
  intro process
  obtain ⟨tokens, ending⟩ := invariant process
  have holder : frame.holder = none := by
    cases held : frame.holder with
    | none => rfl
    | some other => exact absurd held (free other)
  have unheld : frame.holds process = false := by simp [ManagerFrame.holds, holder]
  simp only [frames, Threads.frames_spawn]
  constructor
  · exact tokens.spawn holder past
  · have point : pointOf (recording.scheduler.threads.frames ++ [frame]) process =
        pointOf recording.frames process := by
      rw [pointOf, List.filter_append, List.filter_singleton, unheld, cond_false,
        List.append_nil]
      rfl
    rw [point]
    apply ending.weaken
    intro present
    cases List.mem_append.mp present with
    | inl old => exact old
    | inr started => exact absurd (List.mem_singleton.mp started).symm (injects process)

theorem step_invariant (invariant : recording.Invariant) {move : SchedulerMove}
    (keeps : recording.KeepsTerminates move) (stepped : recording.step move = some next) :
    next.Invariant := by
  obtain ⟨scheduler, moved, rfl⟩ := Option.map_eq_some_iff.mp stepped
  cases move with
  | user =>
      cases moved
      exact spawn_invariant invariant .user (by simp [ManagerFrame.holder]) (fun _ => rfl) (by simp)
  | worker =>
      cases moved
      exact spawn_invariant invariant .workerStart (by simp [ManagerFrame.holder]) (fun _ => rfl)
        (by simp)
  | advance thread choice =>
      simp only [Scheduler.step, Option.bind_eq_bind, Option.bind_eq_some_iff, Prod.exists,
        Option.pure_def, Option.some.injEq] at moved
      obtain ⟨frame, running, manager, continuation, advanced, rfl⟩ := moved
      intro process
      obtain ⟨tokens, ending⟩ := invariant process
      have exchange := Threads.exchange running continuation
      have kept := Manager.step_tokens tokens advanced exchange
      simp only [running]
      refine ⟨kept, Manager.step_ending tokens kept ending ?_ advanced exchange⟩
      intro filtered other event terminate same
      subst filtered same
      exact keeps other event terminate running

instance keepsTerminates_decidable (recording : Recording) (move : SchedulerMove) :
    Decidable (recording.KeepsTerminates move) :=
  match move with
  | .advance thread .filtered =>
      decidable_of_iff (∀ frame ∈ recording.scheduler.threads.top? thread,
        frame.filtersTerminate = false) <| by
          constructor
          · intro keeps process event terminate here
            exact keeps _ here
          · intro keeps frame here
            cases frame with
            | filter process event terminate => exact keeps process event terminate here
            | _ => rfl
  | .advance _ .proceed | .advance _ (.call _) | .user | .worker => .isTrue True.intro

theorem invariant_of_reaches (reached : recorded.Reaches KeepsTerminates recording) :
    recording.Invariant := by
  apply reached.invariant Invariant
  · intro start started
    cases started
    exact new_invariant
  · intro before move after invariant keeps stepped
    exact step_invariant invariant keeps stepped

end Recording

/-- A `TerminateEvent` is the last that is served. -/
def EndsOnce (events : List Event) : Prop :=
  (∀ event ∈ events, event.isTerminate = false) ∨
    ∃ earlier event, events = earlier ++ [event] ∧ (∀ other ∈ earlier, other.isTerminate = false) ∧
      event.isTerminate = true

namespace Deleted

variable {entries : List (Event × Disposal)}

/-- Before `finalize` no `TerminateEvent` is deleted. -/
theorem ordinary (deleted : Deleted .ending entries) :
    ∀ entry ∈ entries, entry.1.isTerminate = false := by
  cases deleted with
  | ending plain purged =>
      intro entry member
      cases List.mem_append.mp member with
      | inl early => exact (plain entry early).1
      | inr late => exact (purged entry late).1

theorem served_ordinary (deleted : Deleted .ending entries) :
    ∀ event ∈ servedOf entries, event.isTerminate = false := by
  intro event member
  obtain ⟨entry, kept, rfl⟩ := List.mem_map.mp member
  exact deleted.ordinary entry (List.mem_filter.mp kept).1

theorem served_finalized (deleted : Deleted .finalized entries) :
    ∃ earlier event, servedOf entries = earlier ++ [event] ∧
      (∀ other ∈ earlier, other.isTerminate = false) ∧ event.isTerminate = true := by
  cases deleted with
  | finalized earlier terminates =>
      exact ⟨_, _, servedOf_append _ _, earlier.served_ordinary, terminates⟩

theorem served_closed (deleted : Deleted .closed entries) :
    ∃ earlier event, servedOf entries = earlier ++ [event] ∧
      (∀ other ∈ earlier, other.isTerminate = false) ∧ event.isTerminate = true := by
  cases deleted with
  | @closed earlier dropped finalized =>
      have nothing : servedOf (dropped.map (·, Disposal.decomissioned)) = [] := by
        simp [servedOf, List.filter_map, Function.comp_def]
      rw [servedOf_append, nothing, List.append_nil]
      exact finalized.served_finalized

/-- The order in which the events are deleted. -/
theorem shape {stage : ShutdownStage} (deleted : Deleted stage entries) :
    ∃ plain purged last dropped, entries = plain ++ purged ++ last ++ dropped ∧
      (∀ entry ∈ plain, Plain entry) ∧ (∀ entry ∈ purged, Purged entry) ∧
      (last = [] ∧ dropped = [] ∨
        ∃ event : Event, event.isTerminate = true ∧ last = [(event, Disposal.served)]) ∧
      ∀ entry ∈ dropped, entry.2 = .decomissioned := by
  induction deleted with
  | running plain => exact ⟨_, [], [], [], by simp, plain, by simp, .inl ⟨rfl, rfl⟩, by simp⟩
  | ending plain purged =>
      exact ⟨_, _, [], [], by simp, plain, purged, .inl ⟨rfl, rfl⟩, by simp⟩
  | @finalized earlier event ending terminates _ =>
      cases ending with
      | ending plain purged =>
          exact ⟨_, _, [(event, .served)], [], by simp, plain, purged,
            .inr ⟨event, terminates, rfl⟩, by simp⟩
  | @closed earlier dropped finalized _ =>
      cases finalized with
      | @finalized _ event ending terminates =>
          cases ending with
          | ending plain purged =>
              exact ⟨_, _, [(event, .served)], dropped.map (·, .decomissioned), by simp, plain,
                purged, .inr ⟨event, terminates, rfl⟩, by simp⟩

end Deleted

namespace EndsOnce

variable {events : List Event}

theorem of_last {earlier : List Event} {event : Event}
    (ordinary : ∀ other ∈ earlier, other.isTerminate = false) : EndsOnce (earlier ++ [event]) := by
  cases kind : event.isTerminate with
  | true => exact .inr ⟨earlier, event, rfl, ordinary, kind⟩
  | false =>
      left
      intro other member
      cases List.mem_append.mp member with
      | inl early => exact ordinary other early
      | inr last => exact List.mem_singleton.mp last ▸ kind

theorem countP_of_last {earlier : List Event} {event : Event}
    (ordinary : ∀ other ∈ earlier, other.isTerminate = false)
    (terminates : event.isTerminate = true) :
    (earlier ++ [event]).countP (·.isTerminate) = 1 := by
  have none : earlier.countP (·.isTerminate) = 0 := by
    apply List.countP_eq_zero.mpr
    intro other member
    simp [ordinary other member]
  rw [List.countP_append, none, List.countP_singleton, terminates]
  rfl

theorem countP_le (once : EndsOnce events) : events.countP (·.isTerminate) ≤ 1 := by
  obtain ordinary | ⟨earlier, event, rfl, ordinary, terminates⟩ := once
  · rw [List.countP_eq_zero.mpr fun other member => by simp [ordinary other member]]
    exact Nat.zero_le _
  · exact Nat.le_of_eq (countP_of_last ordinary terminates)

/-- Nothing follows a `TerminateEvent`. -/
theorem nothing_after (once : EndsOnce events) {earlier later : List Event} {event : Event}
    (split : events = earlier ++ event :: later) (terminates : event.isTerminate = true) :
    later = [] := by
  obtain ordinary | ⟨first, last, whole, ordinary, _⟩ := once
  · have kind := ordinary event (by simp [split])
    rw [terminates] at kind
    cases kind
  · rw [split] at whole
    -- Otherwise the event is among those before the last one.
    rcases List.eq_nil_or_concat later with rfl | ⟨middle, final, rfl⟩
    · rfl
    · have same : earlier ++ event :: middle = first := by
        have halves : (earlier ++ event :: middle) ++ [final] = first ++ [last] := by
          simpa using whole
        exact (List.append_inj' halves rfl).1
      have kind := ordinary event (by simp [← same])
      rw [terminates] at kind
      cases kind

end EndsOnce

/-- The thread is inside `cleanup`. -/
def ManagerFrame.cleansUp (process : ProcessId) : ManagerFrame → Bool
  | .checkReady other | .storeTerminating other | .decomission other | .removeHelp other
  | .erase other | .exited other => other = process
  | _ => false

/-- The shutdown protocol of one process. -/
structure Recording.ShutsDown (recording : Recording) (process : ProcessId) : Prop where
  /-- Every event that was accepted has been deleted once, is held by one thread or is still in
  the queue, in this order. -/
  accounted : ∃ current, current.length ≤ 1 ∧ (recording.history process).accepted =
    (recording.history process).deleted.map Prod.fst ++ current ++
      (recording.fields process).events.events
  /-- After `decomission` all have been deleted. -/
  disposed : (recording.fields process).events.comissioned = false →
    (recording.history process).accepted = (recording.history process).deleted.map Prod.fst
  /-- Ordinary events are served or filtered until `termination` takes effect.  Then events are
  purged up to a `TerminateEvent`, and the events after it are dropped. -/
  order : ∃ plain purged last dropped,
    (recording.history process).deleted = plain ++ purged ++ last ++ dropped ∧
    (∀ entry ∈ plain, Plain entry) ∧ (∀ entry ∈ purged, Purged entry) ∧
    (purged ≠ [] → (recording.fields process).termination = true) ∧
    (last = [] ∧ dropped = [] ∨
      ∃ event : Event, event.isTerminate = true ∧ last = [(event, Disposal.served)]) ∧
    ∀ entry ∈ dropped, entry.2 = .decomissioned
  /-- Events are served in the order in which they were enqueued. -/
  served : (recording.history process).begun.Sublist (recording.history process).accepted
  /-- When `termination` is read and set, a `TerminateEvent` is current or queued. -/
  terminates : ∀ event, .loadTermination process event ∈ recording.frames →
    (recording.fields process).termination = true →
    ∃ other ∈ event :: (recording.fields process).events.events, other.isTerminate = true
  /-- The purge loop does not dequeue from an empty queue. -/
  purges : ∀ event, .purge process event ∈ recording.frames → event.isTerminate = false →
    (recording.fields process).events.dequeue ≠ none
  /-- `finalize` is called at most once, and no event is served after it. -/
  once : (recording.history process).begun.countP (·.isTerminate) ≤ 1
  last : ∀ earlier event later, (recording.history process).begun = earlier ++ event :: later →
    event.isTerminate = true → later = []
  /-- It has been called when `cleanup` begins and ever after. -/
  finalized : (∃ frame ∈ recording.frames, frame.cleansUp process = true) ∨
    (recording.fields process).state = .terminating →
    (recording.history process).begun.countP (·.isTerminate) = 1

section Points

variable {process : ProcessId} {point : Option ManagerFrame} {frame : ManagerFrame}

theorem length_heldAt_le (point : Option ManagerFrame) : (heldAt point).length ≤ 1 := by
  cases point with
  | none => exact Nat.zero_le _
  | some frame => cases frame <;> first | exact Nat.zero_le _ | exact Nat.le_refl _

theorem servingAt_sublist_heldAt (point : Option ManagerFrame) :
    (servingAt point).Sublist (heldAt point) := by
  cases point with
  | none => exact .slnil
  | some frame => cases frame <;> first | exact List.nil_sublist _ | exact List.Sublist.refl _

/-- Nothing is held once the queue is decommissioned. -/
theorem heldAt_of_closed {state : ProcessState} (closed : stageOf point state = .closed) :
    heldAt point = [] := by
  cases point with
  | none => rfl
  | some frame =>
      cases frame with
      | filter other event terminate => cases terminate <;> cases closed
      | serve other event =>
          simp only [stageOf, ManagerFrame.stage] at closed
          split at closed <;> cases closed
      | loadTermination other event | purge other event => cases closed
      | _ => rfl

/-- An event is served before `finalize` has returned. -/
theorem servingAt_cases (point : Option ManagerFrame) (state : ProcessState) :
    servingAt point = [] ∨ (∃ event, servingAt point = [event]) ∧
      (stageOf point state = .running ∨ stageOf point state = .ending) := by
  cases point with
  | none => exact .inl rfl
  | some frame =>
      cases frame with
      | serve other event =>
          refine .inr ⟨⟨event, rfl⟩, ?_⟩
          cases kind : event.isTerminate <;> simp [stageOf, ManagerFrame.stage, kind]
      | _ => exact .inl rfl

/-- The token of a terminating process is inside `cleanup`. -/
theorem stage_of_terminating (held : frame.holder = some process)
    (phase : frame.phase .terminating = true) :
    frame.stage = .finalized ∨ frame.stage = .closed := by
  cases frame <;> simp_all [ManagerFrame.holder, ManagerFrame.phase, ManagerFrame.stage]

theorem stage_of_cleansUp (cleans : frame.cleansUp process = true) :
    frame.holder = some process ∧ (frame.stage = .finalized ∨ frame.stage = .closed) := by
  cases frame <;>
    simp_all [ManagerFrame.holder, ManagerFrame.cleansUp, ManagerFrame.stage]

end Points

namespace Ending

variable {point : Option ManagerFrame} {fields : ProcessBase} {injecting : Prop}
  {history : History}

section

variable (ending : Ending point fields injecting history)

include ending

/-- Until `finalize` has returned, no `TerminateEvent` is deleted. -/
theorem ordinary
    (early : stageOf point fields.state = .running ∨ stageOf point fields.state = .ending) :
    Deleted .ending history.deleted := by
  have deleted := ending.deleted
  obtain running | searching := early
  · rw [running] at deleted
    exact deleted.ending_of_running
  · rw [searching] at deleted
    exact deleted

theorem finalized
    (late : stageOf point fields.state = .finalized ∨ stageOf point fields.state = .closed) :
    ∃ earlier event, history.begun = earlier ++ [event] ∧
      (∀ other ∈ earlier, other.isTerminate = false) ∧ event.isTerminate = true := by
  have idle : servingAt point = [] := by
    obtain idle | ⟨_, early⟩ := servingAt_cases point fields.state
    · exact idle
    · rcases early with early | early <;> rcases late with late | late <;>
        rw [early] at late <;> cases late
  have deleted := ending.deleted
  rw [ending.begun, idle, List.append_nil]
  obtain finalized | closed := late
  · rw [finalized] at deleted
    exact deleted.served_finalized
  · rw [closed] at deleted
    exact deleted.served_closed

theorem endsOnce : EndsOnce history.begun := by
  have early := fun before => (ending.ordinary before).served_ordinary
  cases stage : stageOf point fields.state with
  | finalized => exact .inr (ending.finalized (.inl stage))
  | closed => exact .inr (ending.finalized (.inr stage))
  | running | ending =>
      have ordinary := early (by simp [stage])
      rw [ending.begun]
      obtain idle | ⟨⟨event, serving⟩, _⟩ := servingAt_cases point fields.state
      · rw [idle, List.append_nil]
        exact .inl ordinary
      · rw [serving]
        exact .of_last ordinary

/-- A `TerminateEvent` that was accepted and not deleted. -/
theorem exists_terminate (set : fields.termination = true)
    (early : stageOf point fields.state = .running ∨ stageOf point fields.state = .ending) :
    ∃ event ∈ heldAt point ++ fields.events.events, event.isTerminate = true := by
  obtain ⟨event, accepted, terminates⟩ := ending.injected (.inl set)
  rw [ending.accounts, List.append_assoc] at accepted
  cases List.mem_append.mp accepted with
  | inr waits => exact ⟨event, waits, terminates⟩
  | inl gone =>
      obtain ⟨entry, member, rfl⟩ := List.mem_map.mp gone
      have kind := (ending.ordinary early).ordinary entry member
      rw [terminates] at kind
      cases kind

theorem served_sublist :
    history.begun.Sublist history.accepted := by
  rw [ending.begun, ending.accounts]
  apply List.Sublist.trans _ (List.sublist_append_left _ _)
  apply List.Sublist.append _ (servingAt_sublist_heldAt point)
  exact List.filter_sublist.map Prod.fst

/-- All events are gone after `decomission`. -/
theorem accepted_of_closed (closed : fields.events.comissioned = false) :
    history.accepted = history.deleted.map Prod.fst := by
  rw [ending.accounts, heldAt_of_closed (ending.closed.mp closed), ending.empty closed]
  simp

theorem countP_begun
    (late : stageOf point fields.state = .finalized ∨ stageOf point fields.state = .closed) :
    history.begun.countP (·.isTerminate) = 1 := by
  obtain ⟨earlier, event, begun, ordinary, terminates⟩ := ending.finalized late
  rw [begun]
  exact EndsOnce.countP_of_last ordinary terminates

end

end Ending

/-- Processes shut down properly if no filter drops a `TerminateEvent`. -/
theorem process_shutsDown {recording : Recording}
    (reached : recorded.Reaches Recording.KeepsTerminates recording) (process : ProcessId) :
    recording.ShutsDown process := by
  obtain ⟨tokens, ending⟩ := Recording.invariant_of_reaches reached process
  have point : ∀ frame ∈ recording.frames, frame.holder = some process →
      pointOf recording.frames process = some frame := by
    intro frame member holds
    exact pointOf_eq_some tokens member (by simpa [ManagerFrame.holds] using holds)
  constructor
  · exact ⟨_, length_heldAt_le _, ending.accounts⟩
  · exact ending.accepted_of_closed
  · obtain ⟨plain, purged, last, dropped, deleted, served, cleared, final, rest⟩ :=
      ending.deleted.shape
    refine ⟨plain, purged, last, dropped, deleted, served, cleared, ?_, final, rest⟩
    intro some
    obtain ⟨entry, member⟩ := List.exists_mem_of_ne_nil purged some
    apply ending.purges (.inl ⟨entry, _, (cleared entry member).2⟩)
    rw [deleted]
    simp [member]
  · exact ending.served_sublist
  · intro event member set
    have here := point _ member rfl
    have terminate := ending.exists_terminate set (by rw [here]; exact .inl rfl)
    rwa [here] at terminate
  · intro event member ordinary
    have here := point _ member rfl
    have set := ending.purges (.inr ⟨_, here, rfl⟩)
    obtain ⟨other, waits, terminates⟩ :=
      ending.exists_terminate set (by rw [here]; exact .inr rfl)
    rw [here] at waits
    -- The current event is ordinary, so the `TerminateEvent` is in the queue.
    have queued : other ∈ (recording.fields process).events.events := by
      cases List.mem_cons.mp waits with
      | inl current =>
          rw [current, ordinary] at terminates
          cases terminates
      | inr queued => exact queued
    intro nothing
    simp only [EventQueue.dequeue] at nothing
    split at nothing
    · rename_i nil
      rw [nil] at queued
      cases queued
    · cases nothing
  · exact ending.endsOnce.countP_le
  · intro earlier event later split terminates
    exact ending.endsOnce.nothing_after split terminates
  · rintro (⟨frame, member, cleans⟩ | terminating)
    · obtain ⟨holds, stage⟩ := stage_of_cleansUp cleans
      apply ending.countP_begun
      rwa [point frame member holds]
    · apply ending.countP_begun
      cases here : pointOf recording.frames process with
      | none =>
          right
          rw [stageOf, terminating]
          rfl
      | some frame =>
          have held := List.mem_filter.mp (List.mem_of_mem_head? here)
          have holds : frame.holder = some process := by
            simpa [ManagerFrame.holds] using held.2
          apply stage_of_terminating holds
          rw [← terminating]
          exact tokens.phases frame held.1 holds

/-- One event is filtered, then a `TerminateEvent` is injected between two others. -/
def terminationSchedule : List SchedulerMove :=
  List.flatten [[.user, .worker, .advance 0 (.call (.spawn 0))],
    List.replicate 4 (.advance 0 .proceed), [.advance 0 (.call (.enqueue 0 (.ordinary 1)))],
    List.replicate 3 (.advance 0 .proceed), List.replicate 11 (.advance 1 .proceed),
    [.advance 1 .filtered], [.advance 0 (.call (.enqueue 0 (.ordinary 2)))],
    List.replicate 3 (.advance 0 .proceed), [.advance 0 (.call (.enqueue 0 (.terminate 0 true)))],
    List.replicate 4 (.advance 0 .proceed), [.advance 0 (.call (.enqueue 0 (.ordinary 3)))],
    List.replicate 3 (.advance 0 .proceed), List.replicate 10 (.advance 1 .proceed)]

theorem process_shutsDown_purging : ∃ recording : Recording, recording.ShutsDown 0 ∧
    (recording.fields 0).events.comissioned = false ∧
    recording.history 0 =
      { accepted := [.ordinary 1, .ordinary 2, .terminate 0 true, .ordinary 3]
        begun := [.terminate 0 true]
        deleted := [(.ordinary 1, .filtered), (.ordinary 2, .purged), (.terminate 0 true, .served),
          (.ordinary 3, .decomissioned)] } := by
  have keeps : recorded.Along Recording.KeepsTerminates .new terminationSchedule := by
    decide
  obtain ⟨recording, executed, observed⟩ : ∃ recording ∈ recorded.run .new terminationSchedule,
      (recording.fields 0).events.comissioned = false ∧
      recording.history 0 =
        { accepted := [.ordinary 1, .ordinary 2, .terminate 0 true, .ordinary 3]
          begun := [.terminate 0 true]
          deleted := [(.ordinary 1, .filtered), (.ordinary 2, .purged),
            (.terminate 0 true, .served), (.ordinary 3, .decomissioned)] } := by
    decide
  exact ⟨recording, process_shutsDown (.of_along (.start rfl) keeps executed) 0, observed⟩

end Libprocess
