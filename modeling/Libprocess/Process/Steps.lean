import Libprocess.Process.Manager

/-!
# The steps of the manager

What a thread can do at each program point, with one rule for each way through it.
-/

namespace Libprocess

/-- Code around runs. -/
def ManagerFrame.runsCode : ManagerFrame → Bool
  | .user | .initializing _ | .serve _ _ | .removeHelp _ | .exited _ => true
  | _ => false

namespace Manager

/-- A call that ends here. -/
inductive Returns (manager : Manager) : ManagerFrame → Prop where
  | spawnLoad process (known : (manager.process process).state ≠ .bottom) :
      Returns manager (.spawnLoad process)
  | spawnInsert process (present : process ∈ manager.processes) :
      Returns manager (.spawnInsert process)
  | enqueueLoad process event (terminating : (manager.process process).state = .terminating) :
      Returns manager (.enqueueLoad process event)
  | enqueueEvent process event (closed : (manager.process process).events.comissioned = false) :
      Returns manager (.enqueueEvent process event)
  | enqueueReload process (awake : (manager.process process).state ≠ .blocked) :
      Returns manager (.enqueueReload process)
  | enqueueExchange process (awake : (manager.process process).state ≠ .blocked) :
      Returns manager (.enqueueExchange process)
  | waitUse process (absent : process ∉ manager.processes) : Returns manager (.waitUse process)
  | waitLoad process : Returns manager (.waitLoad process)
  | retestEmpty process (empty : (manager.process process).events.empty = true) :
      Returns manager (.retestEmpty process)
  | exchangeBack process (awake : (manager.process process).state ≠ .blocked) :
      Returns manager (.exchangeBack process)

/-- A test that leads to another program point. -/
inductive Leads (manager : Manager) : ManagerFrame → ManagerFrame → Prop where
  | workerWait : Leads manager .workerWait .workerWoken
  | workerDequeue (empty : manager.runq = []) : Leads manager .workerDequeue .workerIdle
  | spawnLoad process (bottom : (manager.process process).state = .bottom) :
      Leads manager (.spawnLoad process) (.spawnInsert process)
  | enqueueLoad process event (alive : (manager.process process).state ≠ .terminating) :
      Leads manager (.enqueueLoad process event) (.enqueueEvent process event)
  | enqueueReload process (blocked : (manager.process process).state = .blocked) :
      Leads manager (.enqueueReload process) (.enqueueExchange process)
  | waitUse process (present : process ∈ manager.processes) :
      Leads manager (.waitUse process) (.waitLoad process)
  | waitLoad process : Leads manager (.waitLoad process) (.waitRunning process)
  | waitExtract process (absent : process ∉ manager.runq) :
      Leads manager (.waitExtract process) .waitDone
  | initializing process (bottom : (manager.process process).state = .bottom) :
      Leads manager (.resumeLoad process) (.initializing process)
  | resume process (ready : (manager.process process).state = .ready) :
      Leads manager (.resumeLoad process) (.testEmpty process)
  | block process : Leads manager (.testEmpty process) (.storeBlocked process)
  | dequeue process : Leads manager (.testEmpty process) (.dequeue process)
  | exchangeBack process (pending : (manager.process process).events.empty = false) :
      Leads manager (.retestEmpty process) (.exchangeBack process)
  | purge process event (set : (manager.process process).termination = true) :
      Leads manager (.loadTermination process event) (.purge process event)
  | filter process event :
      Leads manager (.loadTermination process event) (.filter process event false)
  | found process event (terminates : event.isTerminate = true) :
      Leads manager (.purge process event) (.filter process event true)
  | checkReady process : Leads manager (.checkReady process) (.storeTerminating process)

/-- One step of a thread. -/
inductive Steps (manager : Manager) (choice : ManagerChoice) :
    ManagerFrame → Manager → List ManagerFrame → Prop where
  | returns {frame} (returns : manager.Returns frame) : Steps manager choice frame manager []
  | leads {frame entered} (leads : manager.Leads frame entered) :
      Steps manager choice frame manager [entered]
  | call {frame request entered} (code : frame.runsCode = true) (chosen : choice = .call request)
      (called : manager.call request = some entered) :
      Steps manager choice frame entered [request.entry, frame]
  | user (proceeds : choice = .proceed) : Steps manager choice .user manager []
  | initializing process (proceeds : choice = .proceed) :
      Steps manager choice (.initializing process) manager [.storeReady process]
  | serve process event (proceeds : choice = .proceed) :
      Steps manager choice (.serve process event) manager
        [if event.isTerminate then .checkReady process else .testEmpty process]
  | removeHelp process (proceeds : choice = .proceed) :
      Steps manager choice (.removeHelp process) manager [.erase process]
  | exited process (proceeds : choice = .proceed) :
      Steps manager choice (.exited process) manager []
  | filter process event terminate (proceeds : choice = .proceed) :
      Steps manager choice (.filter process event terminate) manager [.serve process event]
  | filtered process event terminate (drops : choice = .filtered) :
      Steps manager choice (.filter process event terminate) manager
        [if terminate then .checkReady process else .testEmpty process]
  | workerStart : Steps manager choice .workerStart
      { manager with running := manager.running + 1 } [.workerIdle]
  | workerIdle : Steps manager choice .workerIdle
      { manager with running := manager.running - 1 } [.workerWait]
  | workerWoken : Steps manager choice .workerWoken
      { manager with running := manager.running + 1 } [.workerDequeue]
  | waitRunning process : Steps manager choice (.waitRunning process)
      { manager with running := manager.running + 1 } [.waitExtract process]
  | waitDone : Steps manager choice .waitDone { manager with running := manager.running - 1 } []
  | epoch : Steps manager choice .epoch { manager with epoch := manager.epoch + 1 } []
  | take process rest (queue : manager.runq = process :: rest) :
      Steps manager choice .workerDequeue { manager with runq := rest }
        [.resumeLoad process, .workerIdle]
  | extract process (present : process ∈ manager.runq) :
      Steps manager choice (.waitExtract process)
        { manager with runq := manager.runq.erase process } [.resumeLoad process, .waitDone]
  | insert process (absent : process ∉ manager.processes) :
      Steps manager choice (.spawnInsert process)
        { manager with
          processes := process :: manager.processes
          spawned := Function.update manager.spawned process true } [.push process]
  | push process : Steps manager choice (.push process)
      { manager with runq := manager.runq ++ [process] } [.epoch]
  | accept process event (active : (manager.process process).events.comissioned = true) :
      Steps manager choice (.enqueueEvent process event)
        (manager.storeEvents process { (manager.process process).events with
          events := (manager.process process).events.events ++ [event] })
        [if event.injects then .enqueueTermination process else .enqueueReload process]
  | inject process : Steps manager choice (.enqueueTermination process)
      (manager.storeTermination process) [.enqueueReload process]
  | wake process (blocked : (manager.process process).state = .blocked) :
      Steps manager choice (.enqueueExchange process) (manager.storeState process .ready)
        [.push process]
  | back process (blocked : (manager.process process).state = .blocked) :
      Steps manager choice (.exchangeBack process) (manager.storeState process .ready)
        [.testEmpty process]
  | storeReady process : Steps manager choice (.storeReady process)
      (manager.storeState process .ready) [.testEmpty process]
  | storeBlocked process : Steps manager choice (.storeBlocked process)
      (manager.storeState process .blocked) [.retestEmpty process]
  | storeTerminating process : Steps manager choice (.storeTerminating process)
      (manager.storeState process .terminating) [.decomission process]
  | dequeue process event rest
      (first : (manager.process process).events.events = event :: rest) :
      Steps manager choice (.dequeue process)
        (manager.storeEvents process { (manager.process process).events with events := rest })
        [.loadTermination process event]
  | purge process event found rest (ordinary : event.isTerminate = false)
      (first : (manager.process process).events.events = found :: rest) :
      Steps manager choice (.purge process event)
        (manager.storeEvents process { (manager.process process).events with events := rest })
        [.purge process found]
  | decomission process : Steps manager choice (.decomission process)
      (manager.storeEvents process (manager.process process).events.decomission.1)
      [.removeHelp process]
  | erase process : Steps manager choice (.erase process)
      { manager with processes := manager.processes.erase process } [.exited process]

variable {manager next : Manager} {frame : ManagerFrame} {choice : ManagerChoice}
  {continuation : List ManagerFrame}

/-- Code around goes on, or calls into the manager. -/
theorem code_steps {follow : List ManagerFrame} (code : frame.runsCode = true)
    (stepped : manager.code choice frame follow = some (next, continuation))
    (proceeds : choice = .proceed → manager.Steps choice frame manager follow) :
    manager.Steps choice frame next continuation := by
  cases choice with
  | proceed =>
      cases stepped
      exact proceeds rfl
  | filtered => cases stepped
  | call request =>
      obtain ⟨entered, called, same⟩ := Option.map_eq_some_iff.mp stepped
      cases same
      exact .call code rfl called

theorem dequeue_cases {queue rest : EventQueue Event} {event : Event}
    (taken : queue.dequeue = some (rest, event)) :
    ∃ events, queue.events = event :: events ∧ rest = { queue with events := events } := by
  simp only [EventQueue.dequeue] at taken
  split at taken
  · cases taken
  · rename_i events first
    cases taken
    exact ⟨events, first, rfl⟩

/-- The rules are all that a thread can do. -/
theorem step_cases (stepped : manager.step frame choice = some (next, continuation)) :
    manager.Steps choice frame next continuation := by
  cases frame with
  | user => exact code_steps rfl stepped .user
  | initializing => exact code_steps rfl stepped (.initializing _)
  | removeHelp => exact code_steps rfl stepped (.removeHelp _)
  | exited => exact code_steps rfl stepped (.exited _)
  | serve process event =>
      refine code_steps rfl stepped fun proceeds => ?_
      rw [← apply_ite (fun entered => [entered])]
      exact .serve _ _ proceeds
  | dequeue =>
      obtain ⟨⟨_, _⟩, taken, same⟩ := Option.map_eq_some_iff.mp stepped
      obtain ⟨rest, first, rfl⟩ := dequeue_cases taken
      cases same
      exact .dequeue _ _ _ first
  | purge =>
      simp only [step] at stepped
      split at stepped
      · rename_i terminates
        cases stepped
        exact .leads (.found _ _ terminates)
      · rename_i ordinary
        obtain ⟨⟨_, _⟩, taken, same⟩ := Option.map_eq_some_iff.mp stepped
        obtain ⟨rest, first, rfl⟩ := dequeue_cases taken
        cases same
        exact .purge _ _ _ _ (Bool.eq_false_iff.mpr ordinary) first
  | filter process event terminate =>
      cases choice with
      | call => cases stepped
      | proceed =>
          cases stepped
          exact .filter _ _ _ rfl
      | filtered =>
          cases stepped
          rw [← apply_ite (fun entered => [entered])]
          exact .filtered _ _ _ rfl
  | enqueueEvent process event =>
      by_cases active : (manager.process process).events.comissioned = true
      · simp only [step, EventQueue.enqueue, active, if_true] at stepped
        rw [← apply_ite (fun entered => [entered])] at stepped
        cases stepped
        simpa only [active] using Steps.accept process event active
      · simp only [step, EventQueue.enqueue, active, Bool.false_eq_true, if_false] at stepped
        cases stepped
        exact .returns (.enqueueEvent _ _ (Bool.eq_false_iff.mpr active))
  | waitUse =>
      cases stepped
      split
      · exact .leads (.waitUse _ ‹_›)
      · exact .returns (.waitUse _ ‹_›)
  | workerStart | workerIdle | workerWoken | waitRunning | waitDone | epoch | push
  | enqueueTermination | storeReady | storeBlocked | storeTerminating | decomission | erase =>
      cases stepped
      constructor
  | workerWait =>
      cases stepped
      exact .leads .workerWait
  | workerDequeue | spawnLoad | spawnInsert | enqueueLoad | enqueueReload | enqueueExchange
  | waitLoad | waitExtract | resumeLoad | testEmpty | retestEmpty | exchangeBack
  | loadTermination | checkReady =>
      simp only [step, exchange, Option.some.injEq] at stepped
      split at stepped <;> cases stepped
      all_goals first
        | exact .returns (by constructor <;> simp_all)
        | exact .leads (by constructor <;> simp_all)
        | (constructor; assumption)

end Manager

end Libprocess
