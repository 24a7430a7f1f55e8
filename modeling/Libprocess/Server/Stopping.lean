import Libprocess.Server.Process
import Mathlib.Data.List.Basic

/-!
# How the server stops

The accept loop has one event in the queue at most, and so has `stop`.  Every client that was
accepted is in the table, or its future is completed.  So when the process that waits for the
clients is done, all clients ever accepted are done, provided that no client is added while
`stop` waits.
-/

namespace Libprocess.Server

open Concurrency
open Sequence (Outcome)

namespace AwaitProcess

variable {Key : Type} {await : AwaitProcess Key} {completed : Key → Prop}

/-- Every future is completed, or the call for it is to come. -/
structure Valid (await : AwaitProcess Key) (completed : Key → Prop) : Prop where
  count : await.ready + await.waiting.length = await.futures.length
  heard : ∀ future ∈ await.futures, future ∈ await.waiting ∨ completed future

theorem Valid.create (futures : List Key) : (create futures).Valid completed :=
  ⟨Nat.zero_add _, fun _ => .inl⟩

theorem Valid.mono {more : Key → Prop} (valid : await.Valid completed)
    (implied : ∀ future, completed future → more future) : await.Valid more :=
  ⟨valid.count, fun future member => (valid.heard future member).imp id (implied future)⟩

theorem Valid.waited [DecidableEq Key] {future : Key} (valid : await.Valid completed)
    (member : future ∈ await.waiting) (isCompleted : completed future) :
    (await.waited future).Valid completed := by
  refine ⟨?_, fun other known => ?_⟩
  · have positive := List.length_pos_of_mem member
    have count := valid.count
    simp only [AwaitProcess.waited, List.length_erase_of_mem member]
    omega
  · rcases valid.heard other known with waiting | done
    · by_cases same : other = future
      · exact .inr (same ▸ isCompleted)
      · exact .inl ((List.mem_erase_of_ne same).mpr waiting)
    · exact .inr done

/-- When the promise is set, all futures are completed. -/
theorem Valid.of_isSet (valid : await.Valid completed) (isSet : await.isSet = true) :
    ∀ future ∈ await.futures, completed future := by
  have count := valid.count
  have none : await.waiting = [] := by
    simp only [AwaitProcess.isSet, decide_eq_true_eq] at isSet
    exact List.eq_nil_of_length_eq_zero (by omega)
  intro future member
  refine (valid.heard future member).resolve_left fun waiting => ?_
  rw [none] at waiting
  cases waiting

end AwaitProcess

/-- The events of the accept loop. -/
def Event.isLoop : Event → Bool
  | .start | .accepted _ => true
  | _ => false

/-- The events with which `stop` goes on. -/
def Event.isStop : Event → Bool
  | .expired | .clear | .finish => true
  | _ => false

/-- The events of the accept loop that are queued. -/
def Accepting.queued : Accepting → List Event
  | .starting => [.start]
  | .dispatched outcome => [.accepted outcome]
  | .unstarted | .accept | .abandoned | .completed _ => []

/-- The events of `stop` that are queued. -/
def Stopping.queued : Stopping → List Event
  | .expired => [.expired]
  | .clear => [.clear]
  | .finish => [.finish]
  | .idle | .clients _ | .discarded _ | .accepting _ | .finished => []

/-- The loop has one event in the queue at most. -/
theorem Accepting.queued_cons {accepting : Accepting} {event : Event} {events : List Event}
    (queued : accepting.queued = event :: events) :
    events = [] ∧ accepting.isCompleted = false ∧ accepting ≠ .unstarted := by
  cases accepting with
  | unstarted | accept | abandoned | completed => cases queued
  | starting | dispatched =>
      cases queued
      exact ⟨rfl, rfl, nofun⟩

/-- And so has `stop`. -/
theorem Stopping.queued_cons {stopping : Stopping} {event : Event} {events : List Event}
    (queued : stopping.queued = event :: events) :
    events = [] ∧ (event = .expired ∧ stopping = .expired ∨ event = .clear ∧ stopping = .clear ∨
      event = .finish ∧ stopping = .finish) := by
  cases stopping with
  | idle | clients | discarded | accepting | finished => cases queued
  | expired | clear | finish =>
      cases queued
      simp

namespace ServerProcess

variable {server next : ServerProcess}

/-- All clients that were accepted are done. -/
def Served (server : ServerProcess) : Prop :=
  ∀ client < server.accepted, server.serving client ≠ none

/-- The process that waits for the clients. -/
structure AwaitsClients (server : ServerProcess) (await : AwaitProcess Nat) : Prop where
  valid : await.Valid fun client => server.serving client ≠ none
  covers : ∀ client < server.accepted, client ∈ await.futures ∨ server.serving client ≠ none

/-- How far `stop` has come. -/
def Phase (server : ServerProcess) : Stopping → Prop
  | .idle => server.state.state = .initialized ∨ server.state.state = .running
  | .clients await | .discarded await =>
      server.state.state = .stopping ∧ server.AwaitsClients await
  | .expired => server.state.state = .stopping
  | .clear => server.state.state = .stopping ∧ server.Served
  | .accepting await => server.state.state = .stopping ∧ server.Served ∧
      await.futures = [()] ∧ await.Valid fun _ => server.accepting.isCompleted = true
  | .finish => server.state.state = .stopping ∧ server.Served ∧
      server.accepting.isCompleted = true
  | .finished => server.state.state = .stopped ∧ server.Served ∧
      server.accepting.isCompleted = true

/-- The queue, the table of clients and the futures of the calls.  `loops` and `stops` are the
events of the accept loop and of `stop` that are queued. -/
structure Queued (server : ServerProcess) (loops stops : List Event) : Prop where
  loop : server.events.filter Event.isLoop = loops
  stop : server.events.filter Event.isStop = stops
  erased : ∀ client, .erase client ∈ server.events → server.serving client ≠ none
  known : ∀ client < server.accepted, client ∈ server.clients ∨ server.serving client ≠ none
  unstarted : server.state.state = .initialized → server.accepting = .unstarted
  promises : ∀ state ≠ State.stopped, server.state.promises state = []
  results : ∀ call, server.results call = some .ready → server.state.state = .stopped

/-- The invariant of the server. -/
structure Sound (server : ServerProcess) : Prop where
  queued : server.Queued server.accepting.queued server.stopping.queued
  phase : server.Phase server.stopping

theorem Sound.init : init.Sound :=
  ⟨⟨rfl, rfl, nofun, nofun, fun _ => rfl, fun _ _ => rfl, nofun⟩, .inl rfl⟩

/-- What the progress of `stop` depends on. -/
theorem Phase.frame {stopping : Stopping} (phase : server.Phase stopping)
    (state : next.state.state = server.state.state) (accepted : next.accepted = server.accepted)
    (serving : ∀ client, server.serving client ≠ none → next.serving client ≠ none)
    (accepting : server.accepting.isCompleted = true → next.accepting.isCompleted = true) :
    next.Phase stopping := by
  have served (all : server.Served) : next.Served := fun client less =>
    serving client (all client (accepted ▸ less))
  have awaits {await : AwaitProcess Nat} (awaits : server.AwaitsClients await) :
      next.AwaitsClients await :=
    ⟨awaits.valid.mono serving, fun client less =>
      (awaits.covers client (accepted ▸ less)).imp id (serving client)⟩
  cases stopping with
  | idle | expired => simpa only [Phase, state] using phase
  | clients await | discarded await => exact ⟨state.trans phase.1, awaits phase.2⟩
  | clear => exact ⟨state.trans phase.1, served phase.2⟩
  | accepting await =>
      obtain ⟨isStopping, all, futures, valid⟩ := phase
      exact ⟨state.trans isStopping, served all, futures, valid.mono fun _ => accepting⟩
  | finish | finished =>
      obtain ⟨known, all, completed⟩ := phase
      exact ⟨state.trans known, served all, accepting completed⟩

/-- Before the server stops, `stop` waits for nothing. -/
theorem Phase.eq_idle {stopping : Stopping} (phase : server.Phase stopping)
    (early : server.state.state = .initialized ∨ server.state.state = .running) :
    stopping = .idle := by
  cases stopping with
  | idle => rfl
  | expired =>
      have stopping : server.state.state = .stopping := phase
      simp [stopping] at early
  | clients | discarded | clear | accepting | finish | finished => simp [phase.1] at early

/-- Once the server is stopped, all clients and the accept loop are done. -/
theorem Phase.of_stopped {stopping : Stopping} (phase : server.Phase stopping)
    (stopped : server.state.state = .stopped) :
    server.Served ∧ server.accepting.isCompleted = true := by
  cases stopping with
  | finished => exact phase.2
  | idle =>
      have early : server.state.state = .initialized ∨ server.state.state = .running := phase
      simp [stopped] at early
  | expired => cases stopped.symm.trans phase
  | clients | discarded | clear | accepting | finish => cases stopped.symm.trans phase.1

/-- The accept loop has not completed, so the server is not stopped. -/
theorem Phase.running {stopping : Stopping} (phase : server.Phase stopping)
    (started : server.state.state ≠ .initialized)
    (pending : server.accepting.isCompleted = false)
    (notStopping : server.state.state ≠ .stopping) : server.state.state = .running := by
  cases known : server.state.state with
  | initialized => exact absurd known started
  | running => rfl
  | stopping => exact absurd known notStopping
  | stopped => cases pending.symm.trans (phase.of_stopped known).2

/-- The next event is taken from the queue. -/
theorem Queued.pop {loops stops : List Event} {event : Event} {events : List Event}
    (queued : server.Queued loops stops) (top : server.events = event :: events) :
    ∃ loops' stops', { server with events }.Queued loops' stops' ∧
      loops = (if event.isLoop then [event] else []) ++ loops' ∧
      stops = (if event.isStop then [event] else []) ++ stops' := by
  refine ⟨_, _, { queued with
    loop := rfl
    stop := rfl
    erased := fun client member => queued.erased client (by simp [top, member]) }, ?_, ?_⟩
  · rw [← queued.loop, top, List.filter_cons]
    split <;> rfl
  · rw [← queued.stop, top, List.filter_cons]
    split <;> rfl

@[simp] theorem dispatch_accepting (event : Event) :
    (server.dispatch event).accepting = server.accepting := rfl

@[simp] theorem dispatch_stopping (event : Event) :
    (server.dispatch event).stopping = server.stopping := rfl

theorem Queued.dispatch {loops stops loops' stops' : List Event}
    (queued : server.Queued loops stops) (event : Event)
    (erased : ∀ client, event = .erase client → server.serving client ≠ none)
    (sameLoops : loops' = loops ++ if event.isLoop then [event] else [])
    (sameStops : stops' = stops ++ if event.isStop then [event] else []) :
    (server.dispatch event).Queued loops' stops' := by
  refine { queued with
    loop := ?_
    stop := ?_
    erased := fun client member => ?_ }
  · rw [sameLoops, ← queued.loop, ServerProcess.dispatch, List.filter_append,
      List.filter_singleton, Bool.cond_eq_ite]
  · rw [sameStops, ← queued.stop, ServerProcess.dispatch, List.filter_append,
      List.filter_singleton, Bool.cond_eq_ite]
  · rcases List.mem_append.mp member with before | new
    · exact queued.erased client before
    · exact erased client (List.mem_singleton.mp new).symm

/-- The future of a call is completed. -/
theorem Sound.complete {outcome : Outcome} (sound : server.Sound) (call : Nat)
    (permitted : outcome = .ready → server.state.state = .stopped) :
    (server.complete call outcome).Sound := by
  refine ⟨{ sound.queued with results := fun other ready => ?_ },
    sound.phase.frame rfl rfl (fun _ => id) id⟩
  simp only [ServerProcess.complete, Function.update_apply] at ready
  split at ready
  · exact permitted (by simpa using ready)
  · exact sound.queued.results other ready

theorem notify_nil (server : ServerProcess) : server.notify [] = server := by
  simp [notify]

/-- `stop` waits for the clients in the table. -/
theorem Queued.awaitClients {loops : List Event} (queued : server.Queued loops [])
    (state : server.state.state = .stopping) (same : loops = server.accepting.queued)
    (waiting : AwaitProcess Nat → Stopping) (free : ∀ await, (waiting await).queued = [])
    (phase : ∀ await, server.AwaitsClients await → server.Phase (waiting await)) :
    (server.awaitClients waiting).Sound := by
  subst same
  unfold ServerProcess.awaitClients
  split
  · rename_i empty
    have served : server.Served := fun client less =>
      (queued.known client less).resolve_left (by simp [empty])
    have cleared : { server with stopping := Stopping.clear }.Queued server.accepting.queued [] :=
      { queued with }
    exact ⟨cleared.dispatch .clear nofun (by simp [Event.isLoop]) rfl, state, served⟩
  · have awaits : server.AwaitsClients (.create server.clients) :=
      ⟨.create _, queued.known⟩
    refine ⟨?_, (phase _ awaits).frame rfl rfl (fun _ => id) id⟩
    simp only [free]
    exact { queued with }

theorem Queued.beginStop {stopper : Stopper} (queued : server.Queued server.accepting.queued [])
    (began : server.stop stopper = some next) : next.Sound := by
  simp only [ServerProcess.stop, StateMachine.transition, Option.map_eq_some_iff] at began
  obtain ⟨⟨state, waiters⟩, moved, rfl⟩ := began
  split at moved <;> cases moved
  rename_i running
  rw [queued.promises .stopping nofun, notify_nil]
  have stopping : { server with
      state := ⟨.stopping, Function.update server.state.promises .stopping []⟩
      stopper := some stopper
      acceptingDiscard := true }.Queued server.accepting.queued [] := by
    refine { queued with
      unstarted := nofun
      promises := fun state different => ?_
      results := fun call ready => ?_ }
    · simp only [Function.update_apply]
      split
      · rfl
      · exact queued.promises state different
    · cases running.symm.trans (queued.results call ready)
  exact stopping.awaitClients rfl rfl .clients (fun _ => rfl) fun _ awaits => ⟨rfl, awaits⟩

/-- `run` is called. -/
theorem Sound.run (sound : server.Sound) (sockets call : Nat) :
    (server.consume sockets (.run call)).Sound := by
  have queued := sound.queued
  simp only [ServerProcess.consume]
  split
  · exact sound.complete call nofun
  · rename_i state waiters moved
    simp only [StateMachine.transition] at moved
    split at moved <;> cases moved
    rename_i initialized
    have unstarted := queued.unstarted initialized
    rw [queued.promises .running nofun, notify_nil]
    have idle := sound.phase.eq_idle (.inl initialized)
    rw [unstarted, idle] at queued
    have running : { server with
        state := ⟨.running, Function.update server.state.promises .running []⟩
        runner := some call
        accepting := .starting
        acceptingDiscard := server.discarded.contains call }.Queued [] [] := by
      refine { queued with
        unstarted := nofun
        promises := fun state different => ?_
        results := fun call ready => ?_ }
      · simp only [Function.update_apply]
        split
        · rfl
        · exact queued.promises state different
      · cases initialized.symm.trans (queued.results call ready)
    refine ⟨running.dispatch .start nofun rfl (by simp [idle, Stopping.queued, Event.isStop]), ?_⟩
    simp only [dispatch_stopping, idle]
    exact .inr rfl

theorem Sound.queued_of_running (sound : server.Sound)
    (running : server.state.state = .running) : server.Queued server.accepting.queued [] := by
  have queued := sound.queued
  rwa [sound.phase.eq_idle (.inr running)] at queued

theorem running_of_stop {stopper : Stopper} (began : server.stop stopper = some next) :
    server.state.state = .running := by
  simp only [ServerProcess.stop, StateMachine.transition, Option.map_eq_some_iff] at began
  obtain ⟨_, moved, -⟩ := began
  split at moved
  · assumption
  · cases moved

/-- `stop` is called. -/
theorem Sound.stopCall (sound : server.Sound) (sockets call : Nat) :
    (server.consume sockets (.stop call)).Sound := by
  simp only [ServerProcess.consume]
  cases began : server.stop (.call call) with
  | none => exact sound.complete call nofun
  | some next => exact (sound.queued_of_running (running_of_stop began)).beginStop began

theorem Sound.whenStopped (sound : server.Sound) : server.whenStopped.Sound := by
  unfold ServerProcess.whenStopped
  split
  · exact sound
  · rename_i call _
    split
    · rename_i stopped
      exact sound.complete call fun _ => stopped
    · refine ⟨{ sound.queued with promises := fun state different => ?_ },
        sound.phase.frame rfl rfl (fun _ => id) id⟩
      simp only [StateMachine.await, Function.update_of_ne different]
      exact sound.queued.promises state different

theorem Sound.recover (sound : server.Sound) (sockets : Nat) :
    (server.consume sockets .recover).Sound := by
  simp only [ServerProcess.consume]
  split
  · rename_i running
    cases began : server.stop .recover with
    | none => exact sound
    | some next => exact (sound.queued_of_running running).beginStop began
  · exact sound.whenStopped

/-- The client that is erased is done. -/
theorem Sound.erase (sound : server.Sound) {client : Nat} (done : server.serving client ≠ none) :
    { server with clients := server.clients.erase client }.Sound := by
  refine ⟨{ sound.queued with known := fun other less => ?_ },
    sound.phase.frame rfl rfl (fun _ => id) id⟩
  by_cases same : other = client
  · exact .inr (same ▸ done)
  · exact (sound.queued.known other less).imp (List.mem_erase_of_ne same).mpr id

/-- The accept loop completes. -/
theorem Queued.completeAccepting (queued : server.Queued [] server.stopping.queued)
    (phase : server.Phase server.stopping) (started : server.state.state ≠ .initialized)
    (outcome : Outcome) : (server.completeAccepting outcome).Sound := by
  have completed : { server with accepting := .completed outcome }.Queued []
      server.stopping.queued :=
    { queued with unstarted := fun initialized => absurd initialized started }
  refine ⟨completed.dispatch _ ?_ ?_ ?_, phase.frame rfl rfl (fun _ => id) fun _ => rfl⟩
  · split <;> nofun
  · split <;> rfl
  · split <;> simp [ServerProcess.completeAccepting, Event.isStop]

/-- The accept loop goes on. -/
theorem Queued.continueLoop (queued : server.Queued [] server.stopping.queued)
    (phase : server.Phase server.stopping) (started : server.state.state ≠ .initialized)
    (pending : server.accepting.isCompleted = false) (sockets : Nat) :
    (server.loop sockets).Sound := by
  unfold ServerProcess.loop
  have unstarted {property : Prop} (initialized : server.state.state = .initialized) : property :=
    absurd initialized started
  split
  · exact ⟨{ queued with unstarted := unstarted },
      phase.frame rfl rfl (fun _ => id) (by simp [pending])⟩
  · split
    · exact queued.completeAccepting phase started .ready
    · rename_i notStopping
      have idle := phase.eq_idle (.inr (phase.running started pending notStopping))
      refine ⟨{ queued with
        known := fun client less => ?_
        unstarted := unstarted }, ?_⟩
      · by_cases old : client < server.accepted
        · exact (queued.known client old).imp (List.mem_append_left _) id
        · refine .inl (List.mem_append_right _ (List.mem_range'_1.mpr ⟨by omega, less⟩))
      · rw [idle] at phase ⊢
        exact phase

/-- The grace period has expired. -/
theorem Queued.expired (queued : server.Queued server.accepting.queued [])
    (state : server.state.state = .stopping) (sockets : Nat) :
    (server.consume sockets .expired).Sound := by
  have discarded : { server with
      servingDiscard := fun client =>
        server.servingDiscard client || server.clients.contains client }.Queued
      server.accepting.queued [] := { queued with }
  exact discarded.awaitClients state rfl .discarded (fun _ => rfl) fun _ awaits => ⟨state, awaits⟩

theorem Queued.clear (queued : server.Queued server.accepting.queued [])
    (state : server.state.state = .stopping) (served : server.Served) (sockets : Nat) :
    (server.consume sockets .clear).Sound :=
  ⟨{ queued with known := fun client less => .inr (served client less) },
    state, served, rfl, .create [()]⟩

theorem Sound.completeStop {outcome : Outcome} (sound : server.Sound)
    (permitted : outcome = .ready → server.state.state = .stopped) :
    (server.completeStop outcome).Sound := by
  unfold ServerProcess.completeStop
  split
  · exact sound.complete _ permitted
  · refine sound.complete _ fun ready => ?_
    split at ready <;> cases ready
  · exact sound

/-- The server is stopped. -/
theorem Queued.finish (queued : server.Queued server.accepting.queued [])
    (state : server.state.state = .stopping) (served : server.Served)
    (completed : server.accepting.isCompleted = true) (sockets : Nat) :
    (server.consume sockets .finish).Sound := by
  simp only [ServerProcess.consume, StateMachine.transition, if_pos state]
  refine Sound.completeStop ⟨{ queued with
    unstarted := nofun
    promises := fun state different => ?_
    results := fun _ _ => rfl }, rfl, served, completed⟩ fun _ => rfl
  simp only [ServerProcess.notify, Function.update_of_ne different]
  exact queued.promises state different

theorem Sound.popPlain {event : Event} {events : List Event} (sound : server.Sound)
    (top : server.events = event :: events) (notLoop : event.isLoop = false)
    (notStop : event.isStop = false) : { server with events }.Sound := by
  obtain ⟨loops, stops, queued, sameLoops, sameStops⟩ := sound.queued.pop top
  simp only [notLoop, notStop, Bool.false_eq_true, if_false, List.nil_append]
    at sameLoops sameStops
  exact ⟨sameLoops ▸ sameStops ▸ queued, sound.phase.frame rfl rfl (fun _ => id) id⟩

theorem Sound.popLoop {event : Event} {events : List Event} (sound : server.Sound)
    (top : server.events = event :: events) (isLoop : event.isLoop = true)
    (notStop : event.isStop = false) :
    { server with events }.Queued [] server.stopping.queued ∧
      server.state.state ≠ .initialized ∧ server.accepting.isCompleted = false := by
  obtain ⟨loops, stops, queued, sameLoops, sameStops⟩ := sound.queued.pop top
  rw [if_pos isLoop] at sameLoops
  simp only [notStop, Bool.false_eq_true, if_false, List.nil_append] at sameStops
  obtain ⟨rfl, pending, started⟩ := Accepting.queued_cons sameLoops
  exact ⟨sameStops ▸ queued, fun initialized => started (sound.queued.unstarted initialized),
    pending⟩

theorem Sound.popStop {event : Event} {events : List Event} (sound : server.Sound)
    (top : server.events = event :: events) (notLoop : event.isLoop = false)
    (isStop : event.isStop = true) :
    { server with events }.Queued server.accepting.queued [] ∧
      (event = .expired ∧ server.stopping = .expired ∨
        event = .clear ∧ server.stopping = .clear ∨
        event = .finish ∧ server.stopping = .finish) := by
  obtain ⟨loops, stops, queued, sameLoops, sameStops⟩ := sound.queued.pop top
  simp only [notLoop, Bool.false_eq_true, if_false, List.nil_append] at sameLoops
  rw [if_pos isStop] at sameStops
  obtain ⟨rfl, progress⟩ := Stopping.queued_cons sameStops
  exact ⟨sameLoops ▸ queued, progress⟩

theorem Sound.consume {event : Event} {events : List Event} (sound : server.Sound)
    (top : server.events = event :: events) (sockets : Nat) :
    ({ server with events }.consume sockets event).Sound := by
  have phase : { server with events }.Phase server.stopping :=
    sound.phase.frame rfl rfl (fun _ => id) id
  cases event with
  | run call => exact (sound.popPlain top rfl rfl).run sockets call
  | stop call => exact (sound.popPlain top rfl rfl).stopCall sockets call
  | stopped => exact (sound.popPlain top rfl rfl).whenStopped
  | recover => exact (sound.popPlain top rfl rfl).recover sockets
  | erase client =>
      exact (sound.popPlain top rfl rfl).erase (sound.queued.erased client (by simp [top]))
  | start =>
      obtain ⟨queued, started, pending⟩ := sound.popLoop top rfl rfl
      exact queued.continueLoop phase started pending sockets
  | accepted outcome =>
      obtain ⟨queued, started, pending⟩ := sound.popLoop top rfl rfl
      cases outcome with
      | ready => exact queued.continueLoop phase started pending (sockets + 1)
      | failed | discarded => exact queued.completeAccepting phase started _
  | expired =>
      obtain ⟨queued, progress⟩ := sound.popStop top rfl rfl
      have isExpired : server.stopping = .expired := by simpa using progress
      rw [isExpired] at phase
      exact queued.expired phase sockets
  | clear =>
      obtain ⟨queued, progress⟩ := sound.popStop top rfl rfl
      have isClear : server.stopping = .clear := by simpa using progress
      rw [isClear] at phase
      exact queued.clear phase.1 phase.2 sockets
  | finish =>
      obtain ⟨queued, progress⟩ := sound.popStop top rfl rfl
      have isFinish : server.stopping = .finish := by simpa using progress
      rw [isFinish] at phase
      exact queued.finish phase.1 phase.2.1 phase.2.2 sockets

/-- The process that waits for the clients hears of one. -/
theorem Sound.waited {client : Nat} {await : AwaitProcess Nat} (sound : server.Sound)
    (waiting : AwaitProcess Nat → Stopping) (state : server.state.state = .stopping)
    (awaits : server.AwaitsClients await) (free : server.stopping.queued = [])
    (freeAfter : ∀ await, (waiting await).queued = [])
    (phase : ∀ await, server.AwaitsClients await → server.Phase (waiting await))
    (stepped : server.waited client await waiting = some next) : next.Sound := by
  have queued := sound.queued
  rw [free] at queued
  simp only [ServerProcess.waited] at stepped
  split at stepped
  · rename_i heard
    have valid := awaits.valid.waited heard.1 heard.2
    split at stepped <;> cases stepped
    · rename_i isSet
      have served : server.Served := fun other less =>
        (awaits.covers other less).elim (valid.of_isSet isSet other) id
      have cleared : { server with stopping := Stopping.clear }.Queued server.accepting.queued [] :=
        { queued with }
      exact ⟨cleared.dispatch .clear nofun (by simp [Event.isLoop]) rfl, state, served⟩
    · refine ⟨?_, (phase _ ⟨valid, awaits.covers⟩).frame rfl rfl (fun _ => id) id⟩
      simp only [freeAfter]
      exact { queued with }
  · cases stepped

/-- The future of `accept` is completed or abandoned. -/
theorem Sound.leaveAccept (sound : server.Sound) (accepting : server.accepting = .accept)
    (later : Accepting) : { server with accepting := later }.Queued [] server.stopping.queued ∧
      { server with accepting := later }.Phase server.stopping := by
  have queued := sound.queued
  rw [accepting] at queued
  refine ⟨{ queued with unstarted := fun initialized => ?_ },
    sound.phase.frame rfl rfl (fun _ => id) fun completed => ?_⟩
  · cases accepting.symm.trans (queued.unstarted initialized)
  · rw [accepting] at completed
    cases completed

theorem Sound.step {label : Label} (sound : server.Sound) (stepped : server.step label = some next) :
    next.Sound := by
  have queued := sound.queued
  have phase := sound.phase
  cases label with
  | run | stop =>
      cases stepped
      have called : { server with calls := server.calls + 1 }.Queued server.accepting.queued
          server.stopping.queued := { queued with }
      exact ⟨called.dispatch _ nofun (by simp [Event.isLoop]) (by simp [Event.isStop]),
        phase.frame rfl rfl (fun _ => id) id⟩
  | discard call =>
      simp only [ServerProcess.step] at stepped
      split at stepped <;> cases stepped
      exact ⟨{ queued with }, phase.frame rfl rfl (fun _ => id) id⟩
  | accept outcome =>
      simp only [ServerProcess.step] at stepped
      split at stepped <;> cases stepped
      rename_i permitted
      obtain ⟨left, progress⟩ := sound.leaveAccept permitted.1 (.dispatched outcome)
      exact ⟨left.dispatch _ nofun rfl (by simp [Event.isStop]),
        progress.frame rfl rfl (fun _ => id) id⟩
  | abandon =>
      simp only [ServerProcess.step] at stepped
      split at stepped <;> cases stepped
      rename_i accepting
      obtain ⟨left, progress⟩ := sound.leaveAccept accepting .abandoned
      exact ⟨left.dispatch _ nofun rfl (by simp [Event.isStop]),
        progress.frame rfl rfl (fun _ => id) id⟩
  | serve client outcome =>
      simp only [ServerProcess.step] at stepped
      split at stepped <;> cases stepped
      have serving (other : Nat) (done : server.serving other ≠ none) :
          Function.update server.serving client (some outcome) other ≠ none := by
        rw [Function.update_apply]
        split
        · nofun
        · exact done
      have served : { server with
          serving := Function.update server.serving client (some outcome) }.Queued
            server.accepting.queued server.stopping.queued :=
        { queued with
          erased := fun other member => serving other (queued.erased other member)
          known := fun other less => (queued.known other less).imp id (serving other) }
      refine ⟨served.dispatch _ (fun other same => ?_) (by simp [Event.isLoop])
        (by simp [Event.isStop]), phase.frame rfl rfl serving id⟩
      cases same
      simp
  | waited client =>
      simp only [ServerProcess.step] at stepped
      split at stepped
      · rename_i await progress
        rw [progress] at phase
        exact sound.waited .clients phase.1 phase.2 (by rw [progress]; rfl) (fun _ => rfl)
          (fun _ awaits => ⟨phase.1, awaits⟩) stepped
      · rename_i await progress
        rw [progress] at phase
        exact sound.waited .discarded phase.1 phase.2 (by rw [progress]; rfl) (fun _ => rfl)
          (fun _ awaits => ⟨phase.1, awaits⟩) stepped
      · cases stepped
  | expire =>
      simp only [ServerProcess.step] at stepped
      split at stepped <;> cases stepped
      rename_i progress
      rw [progress] at queued phase
      have expired : { server with stopping := .expired }.Queued server.accepting.queued [] :=
        { queued with }
      exact ⟨expired.dispatch .expired nofun (by simp [Event.isLoop]) rfl, phase.1⟩
  | awaited =>
      simp only [ServerProcess.step] at stepped
      split at stepped
      · rename_i await progress
        rw [progress] at queued phase
        obtain ⟨state, served, futures, valid⟩ := phase
        split at stepped
        · rename_i heard
          have validAfter := valid.waited heard.1 heard.2
          split at stepped <;> cases stepped
          · rename_i isSet
            have completed := validAfter.of_isSet isSet () (by simp [AwaitProcess.waited, futures])
            have finish : { server with stopping := .finish }.Queued server.accepting.queued [] :=
              { queued with }
            exact ⟨finish.dispatch .finish nofun (by simp [Event.isLoop]) rfl, state, served,
              completed⟩
          · exact ⟨{ queued with }, state, served, futures, validAfter⟩
        · cases stepped
      · cases stepped
  | consume sockets =>
      simp only [ServerProcess.step] at stepped
      split at stepped <;> cases stepped
      exact sound.consume ‹_› sockets

end ServerProcess

end Libprocess.Server
