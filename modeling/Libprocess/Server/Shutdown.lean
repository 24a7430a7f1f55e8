import Libprocess.Server.Stopping

/-!
# Shutdown

The states of the server follow one another, no client is added once the server is stopping,
and when it is stopped nothing is left that it has started.
-/

namespace Libprocess.Server

open Concurrency
open Sequence (Outcome)

/-- The order of the states. -/
inductive State.Moves : State → State → Prop where
  | run : Moves .initialized .running
  | stop : Moves .running .stopping
  | finish : Moves .stopping .stopped

namespace ServerProcess

variable {server next : ServerProcess}

theorem awaitClients_frame (server : ServerProcess) (waiting : AwaitProcess Nat → Stopping) :
    (server.awaitClients waiting).state = server.state ∧
      (server.awaitClients waiting).clients = server.clients ∧
      (server.awaitClients waiting).accepted = server.accepted := by
  unfold awaitClients
  split <;> exact ⟨rfl, rfl, rfl⟩

theorem stop_frame {stopper : Stopper} (began : server.stop stopper = some next) :
    State.Moves server.state.state next.state.state ∧ next.clients = server.clients ∧
      next.accepted = server.accepted := by
  have running := running_of_stop began
  simp only [stop, StateMachine.transition, if_pos running, Option.map_some,
    Option.some.injEq] at began
  subst began
  obtain ⟨state, clients, accepted⟩ := awaitClients_frame _ _
  rw [state, clients, accepted]
  exact ⟨running ▸ .stop, rfl, rfl⟩

theorem whenStopped_frame (server : ServerProcess) :
    server.whenStopped.state.state = server.state.state ∧
      server.whenStopped.clients = server.clients ∧
      server.whenStopped.accepted = server.accepted := by
  unfold whenStopped
  split
  · exact ⟨rfl, rfl, rfl⟩
  · split <;> exact ⟨rfl, rfl, rfl⟩

/-- What a step does to the state and to the table of clients. -/
structure Proceeds (server next : ServerProcess) : Prop where
  state : next.state.state = server.state.state ∨
    State.Moves server.state.state next.state.state
  clients : server.state.state = .running ∨
    (∀ client ∈ next.clients, client ∈ server.clients) ∧ next.accepted = server.accepted

theorem Proceeds.of_same (state : next.state.state = server.state.state)
    (clients : next.clients = server.clients) (accepted : next.accepted = server.accepted) :
    server.Proceeds next :=
  ⟨.inl state, .inr ⟨fun _ member => clients ▸ member, accepted⟩⟩

theorem Proceeds.of_moves (state : State.Moves server.state.state next.state.state)
    (clients : next.clients = server.clients) (accepted : next.accepted = server.accepted) :
    server.Proceeds next :=
  ⟨.inr state, .inr ⟨fun _ member => clients ▸ member, accepted⟩⟩

/-- Clients are added by the accept loop while the server is running. -/
theorem Proceeds.loop (phase : server.Phase server.stopping)
    (started : server.state.state ≠ .initialized)
    (pending : server.accepting.isCompleted = false) (sockets : Nat) :
    server.Proceeds (server.loop sockets) := by
  unfold ServerProcess.loop
  split
  · exact .of_same rfl rfl rfl
  · split
    · exact .of_same rfl rfl rfl
    · rename_i notStopping
      exact ⟨.inl rfl, .inl (phase.running started pending notStopping)⟩

theorem Proceeds.stopOr {stopper : Stopper} {other : ServerProcess}
    (otherwise : server.Proceeds other) :
    server.Proceeds ((server.stop stopper).getD other) := by
  cases began : server.stop stopper with
  | none => exact otherwise
  | some next =>
      obtain ⟨state, clients, accepted⟩ := stop_frame began
      exact .of_moves state clients accepted

theorem Proceeds.whenStopped (server : ServerProcess) : server.Proceeds server.whenStopped := by
  obtain ⟨state, clients, accepted⟩ := whenStopped_frame server
  exact .of_same state clients accepted

theorem Proceeds.completeStop (outcome : Outcome) (proceeds : server.Proceeds next) :
    server.Proceeds (next.completeStop outcome) := by
  unfold ServerProcess.completeStop
  split <;> exact ⟨proceeds.state, proceeds.clients⟩

theorem Proceeds.consume {event : Event} {events : List Event} (sound : server.Sound)
    (top : server.events = event :: events) (sockets : Nat) :
    { server with events }.Proceeds ({ server with events }.consume sockets event) := by
  have phase : { server with events }.Phase server.stopping :=
    sound.phase.frame rfl rfl (fun _ => id) id
  cases event with
  | run call =>
      simp only [ServerProcess.consume]
      split
      · exact .of_same rfl rfl rfl
      · rename_i moved
        simp only [StateMachine.transition] at moved
        split at moved <;> cases moved
        rename_i initialized
        refine .of_moves ?_ rfl rfl
        change State.Moves server.state.state _
        rw [initialized]
        exact .run
  | stop call => exact .stopOr (.of_same rfl rfl rfl)
  | stopped => exact .whenStopped _
  | recover =>
      simp only [ServerProcess.consume]
      split
      · exact .stopOr (.of_same rfl rfl rfl)
      · exact .whenStopped _
  | erase client => exact ⟨.inl rfl, .inr ⟨fun _ => List.mem_of_mem_erase, rfl⟩⟩
  | start =>
      obtain ⟨-, started, pending⟩ := sound.popLoop top rfl rfl
      exact .loop phase started pending sockets
  | accepted outcome =>
      obtain ⟨-, started, pending⟩ := sound.popLoop top rfl rfl
      cases outcome with
      | ready => exact .loop phase started pending (sockets + 1)
      | failed | discarded => exact .of_same rfl rfl rfl
  | expired =>
      obtain ⟨state, clients, accepted⟩ := awaitClients_frame { server with
        events
        servingDiscard := fun client =>
          server.servingDiscard client || server.clients.contains client } .discarded
      exact .of_same (congrArg StateMachine.state state) clients accepted
  | clear => exact ⟨.inl rfl, .inr ⟨fun _ => (absurd · List.not_mem_nil), rfl⟩⟩
  | finish =>
      simp only [ServerProcess.consume]
      split
      · exact .completeStop _ (.of_same rfl rfl rfl)
      · rename_i moved
        simp only [StateMachine.transition] at moved
        split at moved <;> cases moved
        rename_i stopping
        refine .completeStop _ (.of_moves ?_ rfl rfl)
        change State.Moves server.state.state _
        rw [stopping]
        exact .finish

theorem Proceeds.waited {client : Nat} {await : AwaitProcess Nat}
    {waiting : AwaitProcess Nat → Stopping}
    (stepped : server.waited client await waiting = some next) : server.Proceeds next := by
  simp only [ServerProcess.waited] at stepped
  split at stepped
  · split at stepped <;> cases stepped <;> exact .of_same rfl rfl rfl
  · cases stepped

theorem Proceeds.step {label : Label} (sound : server.Sound)
    (stepped : server.step label = some next) : server.Proceeds next := by
  cases label with
  | run | stop =>
      cases stepped
      exact .of_same rfl rfl rfl
  | discard | accept | abandon | serve | expire =>
      simp only [ServerProcess.step] at stepped
      split at stepped <;> cases stepped
      exact .of_same rfl rfl rfl
  | waited client =>
      simp only [ServerProcess.step] at stepped
      split at stepped
      · exact .waited stepped
      · exact .waited stepped
      · cases stepped
  | awaited =>
      simp only [ServerProcess.step] at stepped
      split at stepped
      · split at stepped
        · split at stepped <;> cases stepped <;> exact .of_same rfl rfl rfl
        · cases stepped
      · cases stepped
  | consume sockets =>
      simp only [ServerProcess.step] at stepped
      split at stepped <;> cases stepped
      have proceeds := Proceeds.consume sound ‹_› sockets
      exact ⟨proceeds.state, proceeds.clients⟩

theorem sound_of_reachable (reached : machine.Reachable server) : server.Sound := by
  refine reached.invariant Sound ?_ ?_
  · rintro state rfl
    exact .init
  · intro state label next sound _ stepped
    exact sound.step stepped

/-- The state of the server moves forward only, no client is added when the server is not
running, and once the server is stopped, or the future of a call of `stop` is ready, the
accept loop and all clients ever accepted are done. -/
theorem server_stopsCleanly (reached : machine.Reachable server) :
    (∀ label next, server.step label = some next →
      (next.state.state = server.state.state ∨
        State.Moves server.state.state next.state.state) ∧
      (server.state.state ≠ .running → (∀ client ∈ next.clients, client ∈ server.clients) ∧
        next.accepted = server.accepted)) ∧
    (server.state.state = .stopped →
      (∃ outcome, server.accepting = .completed outcome) ∧
      ∀ client < server.accepted, server.serving client ≠ none) ∧
    (∀ call, server.results call = some .ready → server.state.state = .stopped) := by
  have sound := sound_of_reachable reached
  refine ⟨fun label next stepped => ?_, fun stopped => ?_, sound.queued.results⟩
  · have proceeds := Proceeds.step sound stepped
    exact ⟨proceeds.state, proceeds.clients.resolve_left⟩
  · obtain ⟨served, completed⟩ := sound.phase.of_stopped stopped
    refine ⟨?_, served⟩
    cases accepting : server.accepting with
    | completed outcome => exact ⟨outcome, rfl⟩
    | unstarted | starting | accept | dispatched | abandoned =>
        rw [accepting] at completed
        cases completed

/-- Two clients are accepted, and one more socket is ready when `stop` is called.  The grace
period expires, and the second client is discarded. -/
def graceSchedule : List Label :=
  [.run, .consume 0, .consume 0, .accept .ready, .consume 1, .stop, .accept .ready, .consume 0,
    .consume 0, .consume 0, .serve 0 .ready, .waited 0, .expire, .consume 0, .consume 0,
    .discard 1, .serve 1 .discarded, .waited 1, .consume 0, .consume 0, .awaited, .consume 0]

theorem server_stopsCleanly_grace : ∃ server, machine.Reachable server ∧
    server.accepted = 2 ∧ server.results 1 = some .ready ∧
    ∀ client < server.accepted, server.serving client ≠ none := by
  obtain ⟨server, ran, accepted, ready⟩ : ∃ server ∈ machine.run .init graceSchedule,
      server.accepted = 2 ∧ server.results 1 = some .ready := by
    decide +kernel
  have reached : machine.Reachable server := .of_run rfl ran
  obtain ⟨-, stopped, results⟩ := server_stopsCleanly reached
  exact ⟨server, reached, accepted, ready, (stopped (results 1 ready)).2⟩

end ServerProcess

end Libprocess.Server
