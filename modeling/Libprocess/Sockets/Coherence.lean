import Libprocess.Sockets.Drivers

/-!
# Coherence of the SocketManager's tables

In every run of the network no check fails, and the tables of the manager are coherent
with each other and with the tasks.
-/

namespace Libprocess.Sockets

open Containers Concurrency

namespace Network

variable {names : ProcessId → String} {here : Address} {flags : Flags} {network next : Network}
  {event : Event}

/-- The tasks other than the one that takes the step. -/
def rest (network : Network) (event : Event) : List Task :=
  match event.task with
  | none => network.tasks
  | some task => network.tasks.erase task

theorem Enabled.perm (enabled : network.Enabled event) :
    network.tasks.Perm (SocketManager.before event (network.rest event)) := by
  have member := enabled.2.1
  simp only [SocketManager.before, rest]
  cases own : event.task with
  | none => exact .refl _
  | some task => exact List.perm_cons_erase (member task own)

/-- A step is enabled and either fails a check or is what the event does. -/
theorem step_cases (stepped : network.step names here flags event = some next) :
    network.Enabled event ∧
    ((network.manager.perform names here flags network.messages.length event = none ∧
        next = { network with aborted := true }) ∨
      ∃ manager started,
        network.manager.perform names here flags network.messages.length event =
          some (manager, started) ∧
        next = ⟨manager, started ++ network.rest event,
          network.messages ++ network.submitted event, network.handed ++ bytes event, false⟩) := by
  simp only [step] at stepped
  split at stepped
  case isFalse => simp at stepped
  case isTrue enabled =>
    refine ⟨enabled, ?_⟩
    simp only [Option.some.injEq] at stepped
    cases performed : network.manager.perform names here flags network.messages.length event with
    | none => exact .inl ⟨rfl, by rw [← stepped, performed]⟩
    | some result =>
        refine .inr ⟨result.1, result.2, rfl, ?_⟩
        rw [← stepped, performed]
        rfl

/-- The agreement of the manager with its tasks, in a network that is not aborted. -/
def Driven (here : Address) (network : Network) : Prop :=
  network.aborted = false ∧ network.manager.Driven here network.tasks

theorem driven_empty (here : Address) : empty.Driven here := by
  refine ⟨rfl, SocketManager.tables_empty, ⟨Links.consistent_empty here, nofun⟩, fun socket => ?_⟩
  exact ⟨nofun, nofun, nofun⟩

/-- Every step of a coherent network is what the event does. -/
theorem Driven.step (driven : network.Driven here)
    (stepped : network.step names here flags event = some next) :
    ∃ started, network.manager.perform names here flags network.messages.length event =
        some (next.manager, started) ∧
      next.tasks = started ++ network.rest event ∧
      next.messages = network.messages ++ network.submitted event ∧
      next.handed = network.handed ++ bytes event ∧ next.Driven here := by
  obtain ⟨enabled, outcome⟩ := step_cases stepped
  have moved : network.manager.Driven here (SocketManager.before event (network.rest event)) :=
    ⟨driven.2.tables, driven.2.notifying, fun socket =>
      (driven.2.holds socket).of_perm enabled.perm⟩
  have fresh : ∀ target ∈ event.created, network.manager.sockets target = false ∧
      ∀ other ∈ SocketManager.before event (network.rest event), other.socket ≠ target :=
    fun target created => ⟨(enabled.2.2.1 target created).1, fun other member =>
      (enabled.2.2.1 target created).2 other (enabled.perm.mem_iff.mpr member)⟩
  obtain ⟨after, started, performed, kept⟩ :
      SocketManager.Proceeds here (network.manager.perform names here flags
        network.messages.length event) (network.rest event) :=
    moved.perform event network.messages.length fresh
  rcases outcome with ⟨failed, -⟩ | ⟨manager, others, executed, rfl⟩
  · simp [performed] at failed
  · cases performed.symm.trans executed
    exact ⟨started, performed, rfl, rfl, rfl, rfl, kept⟩

theorem driven_of_reachable (reached : (machine names here flags).Reachable network) :
    network.Driven here :=
  reached.invariant (Driven here) (by rintro _ rfl; exact driven_empty here)
    fun _ _ _ driven _ stepped => (driven.step stepped).choose_spec.2.2.2.2

/-- The tables of a manager and the tasks that use it. -/
structure Coherent (network : Network) : Prop where
  /-- Only known sockets have entries. -/
  keys : ∀ socket, network.manager.sockets socket = false →
    network.manager.addresses socket = none ∧ network.manager.dispose socket = false ∧
      network.manager.outgoing socket = none ∧ network.manager.proxies socket = none
  persists : ∀ address socket, network.manager.persists address = some socket →
    network.manager.sockets socket = true ∧ network.manager.addresses socket = some address
  temps : ∀ address socket, network.manager.temps address = some socket →
    network.manager.sockets socket = true ∧ network.manager.addresses socket = some address
  addresses : ∀ socket address, network.manager.addresses socket = some address →
    network.manager.persists address = some socket ∨ network.manager.temps address = some socket
  dispose : ∀ socket address, network.manager.dispose socket = true →
    network.manager.addresses socket = some address →
      network.manager.temps address = some socket
  /-- A known socket with an outgoing queue has one connect in flight or one sender loop,
  and a known socket without a queue has neither. -/
  outgoing : ∀ socket, network.manager.sockets socket = true →
    network.tasks.countP (Task.connects socket) + network.tasks.countP (Task.sends socket) =
      if (network.manager.outgoing socket).isSome then 1 else 0

theorem countP_drives (socket : Fd) (tasks : List Task) :
    tasks.countP (Task.drives socket) =
      tasks.countP (Task.connects socket) + tasks.countP (Task.sends socket) := by
  induction tasks with
  | nil => rfl
  | cons task rest ih =>
      have apart : ¬ (task.connects socket = true ∧ task.sends socket = true) := by
        cases task <;> simp [Task.connects, Task.sends]
      simp only [List.countP_cons, ih, Task.drives]
      grind

theorem Driven.coherent (driven : network.Driven here) : network.Coherent where
  keys socket unknown := driven.2.tables.entries unknown
  persists address socket entry :=
    have own := (driven.2.tables.persists address socket).mp entry
    ⟨driven.2.tables.known_of_address own.1, own.1⟩
  temps address socket entry :=
    have own := (driven.2.tables.temps address socket).mp entry
    ⟨driven.2.tables.known_of_address own.1, own.1⟩
  addresses socket address connected := by
    cases disposed : network.manager.dispose socket with
    | false => exact .inl ((driven.2.tables.persists address socket).mpr ⟨connected, disposed⟩)
    | true => exact .inr ((driven.2.tables.temps address socket).mpr ⟨connected, disposed⟩)
  dispose socket address disposed connected :=
    (driven.2.tables.temps address socket).mpr ⟨connected, disposed⟩
  outgoing socket known := by
    rw [← countP_drives, (driven.2.holds socket).driven known]
    simp only [SocketManager.view]
    cases (network.manager.outgoing socket).isSome <;> rfl

/-- In every state of every run the network is coherent and no check has failed. -/
theorem tables_coherent (names : ProcessId → String) (here : Address) (flags : Flags)
    {network : Network} (reached : (machine names here flags).Reachable network) :
    network.Coherent ∧ network.aborted = false :=
  ⟨(driven_of_reachable reached).coherent, (driven_of_reachable reached).1⟩

/-- A message waits for a connect that is downgraded, while a link replaces its socket. -/
theorem tables_coherent_reconnected :
    ∃ network, (machine (fun _ => "") 0 ⟨true, true⟩).run empty
        [.send 7 2 .ssl (some 3), .link 1 ⟨"remote", 7⟩ .reuse .ssl (some 4),
          .sendConnect 3 .ssl ⟨0, 7, 2⟩ (.failed (some 5)),
          .link 1 ⟨"remote", 7⟩ .reconnect .ssl (some 6), .linkConnect 4 .ssl 7 .connected,
          .sendConnect 5 .poll ⟨0, 7, 2⟩ .connected, .linkConnect 6 .ssl 7 .connected] =
        some network ∧
      network.tasks.length = 4 ∧ network.Coherent := by
  obtain ⟨network, ran, length⟩ : ∃ network ∈ (machine (fun _ => "") 0 ⟨true, true⟩).run empty
      [.send 7 2 .ssl (some 3), .link 1 ⟨"remote", 7⟩ .reuse .ssl (some 4),
        .sendConnect 3 .ssl ⟨0, 7, 2⟩ (.failed (some 5)),
        .link 1 ⟨"remote", 7⟩ .reconnect .ssl (some 6), .linkConnect 4 .ssl 7 .connected,
        .sendConnect 5 .poll ⟨0, 7, 2⟩ .connected, .linkConnect 6 .ssl 7 .connected],
      network.tasks.length = 4 := by
    decide
  exact ⟨network, ran, length,
    (tables_coherent (fun _ => "") 0 ⟨true, true⟩ (.of_run rfl ran)).1⟩

end Network

end Libprocess.Sockets
