import Libprocess.Sockets.Manager

/-!
# Exited events

Every link that a `SocketManager` removes is reported to its linker once, or was a link
of the process that exits.  This holds for any sequence of operations on the manager,
with any arguments: an operation that fails a check ends the program.
-/

namespace Libprocess.Sockets

open Containers Concurrency

/-- The operations on a manager, each atomic under its mutex. -/
inductive Operation where
  | accepted (socket : Fd)
  | link (process : ProcessId) (linkee : UPID) (remote : RemoteConnection)
      (created : Option Fd)
  | proxy (socket : Fd) (created : ProcessId)
  | unproxy (socket : Fd)
  | send (encoder : Encoder) (persist : Bool) (socket : Fd)
  | sendMessage (address : Address) (encoder : Encoder) (created : Option Fd)
  | next (socket : Fd)
  | close (socket : Fd)
  | exited (process : ProcessId)
  | swapImplementingSocket (source target : Fd)
  deriving DecidableEq, Repr

namespace SocketManager

-- All processes are at the address of this `libprocess`.
variable (names : ProcessId → String) (here : Address)

def execute (manager : SocketManager) : Operation → Option SocketManager
  | .accepted socket => manager.accepted socket
  | .link process linkee remote created =>
      (manager.link here process linkee remote created).map Prod.fst
  | .proxy socket created => some (manager.proxy socket created)
  | .unproxy socket => some (manager.unproxy socket)
  | .send encoder persist socket => some (manager.send encoder persist socket).1
  | .sendMessage address encoder created =>
      (manager.sendMessage address encoder created).map Prod.fst
  | .next socket => (manager.next socket).map Prod.fst
  | .close socket => manager.close socket
  | .exited process => manager.exited here process ⟨names process, here⟩
  | .swapImplementingSocket source target => manager.swapImplementingSocket source target

def operations : Automaton SocketManager Operation where
  start := (· = empty)
  step := execute names here

/-- The links are consistent, and the loss of the socket to a remote linkee notifies. -/
structure Notifying (manager : SocketManager) : Prop where
  consistent : manager.toLinks.Consistent here
  persistent : ∀ address, manager.remotes.contains address = true →
    (manager.persists address).isSome = true

variable {names here}

/-- The operation does not touch the links, and closes no persistent socket. -/
def Unlinking (before after : SocketManager) : Prop :=
  after.toLinks = before.toLinks ∧
    ∀ address, (before.persists address).isSome = true → (after.persists address).isSome = true

variable {manager after : SocketManager}

theorem Unlinking.refl (manager : SocketManager) : Unlinking manager manager :=
  ⟨rfl, fun _ => id⟩

theorem Notifying.unlinking (notifying : manager.Notifying here)
    (same : Unlinking manager after) : after.Notifying here := by
  refine ⟨same.1 ▸ notifying.consistent, fun address contained => ?_⟩
  exact same.2 address (notifying.persistent address (same.1 ▸ contained))

theorem accepted_unlinking {socket : Fd} (executed : manager.accepted socket = some after) :
    Unlinking manager after := by
  simp only [accepted] at executed
  split at executed
  · simp at executed
  · cases executed
    exact ⟨rfl, fun _ => id⟩

theorem proxy_unlinking (manager : SocketManager) (socket : Fd) (created : ProcessId) :
    Unlinking manager (manager.proxy socket created) := by
  unfold proxy
  split
  · exact ⟨rfl, fun _ => id⟩
  · exact .refl manager

theorem swapImplementingSocket_unlinking {source target : Fd}
    (executed : manager.swapImplementingSocket source target = some after) :
    Unlinking manager after := by
  simp only [swapImplementingSocket] at executed
  split at executed
  · obtain ⟨address, -, rfl⟩ := Option.map_eq_some_iff.mp executed
    refine ⟨rfl, fun other present => ?_⟩
    simp only [swap]
    split
    · by_cases same : other = address
      · simp [same]
      · simp [same, present]
    · exact present
  · simp at executed

theorem send_unlinking (manager : SocketManager) (encoder : Encoder) (persist : Bool)
    (socket : Fd) : Unlinking manager (manager.send encoder persist socket).1 := by
  simp only [send]
  split
  · cases manager.outgoing socket <;> exact ⟨rfl, fun _ => id⟩
  · exact .refl manager

theorem sendMessage_unlinking {address : Address} {encoder : Encoder} {created : Option Fd}
    {dispatch : Dispatch}
    (executed : manager.sendMessage address encoder created = some (after, dispatch)) :
    Unlinking manager after := by
  simp only [sendMessage] at executed
  split at executed
  · rename_i socket _
    split at executed
    · have same := send_unlinking manager encoder (manager.persists address).isSome socket
      split at executed
      all_goals
        rename_i sent
        cases executed
        rwa [sent] at same
    · simp at executed
  · split at executed
    · cases executed
      exact .refl manager
    · split at executed
      · simp at executed
      · cases executed
        exact ⟨rfl, fun _ => id⟩

theorem disposeSocket_unlinking {socket : Fd}
    (executed : manager.disposeSocket socket = some after) : Unlinking manager after := by
  simp only [disposeSocket] at executed
  split at executed
  · cases executed
    exact ⟨rfl, fun _ => id⟩
  · split at executed
    · cases executed
      exact ⟨rfl, fun _ => id⟩
    · simp at executed

theorem next_unlinking {socket : Fd} {encoder : Option Encoder}
    (executed : manager.next socket = some (after, encoder)) : Unlinking manager after := by
  simp only [next] at executed
  split at executed
  · split at executed
    · simp at executed
    · cases executed
      exact ⟨rfl, fun _ => id⟩
    · split at executed
      · simp only [Option.map_eq_some_iff, Prod.mk.injEq] at executed
        obtain ⟨_, disposed, rfl, -⟩ := executed
        have same := disposeSocket_unlinking disposed
        exact ⟨same.1, same.2⟩
      · cases executed
        exact ⟨rfl, fun _ => id⟩
  · cases executed
    exact .refl manager

/-- The process that exits in an operation. -/
def exiting : Operation → Option ProcessId
  | .exited process => some process
  | _ => none

/-- What an operation says about the links that it removes.  The links of `except` are
removed without a report. -/
def Notified (except : Option ProcessId) (before after : SocketManager) : Prop :=
  ∃ news, after.delivered = before.delivered ++ news ∧ ∀ linker linkee,
    before.Linked linker linkee → ¬ after.Linked linker linkee →
      news.count ⟨linker, linkee⟩ = if except = some linker then 0 else 1

theorem Unlinking.notified (same : Unlinking manager after) :
    Notified none manager after := by
  refine ⟨[], by simp [same.1], fun linker linkee was gone => absurd ?_ gone⟩
  rw [same.1]
  exact was

theorem notified_of_reported (reported : Links.Reported manager.toLinks after.toLinks) :
    Notified none manager after := by
  obtain ⟨news, delivered, reported⟩ := reported
  refine ⟨news, delivered, fun linker linkee was gone => ?_⟩
  rcases reported linker linkee with ⟨count, -, -⟩ | ⟨-, same⟩
  · simpa using count
  · exact absurd (same.mp was) gone

/-- A link is added to a manager with a persistent socket to the linkee. -/
theorem Notifying.register (notifying : manager.Notifying here) (process : ProcessId)
    (linkee : UPID)
    (persistent : linkee.address ≠ here → (manager.persists linkee.address).isSome = true) :
    (manager.register here process linkee).Notifying here := by
  refine ⟨notifying.consistent.link process linkee, fun address contained => ?_⟩
  by_cases remote : linkee.address = here
  · refine notifying.persistent address ?_
    simpa [SocketManager.register, Links.link, remote] using contained
  · by_cases same : address = linkee.address
    · exact same ▸ persistent remote
    · refine notifying.persistent address ?_
      simpa [SocketManager.register, Links.link, remote, SetMap.contains, SetMap.insertAt, same]
        using contained

theorem notified_register (same : Unlinking manager after) (process : ProcessId)
    (linkee : UPID) : Notified none manager (after.register here process linkee) := by
  refine ⟨[], by simp [SocketManager.register, Links.link, same.1], ?_⟩
  intro linker other was gone
  refine absurd (Links.linked_link.mpr (.inr ?_)) gone
  rwa [same.1]

theorem persist_unlinking (manager : SocketManager) (address : Address) (socket : Fd) :
    Unlinking manager (manager.persist address socket) := by
  refine ⟨rfl, fun other present => ?_⟩
  by_cases same : other = address
  · simp [SocketManager.persist, emplace, same]
  · simpa [SocketManager.persist, emplace, same] using present

/-- `link` registers the process with the linkee, or tells it that no socket could be
created. -/
theorem link_cases {process : ProcessId} {linkee : UPID} {remote : RemoteConnection}
    {created connect : Option Fd}
    (executed : manager.link here process linkee remote created = some (after, connect)) :
    after = { manager with toLinks := manager.toLinks.deliver process linkee } ∨
    ∃ middle, Unlinking manager middle ∧ after = middle.register here process linkee ∧
      (linkee.address ≠ here → (middle.persists linkee.address).isSome = true) := by
  simp only [SocketManager.link] at executed
  split at executed
  case isTrue same =>
    cases executed
    exact .inr ⟨manager, .refl manager, rfl, fun remote => absurd same remote⟩
  case isFalse =>
    split at executed
    case h_1 =>
      split at executed
      · cases executed
        exact .inl rfl
      · split at executed
        · simp at executed
        · cases executed
          exact .inr ⟨_, persist_unlinking manager linkee.address _, rfl,
            fun _ => by simp [SocketManager.persist, emplace]⟩
    case h_2 existing persistent =>
      split at executed
      · cases executed
        exact .inr ⟨manager, .refl manager, rfl, fun _ => by simp [persistent]⟩
      · cases executed
        exact .inl rfl
      · split at executed
        · simp only [Option.bind_eq_bind, Option.bind_eq_some_iff, Option.pure_def,
            Option.some.injEq, Prod.mk.injEq] at executed
          obtain ⟨middle, swapped, rfl, -⟩ := executed
          have same := swapImplementingSocket_unlinking swapped
          exact .inr ⟨middle, same, rfl, fun _ => same.2 _ (by simp [persistent])⟩
        · simp at executed

theorem Notifying.link (notifying : manager.Notifying here) {process : ProcessId}
    {linkee : UPID} {remote : RemoteConnection} {created connect : Option Fd}
    (executed : manager.link here process linkee remote created = some (after, connect)) :
    after.Notifying here ∧ Notified none manager after := by
  rcases link_cases executed with rfl | ⟨middle, same, rfl, persistent⟩
  · refine ⟨⟨notifying.consistent.deliver process linkee, notifying.persistent⟩, _, rfl, ?_⟩
    exact fun linker other was gone => absurd was gone
  · exact ⟨(notifying.unlinking same).register process linkee persistent,
      notified_register same process linkee⟩

theorem Notified.forget (notified : Notified none manager after) (socket : Fd) :
    Notified none manager (after.forget socket) := notified

section

variable (notifying : manager.Notifying here)

include notifying

theorem Notifying.forget (socket : Fd) :
    (manager.forget socket).Notifying here :=
  ⟨notifying.consistent, notifying.persistent⟩

theorem Notifying.disconnect (socket : Fd)
    (address : Address) :
    ∃ after, manager.disconnect socket address = some after ∧ after.Notifying here ∧
      Notified none manager after := by
  by_cases persistent : manager.persists address = some socket
  · obtain ⟨links, executed, consistent, reported, gone, kept⟩ :=
      Links.exitedAddress_spec notifying.consistent address
    let after : SocketManager := { manager with
      toLinks := links
      persists := erase manager.persists address
      addresses := erase manager.addresses socket }
    refine ⟨after, by simp [SocketManager.disconnect, persistent, executed, after],
      ⟨consistent, fun other contained => ?_⟩, notified_of_reported reported⟩
    have different : other ≠ address := by
      rintro rfl
      have still : links.remotes.contains other = true := contained
      simp [gone] at still
    have present := notifying.persistent other
      (notifying.consistent.toIndexed.contains_of_linked consistent.toIndexed kept contained)
    simpa [after, erase, different] using present
  · have same (temps : Address → Option Fd) : Unlinking manager { manager with
        temps := temps, addresses := erase manager.addresses socket } := ⟨rfl, fun _ => id⟩
    by_cases temporary : manager.temps address = some socket
    · have left := same (erase manager.temps address)
      exact ⟨_, by simp only [SocketManager.disconnect, persistent, temporary, if_true,
        if_false], notifying.unlinking left, left.notified⟩
    · have left := same manager.temps
      exact ⟨_, by simp only [SocketManager.disconnect, persistent, temporary, if_false],
        notifying.unlinking left, left.notified⟩

/-- `close` fails no check; a link that it removes is reported once. -/
theorem Notifying.close (socket : Fd) :
    ∃ after, manager.close socket = some after ∧ after.Notifying here ∧
      Notified none manager after := by
  cases known : manager.sockets socket with
  | false =>
      exact ⟨manager, by simp [SocketManager.close, known], notifying,
        (Unlinking.refl manager).notified⟩
  | true =>
      let drained : SocketManager := { manager with outgoing := erase manager.outgoing socket }
      have same : Unlinking manager drained := ⟨rfl, fun _ => id⟩
      cases found : manager.addresses socket with
      | none =>
          exact ⟨drained.forget socket, by simp [SocketManager.close, known, found, drained],
            (notifying.unlinking same).forget socket, same.notified.forget socket⟩
      | some address =>
          obtain ⟨middle, executed, disconnected, notified⟩ :=
            (notifying.unlinking same).disconnect socket address
          exact ⟨middle.forget socket, by simp [SocketManager.close, known, found, executed, drained],
            disconnected.forget socket, notified⟩

/-- `exited(ProcessBase*)` fails no check, reports the links that it removes once except
those of the process, and leaves no link that mentions the process. -/
theorem Notifying.exited (process : ProcessId)
    {pid : UPID} (local' : pid.address = here) :
    ∃ after, manager.exited here process pid = some after ∧ after.Notifying here ∧
      Notified (some process) manager after ∧
      ∀ linker linkee, after.Linked linker linkee → linker ≠ process ∧ linkee ≠ pid := by
  obtain ⟨middle, links, executed, consistent, ⟨sameDelivered, unlinked⟩, ⟨news, delivered,
    reported⟩, kept⟩ := Links.exitedProcess_spec notifying.consistent process local'
  refine ⟨{ manager with toLinks := links }, by simp [SocketManager.exited, executed],
    ⟨consistent, fun address contained => notifying.persistent address
      (notifying.consistent.toIndexed.contains_of_linked
      consistent.toIndexed (fun linker linkee linked => ((kept linker linkee).mp linked).1)
      contained)⟩,
    ⟨news, by rw [← sameDelivered]; exact delivered, ?_⟩,
    fun linker linkee linked => ((kept linker linkee).mp linked).2⟩
  intro linker linkee was gone
  by_cases own : linker = process
  · subst own
    rcases reported linker linkee with ⟨-, linked, -⟩ | ⟨count, -⟩
    · exact absurd rfl ((unlinked linker linkee).mp linked).2
    · simpa using count
  · rcases reported linker linkee with ⟨count, -, -⟩ | ⟨-, same⟩
    · simpa [Ne.symm own] using count
    · exact absurd (same.mp ((unlinked linker linkee).mpr ⟨was, own⟩)) gone

/-- What every operation does with the links. -/
theorem Notifying.execute {operation : Operation}
    (executed : manager.execute names here operation = some after) :
    after.Notifying here ∧ Notified (exiting operation) manager after ∧
      ∀ process, operation = .exited process → ∀ linker linkee, after.Linked linker linkee →
        linker ≠ process ∧ linkee ≠ ⟨names process, here⟩ := by
  have quiet (same : Unlinking manager after) :
      after.Notifying here ∧ Notified none manager after :=
    ⟨notifying.unlinking same, same.notified⟩
  cases operation with
  | exited process =>
      obtain ⟨middle, exited, still, notified, gone⟩ :=
        notifying.exited process (show (UPID.mk (names process) here).address = here from rfl)
      cases exited.symm.trans executed
      exact ⟨still, notified, fun other same => by cases same; exact gone⟩
  | close socket =>
      obtain ⟨middle, closed, still, notified⟩ := notifying.close socket
      cases closed.symm.trans executed
      exact ⟨still, notified, nofun⟩
  | link process linkee remote created =>
      simp only [SocketManager.execute, Option.map_eq_some_iff] at executed
      obtain ⟨⟨middle, connect⟩, linked, rfl⟩ := executed
      exact ⟨(notifying.link linked).1, (notifying.link linked).2, nofun⟩
  | accepted socket =>
      have both := quiet (accepted_unlinking executed)
      exact ⟨both.1, both.2, nofun⟩
  | proxy socket created =>
      cases executed
      have both := quiet (proxy_unlinking manager socket created)
      exact ⟨both.1, both.2, nofun⟩
  | unproxy socket =>
      cases executed
      have both := quiet ⟨rfl, fun _ => id⟩
      exact ⟨both.1, both.2, nofun⟩
  | send encoder persist socket =>
      cases executed
      have both := quiet (send_unlinking manager encoder persist socket)
      exact ⟨both.1, both.2, nofun⟩
  | sendMessage address encoder created =>
      simp only [SocketManager.execute, Option.map_eq_some_iff] at executed
      obtain ⟨⟨middle, dispatch⟩, sent, rfl⟩ := executed
      have both := quiet (sendMessage_unlinking sent)
      exact ⟨both.1, both.2, nofun⟩
  | next socket =>
      simp only [SocketManager.execute, Option.map_eq_some_iff] at executed
      obtain ⟨⟨middle, encoder⟩, stepped, rfl⟩ := executed
      have both := quiet (next_unlinking stepped)
      exact ⟨both.1, both.2, nofun⟩
  | swapImplementingSocket source target =>
      have both := quiet (swapImplementingSocket_unlinking executed)
      exact ⟨both.1, both.2, nofun⟩

end

theorem notifying_of_reachable (reached : (operations names here).Reachable manager) :
    manager.Notifying here :=
  reached.invariant (Notifying here)
    (by rintro _ rfl; exact ⟨Links.consistent_empty here, nofun⟩)
    (fun _ _ _ notifying _ executed => (notifying.execute executed).1)

/-- In every state that a sequence of operations reaches, the tables of the links are
consistent and every address with a remote linkee has a persistent socket; neither
`exited` fails a check; and an operation that removes a link delivers one exited event
for it, or none if the linker exits.  No link mentions a process that has just exited. -/
theorem links_notified (names : ProcessId → String) (here : Address)
    {manager : SocketManager} (reached : (operations names here).Reachable manager) :
    manager.Notifying here ∧
    (∀ process, (manager.exited here process ⟨names process, here⟩).isSome = true) ∧
    (∀ address, (manager.toLinks.exitedAddress address).isSome = true) ∧
    (∀ socket, (manager.close socket).isSome = true) ∧
    ∀ operation after, manager.execute names here operation = some after →
      Notified (exiting operation) manager after ∧
      ∀ process, operation = .exited process → ∀ linker linkee, after.Linked linker linkee →
        linker ≠ process ∧ linkee ≠ ⟨names process, here⟩ := by
  have notifying := notifying_of_reachable reached
  refine ⟨notifying, fun process => ?_, fun address => ?_, fun socket => ?_,
    fun operation after executed => (notifying.execute executed).2⟩
  · obtain ⟨after, executed, -⟩ :=
      notifying.exited process (show (UPID.mk (names process) here).address = here from rfl)
    exact Option.isSome_of_eq_some executed
  · obtain ⟨after, executed, -⟩ := Links.exitedAddress_spec notifying.consistent address
    exact Option.isSome_of_eq_some executed
  · obtain ⟨after, executed, -⟩ := notifying.close socket
    exact Option.isSome_of_eq_some executed

/-- Two processes link with a remote process over one socket, which is replaced and then
closed; one of the processes has exited before. -/
theorem links_notified_replaced :
    ∃ manager, (operations (fun _ => "") 0).run empty
        [.link 1 ⟨"remote", 7⟩ .reuse (some 3), .link 2 ⟨"remote", 7⟩ .reconnect (some 4),
          .close 3, .exited 1, .close 4] = some manager ∧
      manager.delivered = [⟨2, ⟨"remote", 7⟩⟩] ∧ manager.Notifying 0 := by
  obtain ⟨manager, ran, delivered⟩ : ∃ manager ∈ (operations (fun _ => "") 0).run empty
      [.link 1 ⟨"remote", 7⟩ .reuse (some 3), .link 2 ⟨"remote", 7⟩ .reconnect (some 4),
        .close 3, .exited 1, .close 4],
      manager.delivered = [⟨2, ⟨"remote", 7⟩⟩] := by
    decide
  exact ⟨manager, ran, delivered, (links_notified (fun _ => "") 0 (.of_run rfl ran)).1⟩

end SocketManager

end Libprocess.Sockets
