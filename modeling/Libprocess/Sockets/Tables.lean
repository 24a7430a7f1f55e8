import Libprocess.Sockets.Network

/-!
# The tables of the SocketManager

What the tables say about one socket is its view: whether the manager knows it, the
address it is connected to, whether it is disposed of when there is nothing left to
send, and whether it has an outgoing queue.  The tables from addresses to sockets follow
from the views.  Each operation changes the view of the sockets it is about, and of no
other socket.
-/

namespace Libprocess.Sockets

open Containers

/-- What the manager says about one socket. -/
structure View where
  known : Bool
  address : Option Address
  dispose : Bool
  busy : Bool
  deriving DecidableEq, Repr

def View.absent : View := ⟨false, none, false, false⟩

namespace SocketManager

def view (manager : SocketManager) (socket : Fd) : View where
  known := manager.sockets socket
  address := manager.addresses socket
  dispose := manager.dispose socket
  busy := (manager.outgoing socket).isSome

/-- The tables agree: a socket that is not known has no entry, and an address has the
sockets that are connected to it. -/
structure Tables (manager : SocketManager) : Prop where
  unknown : ∀ socket, manager.sockets socket = false →
    manager.view socket = .absent ∧ manager.proxies socket = none
  persists : ∀ address socket, manager.persists address = some socket ↔
    manager.addresses socket = some address ∧ manager.dispose socket = false
  temps : ∀ address socket, manager.temps address = some socket ↔
    manager.addresses socket = some address ∧ manager.dispose socket = true

theorem tables_empty : empty.Tables := by
  constructor <;> simp [empty, view, View.absent]

variable {manager : SocketManager}

section

variable (tables : manager.Tables)

include tables

theorem Tables.known_of_address {socket : Fd} {address : Address}
    (found : manager.addresses socket = some address) : manager.sockets socket = true := by
  by_contra unknown
  have absent := (tables.unknown socket (by simpa using unknown)).1
  simp [view, View.absent, found] at absent

/-- The entries of an unknown socket. -/
theorem Tables.entries {socket : Fd}
    (unknown : manager.sockets socket = false) :
    manager.addresses socket = none ∧ manager.dispose socket = false ∧
      manager.outgoing socket = none ∧ manager.proxies socket = none := by
  obtain ⟨absent, proxies⟩ := tables.unknown socket unknown
  simp only [view, View.absent, View.mk.injEq, Option.isSome_eq_false_iff,
    Option.isNone_iff_eq_none] at absent
  exact ⟨absent.2.1, absent.2.2.1, absent.2.2.2, proxies⟩

theorem Tables.accepted {socket : Fd}
    (unknown : manager.sockets socket = false) :
    ∃ after, manager.accepted socket = some after ∧ after.Tables ∧
      after.view socket = ⟨true, none, false, false⟩ ∧
      ∀ other, other ≠ socket → after.view other = manager.view other := by
  obtain ⟨noAddress, noDispose, noOutgoing, -⟩ := tables.entries unknown
  refine ⟨{ manager with sockets := Function.update manager.sockets socket true },
    by simp [SocketManager.accepted, unknown],
    ⟨fun other missing => ?_, tables.persists, tables.temps⟩, ?_, fun other different => ?_⟩
  · by_cases same : other = socket
    · simp [same] at missing
    · simpa [view, same] using tables.unknown other (by simpa [same] using missing)
  · simp [view, noAddress, noDispose, noOutgoing]
  · simp [view, different]

theorem Tables.persist {socket : Fd} {address : Address}
    (unknown : manager.sockets socket = false) (fresh : manager.persists address = none) :
    (manager.persist address socket).Tables ∧
      (manager.persist address socket).view socket = ⟨true, some address, false, true⟩ ∧
      ∀ other, other ≠ socket →
        (manager.persist address socket).view other = manager.view other := by
  obtain ⟨noAddress, noDispose, noOutgoing, -⟩ := tables.entries unknown
  refine ⟨⟨fun other missing => ?_, fun other connected => ?_, fun other connected => ?_⟩, ?_,
    fun other different => ?_⟩
  · by_cases same : other = socket
    · simp [SocketManager.persist, same] at missing
    · simpa [SocketManager.persist, view, emplace, same] using
        tables.unknown other (by simpa [SocketManager.persist, same] using missing)
  · have persists := tables.persists other connected
    have none := tables.persists address connected
    simp only [SocketManager.persist, emplace]
    grind [Function.update_apply]
  · have temps := tables.temps other connected
    simp only [SocketManager.persist, emplace]
    grind [Function.update_apply]
  · simp [SocketManager.persist, view, emplace, noAddress, noDispose]
  · simp [SocketManager.persist, view, emplace, different]

theorem Tables.connectTemporary {socket : Fd} {address : Address}
    (unknown : manager.sockets socket = false) (fresh : manager.temps address = none) :
    (manager.connectTemporary address socket).Tables ∧
      (manager.connectTemporary address socket).view socket =
        ⟨true, some address, true, true⟩ ∧
      ∀ other, other ≠ socket →
        (manager.connectTemporary address socket).view other = manager.view other := by
  obtain ⟨noAddress, noDispose, noOutgoing, -⟩ := tables.entries unknown
  refine ⟨⟨fun other missing => ?_, fun other connected => ?_, fun other connected => ?_⟩, ?_,
    fun other different => ?_⟩
  · by_cases same : other = socket
    · simp [SocketManager.connectTemporary, same] at missing
    · simpa [SocketManager.connectTemporary, view, emplace, same] using
        tables.unknown other (by simpa [SocketManager.connectTemporary, same] using missing)
  · have persists := tables.persists other connected
    simp only [SocketManager.connectTemporary, emplace]
    grind [Function.update_apply]
  · have temps := tables.temps other connected
    have none := tables.temps address connected
    simp only [SocketManager.connectTemporary, emplace]
    grind [Function.update_apply]
  · simp [SocketManager.connectTemporary, view, emplace, noAddress]
  · simp [SocketManager.connectTemporary, view, emplace, different]

theorem Tables.swapImplementingSocket {source target : Fd}
    {address : Address} (found : manager.addresses source = some address)
    (unknown : manager.sockets target = false) :
    ∃ after, manager.swapImplementingSocket source target = some after ∧ after.Tables ∧
      after.view source = .absent ∧
      after.view target = ⟨true, some address, manager.dispose source, true⟩ ∧
      ∀ other, other ≠ source → other ≠ target → after.view other = manager.view other := by
  have known := tables.known_of_address found
  obtain ⟨noAddress, noDispose, noOutgoing, noProxy⟩ := tables.entries unknown
  have different : source ≠ target := by
    rintro rfl
    simp [known] at unknown
  refine ⟨manager.swap source target address,
    by simp [SocketManager.swapImplementingSocket, known, unknown, found],
    ⟨fun other missing => ?_, fun other connected => ?_, fun other connected => ?_⟩, ?_, ?_,
    fun other notSource notTarget => ?_⟩
  · have entries := tables.unknown other
    simp only [view, View.absent, swap, emplace, erase, View.mk.injEq] at entries missing ⊢
    cases proxied : manager.proxies source <;>
      simp only [Option.isSome_none, Option.isSome_some, Bool.false_eq_true, if_true, if_false] <;>
      grind [Function.update_apply]
  · have persists := tables.persists other connected
    have own := tables.persists address source
    have temps := tables.temps address source
    simp only [swap, emplace, erase]
    grind [Function.update_apply]
  · have temps := tables.temps other connected
    have own := tables.temps address source
    have persists := tables.persists address source
    simp only [swap, emplace, erase]
    grind [Function.update_apply]
  · simp only [view, View.absent, swap, emplace, erase, View.mk.injEq]
    grind [Function.update_apply]
  · simp only [view, swap, emplace, erase, View.mk.injEq]
    grind [Function.update_apply]
  · simp only [view, swap, emplace, erase, View.mk.injEq]
    grind [Function.update_apply]

theorem Tables.relink (links : Links) :
    Tables { manager with toLinks := links } :=
  ⟨tables.unknown, tables.persists, tables.temps⟩

theorem Tables.register (here : Address) (process : ProcessId)
    (linkee : UPID) : (manager.register here process linkee).Tables := tables.relink _

theorem Tables.proxy (socket : Fd) (created : ProcessId) :
    (manager.proxy socket created).Tables ∧
      ∀ other, (manager.proxy socket created).view other = manager.view other := by
  unfold SocketManager.proxy
  split
  · refine ⟨⟨fun other missing => ⟨(tables.unknown other missing).1, ?_⟩, tables.persists,
      tables.temps⟩, fun _ => rfl⟩
    have different : other ≠ socket := by
      rintro rfl
      simp_all
    simpa [emplace, different] using (tables.unknown other missing).2
  · exact ⟨tables, fun _ => rfl⟩

theorem Tables.unproxy (socket : Fd) :
    (manager.unproxy socket).Tables := by
  refine ⟨fun other missing => ⟨(tables.unknown other missing).1, ?_⟩, tables.persists,
    tables.temps⟩
  have entry := (tables.unknown other missing).2
  simp only [SocketManager.unproxy, erase]
  grind [Function.update_apply]

/-- Sending on a known socket.  A socket that is connected to an address as a persistent
one must persist. -/
theorem Tables.send (encoder : Encoder) (persist : Bool)
    {socket : Fd} (known : manager.sockets socket = true)
    (kept : ∀ address, manager.addresses socket = some address →
      manager.dispose socket = !persist) :
    ∃ after, manager.send encoder persist socket =
        (after, if (manager.outgoing socket).isSome then none else some encoder) ∧
      after.Tables ∧
      after.view socket = ⟨true, manager.addresses socket, manager.dispose socket || !persist,
        true⟩ ∧
      ∀ other, other ≠ socket → after.view other = manager.view other := by
  let after : SocketManager := { manager with
    dispose := if persist then manager.dispose else Function.update manager.dispose socket true
    outgoing := Function.update manager.outgoing socket
      (some (((manager.outgoing socket).map (· ++ [encoder])).getD [])) }
  refine ⟨after, ?_, ⟨fun other missing => ?_, fun address other => ?_, fun address other => ?_⟩,
    ?_, fun other different => ?_⟩
  · cases queue : manager.outgoing socket <;>
      simp [SocketManager.send, known, queue, after]
  · have different : other ≠ socket := by
      rintro rfl
      simp [after, known] at missing
    cases persist <;> simpa [after, view, different] using tables.unknown other missing
  · have persists := tables.persists address other
    have own := kept address
    simp only [after]
    grind [Function.update_apply]
  · have temps := tables.temps address other
    have own := kept address
    simp only [after]
    grind [Function.update_apply]
  · cases persist <;> simp [after, view, known]
  · cases persist <;> simp [after, view, different]

theorem Tables.drain (socket : Fd) :
    Tables { manager with outgoing := erase manager.outgoing socket } := by
  refine ⟨fun other missing => ?_, tables.persists, tables.temps⟩
  have entries := tables.unknown other
  simp only [view, View.absent, erase, View.mk.injEq] at entries missing ⊢
  grind [Function.update_apply]

/-- Forgetting a socket that is not connected to an address any more. -/
theorem Tables.forget {socket : Fd}
    (noAddress : manager.addresses socket = none) (noOutgoing : manager.outgoing socket = none) :
    (manager.forget socket).Tables ∧ (manager.forget socket).view socket = .absent ∧
      ∀ other, other ≠ socket → (manager.forget socket).view other = manager.view other := by
  refine ⟨⟨fun other missing => ?_, fun address other => ?_, fun address other => ?_⟩, ?_,
    fun other different => ?_⟩
  · have entries := tables.unknown other
    simp only [SocketManager.forget, view, View.absent, erase, View.mk.injEq] at entries missing ⊢
    grind [Function.update_apply]
  · have persists := tables.persists address other
    simp only [SocketManager.forget]
    grind [Function.update_apply]
  · have temps := tables.temps address other
    simp only [SocketManager.forget]
    grind [Function.update_apply]
  · simp [SocketManager.forget, view, View.absent, noAddress, noOutgoing]
  · simp [SocketManager.forget, view, different]

theorem Tables.detachTemporary {socket : Fd} {address : Address}
    (temporary : manager.temps address = some socket) :
    Tables { manager with
      temps := erase manager.temps address, addresses := erase manager.addresses socket } := by
  have own := (tables.temps address socket).mp temporary
  have known := tables.known_of_address own.1
  refine ⟨fun other missing => ?_, fun remote other => ?_, fun remote other => ?_⟩
  · have entries := tables.unknown other
    simp only [view, View.absent, erase, View.mk.injEq] at entries missing ⊢
    grind [Function.update_apply]
  · have persists := tables.persists remote other
    have mine := tables.persists remote socket
    simp only [erase]
    grind [Function.update_apply]
  · have temps := tables.temps remote other
    have mine := tables.temps remote socket
    simp only [erase]
    grind [Function.update_apply]

theorem Tables.detachPersistent {socket : Fd} {address : Address}
    (persistent : manager.persists address = some socket) (links : Links) :
    Tables { manager with
      toLinks := links
      persists := erase manager.persists address
      addresses := erase manager.addresses socket } := by
  have own := (tables.persists address socket).mp persistent
  have known := tables.known_of_address own.1
  refine ⟨fun other missing => ?_, fun remote other => ?_, fun remote other => ?_⟩
  · have entries := tables.unknown other
    simp only [view, View.absent, erase, View.mk.injEq] at entries missing ⊢
    grind [Function.update_apply]
  · have persists := tables.persists remote other
    have mine := tables.persists remote socket
    simp only [erase]
    grind [Function.update_apply]
  · have temps := tables.temps remote other
    have mine := tables.temps remote socket
    simp only [erase]
    grind [Function.update_apply]

/-- `close` fails no check and forgets the socket. -/
theorem Tables.close {here : Address}
    (notifying : manager.Notifying here) (socket : Fd) :
    ∃ after, manager.close socket = some after ∧ after.Tables ∧
      after.view socket = .absent ∧
      ∀ other, other ≠ socket → after.view other = manager.view other := by
  cases known : manager.sockets socket with
  | false =>
      exact ⟨manager, by simp [SocketManager.close, known], tables, (tables.unknown socket known).1,
        fun _ _ => rfl⟩
  | true =>
      let drained : SocketManager := { manager with outgoing := erase manager.outgoing socket }
      have drainedTables : drained.Tables := tables.drain socket
      have noOutgoing : drained.outgoing socket = none := by simp [drained, erase]
      have drainedView (other : Fd) (different : other ≠ socket) :
          drained.view other = manager.view other := by
        simp [drained, view, erase, different]
      cases found : manager.addresses socket with
      | none =>
          obtain ⟨forgotten, absent, others⟩ := drainedTables.forget found noOutgoing
          exact ⟨drained.forget socket, by simp [SocketManager.close, known, found, drained],
            forgotten, absent, fun other different =>
              (others other different).trans (drainedView other different)⟩
      | some address =>
          suffices disconnected : ∃ middle, drained.disconnect socket address = some middle ∧
              middle.Tables ∧ middle.addresses socket = none ∧ middle.outgoing socket = none ∧
              ∀ other, other ≠ socket → middle.view other = drained.view other by
            obtain ⟨middle, executed, middleTables, noAddress, stillNoOutgoing, middleView⟩ :=
              disconnected
            obtain ⟨forgotten, absent, others⟩ := middleTables.forget noAddress stillNoOutgoing
            refine ⟨middle.forget socket, ?_, forgotten, absent, fun other different => ?_⟩
            · have executed' := executed
              simp only [drained] at executed'
              simp [SocketManager.close, known, found, executed']
            · rw [others other different, middleView other different, drainedView other different]
          by_cases persistent : manager.persists address = some socket
          · obtain ⟨links, exited, -⟩ := Links.exitedAddress_spec notifying.consistent address
            refine ⟨_, ?_, drainedTables.detachPersistent persistent links, ?_, noOutgoing, ?_⟩
            · simp [SocketManager.disconnect, drained, persistent, exited]
            · simp [erase]
            · intro other different
              simp [view, erase, different]
          · have temporary : manager.temps address = some socket := by
              have persists := tables.persists address socket
              have temps := tables.temps address socket
              grind
            refine ⟨_, ?_, drainedTables.detachTemporary temporary, ?_, noOutgoing, ?_⟩
            · simp only [SocketManager.disconnect, drained, persistent, temporary, if_true,
                if_false]
            · simp [erase]
            · intro other different
              simp [view, erase, different]

/-- `next` on a socket with an outgoing queue: the next encoder, or nothing, in which case
the queue is removed and perhaps the socket with it. -/
theorem Tables.next {socket : Fd}
    (busy : manager.sockets socket = true → (manager.outgoing socket).isSome = true) :
    ∃ after encoder, manager.next socket = some (after, encoder) ∧ after.Tables ∧
      (∀ other, other ≠ socket → after.view other = manager.view other) ∧
      (encoder.isSome = true → after.view socket = manager.view socket ∧
        manager.sockets socket = true) ∧
      (encoder = none → after.sockets socket = true →
        after.view socket = { manager.view socket with busy := false }) := by
  cases known : manager.sockets socket with
  | false =>
      exact ⟨manager, none, by simp [SocketManager.next, known], tables, fun _ _ => rfl,
        by simp, by simp [known]⟩
  | true =>
      obtain ⟨queue, found⟩ := Option.isSome_iff_exists.mp (busy known)
      cases queue with
      | cons encoder queue =>
          refine ⟨{ manager with outgoing := Function.update manager.outgoing socket (some queue) },
            some encoder, by simp [SocketManager.next, known, found],
            ⟨fun other missing => ?_, tables.persists, tables.temps⟩, fun other different => ?_,
            fun _ => ⟨?_, rfl⟩, by simp⟩
          · have different : other ≠ socket := by
              rintro rfl
              simp [known] at missing
            simpa [view, different] using tables.unknown other missing
          · simp [view, different]
          · simp [view, found]
      | nil =>
          let drained : SocketManager := { manager with outgoing := erase manager.outgoing socket }
          have drainedTables : drained.Tables := tables.drain socket
          have noOutgoing : drained.outgoing socket = none := by simp [drained, erase]
          have drainedView (other : Fd) (different : other ≠ socket) :
              drained.view other = manager.view other := by
            simp [drained, view, erase, different]
          cases disposed : manager.dispose socket with
          | false =>
              exact ⟨drained, none, by simp [SocketManager.next, known, found, disposed, drained],
                drainedTables, drainedView, by simp,
                fun _ _ => by simp [drained, view, erase, disposed]⟩
          | true =>
              suffices removed : ∃ after, drained.disposeSocket socket = some after ∧
                  after.Tables ∧ after.view socket = .absent ∧
                  ∀ other, other ≠ socket → after.view other = drained.view other by
                obtain ⟨after, executed, afterTables, absent, others⟩ := removed
                refine ⟨after, none, ?_, afterTables, fun other different => ?_, by simp,
                  fun _ still => ?_⟩
                · have executed' := executed
                  simp only [drained] at executed'
                  simp [SocketManager.next, known, found, disposed, executed']
                · rw [others other different, drainedView other different]
                · have gone : after.sockets socket = false := congrArg View.known absent
                  simp [gone] at still
              cases connected : manager.addresses socket with
              | none =>
                  obtain ⟨forgotten, absent, others⟩ := drainedTables.forget connected noOutgoing
                  exact ⟨drained.forget socket, by simp [disposeSocket, drained, connected],
                    forgotten, absent, others⟩
              | some address =>
                  have temporary : drained.temps address = some socket :=
                    (tables.temps address socket).mpr ⟨connected, disposed⟩
                  obtain ⟨forgotten, absent, others⟩ :=
                    (drainedTables.detachTemporary temporary).forget
                      (show erase manager.addresses socket socket = none by simp [erase]) noOutgoing
                  refine ⟨_, ?_, forgotten, absent, fun other different => ?_⟩
                  · have temporary' : manager.temps address = some socket := temporary
                    simp only [disposeSocket, drained, connected, temporary', if_true]
                  · rw [others other different]
                    simp [view, erase, different]

end

end SocketManager

end Libprocess.Sockets
