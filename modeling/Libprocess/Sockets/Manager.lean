import Libprocess.Concurrency.Automaton
import Libprocess.Sockets.Links

/-!
# The SocketManager

The tables of the `SocketManager` and its operations, each of which runs under the
mutex of the manager.  What an operation leaves to do after the mutex is released is
part of its result.

A `Socket` is given by its file descriptor; `sockets` maps a descriptor to the socket
with that descriptor.  A socket that the source creates is an argument, which is absent
if `Socket::create` fails.  As for the links, a function returns nothing where the source
fails a `CHECK`.
-/

namespace Libprocess.Sockets

open Containers

abbrev Fd := Nat

/-- `ProcessBase::RemoteConnection` -/
inductive RemoteConnection where
  | reuse
  | reconnect
  deriving DecidableEq, Repr

/-- An `Encoder`: the length of its data, how much of it has been taken, and the number
of the message if it is a `MessageEncoder`. -/
structure Encoder where
  message : Option Nat
  size : Nat
  index : Nat
  deriving DecidableEq, Repr

/-- What is left to do for a message after the mutex is released. -/
inductive Dispatch where
  /-- The message is queued or dropped. -/
  | nothing
  | connect (socket : Fd)
  | send (socket : Fd)
  deriving DecidableEq, Repr

structure SocketManager extends Links where
  sockets : Fd → Bool
  dispose : Fd → Bool
  addresses : Fd → Option Address
  temps : Address → Option Fd
  persists : Address → Option Fd
  outgoing : Fd → Option (List Encoder)
  proxies : Fd → Option ProcessId

/-- `map.emplace(key, value)` keeps a value that is already there. -/
def emplace {K V : Type} [DecidableEq K] (map : K → Option V) (key : K) (value : V) :
    K → Option V :=
  Function.update map key (some ((map key).getD value))

/-- `map.erase(key)` -/
def erase {K V : Type} [DecidableEq K] (map : K → Option V) (key : K) : K → Option V :=
  Function.update map key none

namespace SocketManager

def empty : SocketManager where
  toLinks := .empty
  sockets := fun _ => false
  dispose := fun _ => false
  addresses := fun _ => none
  temps := fun _ => none
  persists := fun _ => none
  outgoing := fun _ => none
  proxies := fun _ => none

def accepted (manager : SocketManager) (socket : Fd) : Option SocketManager :=
  if manager.sockets socket then none
  else some { manager with sockets := Function.update manager.sockets socket true }

/-- Move the entries of a socket to the socket that replaces it. -/
def swap (manager : SocketManager) (source target : Fd) (address : Address) :
    SocketManager :=
  { manager with
    sockets := Function.update (Function.update manager.sockets source false) target true
    dispose := if manager.dispose source
      then Function.update (Function.update manager.dispose target true) source false
      else manager.dispose
    addresses := erase (emplace manager.addresses target address) source
    persists := if manager.persists address = some source
      then Function.update manager.persists address (some target) else manager.persists
    temps := if manager.persists address ≠ some source ∧ manager.temps address = some source
      then Function.update manager.temps address (some target) else manager.temps
    outgoing := erase (Function.update manager.outgoing target
      (some ((manager.outgoing source).getD []))) source
    proxies := if (manager.proxies source).isSome
      then erase (Function.update manager.proxies target (manager.proxies source)) source
      else manager.proxies }

/-- `SocketManager::swap_implementing_socket` -/
def swapImplementingSocket (manager : SocketManager) (source target : Fd) :
    Option SocketManager :=
  if manager.sockets source = true ∧ manager.sockets target = false then
    (manager.addresses source).map (manager.swap source target)
  else none

/-- The last part of `SocketManager::link`. -/
def register (manager : SocketManager) (here : Address) (process : ProcessId)
    (linkee : UPID) : SocketManager :=
  { manager with toLinks := manager.toLinks.link here process linkee }

/-- Enter a new persistent socket into the tables. -/
def persist (manager : SocketManager) (address : Address) (socket : Fd) : SocketManager :=
  { manager with
    sockets := Function.update manager.sockets socket true
    addresses := emplace manager.addresses socket address
    persists := emplace manager.persists address socket
    outgoing := emplace manager.outgoing socket [] }

/-- `SocketManager::link`, with the socket to connect. -/
def link (manager : SocketManager) (here : Address) (process : ProcessId) (linkee : UPID)
    (remote : RemoteConnection) (created : Option Fd) : Option (SocketManager × Option Fd) :=
  let unlinkable := { manager with toLinks := manager.toLinks.deliver process linkee }
  if linkee.address = here then some (manager.register here process linkee, none)
  else match manager.persists linkee.address with
    | none =>
        match created with
        | none => some (unlinkable, none)
        | some socket =>
            if manager.sockets socket then none
            else some ((manager.persist linkee.address socket).register here process linkee,
              some socket)
    | some existing =>
        match remote, created with
        | .reuse, _ => some (manager.register here process linkee, none)
        | .reconnect, none => some (unlinkable, none)
        | .reconnect, some socket =>
            if manager.sockets existing then do
              let manager ← manager.swapImplementingSocket existing socket
              return (manager.register here process linkee, some socket)
            else none

/-- `SocketManager::proxy`, with the process to spawn for a new proxy. -/
def proxy (manager : SocketManager) (socket : Fd) (created : ProcessId) : SocketManager :=
  if manager.sockets socket then
    { manager with proxies := emplace manager.proxies socket created }
  else manager

def unproxy (manager : SocketManager) (socket : Fd) : SocketManager :=
  { manager with proxies := erase manager.proxies socket }

/-- `SocketManager::send(Encoder*, bool, const Socket&)`, with the encoder to send on the
socket now. -/
def send (manager : SocketManager) (encoder : Encoder) (persist : Bool) (socket : Fd) :
    SocketManager × Option Encoder :=
  if manager.sockets socket then
    let dispose := if persist then manager.dispose
      else Function.update manager.dispose socket true
    match manager.outgoing socket with
    | some queue =>
        ({ manager with
            dispose := dispose
            outgoing := Function.update manager.outgoing socket (some (queue ++ [encoder])) },
          none)
    | none =>
        ({ manager with
            dispose := dispose
            outgoing := Function.update manager.outgoing socket (some []) },
          some encoder)
  else (manager, none)

/-- Enter a new temporary socket into the tables. -/
def connectTemporary (manager : SocketManager) (address : Address) (socket : Fd) :
    SocketManager :=
  { manager with
    sockets := Function.update manager.sockets socket true
    addresses := emplace manager.addresses socket address
    temps := emplace manager.temps address socket
    dispose := Function.update manager.dispose socket true
    outgoing := emplace manager.outgoing socket [] }

/-- `SocketManager::send(Message&&)` for a message to an address. -/
def sendMessage (manager : SocketManager) (address : Address) (encoder : Encoder)
    (created : Option Fd) : Option (SocketManager × Dispatch) :=
  match (manager.persists address).or (manager.temps address) with
  | some socket =>
      if manager.sockets socket then
        let persist := (manager.persists address).isSome
        match manager.send encoder persist socket with
        | (manager, none) => some (manager, .nothing)
        | (manager, some _) => some (manager, .send socket)
      else none
  | none =>
      match created with
      | none => some (manager, .nothing)
      | some socket =>
          if manager.sockets socket then none
          else some (manager.connectTemporary address socket, .connect socket)

/-- Clean up what is not about addresses. -/
def forget (manager : SocketManager) (socket : Fd) : SocketManager :=
  { manager with
    proxies := erase manager.proxies socket
    dispose := Function.update manager.dispose socket false
    sockets := Function.update manager.sockets socket false }

/-- Remove a disposed socket from the tables. -/
def disposeSocket (manager : SocketManager) (socket : Fd) : Option SocketManager :=
  match manager.addresses socket with
  | none => some (manager.forget socket)
  | some address =>
      if manager.temps address = some socket then
        some (forget { manager with
          temps := erase manager.temps address
          addresses := erase manager.addresses socket } socket)
      else none

/-- `SocketManager::next`, with the encoder it returns. -/
def next (manager : SocketManager) (socket : Fd) : Option (SocketManager × Option Encoder) :=
  if manager.sockets socket then
    match manager.outgoing socket with
    | none => none
    | some (encoder :: queue) =>
        some ({ manager with outgoing := Function.update manager.outgoing socket (some queue) },
          some encoder)
    | some [] =>
        let manager := { manager with outgoing := erase manager.outgoing socket }
        if manager.dispose socket then (manager.disposeSocket socket).map (·, none)
        else some (manager, none)
  else some (manager, none)

/-- Clean up after a socket that is used for remote communication. -/
def disconnect (manager : SocketManager) (socket : Fd) (address : Address) :
    Option SocketManager :=
  let addresses := erase manager.addresses socket
  if manager.persists address = some socket then do
    let links ← manager.toLinks.exitedAddress address
    return { manager with
      toLinks := links
      persists := erase manager.persists address
      addresses := addresses }
  else if manager.temps address = some socket then
    some { manager with temps := erase manager.temps address, addresses := addresses }
  else some { manager with addresses := addresses }

/-- `SocketManager::close` -/
def close (manager : SocketManager) (socket : Fd) : Option SocketManager :=
  if manager.sockets socket then do
    let manager := { manager with outgoing := erase manager.outgoing socket }
    let manager ← match manager.addresses socket with
      | none => some manager
      | some address => manager.disconnect socket address
    return manager.forget socket
  else some manager

/-- `SocketManager::exited(ProcessBase*)` -/
def exited (manager : SocketManager) (here : Address) (process : ProcessId) (pid : UPID) :
    Option SocketManager := do
  let links ← manager.toLinks.exitedProcess here process pid
  return { manager with toLinks := links }

end SocketManager

end Libprocess.Sockets
