import Libprocess.Sockets.Notifications

/-!
# The SocketManager with its loops and connects

A task is code that holds a reference to a socket and will call the manager: a connect
that has not completed, a loop that sends or receives.  An event is one step of a task,
or a call from a process.  Between two events the mutex of the manager is free.

A created socket has a file descriptor to which no reference is left.  If the manager
fails a check, the network is aborted and takes no further step.
-/

namespace Libprocess.Sockets

open Containers Concurrency

/-- `SocketImpl::Kind` -/
inductive Kind where
  | poll
  | ssl
  deriving DecidableEq, Repr

/-- `network::openssl::flags()` -/
structure Flags where
  enabled : Bool
  supportDowngrade : Bool
  deriving DecidableEq, Repr

/-- A `Message`: its number, the address it is for, and the size it is encoded with. -/
structure Message where
  number : Nat
  address : Address
  size : Nat
  deriving DecidableEq, Repr

/-- `new MessageEncoder(message)` -/
def Message.encoder (message : Message) : Encoder := ⟨some message.number, message.size, 0⟩

namespace Encoder

def remaining (encoder : Encoder) : Nat := encoder.size - encoder.index

/-- `next` takes all that remains, and `backup` returns what was not sent. -/
def advance (encoder : Encoder) (sent : Nat) : Encoder :=
  { encoder with index := encoder.index + sent }

end Encoder

inductive Task where
  /-- The receive loop of an accepted socket, a handler of its requests or its proxy. -/
  | holder (socket : Fd)
  /-- A connect that `link_connect` waits for. -/
  | linking (socket : Fd) (kind : Kind) (address : Address)
  /-- `link_connect` before it calls `next`. -/
  | linked (socket : Fd)
  /-- A connect that `send_connect` waits for. -/
  | connecting (socket : Fd) (kind : Kind) (message : Message)
  /-- `internal::send` -/
  | sending (socket : Fd) (encoder : Encoder)
  /-- `internal::ignore_recv_data` -/
  | receiving (socket : Fd)
  deriving DecidableEq, Repr

/-- How a connect completes.  The socket is created if the connection is downgraded. -/
inductive Completion where
  | connected
  | discarded
  | failed (created : Option Fd)
  deriving DecidableEq, Repr

inductive Event where
  | accept (socket : Fd)
  | fork (socket : Fd)
  | release (socket : Fd)
  | proxy (socket : Fd) (created : ProcessId)
  | unproxy (socket : Fd)
  | respond (socket : Fd) (size : Nat) (persist : Bool)
  | disconnect (socket : Fd)
  | link (process : ProcessId) (linkee : UPID) (remote : RemoteConnection) (kind : Kind)
      (created : Option Fd)
  | exited (process : ProcessId)
  | linkConnect (socket : Fd) (kind : Kind) (address : Address) (completion : Completion)
  | linkNext (socket : Fd)
  | send (address : Address) (size : Nat) (kind : Kind) (created : Option Fd)
  | sendConnect (socket : Fd) (kind : Kind) (message : Message) (completion : Completion)
  | handed (socket : Fd) (encoder : Encoder) (sent : Nat)
  | sendNext (socket : Fd) (encoder : Encoder)
  | sendFailed (socket : Fd) (encoder : Encoder)
  | hangUp (socket : Fd)
  deriving DecidableEq, Repr

def Task.socket : Task → Fd
  | .holder socket | .linking socket _ _ | .linked socket | .connecting socket _ _
  | .sending socket _ | .receiving socket => socket

/-- The task for a message that is neither queued nor dropped. -/
def Dispatch.tasks (kind : Kind) (message : Message) : Dispatch → List Task
  | .nothing => []
  | .connect socket => [.connecting socket kind message]
  | .send socket => [.sending socket message.encoder]

namespace Event

/-- The task that takes the step. -/
def task : Event → Option Task
  | .fork socket | .release socket | .proxy socket _ | .unproxy socket | .respond socket _ _
  | .disconnect socket => some (.holder socket)
  | .linkConnect socket kind address _ => some (.linking socket kind address)
  | .linkNext socket => some (.linked socket)
  | .sendConnect socket kind message _ => some (.connecting socket kind message)
  | .handed socket encoder _ | .sendNext socket encoder | .sendFailed socket encoder =>
      some (.sending socket encoder)
  | .hangUp socket => some (.receiving socket)
  | .accept _ | .link .. | .exited _ | .send .. => none

/-- The socket that the step creates. -/
def created : Event → Option Fd
  | .accept socket => some socket
  | .link _ _ _ _ created | .send _ _ _ created | .linkConnect _ _ _ (.failed created)
  | .sendConnect _ _ _ (.failed created) => created
  | _ => none

/-- What the sender loop requires of a step. -/
def permitted : Event → Bool
  | .handed _ encoder sent => sent ≤ encoder.remaining
  | .sendNext _ encoder => encoder.remaining = 0
  | _ => true

end Event

namespace SocketManager

/-- Close the socket of a task that ends. -/
def closing (manager : SocketManager) (socket : Fd) : Option (SocketManager × List Task) :=
  (manager.close socket).map (·, [])

/-- Call `next` from a task that becomes the sender loop. -/
def sendNext (manager : SocketManager) (socket : Fd) : Option (SocketManager × List Task) :=
  (manager.next socket).map fun (manager, encoder) =>
    (manager, (encoder.map (.sending socket)).toList)

variable (names : ProcessId → String) (here : Address) (flags : Flags)

/-- The downgrade of a failed connect to a `POLL` socket. -/
def attemptDowngrade (kind : Kind) : Bool :=
  flags.enabled && flags.supportDowngrade && kind == .ssl

/-- `SocketManager::link_connect` -/
def linkConnect (manager : SocketManager) (socket : Fd) (kind : Kind) (address : Address) :
    Completion → Option (SocketManager × List Task)
  | .connected =>
      if manager.sockets socket then some (manager, [.receiving socket, .linked socket])
      else some (manager, [])
  | .discarded => manager.closing socket
  | .failed created =>
      if attemptDowngrade flags kind then
        if manager.sockets socket then
          match created with
          | none => manager.closing socket
          | some poll =>
              (manager.swapImplementingSocket socket poll).map (·, [.linking poll .poll address])
        else some (manager, [])
      else manager.closing socket

/-- `SocketManager::send_connect` -/
def sendConnect (manager : SocketManager) (socket : Fd) (kind : Kind) (message : Message) :
    Completion → Option (SocketManager × List Task)
  | .connected => some (manager, [.receiving socket, .sending socket message.encoder])
  | .discarded => manager.closing socket
  | .failed created =>
      if attemptDowngrade flags kind then
        match created with
        | none => manager.closing socket
        | some poll =>
            (manager.swapImplementingSocket socket poll).map
              (·, [.connecting poll .poll message])
      else manager.closing socket

/-- What an event does, with the tasks that it starts in place of its own.  The number is
that of the next message. -/
def perform (manager : SocketManager) (number : Nat) :
    Event → Option (SocketManager × List Task)
  | .accept socket => (manager.accepted socket).map (·, [.holder socket])
  | .fork socket => some (manager, [.holder socket, .holder socket])
  | .release _ => some (manager, [])
  | .proxy socket created =>
      some (manager.proxy socket created,
        if manager.sockets socket = true ∧ manager.proxies socket = none
        then [.holder socket, .holder socket] else [.holder socket])
  | .unproxy socket => some (manager.unproxy socket, [.holder socket])
  | .respond socket size persist =>
      let sent := manager.send ⟨none, size, 0⟩ persist socket
      some (sent.1, .holder socket :: (sent.2.map (.sending socket)).toList)
  | .disconnect socket => manager.closing socket
  | .link process linkee remote kind created =>
      (manager.link here process linkee remote created).map fun (manager, connect) =>
        (manager, (connect.map (.linking · kind linkee.address)).toList)
  | .exited process =>
      (manager.exited here process ⟨names process, here⟩).map (·, [])
  | .linkConnect socket kind address completion =>
      manager.linkConnect flags socket kind address completion
  | .linkNext socket => manager.sendNext socket
  | .send address size kind created =>
      let message : Message := ⟨number, address, size⟩
      (manager.sendMessage address message.encoder created).map fun (manager, dispatch) =>
        (manager, dispatch.tasks kind message)
  | .sendConnect socket kind message completion =>
      manager.sendConnect flags socket kind message completion
  | .handed socket encoder sent => some (manager, [.sending socket (encoder.advance sent)])
  | .sendNext socket _ => manager.sendNext socket
  | .sendFailed socket _ => manager.closing socket
  | .hangUp socket => manager.closing socket

end SocketManager

/-- The manager and the tasks, the messages passed to `send` so far, and the message of
each byte that was handed to a socket, in order. -/
structure Network where
  manager : SocketManager
  tasks : List Task
  messages : List Message
  handed : List Nat
  aborted : Bool

namespace Network

def empty : Network := ⟨.empty, [], [], [], false⟩

/-- No reference to the socket is left. -/
def Unreferenced (network : Network) (socket : Fd) : Prop :=
  network.manager.sockets socket = false ∧ ∀ task ∈ network.tasks, task.socket ≠ socket

instance (network : Network) (socket : Fd) : Decidable (network.Unreferenced socket) :=
  inferInstanceAs (Decidable (_ ∧ _))

def Enabled (network : Network) (event : Event) : Prop :=
  network.aborted = false ∧ (∀ task ∈ event.task, task ∈ network.tasks) ∧
    (∀ socket ∈ event.created, network.Unreferenced socket) ∧ event.permitted = true

instance (network : Network) (event : Event) : Decidable (network.Enabled event) :=
  inferInstanceAs (Decidable (_ ∧ _ ∧ _ ∧ _))

/-- The message that an event passes to `send`. -/
def submitted (network : Network) : Event → List Message
  | .send address size _ _ => [⟨network.messages.length, address, size⟩]
  | _ => []

/-- The bytes of messages that an event hands to a socket. -/
def bytes : Event → List Nat
  | .handed _ encoder sent => (encoder.message.map (List.replicate sent)).getD []
  | _ => []

variable (names : ProcessId → String) (here : Address) (flags : Flags)

def step (network : Network) (event : Event) : Option Network :=
  if network.Enabled event then
    some (match network.manager.perform names here flags network.messages.length event with
      | none => { network with aborted := true }
      | some (manager, started) => {
          manager := manager
          tasks := started ++ (match event.task with
            | none => network.tasks
            | some task => network.tasks.erase task)
          messages := network.messages ++ network.submitted event
          handed := network.handed ++ bytes event
          aborted := false })
  else none

def machine : Automaton Network Event where
  start := (· = empty)
  step := step names here flags

end Network

end Libprocess.Sockets
