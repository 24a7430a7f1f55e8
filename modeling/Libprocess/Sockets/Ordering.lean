import Libprocess.Sockets.Coherence
import Libprocess.Sockets.Lines

/-!
# The order of the messages to an address

While no socket fails, the lines of messages are those of the sender loops, the connects
and the outgoing queues.  A message passed to `send` joins the line of the persistent
socket to its address if there is one.  Earlier messages may still be in the line of a
temporary socket, and whichever socket is connected first is the first to send.
-/

namespace Libprocess.Sockets

open Containers Concurrency

/-- The message that a task of a socket sends or will send first. -/
def Task.load (socket : Fd) : Task → Option Encoder
  | .connecting other _ message => if other = socket then some message.encoder else none
  | .sending other encoder => if other = socket then some encoder else none
  | _ => none

/-- The events of a run in which no socket fails and no link reconnects. -/
def Event.calm : Event → Bool
  | .link _ _ .reuse _ (some _) | .send _ _ _ (some _) | .linkConnect _ _ _ .connected
  | .sendConnect _ _ _ .connected | .linkNext _ | .handed .. | .sendNext .. => true
  | _ => false

namespace Task

variable {socket : Fd} {task : Task} {tasks rest : List Task}

theorem load_eq_none (idle : task.drives socket = false) : task.load socket = none := by
  cases task <;> simp_all [drives, connects, sends, load]

theorem loads_eq_nil (idle : tasks.countP (drives socket) = 0) :
    tasks.filterMap (load socket) = [] := by
  refine List.filterMap_eq_nil_iff.mpr fun task member => load_eq_none ?_
  simpa using List.countP_eq_zero.mp idle task member

theorem loads_erase (unloaded : task.load socket = none) :
    (tasks.erase task).filterMap (load socket) = tasks.filterMap (load socket) := by
  induction tasks with
  | nil => rfl
  | cons first rest ih =>
      by_cases same : first = task
      · subst same
        simp [unloaded]
      · rw [List.erase_cons_tail (by simpa using same), List.filterMap_cons, List.filterMap_cons,
          ih]

end Task

namespace Network

def line (network : Network) (socket : Fd) : List Encoder :=
  network.tasks.filterMap (Task.load socket) ++ (network.manager.outgoing socket).getD []

def lines (network : Network) : Lines :=
  ⟨network.line, network.manager.addresses, network.messages, network.handed⟩

/-- The messages to each address are handed over in the order in which they were sent. -/
def Ordered (network : Network) : Prop := Lines.Ordered network.messages network.handed

/-- A message joins the line of a persistent socket when nothing is left on the temporary
socket to its address. -/
def Timely (network : Network) : Event → Prop
  | .send address _ _ _ => (network.manager.persists address).isSome = true →
      ∀ socket ∈ network.manager.temps address, ∀ encoder ∈ network.line socket,
        encoder.remaining = 0
  | _ => True

instance (network : Network) (event : Event) : Decidable (network.Timely event) := by
  cases event <;> unfold Timely <;> infer_instance

/-- In a run without failures the driver of a socket never finds the socket gone. -/
structure Calm (here : Address) (network : Network) : Prop where
  driven : network.Driven here
  drivers : ∀ task ∈ network.tasks, ∀ socket, task.drives socket = true →
    network.manager.sockets socket = true
  orderly : network.lines.Orderly

variable {names : ProcessId → String} {here : Address} {flags : Flags} {network next : Network}
  {event : Event} {socket : Fd} {task : Task}

/-- The driver of a socket is alone. -/
theorem Calm.rest_idle (calm : network.Calm here) (own : event.task = some task)
    (enabled : network.Enabled event) (drives : task.drives socket = true) :
    network.manager.sockets socket = true ∧
      (network.manager.outgoing socket).isSome = true ∧
      (network.rest event).countP (Task.drives socket) = 0 := by
  have member := enabled.2.1 task own
  have known := calm.drivers task member socket drives
  have holds := (calm.driven.2.holds socket).of_perm enabled.perm
  rw [SocketManager.before, own] at holds
  obtain ⟨busy, idle⟩ := holds.countP_rest drives known
  exact ⟨known, busy, idle⟩

/-- The load of the driver of a socket is the only load of the socket. -/
theorem Calm.loads_eq (calm : network.Calm here) (own : event.task = some task)
    (enabled : network.Enabled event) (drives : task.drives socket = true) :
    network.tasks.filterMap (Task.load socket) = (task.load socket).toList := by
  obtain ⟨-, -, idle⟩ := calm.rest_idle own enabled drives
  have perm := (enabled.perm.filterMap (Task.load socket))
  rw [SocketManager.before, own, List.filterMap_append, Task.loads_eq_nil idle,
    List.append_nil] at perm
  cases load : task.load socket with
  | none | some encoder => simpa [load] using perm

/-- The tasks of other sockets have the same loads after a step. -/
theorem loads_of_ne {started : List Task} {other : Fd}
    (apart : ∀ task ∈ event.task, task.load other = none)
    (news : ∀ task ∈ started, task.load other = none) :
    (started ++ network.rest event).filterMap (Task.load other) =
      network.tasks.filterMap (Task.load other) := by
  rw [List.filterMap_append, List.filterMap_eq_nil_iff.mpr news, List.nil_append]
  simp only [rest]
  cases own : event.task with
  | none => rfl
  | some task => exact Task.loads_erase (apart task own)

end Network

namespace SocketManager

variable {manager after : SocketManager} {socket : Fd} {encoder : Option Encoder}

/-- What `next` does with the outgoing queue. -/
theorem next_queue (executed : manager.next socket = some (after, encoder))
    (known : manager.sockets socket = true) :
    (∃ first queue, encoder = some first ∧ manager.outgoing socket = some (first :: queue) ∧
      after = { manager with
        outgoing := Function.update manager.outgoing socket (some queue) }) ∨
    (encoder = none ∧ manager.outgoing socket = some [] ∧
      after.outgoing = erase manager.outgoing socket) := by
  simp only [next, known, if_true] at executed
  split at executed
  · simp at executed
  · rename_i first queue found
    cases executed
    exact .inl ⟨first, queue, rfl, found, rfl⟩
  · rename_i found
    refine .inr ?_
    split at executed
    · simp only [disposeSocket, Option.map_eq_some_iff, Prod.mk.injEq] at executed
      obtain ⟨_, disposed, rfl, rfl⟩ := executed
      refine ⟨rfl, found, ?_⟩
      split at disposed
      · cases disposed
        rfl
      · split at disposed
        · cases disposed
          rfl
        · simp at disposed
    · cases executed
      exact ⟨rfl, found, rfl⟩

/-- A link that reuses the persistent socket to an address, or creates it. -/
theorem link_reuse {here : Address} {process : ProcessId} {linkee : UPID} {target : Fd}
    {connect : Option Fd}
    (executed : manager.link here process linkee .reuse (some target) = some (after, connect)) :
    connect = none ∧ after = manager.register here process linkee ∨
    connect = some target ∧
      after = (manager.persist linkee.address target).register here process linkee := by
  simp only [link] at executed
  split at executed
  · cases executed
    exact .inl ⟨rfl, rfl⟩
  · split at executed
    · split at executed
      · simp at executed
      · cases executed
        exact .inr ⟨rfl, rfl⟩
    · cases executed
      exact .inl ⟨rfl, rfl⟩

/-- A message is queued, sent, or waits for a new temporary socket. -/
theorem sendMessage_cases {address : Address} {encoder : Encoder} {target : Fd}
    {dispatch : Dispatch}
    (executed : manager.sendMessage address encoder (some target) = some (after, dispatch)) :
    (∃ socket, (manager.persists address).or (manager.temps address) = some socket ∧
      manager.sockets socket = true ∧
      after.sockets = manager.sockets ∧ after.addresses = manager.addresses ∧
      ((∃ queue, manager.outgoing socket = some queue ∧ dispatch = .nothing ∧
          after.outgoing = Function.update manager.outgoing socket (some (queue ++ [encoder]))) ∨
        (manager.outgoing socket = none ∧ dispatch = .send socket ∧
          after.outgoing = Function.update manager.outgoing socket (some [])))) ∨
    ((manager.persists address).or (manager.temps address) = none ∧
      dispatch = .connect target ∧ after = manager.connectTemporary address target) := by
  simp only [sendMessage] at executed
  split at executed
  case h_1 socket found =>
    split at executed
    case isTrue known =>
      refine .inl ⟨socket, found, known, ?_⟩
      cases queue : manager.outgoing socket with
      | none =>
          simp only [send, known, if_true, queue] at executed
          cases executed
          exact ⟨rfl, rfl, .inr ⟨rfl, rfl, rfl⟩⟩
      | some waiting =>
          simp only [send, known, if_true, queue] at executed
          cases executed
          exact ⟨rfl, rfl, .inl ⟨waiting, rfl, rfl, rfl⟩⟩
    case isFalse => simp at executed
  case h_2 found =>
    split at executed
    · simp at executed
    · cases executed
      exact .inr ⟨found, rfl, rfl⟩

end SocketManager

namespace Network

variable {names : ProcessId → String} {here : Address} {flags : Flags} {network next : Network}
  {event : Event} {socket : Fd} {task : Task}

/-- A socket to which there is no reference has no line. -/
theorem Calm.line_unreferenced (calm : network.Calm here)
    (fresh : network.Unreferenced socket) : network.line socket = [] := by
  have entries := calm.driven.2.tables.entries fresh.1
  have loads : network.tasks.filterMap (Task.load socket) = [] :=
    Task.loads_eq_nil (At.countP_eq_zero fresh.2)
  simp [line, loads, entries.2.2.1]

/-- The drivers of a network after a step. -/
theorem Calm.drivers_step (calm : network.Calm here) {started : List Task}
    (enabled : network.Enabled event)
    (tasks : next.tasks = started ++ network.rest event)
    (news : ∀ task ∈ started, ∀ socket, task.drives socket = true →
      next.manager.sockets socket = true)
    (keeps : ∀ socket, network.manager.sockets socket = true →
      next.manager.sockets socket = true ∨
        (network.rest event).countP (Task.drives socket) = 0) :
    ∀ task ∈ next.tasks, ∀ socket, task.drives socket = true →
      next.manager.sockets socket = true := by
  intro task member socket drives
  rw [tasks] at member
  rcases List.mem_append.mp member with new | kept
  · exact news task new socket drives
  · have old : task ∈ network.tasks :=
      enabled.perm.mem_iff.mpr (List.mem_append_right _ kept)
    refine (keeps socket (calm.drivers task old socket drives)).resolve_right fun idle => ?_
    exact absurd drives (List.countP_eq_zero.mp idle task kept)

/-- The same lines: sockets without a line may change their address. -/
theorem retarget_lines (line : ∀ socket, next.line socket = network.line socket)
    (messages : next.messages = network.messages) (handed : next.handed = network.handed)
    (kept : Lines.Retargets network.line network.manager.addresses next.manager.addresses) :
    network.lines.Step next.lines := by
  have same : next.lines = { network.lines with addresses := next.manager.addresses } := by
    simp only [lines, funext line, messages, handed]
  exact same ▸ .retarget kept

/-- The line of a socket after `next` is what was in its outgoing queue. -/
theorem Calm.next_line (calm : network.Calm here) (enabled : network.Enabled event)
    (own : event.task = some task) (drives : task.drives socket = true) {started : List Task}
    (performed : network.manager.sendNext socket = some (next.manager, started))
    (tasks : next.tasks = started ++ network.rest event) :
    next.line socket = (network.manager.outgoing socket).getD [] ∧
    (∀ other, other ≠ socket → next.line other = network.line other ∧
      next.manager.view other = network.manager.view other) ∧
    (next.line socket ≠ [] →
      next.manager.addresses socket = network.manager.addresses socket) ∧
    (∀ task ∈ started, ∀ other, task.drives other = true →
      next.manager.sockets other = true) := by
  obtain ⟨known, busy, idle⟩ := calm.rest_idle own enabled drives
  simp only [SocketManager.sendNext, Option.map_eq_some_iff, Prod.mk.injEq] at performed
  obtain ⟨⟨after, encoder⟩, executed, rfl, rfl⟩ := performed
  have queued : network.manager.sockets socket = true →
      (network.manager.outgoing socket).isSome = true := fun _ => busy
  obtain ⟨_, _, again, -, others, -⟩ := calm.driven.2.tables.next queued
  cases executed.symm.trans again
  have apart (other : Fd) (different : other ≠ socket) : ∀ task ∈ event.task,
      task.load other = none := by
    intro task' is
    cases own.symm.trans is
    refine Task.load_eq_none ?_
    by_contra clash
    have here := Task.socket_of_drives drives
    have there := Task.socket_of_drives (show task.drives other = true by simpa using clash)
    exact different (there.symm.trans here)
  have elsewhere (loads : ∀ other, other ≠ socket →
      next.tasks.filterMap (Task.load other) = network.tasks.filterMap (Task.load other))
      (queues : ∀ other, other ≠ socket →
        next.manager.outgoing other = network.manager.outgoing other) (other : Fd)
      (different : other ≠ socket) : next.line other = network.line other ∧
        next.manager.view other = network.manager.view other := by
    simp only [line, loads other different, queues other different, others other different,
      and_self]
  rcases SocketManager.next_queue executed known with
    ⟨first, queue, rfl, found, same⟩ | ⟨rfl, found, same⟩
  · have loads : next.tasks.filterMap (Task.load socket) = [first] := by
      simp [tasks, Task.load, Task.loads_eq_nil idle]
    refine ⟨?_, elsewhere (fun other different => ?_) (fun other different => ?_), ?_, ?_⟩
    · simp [line, loads, same, found]
    · rw [tasks]
      exact loads_of_ne (apart other different) (by simp [Task.load, Ne.symm different])
    · simp [same, different]
    · intro _
      rw [same]
    · intro task' member other drives'
      simp only [Option.map_some, Option.toList_some, List.mem_singleton] at member
      subst member
      obtain rfl : socket = other := Task.socket_of_drives drives'
      rw [same]
      exact known
  · have loads : next.tasks.filterMap (Task.load socket) = [] := by
      simp [tasks, Task.loads_eq_nil idle]
    have empty : next.line socket = [] := by
      simp [line, loads, same, erase]
    refine ⟨?_, elsewhere (fun other different => ?_) (fun other different => ?_), ?_, ?_⟩
    · simp [empty, found]
    · rw [tasks]
      exact loads_of_ne (apart other different) (by simp)
    · simp [same, erase, different]
    · exact fun nonempty => absurd empty nonempty
    · simp

/-- What a step does to the lines, and to the sockets with drivers. -/
structure Advances (network next : Network) (started rest : List Task) : Prop where
  lines : network.lines.Step next.lines
  news : ∀ task ∈ started, ∀ socket, task.drives socket = true →
    next.manager.sockets socket = true
  keeps : ∀ socket, network.manager.sockets socket = true →
    next.manager.sockets socket = true ∨ rest.countP (Task.drives socket) = 0

theorem Calm.next_keeps (calm : network.Calm here) (enabled : network.Enabled event)
    (own : event.task = some task) (drives : task.drives socket = true)
    (others : ∀ other, other ≠ socket →
      next.manager.view other = network.manager.view other) :
    ∀ other, network.manager.sockets other = true → next.manager.sockets other = true ∨
      (network.rest event).countP (Task.drives other) = 0 := by
  intro other known
  by_cases same : other = socket
  · exact .inr (same ▸ (calm.rest_idle own enabled drives).2.2)
  · have view := congrArg View.known (others other same)
    exact .inl (view.trans known)

theorem Calm.linkNext (calm : network.Calm here) (enabled : network.Enabled (.linkNext socket))
    {started : List Task}
    (performed : network.manager.sendNext socket = some (next.manager, started))
    (tasks : next.tasks = started ++ network.rest (.linkNext socket))
    (messages : next.messages = network.messages) (handed : next.handed = network.handed) :
    network.Advances next started (network.rest (.linkNext socket)) := by
  have drives : (Task.linked socket).drives socket = true := by
    simp [Task.drives, Task.connects]
  obtain ⟨own, others, address, news⟩ := calm.next_line enabled rfl drives performed tasks
  have before : network.line socket = (network.manager.outgoing socket).getD [] := by
    rw [line, calm.loads_eq rfl enabled drives]
    simp [Task.load]
  have same (other : Fd) : next.line other = network.line other := by
    by_cases is : other = socket
    · rw [is, own, before]
    · exact (others other is).1
  refine ⟨retarget_lines same messages handed fun other waiting => ?_, news,
    calm.next_keeps enabled rfl drives fun other different => (others other different).2⟩
  by_cases is : other = socket
  · subst is
    exact address (same other ▸ waiting)
  · exact congrArg View.address (others other is).2

theorem Calm.sendNext {encoder : Encoder} (calm : network.Calm here)
    (enabled : network.Enabled (.sendNext socket encoder)) {started : List Task}
    (performed : network.manager.sendNext socket = some (next.manager, started))
    (tasks : next.tasks = started ++ network.rest (.sendNext socket encoder))
    (messages : next.messages = network.messages) (handed : next.handed = network.handed) :
    network.Advances next started (network.rest (.sendNext socket encoder)) := by
  have drives : (Task.sending socket encoder).drives socket = true := by
    simp [Task.drives, Task.sends]
  obtain ⟨own, others, address, news⟩ := calm.next_line enabled rfl drives performed tasks
  have front : network.line socket = encoder :: (network.manager.outgoing socket).getD [] := by
    rw [line, calm.loads_eq rfl enabled drives]
    simp [Task.load]
  have lines_eq : next.line = Function.update network.line socket
      ((network.manager.outgoing socket).getD []) := by
    funext other
    by_cases is : other = socket
    · rw [is, Function.update_self, own]
    · rw [Function.update_of_ne is, (others other is).1]
  have moved : next.lines = { network.lines with
      line := Function.update network.line socket ((network.manager.outgoing socket).getD [])
      addresses := next.manager.addresses } := by
    simp only [lines, lines_eq, messages, handed]
  refine ⟨moved ▸ .leave front (by simpa [Event.permitted] using enabled.2.2.2)
    fun other waiting => ?_, news,
    calm.next_keeps enabled rfl drives fun other different => (others other different).2⟩
  by_cases is : other = socket
  · subst is
    exact address (by rw [lines_eq]; exact waiting)
  · exact congrArg View.address (others other is).2

/-- The driver of a socket is replaced without a call to the manager. -/
theorem Calm.replaced (calm : network.Calm here) (enabled : network.Enabled event)
    (own : event.task = some task) (drives : task.drives socket = true) {started : List Task}
    (manager : next.manager = network.manager)
    (tasks : next.tasks = started ++ network.rest event)
    (news : ∀ task ∈ started, task.socket = socket) :
    next.line socket = started.filterMap (Task.load socket) ++
      (network.manager.outgoing socket).getD [] ∧
    (∀ other, other ≠ socket → next.line other = network.line other) ∧
    (∀ task ∈ started, ∀ other, task.drives other = true →
      next.manager.sockets other = true) ∧
    ∀ other, network.manager.sockets other = true → next.manager.sockets other = true ∨
      (network.rest event).countP (Task.drives other) = 0 := by
  obtain ⟨known, -, idle⟩ := calm.rest_idle own enabled drives
  have unloaded (other : Fd) (different : other ≠ socket) (task : Task)
      (at' : task.socket = socket) : task.load other = none := by
    refine Task.load_eq_none ?_
    by_contra clash
    have there := Task.socket_of_drives (show task.drives other = true by simpa using clash)
    exact different (there.symm.trans at')
  refine ⟨?_, fun other different => ?_, fun task' member other drives' => ?_,
    fun other known => .inl (manager ▸ known)⟩
  · simp [line, tasks, manager, Task.loads_eq_nil idle]
  · simp only [line, tasks, manager]
    rw [loads_of_ne (fun task' is => ?_) fun task' member => unloaded other different task'
      (news task' member)]
    cases own.symm.trans is
    exact unloaded other different task (Task.socket_of_drives drives)
  · obtain rfl : task'.socket = other := Task.socket_of_drives drives'
    rw [manager, news task' member]
    exact known

theorem Calm.handed {encoder : Encoder} {sent : Nat} (calm : network.Calm here)
    (enabled : network.Enabled (.handed socket encoder sent))
    (manager : next.manager = network.manager)
    (tasks : next.tasks = [.sending socket (encoder.advance sent)] ++
      network.rest (.handed socket encoder sent))
    (messages : next.messages = network.messages)
    (handed : next.handed = network.handed ++ bytes (.handed socket encoder sent)) :
    network.Advances next [.sending socket (encoder.advance sent)]
      (network.rest (.handed socket encoder sent)) := by
  have drives : (Task.sending socket encoder).drives socket = true := by
    simp [Task.drives, Task.sends]
  obtain ⟨own, others, news, keeps⟩ := calm.replaced enabled rfl drives manager tasks
    (by simp [Task.socket])
  have front : network.line socket = encoder :: (network.manager.outgoing socket).getD [] := by
    rw [line, calm.loads_eq rfl enabled drives]
    simp [Task.load]
  have lines_eq : next.line = Function.update network.line socket
      (encoder.advance sent :: (network.manager.outgoing socket).getD []) := by
    funext other
    by_cases is : other = socket
    · rw [is, Function.update_self, own]
      simp [Task.load]
    · rw [Function.update_of_ne is, others other is]
  have moved : next.lines = { network.lines with
      line := Function.update network.line socket
        (encoder.advance sent :: (network.manager.outgoing socket).getD [])
      handed := network.handed ++ Lines.bytes encoder sent } := by
    simp only [lines, lines_eq, messages, handed, manager]
    rfl
  exact ⟨moved ▸ .hand front (by simpa [Event.permitted] using enabled.2.2.2), news, keeps⟩

/-- A connect completes, and its message is the first to be sent. -/
theorem Calm.connected (calm : network.Calm here) (enabled : network.Enabled event)
    (own : event.task = some task) (drives : task.drives socket = true) {started : List Task}
    (manager : next.manager = network.manager)
    (tasks : next.tasks = started ++ network.rest event)
    (news : ∀ task ∈ started, task.socket = socket)
    (load : started.filterMap (Task.load socket) = (task.load socket).toList)
    (messages : next.messages = network.messages) (handed : next.handed = network.handed) :
    network.Advances next started (network.rest event) := by
  obtain ⟨mine, others, news, keeps⟩ := calm.replaced enabled own drives manager tasks news
  refine ⟨retarget_lines (fun other => ?_) messages handed fun _ _ => by rw [manager], news, keeps⟩
  by_cases is : other = socket
  · rw [is, mine, load, line, calm.loads_eq own enabled drives]
  · exact others other is

theorem Calm.link {process : ProcessId} {linkee : UPID} {kind : Kind} {target : Fd}
    (calm : network.Calm here)
    (enabled : network.Enabled (.link process linkee .reuse kind (some target)))
    {started : List Task} {connect : Option Fd}
    (performed : network.manager.link here process linkee .reuse (some target) =
      some (next.manager, connect))
    (started_eq : started = (connect.map (.linking · kind linkee.address)).toList)
    (tasks : next.tasks =
      started ++ network.rest (.link process linkee .reuse kind (some target)))
    (messages : next.messages = network.messages) (handed : next.handed = network.handed) :
    network.Advances next started
      (network.rest (.link process linkee .reuse kind (some target))) := by
  have unreferenced := enabled.2.2.1 target rfl
  have loads (other : Fd) : next.tasks.filterMap (Task.load other) =
      network.tasks.filterMap (Task.load other) := by
    rw [tasks]
    refine loads_of_ne (by simp [Event.task]) ?_
    rw [started_eq]
    cases connect <;> simp [Task.load]
  rcases SocketManager.link_reuse performed with ⟨rfl, same⟩ | ⟨rfl, same⟩
  · subst started_eq
    refine ⟨retarget_lines (fun other => ?_) messages handed fun _ _ => by rw [same]; rfl, by simp,
      fun other known => .inl (by rw [same]; exact known)⟩
    simp only [line, loads other, same]
    rfl
  · subst started_eq
    have noEntries := calm.driven.2.tables.entries unreferenced.1
    refine ⟨retarget_lines (fun other => ?_) messages handed fun other waiting => ?_,
      fun task member other drives => ?_, fun other known => .inl ?_⟩
    · simp only [line, loads other, same, SocketManager.register, SocketManager.persist, emplace]
      by_cases is : other = target
      · simp [is, noEntries.2.2.1]
      · simp [is]
    · have different : other ≠ target := by
        rintro rfl
        exact waiting (calm.line_unreferenced unreferenced)
      simp [same, SocketManager.register, SocketManager.persist, emplace, different]
    · simp only [Option.map_some, Option.toList_some, List.mem_singleton] at member
      subst member
      obtain rfl : target = other := Task.socket_of_drives drives
      simp [same, SocketManager.register, SocketManager.persist]
    · by_cases is : other = target
      · simp [same, SocketManager.register, SocketManager.persist, is]
      · simp [same, SocketManager.register, SocketManager.persist, is, known]

/-- In a timely send, nothing is left on the other sockets to the address. -/
theorem Calm.clear (calm : network.Calm here) {address : Address} {size : Nat} {kind : Kind}
    {created : Option Fd} (timely : network.Timely (.send address size kind created))
    {other : Fd} {encoder : Encoder} (waiting : encoder ∈ network.line other)
    (connected : network.manager.addresses other = some address)
    (different : (network.manager.persists address).or (network.manager.temps address) ≠
      some other) : encoder.remaining = 0 := by
  have persists := calm.driven.2.tables.persists address other
  have temps := calm.driven.2.tables.temps address other
  cases disposed : network.manager.dispose other with
  | false =>
      have persistent := persists.mpr ⟨connected, disposed⟩
      simp [persistent] at different
  | true =>
      have temporary := temps.mpr ⟨connected, disposed⟩
      cases persistent : network.manager.persists address with
      | none => simp [persistent, temporary] at different
      | some existing => exact timely (by simp [persistent]) other temporary encoder waiting

theorem Calm.send {address : Address} {size : Nat} {kind : Kind} {target : Fd}
    {message : Message} (calm : network.Calm here)
    (enabled : network.Enabled (.send address size kind (some target)))
    (timely : network.Timely (.send address size kind (some target)))
    (message_eq : message = ⟨network.messages.length, address, size⟩)
    {started : List Task} {dispatch : Dispatch}
    (performed : network.manager.sendMessage address message.encoder (some target) =
      some (next.manager, dispatch))
    (started_eq : started = dispatch.tasks kind message)
    (tasks : next.tasks = started ++ network.rest (.send address size kind (some target)))
    (messages : next.messages = network.messages ++ [message])
    (handed : next.handed = network.handed) :
    network.Advances next started (network.rest (.send address size kind (some target))) := by
  have rest_eq : network.rest (.send address size kind (some target)) = network.tasks := rfl
  have at' : message.address = address := by rw [message_eq]
  have number : message.number = network.lines.messages.length := by rw [message_eq]; rfl
  have joined (socket : Fd) (own : next.line socket = network.line socket ++ [message.encoder])
      (others : ∀ other, other ≠ socket → next.line other = network.line other)
      (kept : Lines.Retargets network.line network.manager.addresses next.manager.addresses)
      (connected : next.manager.addresses socket = some message.address)
      (clear : ∀ other encoder, other ≠ socket → encoder ∈ network.line other →
        network.manager.addresses other = some message.address → encoder.remaining = 0) :
      network.lines.Step next.lines := by
    have moved : next.lines = {
        line := Function.update network.line socket (network.line socket ++ [message.encoder])
        addresses := next.manager.addresses
        messages := network.messages ++ [message]
        handed := network.handed } := by
      have line : next.line =
          Function.update network.line socket (network.line socket ++ [message.encoder]) := by
        funext other
        by_cases is : other = socket
        · rw [is, Function.update_self, own]
        · rw [Function.update_of_ne is, others other is]
      simp only [lines, line, messages, handed]
    exact moved ▸ .join kept number connected clear
  rcases SocketManager.sendMessage_cases performed with
    ⟨socket, found, known, sameSockets, sameAddresses, outcome⟩ | ⟨found, rfl, same⟩
  · have connected : network.manager.addresses socket = some address := by
      cases persistent : network.manager.persists address with
      | some existing =>
          obtain rfl : existing = socket := by simpa [persistent] using found
          exact ((calm.driven.2.tables.persists address existing).mp persistent).1
      | none =>
          have temporary : network.manager.temps address = some socket := by
            simpa [persistent] using found
          exact ((calm.driven.2.tables.temps address socket).mp temporary).1
    have clear : ∀ other encoder, other ≠ socket → encoder ∈ network.line other →
        network.manager.addresses other = some message.address → encoder.remaining = 0 := by
      intro other encoder different waiting connected'
      refine calm.clear timely waiting (at' ▸ connected') fun is => different ?_
      exact Option.some.inj (is.symm.trans found)
    have keeps : ∀ socket, network.manager.sockets socket = true →
        next.manager.sockets socket = true ∨
          (network.rest (.send address size kind (some target))).countP
            (Task.drives socket) = 0 := fun other known => .inl (sameSockets ▸ known)
    rcases outcome with ⟨queue, waiting, rfl, outgoing⟩ | ⟨idle, rfl, outgoing⟩
    · simp only [Dispatch.tasks] at started_eq
      subst started_eq
      refine ⟨joined socket ?_ (fun other different => ?_)
        (fun _ _ => by rw [sameAddresses]) (by rw [sameAddresses, connected, at']) clear,
        by simp, keeps⟩
      · simp [line, tasks, rest_eq, outgoing, waiting]
      · simp [line, tasks, rest_eq, outgoing, different]
    · simp only [Dispatch.tasks] at started_eq
      subst started_eq
      have unloaded : network.tasks.filterMap (Task.load socket) = [] := by
        refine Task.loads_eq_nil ?_
        rw [(calm.driven.2.holds socket).driven known]
        simp [SocketManager.view, idle]
      refine ⟨joined socket ?_ (fun other different => ?_)
        (fun _ _ => by rw [sameAddresses]) (by rw [sameAddresses, connected, at']) clear,
        fun task member other drives => ?_, keeps⟩
      · simp [line, tasks, rest_eq, outgoing, idle, unloaded, Task.load]
      · simp [line, tasks, rest_eq, outgoing, different, Task.load, Ne.symm different]
      · simp only [List.mem_singleton] at member
        subst member
        obtain rfl : socket = other := Task.socket_of_drives drives
        exact sameSockets ▸ known
  · simp only [Dispatch.tasks] at started_eq
    subst started_eq
    have unreferenced := enabled.2.2.1 target rfl
    have noEntries := calm.driven.2.tables.entries unreferenced.1
    have unloaded : network.tasks.filterMap (Task.load target) = [] :=
      Task.loads_eq_nil (At.countP_eq_zero unreferenced.2)
    refine ⟨joined target ?_ (fun other different => ?_) (fun other waiting => ?_) ?_
      (fun other encoder _ waiting connected => ?_), fun task member other drives => ?_,
      fun other known => .inl ?_⟩
    · simp [line, tasks, rest_eq, same, SocketManager.connectTemporary, emplace, noEntries.2.2.1,
        unloaded, Task.load]
    · simp [line, tasks, rest_eq, same, SocketManager.connectTemporary, emplace, different,
        Task.load, Ne.symm different]
    · have different : other ≠ target := by
        rintro rfl
        exact waiting (calm.line_unreferenced unreferenced)
      simp [same, SocketManager.connectTemporary, emplace, different]
    · simp [same, SocketManager.connectTemporary, emplace, noEntries.1, at']
    · exact calm.clear timely waiting (at' ▸ connected) (by simp [found])
    · simp only [List.mem_singleton] at member
      subst member
      obtain rfl : target = other := Task.socket_of_drives drives
      simp [same, SocketManager.connectTemporary]
    · by_cases is : other = target
      · simp [same, SocketManager.connectTemporary, is]
      · simp [same, SocketManager.connectTemporary, is, known]

theorem Calm.advances (calm : network.Calm here) (permitted : event.calm = true)
    (timely : network.Timely event) (enabled : network.Enabled event) {started : List Task}
    (performed : network.manager.perform names here flags network.messages.length event =
      some (next.manager, started))
    (tasks : next.tasks = started ++ network.rest event)
    (messages : next.messages = network.messages ++ network.submitted event)
    (handed : next.handed = network.handed ++ bytes event) :
    network.Advances next started (network.rest event) := by
  have unsent (quiet : network.submitted event = []) : next.messages = network.messages := by
    rw [messages, quiet, List.append_nil]
  have unhanded (quiet : bytes event = []) : next.handed = network.handed := by
    rw [handed, quiet, List.append_nil]
  cases event with
  | link process linkee remote kind created =>
      cases remote with
      | reconnect => simp [Event.calm] at permitted
      | reuse =>
          cases created with
          | none => simp [Event.calm] at permitted
          | some target =>
              simp only [SocketManager.perform, Option.map_eq_some_iff, Prod.mk.injEq] at performed
              obtain ⟨⟨manager, connect⟩, executed, is, startedIs⟩ := performed
              subst is
              exact calm.link enabled executed startedIs.symm tasks (unsent rfl)
                (unhanded rfl)
  | send address size kind created =>
      cases created with
      | none => simp [Event.calm] at permitted
      | some target =>
          simp only [SocketManager.perform, Option.map_eq_some_iff, Prod.mk.injEq] at performed
          obtain ⟨⟨manager, dispatch⟩, executed, is, startedIs⟩ := performed
          subst is
          exact calm.send enabled timely rfl executed startedIs.symm tasks messages
            (unhanded rfl)
  | linkConnect socket kind address completion =>
      cases completion with
      | connected =>
          have drives : (Task.linking socket kind address).drives socket = true := by
            simp [Task.drives, Task.connects]
          have known := (calm.rest_idle rfl enabled drives).1
          simp only [SocketManager.perform, SocketManager.linkConnect, known, if_true,
            Option.some.injEq, Prod.mk.injEq] at performed
          obtain ⟨is, rfl⟩ := performed
          exact calm.connected enabled rfl drives is.symm tasks (by simp [Task.socket])
            (by simp [Task.load, List.filterMap_cons]) (unsent rfl) (unhanded rfl)
      | discarded | failed => simp [Event.calm] at permitted
  | sendConnect socket kind message completion =>
      cases completion with
      | connected =>
          have drives : (Task.connecting socket kind message).drives socket = true := by
            simp [Task.drives, Task.connects]
          simp only [SocketManager.perform, SocketManager.sendConnect, Option.some.injEq,
            Prod.mk.injEq] at performed
          obtain ⟨is, rfl⟩ := performed
          exact calm.connected enabled rfl drives is.symm tasks (by simp [Task.socket])
            (by simp [Task.load, List.filterMap_cons]) (unsent rfl) (unhanded rfl)
      | discarded | failed => simp [Event.calm] at permitted
  | linkNext socket => exact calm.linkNext enabled performed tasks (unsent rfl) (unhanded rfl)
  | sendNext socket encoder =>
      exact calm.sendNext enabled performed tasks (unsent rfl) (unhanded rfl)
  | handed socket encoder sent =>
      simp only [SocketManager.perform, Option.some.injEq, Prod.mk.injEq] at performed
      obtain ⟨is, rfl⟩ := performed
      exact calm.handed enabled is.symm tasks (unsent rfl) handed
  | _ => simp [Event.calm] at permitted

theorem Calm.step (calm : network.Calm here) (permitted : event.calm = true)
    (timely : network.Timely event)
    (stepped : network.step names here flags event = some next) : next.Calm here := by
  obtain ⟨enabled, -⟩ := step_cases stepped
  obtain ⟨started, performed, tasks, messages, handed, driven⟩ := calm.driven.step stepped
  have advances := calm.advances permitted timely enabled performed tasks messages handed
  exact ⟨driven, calm.drivers_step enabled tasks advances.news advances.keeps,
    advances.lines.orderly calm.orderly⟩

theorem calm_empty (here : Address) : empty.Calm here :=
  ⟨driven_empty here, nofun, Lines.orderly_empty _⟩

/-- While no socket fails and no link reconnects, messages to one address are handed over
in the order in which they were sent, provided that each message that joins the line of a
persistent socket finds nothing left on the temporary socket to its address. -/
theorem ordered_of_timely (names : ProcessId → String) (here : Address) (flags : Flags)
    {network : Network} (reached : (machine names here flags).Reaches
      (fun network event => event.calm = true ∧ network.Timely event) network) :
    network.Ordered := by
  have calm : network.Calm here := reached.invariant (Calm here)
    (by rintro _ rfl; exact calm_empty here)
    fun _ _ _ calm allowed stepped => calm.step allowed.1 allowed.2 stepped
  exact calm.orderly.ordered

/-- Two messages are sent before a link, and one after both have been handed over. -/
theorem ordered_of_timely_linked :
    ∃ network, (machine (fun _ => "") 0 ⟨false, false⟩).run empty
        [.send 7 2 .poll (some 3), .send 7 1 .poll (some 4),
          .link 1 ⟨"remote", 7⟩ .reuse .poll (some 4), .sendConnect 3 .poll ⟨0, 7, 2⟩ .connected,
          .handed 3 ⟨some 0, 2, 0⟩ 2, .sendNext 3 ⟨some 0, 2, 2⟩, .handed 3 ⟨some 1, 1, 0⟩ 1,
          .send 7 1 .poll (some 5), .linkConnect 4 .poll 7 .connected, .linkNext 4,
          .handed 4 ⟨some 2, 1, 0⟩ 1] = some network ∧
      network.handed = [0, 0, 1, 2] ∧ network.Ordered := by
  obtain ⟨network, ran, handed⟩ : ∃ network ∈ (machine (fun _ => "") 0 ⟨false, false⟩).run empty
      [.send 7 2 .poll (some 3), .send 7 1 .poll (some 4),
        .link 1 ⟨"remote", 7⟩ .reuse .poll (some 4), .sendConnect 3 .poll ⟨0, 7, 2⟩ .connected,
        .handed 3 ⟨some 0, 2, 0⟩ 2, .sendNext 3 ⟨some 0, 2, 2⟩, .handed 3 ⟨some 1, 1, 0⟩ 1,
        .send 7 1 .poll (some 5), .linkConnect 4 .poll 7 .connected, .linkNext 4,
        .handed 4 ⟨some 2, 1, 0⟩ 1],
      network.handed = [0, 0, 1, 2] := by
    decide +kernel
  exact ⟨network, ran, handed, ordered_of_timely (fun _ => "") 0 ⟨false, false⟩
    (.of_along (.start rfl) (by decide +kernel) ran)⟩

/-- A message that is sent after a link overtakes one that was sent before: the persistent
socket is connected before the temporary one. -/
theorem not_ordered : ¬ ∀ network, (machine (fun _ => "") 0 ⟨false, false⟩).Reaches
    (fun _ event => event.calm = true) network → network.Ordered := by
  intro ordered
  obtain ⟨network, ran, messages, handed⟩ :
      ∃ network ∈ (machine (fun _ => "") 0 ⟨false, false⟩).run empty
        [.send 7 2 .poll (some 3), .link 1 ⟨"remote", 7⟩ .reuse .poll (some 4),
          .send 7 1 .poll (some 5), .linkConnect 4 .poll 7 .connected, .linkNext 4,
          .handed 4 ⟨some 1, 1, 0⟩ 1],
      network.messages = [⟨0, 7, 2⟩, ⟨1, 7, 1⟩] ∧ network.handed = [1] := by
    decide +kernel
  have first := ordered network (.of_along (.start rfl) (by decide +kernel) ran)
    0 1 ⟨0, 7, 2⟩ ⟨1, 7, 1⟩
    (by rw [messages]; rfl) (by rw [messages]; rfl) (by decide) rfl (by rw [handed]; decide)
  rw [handed] at first
  simp at first

end Network

end Libprocess.Sockets
