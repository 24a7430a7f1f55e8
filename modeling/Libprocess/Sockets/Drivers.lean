import Libprocess.Sockets.Tables
import Mathlib.Data.List.Count
import Mathlib.Data.List.Perm.Basic

/-!
# The drivers of a socket

A known socket has an outgoing queue exactly as long as some task will call `next` for
it, and then there is one such task: a connect in flight or a sender loop.  This is
proved for one socket at a time, since a step changes the views and the tasks of the
sockets it is about only.
-/

namespace Libprocess.Sockets

open Containers Concurrency

namespace Task

/-- A connect in flight for a socket. -/
def connects (socket : Fd) : Task → Bool
  | .linking other _ _ | .linked other | .connecting other _ _ => other = socket
  | _ => false

/-- A sender loop for a socket. -/
def sends (socket : Fd) : Task → Bool
  | .sending other _ => other = socket
  | _ => false

/-- A task that will call `next` for a socket. -/
def drives (socket : Fd) (task : Task) : Bool := task.connects socket || task.sends socket

/-- What a task relies on. -/
def Fits (view : View) : Task → Prop
  | .holder _ => view.address = none
  | .linking _ _ address => view.known = true → view.address = some address
  | .connecting _ _ message =>
      view.known = true ∧ view.address = some message.address ∧ view.dispose = true
  | _ => True

theorem socket_of_drives {socket : Fd} {task : Task} (drives : task.drives socket = true) :
    task.socket = socket := by
  cases task <;> simp_all [Task.drives, connects, sends, Task.socket]

end Task

/-- The view of a socket agrees with its tasks. -/
structure At (view : View) (tasks : List Task) (socket : Fd) : Prop where
  driven : view.known = true → tasks.countP (Task.drives socket) = view.busy.toNat
  fits : ∀ task ∈ tasks, task.socket = socket → task.Fits view
  quiet : ∀ kind message, .connecting socket kind message ∈ tasks → .receiving socket ∉ tasks

namespace At

variable {view next : View} {tasks old started rest : List Task} {socket : Fd} {task : Task}

theorem of_perm {other : List Task} (perm : tasks.Perm other) (holds : At view tasks socket) :
    At view other socket where
  driven known := perm.countP_eq _ ▸ holds.driven known
  fits task member := holds.fits task (perm.mem_iff.mpr member)
  quiet kind message member receiving :=
    holds.quiet kind message (perm.mem_iff.mpr member) (perm.mem_iff.mpr receiving)

theorem countP_eq_zero (others : ∀ task ∈ tasks, task.socket ≠ socket) :
    tasks.countP (Task.drives socket) = 0 :=
  List.countP_eq_zero.mpr fun task member drives =>
    others task member (Task.socket_of_drives drives)

/-- A step on other sockets. -/
theorem frame (old : List Task) {started : List Task} (holds : At view (old ++ rest) socket)
    (before : ∀ task ∈ old, task.socket ≠ socket)
    (after : ∀ task ∈ started, task.socket ≠ socket) : At view (started ++ rest) socket where
  driven known := by
    have count := holds.driven known
    rw [List.countP_append, countP_eq_zero before] at count
    rw [List.countP_append, countP_eq_zero after, count]
  fits task member same := by
    rcases List.mem_append.mp member with new | kept
    · exact absurd same (after task new)
    · exact holds.fits task (List.mem_append_right _ kept) same
  quiet kind message member receiving := by
    rcases List.mem_append.mp member with new | kept
    · exact after _ new rfl
    · rcases List.mem_append.mp receiving with new | still
      · exact after _ new rfl
      · exact holds.quiet kind message (List.mem_append_right _ kept)
          (List.mem_append_right _ still)

/-- The only task of a socket. -/
theorem alone (others : ∀ other ∈ rest, other.socket ≠ socket) (fits : task.Fits view)
    (driven : view.known = true → (task.drives socket).toNat = view.busy.toNat) :
    At view (task :: rest) socket where
  driven known := by
    rw [List.countP_cons, countP_eq_zero others, ← driven known]
    cases task.drives socket <;> rfl
  fits other member same := by
    rcases List.mem_cons.mp member with rfl | kept
    · exact fits
    · exact absurd same (others other kept)
  quiet kind message member receiving := by
    rcases List.mem_cons.mp member with rfl | kept
    · rcases List.mem_cons.mp receiving with same | still
      · simp at same
      · exact others _ still rfl
    · exact others _ kept rfl

/-- A socket that is not known, and that no message waits for. -/
theorem absent (settled : ∀ kind message, .connecting socket kind message ∉ tasks) :
    At .absent tasks socket where
  driven known := by simp [View.absent] at known
  fits task member same := by
    cases task with
    | holder => rfl
    | linking => exact fun known => by simp [View.absent] at known
    | connecting other kind message => exact absurd (same ▸ member) (settled kind message)
    | linked | sending | receiving => exact True.intro
  quiet kind message member := absurd member (settled kind message)

/-- A known socket has at most one driver. -/
theorem countP_rest (holds : At view (task :: rest) socket) (drives : task.drives socket = true)
    (known : view.known = true) : view.busy = true ∧ rest.countP (Task.drives socket) = 0 := by
  have count := holds.driven known
  rw [List.countP_cons, drives, if_pos rfl] at count
  cases busy : view.busy with
  | true =>
      rw [busy, Bool.toNat_true] at count
      exact ⟨rfl, by omega⟩
  | false =>
      rw [busy, Bool.toNat_false] at count
      omega

/-- A message that waits for a socket excludes any other task of the socket. -/
theorem settled (holds : At view (task :: rest) socket) (same : task.socket = socket) :
    ∀ kind message, .connecting socket kind message ∉ rest := by
  intro kind message waiting
  obtain ⟨known, connected, -⟩ :=
    holds.fits (.connecting socket kind message) (List.mem_cons_of_mem _ waiting) rfl
  have single (drives : task.drives socket = true) : False := by
    have none := (holds.countP_rest drives known).2
    exact absurd (List.countP_eq_zero.mp none _ waiting) (by simp [Task.drives, Task.connects])
  cases task with
  | holder =>
      have free : view.address = none := holds.fits _ (by simp) same
      simp [free] at connected
  | receiving other =>
      cases (show other = socket from same)
      exact holds.quiet kind message (List.mem_cons_of_mem _ waiting) (by simp)
  | linking other _ _ | linked other | connecting other _ _ | sending other _ =>
      exact single (by simpa [Task.drives, Task.connects, Task.sends, Task.socket] using same)

/-- A driver takes a step: the socket may be forgotten or lose its queue. -/
theorem driver (holds : At view (task :: rest) socket) (drives : task.drives socket = true)
    (known : next.known = true → view.known = true)
    (address : view.address = none → next.address = none)
    (count : next.known = true → started.countP (Task.drives socket) = next.busy.toNat)
    (fits : ∀ other ∈ started, other.Fits next ∧
      ∀ kind message, other ≠ .connecting socket kind message) :
    At next (started ++ rest) socket := by
  have waiting := holds.settled (Task.socket_of_drives drives)
  refine ⟨fun still => ?_, fun other member same => ?_, fun kind message member => ?_⟩
  · rw [List.countP_append, (holds.countP_rest drives (known still)).2, count still, Nat.add_zero]
  · rcases List.mem_append.mp member with new | kept
    · exact (fits other new).1
    · have before := holds.fits other (List.mem_cons_of_mem _ kept) same
      cases other with
      | holder => exact address before
      | linking other kind remote =>
          intro still
          have none := (holds.countP_rest drives (known still)).2
          refine absurd (List.countP_eq_zero.mp none _ kept) ?_
          simpa [Task.drives, Task.connects, Task.sends, Task.socket] using same
      | connecting other kind message => exact absurd (same ▸ kept) (waiting kind message)
      | linked | sending | receiving => exact True.intro
  · rcases List.mem_append.mp member with new | kept
    · exact absurd rfl ((fits _ new).2 kind message)
    · exact absurd kept (waiting kind message)

/-- A send on a known socket, which starts a sender loop if there is no driver. -/
theorem send (holds : At view tasks socket) (known : view.known = true) (dispose : Bool)
    (encoder : Encoder) :
    At ⟨true, view.address, view.dispose || dispose, true⟩
      ((if view.busy then [] else [.sending socket encoder]) ++ tasks) socket where
  driven _ := by
    have count := holds.driven known
    rw [List.countP_append, count]
    cases view.busy <;> simp [Task.drives, Task.connects, Task.sends]
  fits task member same := by
    rcases List.mem_append.mp member with new | kept
    · cases busy : view.busy with
      | true => simp [busy] at new
      | false =>
          simp only [busy, Bool.false_eq_true, if_false, List.mem_singleton] at new
          exact new ▸ True.intro
    · have before := holds.fits task kept same
      cases task with
      | holder => exact before
      | linking => exact fun _ => before known
      | connecting => exact ⟨rfl, before.2.1, by simp [before.2.2]⟩
      | linked | sending | receiving => exact True.intro
  quiet kind message member receiving := by
    refine holds.quiet kind message ?_ ?_
    · cases busy : view.busy <;> simpa [busy] using member
    · cases busy : view.busy <;> simpa [busy] using receiving

/-- A reference to an accepted socket is copied. -/
theorem fork (holds : At view (.holder socket :: rest) socket) :
    At view (.holder socket :: .holder socket :: rest) socket where
  driven known := by
    have count := holds.driven known
    rw [List.countP_cons_of_neg (by simp [Task.drives, Task.connects, Task.sends])]
    exact count
  fits task member same := by
    rcases List.mem_cons.mp member with rfl | kept
    · exact holds.fits _ (by simp) rfl
    · exact holds.fits task kept same
  quiet kind message member receiving :=
    holds.quiet kind message (by simpa using member) (by simpa using receiving)

/-- A task ends that is not a driver. -/
theorem release (holds : At view (task :: rest) socket) (idle : task.drives socket = false) :
    At view rest socket where
  driven known := by
    have count := holds.driven known
    rwa [List.countP_cons_of_neg (by simp [idle])] at count
  fits other member same := holds.fits other (List.mem_cons_of_mem _ member) same
  quiet kind message member receiving :=
    holds.quiet kind message (List.mem_cons_of_mem _ member) (List.mem_cons_of_mem _ receiving)

end At

namespace SocketManager

/-- The tables agree with each other, with the links and with the tasks. -/
structure Driven (here : Address) (manager : SocketManager) (tasks : List Task) : Prop where
  tables : manager.Tables
  notifying : manager.Notifying here
  holds : ∀ socket, At (manager.view socket) tasks socket

/-- A step succeeds and keeps the agreement. -/
def Proceeds (here : Address) (result : Option (SocketManager × List Task))
    (rest : List Task) : Prop :=
  ∃ after started, result = some (after, started) ∧ Driven here after (started ++ rest)

variable {names : ProcessId → String} {here : Address} {flags : Flags} {manager : SocketManager}
  {task : Task} {rest : List Task} {socket : Fd}

/-- A step that is about one socket. -/
theorem At.extend {before after : SocketManager} (old : List Task) (socket : Fd)
    {started : List Task} (holds : ∀ other, At (before.view other) (old ++ rest) other)
    (olds : ∀ task ∈ old, task.socket = socket)
    (news : ∀ task ∈ started, task.socket = socket)
    (others : ∀ other, other ≠ socket → after.view other = before.view other)
    (own : At (after.view socket) (started ++ rest) socket) :
    ∀ other, At (after.view other) (started ++ rest) other := by
  intro other
  by_cases same : other = socket
  · exact same ▸ own
  · rw [others other same]
    exact (holds other).frame old (fun task member here => same (here ▸ (olds task member)))
      (fun task member here => same (here ▸ (news task member)))

theorem Driven.closing (driven : Driven here manager (task :: rest))
    (same : task.socket = socket) : Proceeds here (manager.closing socket) rest := by
  obtain ⟨after, closed, tables, absent, others⟩ :=
    driven.tables.close driven.notifying socket
  obtain ⟨_, again, notifying, -⟩ := driven.notifying.close socket
  cases closed.symm.trans again
  refine ⟨after, [], by simp [SocketManager.closing, closed], tables, notifying, ?_⟩
  refine At.extend [task] socket driven.holds (by simp [same]) (by simp) others ?_
  rw [absent]
  exact .absent ((driven.holds socket).settled same)

theorem Driven.sendNext (driven : Driven here manager (task :: rest))
    (drives : task.drives socket = true) :
    Proceeds here (manager.sendNext socket) rest := by
  have same := Task.socket_of_drives drives
  have busy (known : manager.sockets socket = true) :
      (manager.outgoing socket).isSome = true :=
    ((driven.holds socket).countP_rest drives known).1
  obtain ⟨after, encoder, executed, tables, others, continued, stopped⟩ :=
    driven.tables.next busy
  have notifying := driven.notifying.unlinking (next_unlinking executed)
  refine ⟨after, (encoder.map (.sending socket)).toList, by
    simp [SocketManager.sendNext, executed], tables, notifying, ?_⟩
  refine At.extend [task] socket driven.holds (by simp [same]) ?_ others ?_
  · cases encoder <;> simp [Task.socket]
  · cases encoder with
    | some encoder =>
        obtain ⟨view, known⟩ := continued rfl
        rw [view]
        refine (driven.holds socket).driver drives id id (fun _ => ?_) (by simp [Task.Fits])
        simp [Task.drives, Task.connects, Task.sends, SocketManager.view, busy known]
    | none =>
        cases still : after.sockets socket with
        | true =>
            rw [stopped rfl still]
            exact (driven.holds socket).driver drives id id (fun _ => rfl) (by simp)
        | false =>
            rw [(tables.unknown socket still).1]
            exact .absent ((driven.holds socket).settled same)

/-- A new socket takes the place of an old one. -/
theorem Driven.swap (old : List Task) (driven : Driven here manager (old ++ rest))
    (olds : ∀ task ∈ old, task.socket = socket)
    (settled : ∀ kind message, .connecting socket kind message ∉ rest)
    {address : Address} (connected : manager.addresses socket = some address) {target : Fd}
    (unknown : manager.sockets target = false)
    (fresh : ∀ other ∈ old ++ rest, other.socket ≠ target) (started : Task)
    (drives : started.drives target = true)
    (fits : started.Fits ⟨true, some address, manager.dispose socket, true⟩) :
    ∃ after, manager.swapImplementingSocket socket target = some after ∧
      Driven here after (started :: rest) := by
  obtain ⟨after, executed, tables, absent, moved, others⟩ :=
    driven.tables.swapImplementingSocket connected unknown
  have notifying := driven.notifying.unlinking (swapImplementingSocket_unlinking executed)
  have different : started.socket = target := Task.socket_of_drives drives
  refine ⟨after, executed, tables, notifying, fun other => ?_⟩
  by_cases source : other = socket
  · subst source
    rw [absent]
    refine .absent fun kind message waiting => ?_
    rcases List.mem_cons.mp waiting with rfl | kept
    · have known := driven.tables.known_of_address connected
      simp only [Task.socket] at different
      simp [different, unknown] at known
    · exact settled kind message kept
  · by_cases new : other = target
    · subst new
      rw [moved]
      exact .alone (fun task member => fresh task (List.mem_append_right _ member)) fits
        (fun _ => by simp [drives])
    · rw [others other source new]
      change At (manager.view other) ([started] ++ rest) other
      exact (driven.holds other).frame old (fun task member here => source (here ▸ (olds task member)))
        (by simpa [different] using Ne.symm new)

/-- A failed connect is downgraded. -/
theorem Driven.downgrade (driven : Driven here manager (task :: rest))
    (same : task.socket = socket) {address : Address}
    (connected : manager.addresses socket = some address) {target : Fd}
    (unknown : manager.sockets target = false)
    (fresh : ∀ other ∈ task :: rest, other.socket ≠ target) (started : Task)
    (drives : started.drives target = true)
    (fits : started.Fits ⟨true, some address, manager.dispose socket, true⟩) :
    Proceeds here ((manager.swapImplementingSocket socket target).map (·, [started])) rest := by
  obtain ⟨after, executed, swapped⟩ := driven.swap [task] (by simp [same])
    ((driven.holds socket).settled same) connected unknown fresh started drives fits
  exact ⟨after, [started], by simp [executed], swapped⟩

theorem Driven.linkConnect {kind : Kind} {address : Address}
    (driven : Driven here manager (.linking socket kind address :: rest))
    (completion : Completion)
    (fresh : ∀ target, completion = .failed (some target) → manager.sockets target = false ∧
      ∀ other ∈ .linking socket kind address :: rest, other.socket ≠ target) :
    Proceeds here (manager.linkConnect flags socket kind address completion) rest := by
  have drives : (Task.linking socket kind address).drives socket = true := by
    simp [Task.drives, Task.connects]
  have gone (unknown : manager.sockets socket = false) : Driven here manager ([] ++ rest) := by
    refine ⟨driven.tables, driven.notifying, At.extend [_] socket driven.holds
      (by simp [Task.socket]) (by simp) (fun _ _ => rfl) ?_⟩
    rw [(driven.tables.unknown socket unknown).1]
    exact .absent ((driven.holds socket).settled rfl)
  cases completion with
  | discarded => exact driven.closing rfl
  | connected =>
      simp only [SocketManager.linkConnect]
      split
      case isTrue known =>
        refine ⟨_, _, rfl, driven.tables, driven.notifying, ?_⟩
        refine At.extend [_] socket driven.holds (by simp [Task.socket])
          (by simp [Task.socket]) (fun _ _ => rfl) ?_
        refine (driven.holds socket).driver drives id id (fun _ => ?_) (by simp [Task.Fits])
        rw [((driven.holds socket).countP_rest drives known).1]
        simp [Task.drives, Task.connects, Task.sends]
      case isFalse unknown => exact ⟨_, _, rfl, gone (by simpa using unknown)⟩
  | failed created =>
      simp only [SocketManager.linkConnect]
      split
      · split
        case isTrue known =>
          cases created with
          | none => exact driven.closing rfl
          | some target =>
              obtain ⟨unknown, others⟩ := fresh target rfl
              have connected := (driven.holds socket).fits (.linking socket kind address)
                (by simp) rfl known
              exact driven.downgrade rfl connected unknown others (.linking target .poll address)
                (by simp [Task.drives, Task.connects]) (fun _ => rfl)
        case isFalse unknown => exact ⟨_, _, rfl, gone (by simpa using unknown)⟩
      · exact driven.closing rfl

theorem Driven.sendConnect {kind : Kind} {message : Message}
    (driven : Driven here manager (.connecting socket kind message :: rest))
    (completion : Completion)
    (fresh : ∀ target, completion = .failed (some target) → manager.sockets target = false ∧
      ∀ other ∈ .connecting socket kind message :: rest, other.socket ≠ target) :
    Proceeds here (manager.sendConnect flags socket kind message completion) rest := by
  have drives : (Task.connecting socket kind message).drives socket = true := by
    simp [Task.drives, Task.connects]
  have waiting := (driven.holds socket).fits (.connecting socket kind message) (by simp) rfl
  cases completion with
  | discarded => exact driven.closing rfl
  | connected =>
      refine ⟨_, _, rfl, driven.tables, driven.notifying, ?_⟩
      refine At.extend [_] socket driven.holds (by simp [Task.socket])
        (by simp [Task.socket]) (fun _ _ => rfl) ?_
      refine (driven.holds socket).driver drives id id (fun _ => ?_) (by simp [Task.Fits])
      rw [((driven.holds socket).countP_rest drives waiting.1).1]
      simp [Task.drives, Task.connects, Task.sends]
  | failed created =>
      simp only [SocketManager.sendConnect]
      split
      · cases created with
        | none => exact driven.closing rfl
        | some target =>
            obtain ⟨unknown, others⟩ := fresh target rfl
            exact driven.downgrade rfl waiting.2.1 unknown others (.connecting target .poll message)
              (by simp [Task.drives, Task.connects]) ⟨rfl, rfl, waiting.2.2⟩
      · exact driven.closing rfl

theorem Driven.accept {tasks : List Task} (driven : Driven here manager tasks)
    (unknown : manager.sockets socket = false) (fresh : ∀ task ∈ tasks, task.socket ≠ socket) :
    Proceeds here ((manager.accepted socket).map (·, [.holder socket])) tasks := by
  obtain ⟨after, executed, tables, view, others⟩ := driven.tables.accepted unknown
  have notifying : after.Notifying here :=
    driven.notifying.unlinking (accepted_unlinking executed)
  refine ⟨after, [.holder socket], by simp [executed], tables, notifying, ?_⟩
  refine At.extend [] socket driven.holds (by simp) (by simp [Task.socket])
    others ?_
  rw [view]
  exact .alone fresh rfl (fun _ => by simp [Task.drives, Task.connects, Task.sends])

/-- A socket of a manager with the same views. -/
theorem Driven.retain {after : SocketManager} (old : List Task) (socket : Fd)
    {started : List Task} (driven : Driven here manager (old ++ rest)) (tables : after.Tables)
    (notifying : after.Notifying here) (views : ∀ other, after.view other = manager.view other)
    (olds : ∀ task ∈ old, task.socket = socket) (news : ∀ task ∈ started, task.socket = socket)
    (own : At (manager.view socket) (started ++ rest) socket) :
    Driven here after (started ++ rest) := by
  refine ⟨tables, notifying, At.extend old socket driven.holds olds news
    (fun other _ => views other) ?_⟩
  rw [views]
  exact own

theorem Driven.respond (driven : Driven here manager (.holder socket :: rest))
    (encoder : Encoder) (persist : Bool) :
    Driven here (manager.send encoder persist socket).1 ((.holder socket ::
      ((manager.send encoder persist socket).2.map (.sending socket)).toList) ++ rest) := by
  have free : manager.addresses socket = none :=
    (driven.holds socket).fits (.holder socket) (by simp) rfl
  cases known : manager.sockets socket with
  | false =>
      simp only [SocketManager.send, known, Bool.false_eq_true, if_false, Option.map_none,
        Option.toList_none]
      exact driven
  | true =>
      obtain ⟨after, executed, tables, view, others⟩ := driven.tables.send encoder
        persist known (by simp [free])
      have notifying := driven.notifying.unlinking (send_unlinking manager encoder persist socket)
      rw [executed] at notifying ⊢
      refine ⟨tables, notifying, ?_⟩
      refine At.extend [_] socket driven.holds (by simp [Task.socket])
        ?_ others ?_
      · cases manager.outgoing socket <;> simp [Task.socket]
      · rw [view]
        have sent := (driven.holds socket).send known (!persist) encoder
        refine sent.of_perm ?_
        cases busy : manager.outgoing socket with
        | none =>
            simp only [SocketManager.view, busy, Option.isSome_none, Bool.false_eq_true, if_false,
              Option.map_some, Option.toList_some]
            exact .swap _ _ _
        | some queue =>
            simp only [SocketManager.view, busy, Option.isSome_some, if_true, Option.map_none,
              Option.toList_none]
            exact .refl _

theorem Driven.link {tasks : List Task} (driven : Driven here manager tasks)
    (process : ProcessId) (linkee : UPID) (remote : RemoteConnection) (kind : Kind)
    (created : Option Fd) (fresh : ∀ target ∈ created, manager.sockets target = false ∧
      ∀ other ∈ tasks, other.socket ≠ target) :
    Proceeds here ((manager.link here process linkee remote created).map
      fun (manager, connect) =>
        (manager, (connect.map (.linking · kind linkee.address)).toList)) tasks := by
  suffices linked : ∃ after connect,
      manager.link here process linkee remote created = some (after, connect) ∧ after.Tables ∧
      ∀ socket, At (after.view socket)
        ((connect.map (.linking · kind linkee.address)).toList ++ tasks) socket by
    obtain ⟨after, connect, executed, tables, holds⟩ := linked
    exact ⟨after, _, by rw [executed]; rfl, tables, (driven.notifying.link executed).1, holds⟩
  by_cases local' : linkee.address = here
  · exact ⟨_, none, by simp only [SocketManager.link, local', if_true],
      driven.tables.register here process linkee, driven.holds⟩
  · cases persistent : manager.persists linkee.address with
    | none =>
        cases created with
        | none =>
            exact ⟨_, none, by simp only [SocketManager.link, local', if_false, persistent],
              driven.tables.relink (manager.deliver process linkee), driven.holds⟩
        | some target =>
            obtain ⟨unknown, others⟩ := fresh target rfl
            obtain ⟨tables, view, same⟩ := driven.tables.persist unknown persistent
            refine ⟨_, some target, by simp only [SocketManager.link, local', if_false, persistent,
              unknown, Bool.false_eq_true], tables.register here process linkee, ?_⟩
            refine At.extend [] target driven.holds (by simp)
              (by simp [Task.socket]) same ?_
            refine .alone others ?_ ?_
            · exact fun _ => congrArg View.address view
            · intro _
              have busy : (((manager.persist linkee.address target).register here process
                linkee).view target).busy = true := congrArg View.busy view
              simp [busy, Task.drives, Task.connects]
    | some existing =>
        cases remote with
        | reuse =>
            exact ⟨_, none, by simp only [SocketManager.link, local', if_false, persistent],
              driven.tables.register here process linkee, driven.holds⟩
        | reconnect =>
            cases created with
            | none =>
                exact ⟨_, none, by simp only [SocketManager.link, local', if_false, persistent],
                  driven.tables.relink (manager.deliver process linkee),
                  driven.holds⟩
            | some target =>
                obtain ⟨unknown, others⟩ := fresh target rfl
                obtain ⟨connected, kept⟩ := (driven.tables.persists _ existing).mp persistent
                have known := driven.tables.known_of_address connected
                have settled : ∀ kind message, .connecting existing kind message ∉ tasks := by
                  intro kind message waiting
                  have disposed := ((driven.holds existing).fits _ waiting rfl).2.2
                  simp [view, kept] at disposed
                obtain ⟨after, swapped, moved⟩ := driven.swap [] (by simp) settled
                  connected unknown others (.linking target kind linkee.address)
                  (by simp [Task.drives, Task.connects]) (fun _ => rfl)
                refine ⟨after.register here process linkee, some target, ?_,
                  moved.tables.register here process linkee, moved.holds⟩
                simp only [SocketManager.link, local', if_false, persistent, known, if_true,
                  swapped, Option.bind_eq_bind, Option.bind_some, Option.pure_def]

theorem Driven.sendMessage {tasks : List Task} (driven : Driven here manager tasks)
    (message : Message) (kind : Kind) (created : Option Fd)
    (fresh : ∀ target ∈ created, manager.sockets target = false ∧
      ∀ other ∈ tasks, other.socket ≠ target) :
    Proceeds here ((manager.sendMessage message.address message.encoder created).map
      fun (manager, dispatch) => (manager, dispatch.tasks kind message)) tasks := by
  suffices sent : ∃ after dispatch started,
      manager.sendMessage message.address message.encoder created = some (after, dispatch) ∧
      dispatch.tasks kind message = started ∧
      after.Tables ∧ ∀ socket, At (after.view socket) (started ++ tasks) socket by
    obtain ⟨after, dispatch, started, executed, rfl, tables, holds⟩ := sent
    exact ⟨after, _, by rw [executed]; rfl, tables,
      driven.notifying.unlinking (sendMessage_unlinking executed), holds⟩
  cases found : (manager.persists message.address).or (manager.temps message.address) with
  | some socket =>
      have own : manager.addresses socket = some message.address ∧
          manager.dispose socket = !(manager.persists message.address).isSome := by
        cases persistent : manager.persists message.address with
        | some existing =>
            simp only [persistent, Option.some_or, Option.some.injEq] at found
            subst found
            simpa using (driven.tables.persists _ existing).mp persistent
        | none =>
            simp only [persistent, Option.none_or] at found
            simpa using (driven.tables.temps _ socket).mp found
      have known := driven.tables.known_of_address own.1
      obtain ⟨after, executed, tables, view, others⟩ := driven.tables.send message.encoder
        (manager.persists message.address).isSome known (fun _ _ => own.2)
      have holds := (driven.holds socket).send known
        (!(manager.persists message.address).isSome) message.encoder
      cases busy : (manager.outgoing socket).isSome with
      | true =>
          refine ⟨after, .nothing, [], ?_, rfl, tables, ?_⟩
          · simp only [SocketManager.sendMessage, found, known, if_true, executed, busy]
          · refine At.extend [] socket driven.holds (by simp) (by simp) others ?_
            rw [view]
            simpa [SocketManager.view, busy] using holds
      | false =>
          refine ⟨after, .send socket, [.sending socket message.encoder], ?_, rfl, tables, ?_⟩
          · simp only [SocketManager.sendMessage, found, known, if_true, executed, busy,
              Bool.false_eq_true, if_false]
          · refine At.extend [] socket driven.holds (by simp) (by simp [Task.socket]) others ?_
            rw [view]
            simpa [SocketManager.view, busy] using holds
  | none =>
      cases created with
      | none =>
          exact ⟨manager, .nothing, [], by simp only [SocketManager.sendMessage, found], rfl,
            driven.tables, driven.holds⟩
      | some target =>
          obtain ⟨unknown, others⟩ := fresh target rfl
          obtain ⟨-, noTemporary⟩ := Option.or_eq_none_iff.mp found
          obtain ⟨tables, view, same⟩ := driven.tables.connectTemporary unknown noTemporary
          refine ⟨_, .connect target, [.connecting target kind message],
            by simp only [SocketManager.sendMessage, found, unknown, Bool.false_eq_true, if_false],
            rfl, tables, ?_⟩
          refine At.extend [] target driven.holds (by simp)
            (by simp [Task.socket]) same ?_
          rw [view]
          exact .alone others ⟨rfl, rfl, rfl⟩ (fun _ => by simp [Task.drives, Task.connects])

/-- The tasks before an event: its own task and the others. -/
def before (event : Event) (rest : List Task) : List Task := event.task.toList ++ rest

/-- Every event fails no check and keeps the agreement. -/
theorem Driven.perform (event : Event) (driven : Driven here manager (before event rest))
    (number : Nat) (fresh : ∀ target ∈ event.created, manager.sockets target = false ∧
      ∀ other ∈ before event rest, other.socket ≠ target) :
    Proceeds here (manager.perform names here flags number event) rest := by
  cases event with
  | accept socket => exact driven.accept (fresh socket rfl).1 (fresh socket rfl).2
  | fork socket =>
      exact ⟨_, _, rfl, driven.retain [.holder socket] socket driven.tables driven.notifying
        (fun _ => rfl) (by simp [Task.socket]) (by simp [Task.socket]) (driven.holds socket).fork⟩
  | release socket =>
      refine ⟨_, _, rfl, driven.retain [.holder socket] socket driven.tables driven.notifying
        (fun _ => rfl) (by simp [Task.socket]) (by simp) ((driven.holds socket).release ?_)⟩
      simp [Task.drives, Task.connects, Task.sends]
  | proxy socket created =>
      obtain ⟨tables, views⟩ := driven.tables.proxy socket created
      refine ⟨_, _, rfl, driven.retain [.holder socket] socket tables
        (driven.notifying.unlinking (proxy_unlinking manager socket created)) views
        (by simp [Task.socket]) ?_ ?_⟩
      · split <;> simp [Task.socket]
      · split
        · exact (driven.holds socket).fork
        · exact driven.holds socket
  | unproxy socket =>
      exact ⟨_, _, rfl, driven.retain [.holder socket] socket (driven.tables.unproxy socket)
        (driven.notifying.unlinking ⟨rfl, fun _ => id⟩) (fun _ => rfl) (by simp [Task.socket])
        (by simp [Task.socket]) (driven.holds socket)⟩
  | respond socket size persist => exact ⟨_, _, rfl, driven.respond ⟨none, size, 0⟩ persist⟩
  | disconnect socket | sendFailed socket encoder | hangUp socket => exact driven.closing rfl
  | link process linkee remote kind created =>
      exact driven.link process linkee remote kind created fresh
  | exited process =>
      obtain ⟨after, executed, notifying, -⟩ := driven.notifying.exited process
        (show (UPID.mk (names process) here).address = here from rfl)
      obtain ⟨links, -, rfl⟩ : ∃ links, manager.exitedProcess here process ⟨names process, here⟩ =
          some links ∧ { manager with toLinks := links } = after := by
        simpa [SocketManager.exited, Option.bind_eq_some_iff] using executed
      exact ⟨_, [], by simp only [SocketManager.perform, executed, Option.map_some],
        driven.tables.relink links, notifying, driven.holds⟩
  | linkConnect socket kind address completion =>
      refine driven.linkConnect completion fun target is => ?_
      subst is
      exact fresh target rfl
  | linkNext socket => exact driven.sendNext (by simp [Task.drives, Task.connects])
  | send address size kind created =>
      exact driven.sendMessage ⟨number, address, size⟩ kind created fresh
  | sendConnect socket kind message completion =>
      refine driven.sendConnect completion fun target is => ?_
      subst is
      exact fresh target rfl
  | handed socket encoder sent =>
      refine ⟨_, _, rfl, driven.retain [.sending socket encoder] socket driven.tables
        driven.notifying (fun _ => rfl) (by simp [Task.socket]) (by simp [Task.socket]) ?_⟩
      refine (driven.holds socket).driver (by simp [Task.drives, Task.sends]) id id
        (fun known => ?_) (by simp [Task.Fits])
      rw [((driven.holds socket).countP_rest (by simp [Task.drives, Task.sends]) known).1]
      simp [Task.drives, Task.sends, Task.connects]
  | sendNext socket encoder => exact driven.sendNext (by simp [Task.drives, Task.sends])

end SocketManager

end Libprocess.Sockets
