import Libprocess.Containers.SetMap

/-!
# The link tables of the SocketManager

A process links with a local or remote process to be told when it exits.  The tables
hold each link twice, under the linkee and under the linker, and index the remote
linkees by address.  When a process exits or the persistent socket to an address is
closed, the linkers are notified and the links are removed.

A function returns nothing where the source fails a `CHECK`.
-/

namespace Libprocess.Sockets

open Containers

abbrev Address := Nat

/-- A `ProcessBase*`. -/
abbrev ProcessId := Nat

structure UPID where
  id : String
  address : Address
  deriving DecidableEq, Repr

/-- `ExitedEvent(linkee)` delivered to a linker. -/
structure Exit where
  linker : ProcessId
  linkee : UPID
  deriving DecidableEq, Repr

/-- `SocketManager::links`, and the exited events delivered so far. -/
structure Links where
  linkers : SetMap UPID ProcessId
  linkees : SetMap ProcessId UPID
  remotes : SetMap Address UPID
  delivered : List Exit

namespace Links

def empty : Links := ⟨.empty, .empty, .empty, []⟩

/-- Add a link.  `here` is the address of this `libprocess`. -/
def link (links : Links) (here : Address) (process : ProcessId) (linkee : UPID) : Links :=
  { links with
    linkers := links.linkers.insertAt linkee process
    linkees := links.linkees.insertAt process linkee
    remotes := if linkee.address ≠ here then links.remotes.insertAt linkee.address linkee
      else links.remotes }

/-- `process_manager->deliver(linker, new ExitedEvent(linkee))` -/
def deliver (links : Links) (linker : ProcessId) (linkee : UPID) : Links :=
  { links with delivered := links.delivered ++ [⟨linker, linkee⟩] }

/-- Notify a linker and remove the linkee from it. -/
def notify (linkee : UPID) (links : Links) (linker : ProcessId) : Option Links :=
  let links := links.deliver linker linkee
  if links.linkees.contains linker then
    some { links with linkees := links.linkees.eraseAt linker linkee }
  else none

/-- Notify all linkers of a linkee and remove it. -/
def notifyAll (links : Links) (linkee : UPID) : Option Links := do
  let links ← (links.linkers.get linkee).elements.foldlM (notify linkee) links
  return { links with linkers := links.linkers.remove linkee }

/-- `SocketManager::exited(const Address&)` -/
def exitedAddress (links : Links) (address : Address) : Option Links :=
  if links.remotes.contains address then do
    let links ← (links.remotes.get address).elements.foldlM
      (fun links linkee =>
        if links.linkers.contains linkee then links.notifyAll linkee else none) links
    return { links with remotes := links.remotes.remove address }
  else some links

/-- Remove the exited process from the linkers of a linkee, and the linkee from the
remotes if that was its last linker. -/
def unlink (here : Address) (process : ProcessId) (links : Links) (linkee : UPID) :
    Option Links :=
  if links.linkers.contains linkee then
    let last := ((links.linkers.get linkee).erase process).isEmpty
    let links := { links with linkers := links.linkers.eraseAt linkee process }
    if last = true ∧ linkee.address ≠ here then
      if links.remotes.contains linkee.address then
        some { links with remotes := links.remotes.eraseAt linkee.address linkee }
      else none
    else some links
  else none

/-- The first part of `SocketManager::exited(ProcessBase*)`: the process as a linker. -/
def unlinkAll (links : Links) (here : Address) (process : ProcessId) : Option Links :=
  if links.linkees.contains process then do
    let links ← (links.linkees.get process).elements.foldlM (unlink here process) links
    return { links with linkees := links.linkees.remove process }
  else some links

/-- `SocketManager::exited(ProcessBase*)` -/
def exitedProcess (links : Links) (here : Address) (process : ProcessId) (pid : UPID) :
    Option Links := do
  let links ← links.unlinkAll here process
  if links.linkers.contains pid then
    let links ← (links.linkers.get pid).elements.foldlM
      (fun links linker => if linker = process then none else links.notify pid linker) links
    return { links with linkers := links.linkers.remove pid }
  else return links

/-! ## Consistency -/

/-- The process is linked with the linkee. -/
def Linked (links : Links) (linker : ProcessId) (linkee : UPID) : Prop :=
  links.linkers.Related linkee linker

/-- The tables hold no empty set and the same links. -/
structure Dual (links : Links) : Prop where
  linkers : links.linkers.Inhabited
  linkees : links.linkees.Inhabited
  dual : ∀ linker linkee, links.Linked linker linkee ↔ links.linkees.Related linker linkee

/-- The tables index the remote linkees by address. -/
structure Indexed (links : Links) (here : Address) : Prop where
  linkers : links.linkers.Inhabited
  remotes : links.remotes.Inhabited
  remote : ∀ address linkee, links.remotes.Related address linkee ↔
    linkee.address = address ∧ address ≠ here ∧ links.linkers.contains linkee = true

structure Consistent (links : Links) (here : Address) : Prop
    extends links.Dual, links.Indexed here

/-- Every link that is removed is reported once, and no other. -/
def Reported (before after : Links) : Prop :=
  ∃ news, after.delivered = before.delivered ++ news ∧ ∀ linker linkee,
    (news.count ⟨linker, linkee⟩ = 1 ∧ before.Linked linker linkee ∧
      ¬ after.Linked linker linkee) ∨
    (news.count ⟨linker, linkee⟩ = 0 ∧
      (before.Linked linker linkee ↔ after.Linked linker linkee))

theorem Reported.refl (links : Links) : Reported links links :=
  ⟨[], by simp, fun _ _ => .inr ⟨rfl, Iff.rfl⟩⟩

theorem Reported.trans {first second third : Links} (early : Reported first second)
    (late : Reported second third) : Reported first third := by
  obtain ⟨earlyNews, earlyDelivered, early⟩ := early
  obtain ⟨lateNews, lateDelivered, late⟩ := late
  refine ⟨earlyNews ++ lateNews, by rw [lateDelivered, earlyDelivered, List.append_assoc], ?_⟩
  intro linker linkee
  rw [List.count_append]
  rcases early linker linkee with ⟨count, was, gone⟩ | ⟨count, same⟩ <;>
    rcases late linker linkee with ⟨counted, stillWas, nowGone⟩ | ⟨counted, kept⟩
  · exact absurd stillWas gone
  · exact .inl ⟨by omega, was, fun again => gone (kept.mpr again)⟩
  · exact .inl ⟨by omega, same.mpr stillWas, nowGone⟩
  · exact .inr ⟨by omega, same.trans kept⟩

variable {links : Links} {here : Address}

theorem Dual.contains_iff (dual : links.Dual) {linkee : UPID} :
    links.linkers.contains linkee = true ↔ ∃ linker, links.Linked linker linkee :=
  dual.linkers.contains_iff

/-- Removing links loses no other address of a remote linkee. -/
theorem Indexed.contains_of_linked {after : Links} (indexed : links.Indexed here)
    (still : after.Indexed here)
    (kept : ∀ linker linkee, after.Linked linker linkee → links.Linked linker linkee)
    {address : Address} (contained : after.remotes.contains address = true) :
    links.remotes.contains address = true := by
  obtain ⟨linkee, related⟩ := still.remotes.contains_iff.mp contained
  obtain ⟨at', away, present⟩ := (still.remote address linkee).mp related
  obtain ⟨linker, linked⟩ := still.linkers.contains_iff.mp present
  exact SetMap.contains_of_related ((indexed.remote address linkee).mpr
    ⟨at', away, SetMap.contains_of_related (kept linker linkee linked)⟩)

theorem consistent_empty (here : Address) : empty.Consistent here := by
  refine ⟨⟨SetMap.inhabited_empty, SetMap.inhabited_empty, ?_⟩, SetMap.inhabited_empty, ?_⟩
  · intro linker linkee
    simp [Linked, empty]
  · intro address linkee
    simp [empty, SetMap.contains, SetMap.empty, SetMap.Related, SetMap.get]

@[simp] theorem linked_link {process linker : ProcessId} {linkee other : UPID} :
    (links.link here process linkee).Linked linker other ↔
      linker = process ∧ other = linkee ∨ links.Linked linker other := by
  simp [Linked, link, and_comm]

theorem Consistent.deliver (consistent : links.Consistent here) (linker : ProcessId)
    (linkee : UPID) : (links.deliver linker linkee).Consistent here :=
  ⟨⟨consistent.linkers, consistent.linkees, consistent.dual⟩, consistent.remotes,
    consistent.remote⟩

theorem Consistent.link (consistent : links.Consistent here) (process : ProcessId)
    (linkee : UPID) : (links.link here process linkee).Consistent here := by
  have dual : (links.link here process linkee).Dual := by
    refine ⟨consistent.linkers.insertAt, consistent.linkees.insertAt, ?_⟩
    intro linker other
    rw [linked_link, consistent.dual]
    simp [Links.link]
  refine ⟨dual, ?_, ?_⟩
  · simp only [Links.link]
    split
    · exact consistent.remotes.insertAt
    · exact consistent.remotes
  · intro address other
    have contains : (links.link here process linkee).linkers.contains other = true ↔
        other = linkee ∨ links.linkers.contains other = true := by
      rw [dual.contains_iff, consistent.toDual.contains_iff]
      simp only [linked_link]
      constructor
      · rintro ⟨linker, ⟨-, same⟩ | linked⟩
        · exact .inl same
        · exact .inr ⟨linker, linked⟩
      · rintro (same | ⟨linker, linked⟩)
        · exact ⟨process, .inl ⟨rfl, same⟩⟩
        · exact ⟨linker, .inr linked⟩
    rw [contains]
    by_cases remote : linkee.address = here
    · have known := consistent.remote address other
      simp only [Links.link, remote, ne_eq, not_true_eq_false, if_false, known]
      constructor
      · exact fun ⟨at', away, present⟩ => ⟨at', away, .inr present⟩
      · rintro ⟨at', away, rfl | present⟩
        · exact absurd (at'.symm.trans remote) away
        · exact ⟨at', away, present⟩
    · have known := consistent.remote address other
      simp only [Links.link, remote, ne_eq, not_false_eq_true, if_true, SetMap.related_insertAt,
        known]
      constructor
      · rintro (⟨rfl, rfl⟩ | ⟨at', away, present⟩)
        · exact ⟨rfl, remote, .inl rfl⟩
        · exact ⟨at', away, .inr present⟩
      · rintro ⟨at', away, rfl | present⟩
        · exact .inl ⟨at'.symm, rfl⟩
        · exact .inr ⟨at', away, present⟩

/-! ## Notifying the linkers of a linkee -/

/-- What notifying some linkers of a linkee does. -/
theorem notify_foldlM (linkee : UPID) {linkers : List ProcessId} (nodup : linkers.Nodup)
    (linked : ∀ linker ∈ linkers, links.linkees.Related linker linkee)
    (inhabited : links.linkees.Inhabited) :
    ∃ after, linkers.foldlM (notify linkee) links = some after ∧
      after.linkers = links.linkers ∧ after.remotes = links.remotes ∧
      after.delivered = links.delivered ++ linkers.map (⟨·, linkee⟩) ∧
      after.linkees.Inhabited ∧
      ∀ linker other, after.linkees.Related linker other ↔
        links.linkees.Related linker other ∧ ¬ (other = linkee ∧ linker ∈ linkers) := by
  induction linkers generalizing links with
  | nil => exact ⟨links, rfl, rfl, rfl, by simp, inhabited, by simp⟩
  | cons first rest ih =>
      obtain ⟨fresh, restNodup⟩ := List.nodup_cons.mp nodup
      have present : links.linkees.contains first = true :=
        SetMap.contains_of_related (linked first (by simp))
      let middle : Links :=
        { links.deliver first linkee with linkees := links.linkees.eraseAt first linkee }
      have stepped : notify linkee links first = some middle := by
        simp [notify, deliver, present, middle]
      have remaining : ∀ linker ∈ rest, middle.linkees.Related linker linkee := by
        intro linker member
        have different : linker ≠ first := fun same => fresh (same ▸ member)
        simp [middle, different, linked linker (by simp [member])]
      obtain ⟨after, executed, sameLinkers, sameRemotes, delivered, still, related⟩ :=
        ih restNodup remaining inhabited.eraseAt
      refine ⟨after, ?_, sameLinkers, sameRemotes, ?_, still, ?_⟩
      · simp [List.foldlM_cons, stepped, executed]
      · simp [delivered, middle, deliver]
      · intro linker other
        simp only [related, middle, SetMap.related_eraseAt, List.mem_cons]
        tauto

theorem notifyAll_spec (dual : links.Dual) (linkee : UPID) :
    ∃ after, links.notifyAll linkee = some after ∧ after.Dual ∧
      after.remotes = links.remotes ∧ Reported links after ∧
      ∀ linker other, after.Linked linker other ↔ links.Linked linker other ∧ other ≠ linkee := by
  have linked : ∀ linker ∈ (links.linkers.get linkee).elements,
      links.linkees.Related linker linkee :=
    fun linker member => (dual.dual linker linkee).mp member
  obtain ⟨middle, executed, sameLinkers, sameRemotes, delivered, inhabited, related⟩ :=
    notify_foldlM linkee (links.linkers.get linkee).nodup linked dual.linkees
  let after : Links := { middle with linkers := middle.linkers.remove linkee }
  have kept : ∀ linker other, after.Linked linker other ↔
      links.Linked linker other ∧ other ≠ linkee := by
    intro linker other
    simp only [after, Linked, SetMap.related_remove, sameLinkers]
    exact and_comm
  refine ⟨after, ?_, ⟨?_, inhabited, ?_⟩, sameRemotes, ⟨_, delivered, ?_⟩, kept⟩
  · simp [notifyAll, executed, after]
  · exact (sameLinkers ▸ dual.linkers : middle.linkers.Inhabited).remove
  · intro linker other
    rw [kept, dual.dual]
    simp only [after, related]
    constructor
    · rintro ⟨linked, different⟩
      exact ⟨linked, fun both => different both.1⟩
    · rintro ⟨was, out⟩
      refine ⟨was, fun same => out ⟨same, ?_⟩⟩
      subst same
      exact (dual.dual linker other).mpr was
  · intro linker other
    by_cases reported : other = linkee ∧ links.Linked linker linkee
    · obtain ⟨rfl, was⟩ := reported
      refine .inl ⟨List.count_eq_one_of_mem ?_ ?_, was, fun still => ((kept _ _).mp still).2 rfl⟩
      · exact (links.linkers.get other).nodup.map fun _ _ same => congrArg Exit.linker same
      · exact List.mem_map.mpr ⟨linker, was, rfl⟩
    · refine .inr ⟨List.count_eq_zero.mpr fun member => reported ?_, ?_⟩
      · obtain ⟨found, present, same⟩ := List.mem_map.mp member
        simp only [Exit.mk.injEq] at same
        obtain ⟨rfl, rfl⟩ := same
        exact ⟨rfl, present⟩
      · rw [kept]
        exact ⟨fun was => ⟨was, fun same => reported ⟨same, same ▸ was⟩⟩, fun both => both.1⟩

/-! ## The persistent socket to an address is closed -/

theorem exitedAddress_foldlM {linkees : List UPID} (nodup : linkees.Nodup) (dual : links.Dual)
    (present : ∀ linkee ∈ linkees, links.linkers.contains linkee = true) :
    ∃ after, linkees.foldlM (fun links linkee =>
        if links.linkers.contains linkee then links.notifyAll linkee else none) links =
          some after ∧
      after.Dual ∧ after.remotes = links.remotes ∧ Reported links after ∧
      ∀ linker other, after.Linked linker other ↔
        links.Linked linker other ∧ other ∉ linkees := by
  induction linkees generalizing links with
  | nil => exact ⟨links, rfl, dual, rfl, .refl links, by simp⟩
  | cons first rest ih =>
      obtain ⟨fresh, restNodup⟩ := List.nodup_cons.mp nodup
      obtain ⟨middle, executed, middleDual, sameRemotes, reported, kept⟩ :=
        notifyAll_spec dual first
      have remaining : ∀ linkee ∈ rest, middle.linkers.contains linkee = true := by
        intro linkee member
        obtain ⟨linker, linked⟩ := dual.contains_iff.mp (present linkee (by simp [member]))
        exact middleDual.contains_iff.mpr
          ⟨linker, (kept linker linkee).mpr ⟨linked, fun same => fresh (same ▸ member)⟩⟩
      obtain ⟨after, restExecuted, afterDual, stillRemotes, restReported, restKept⟩ :=
        ih restNodup middleDual remaining
      refine ⟨after, ?_, afterDual, stillRemotes.trans sameRemotes,
        reported.trans restReported, ?_⟩
      · simp [List.foldlM_cons, present first (by simp), executed, restExecuted]
      · intro linker other
        rw [restKept, kept, List.mem_cons, not_or, and_assoc]

/-- `exited(const Address&)` fails no check, removes exactly the links with linkees at
the address and reports each of them once. -/
theorem exitedAddress_spec (consistent : links.Consistent here) (address : Address) :
    ∃ after, links.exitedAddress address = some after ∧ after.Consistent here ∧
      Reported links after ∧ after.remotes.contains address = false ∧
      ∀ linker linkee, after.Linked linker linkee → links.Linked linker linkee := by
  cases contained : links.remotes.contains address with
  | false =>
      exact ⟨links, by simp [exitedAddress, contained], consistent, .refl links, contained,
        fun _ _ => id⟩
  | true =>
      have indexed : ∀ linkee, linkee ∈ (links.remotes.get address).elements ↔
          linkee.address = address ∧ address ≠ here ∧ links.linkers.contains linkee = true :=
        consistent.remote address
      obtain ⟨middle, executed, dual, sameRemotes, reported, kept⟩ :=
        exitedAddress_foldlM (links.remotes.get address).nodup consistent.toDual
          fun linkee member => ((indexed linkee).mp member).2.2
      let after : Links := { middle with remotes := middle.remotes.remove address }
      have related : ∀ other linkee, after.remotes.Related other linkee ↔
          other ≠ address ∧ links.remotes.Related other linkee := by
        intro other linkee
        simp only [after, SetMap.related_remove, sameRemotes]
      have inhabited : after.remotes.Inhabited :=
        (sameRemotes ▸ consistent.remotes : middle.remotes.Inhabited).remove
      refine ⟨after, by simp [exitedAddress, contained, executed, after],
        ⟨⟨dual.linkers, dual.linkees, dual.dual⟩, inhabited, ?_⟩, reported, ?_, ?_⟩
      · intro other linkee
        rw [related, consistent.remote]
        have contains : after.linkers.contains linkee = true ↔
            links.linkers.contains linkee = true ∧
              linkee ∉ (links.remotes.get address).elements := by
          rw [show after.linkers = middle.linkers from rfl, dual.contains_iff,
            consistent.toDual.contains_iff]
          simp only [kept]
          constructor
          · rintro ⟨linker, was, out⟩
            exact ⟨⟨linker, was⟩, out⟩
          · rintro ⟨⟨linker, was⟩, out⟩
            exact ⟨linker, was, out⟩
        rw [contains, indexed]
        constructor
        · rintro ⟨different, rfl, away, present⟩
          exact ⟨rfl, away, present, fun both => different both.1⟩
        · rintro ⟨rfl, away, present, out⟩
          exact ⟨fun same => out ⟨same, same ▸ away, present⟩, rfl, away, present⟩
      · by_contra still
        obtain ⟨linkee, present⟩ := inhabited.contains_iff.mp (by simpa using still)
        exact ((related address linkee).mp present).1 rfl
      · exact fun linker linkee linked => ((kept linker linkee).mp linked).1

/-! ## A process exits -/

/-- Removing one link of the exited process. -/
theorem unlink_spec (indexed : links.Indexed here) {process : ProcessId} {linkee : UPID}
    (linked : links.Linked process linkee) :
    ∃ after, unlink here process links linkee = some after ∧ after.Indexed here ∧
      after.linkees = links.linkees ∧ after.delivered = links.delivered ∧
      ∀ linker other, after.Linked linker other ↔
        links.Linked linker other ∧ ¬ (other = linkee ∧ linker = process) := by
  have present : links.linkers.contains linkee = true := SetMap.contains_of_related linked
  have inhabited : (links.linkers.eraseAt linkee process).Inhabited := indexed.linkers.eraseAt
  have gone : (links.linkers.eraseAt linkee process).contains linkee = false ↔
      ((links.linkers.get linkee).erase process).isEmpty = true := by
    simp only [SetMap.contains, SetMap.eraseAt, Function.update_self]
    split <;> simp_all
  have others : ∀ other, other ≠ linkee →
      ((links.linkers.eraseAt linkee process).contains other = true ↔
        links.linkers.contains other = true) := by
    intro other different
    simp [SetMap.contains, SetMap.eraseAt, different]
  by_cases last : ((links.linkers.get linkee).erase process).isEmpty = true ∧
      linkee.address ≠ here
  · have contained : links.remotes.contains linkee.address = true :=
      SetMap.contains_of_related ((indexed.remote _ linkee).mpr ⟨rfl, last.2, present⟩)
    refine ⟨⟨links.linkers.eraseAt linkee process, links.linkees,
      links.remotes.eraseAt linkee.address linkee, links.delivered⟩, ?_, ⟨inhabited,
        indexed.remotes.eraseAt, ?_⟩, rfl, rfl, fun linker other => by simp [Linked]⟩
    · simp only [unlink, present, if_true, last, ne_eq, not_false_eq_true, and_self, contained]
    · intro address other
      simp only [SetMap.related_eraseAt, indexed.remote]
      by_cases same : other = linkee
      · subst same
        simp only [gone.mpr last.1, Bool.false_eq_true, and_false, iff_false]
        exact fun both => both.2 ⟨both.1.1.symm, trivial⟩
      · rw [others other same]
        exact ⟨And.left, fun kept => ⟨kept, fun both => same both.2⟩⟩
  · refine ⟨⟨links.linkers.eraseAt linkee process, links.linkees, links.remotes,
      links.delivered⟩, ?_, ⟨inhabited, indexed.remotes, ?_⟩, rfl, rfl,
        fun linker other => by simp [Linked]⟩
    · simp only [unlink, present, if_true, last, if_false]
    · intro address other
      simp only [indexed.remote]
      by_cases same : other = linkee
      · subst same
        have still : other.address ≠ here →
            (links.linkers.eraseAt other process).contains other = true := fun away => by
          by_contra missing
          exact last ⟨gone.mp (by simpa using missing), away⟩
        constructor
        · rintro ⟨at', away, _⟩
          exact ⟨at', away, still (at' ▸ away)⟩
        · rintro ⟨at', away, _⟩
          exact ⟨at', away, present⟩
      · rw [others other same]

theorem unlink_foldlM {process : ProcessId} {linkees : List UPID} (nodup : linkees.Nodup)
    (indexed : links.Indexed here) (linked : ∀ linkee ∈ linkees, links.Linked process linkee) :
    ∃ after, linkees.foldlM (unlink here process) links = some after ∧ after.Indexed here ∧
      after.linkees = links.linkees ∧ after.delivered = links.delivered ∧
      ∀ linker other, after.Linked linker other ↔
        links.Linked linker other ∧ ¬ (other ∈ linkees ∧ linker = process) := by
  induction linkees generalizing links with
  | nil => exact ⟨links, rfl, indexed, rfl, rfl, by simp⟩
  | cons first rest ih =>
      obtain ⟨fresh, restNodup⟩ := List.nodup_cons.mp nodup
      obtain ⟨middle, executed, middleIndexed, sameLinkees, sameDelivered, kept⟩ :=
        unlink_spec indexed (linked first (by simp))
      have remaining : ∀ linkee ∈ rest, middle.Linked process linkee := by
        intro linkee member
        exact (kept process linkee).mpr
          ⟨linked linkee (by simp [member]), fun both => fresh (both.1 ▸ member)⟩
      obtain ⟨after, restExecuted, afterIndexed, stillLinkees, stillDelivered, restKept⟩ :=
        ih restNodup middleIndexed remaining
      refine ⟨after, ?_, afterIndexed, stillLinkees.trans sameLinkees,
        stillDelivered.trans sameDelivered, ?_⟩
      · simp [List.foldlM_cons, executed, restExecuted]
      · intro linker other
        rw [restKept, kept, List.mem_cons]
        tauto

/-- The links of an exited process are removed without a report. -/
theorem unlinkAll_spec (consistent : links.Consistent here) (process : ProcessId) :
    ∃ after, links.unlinkAll here process = some after ∧ after.Consistent here ∧
      after.delivered = links.delivered ∧
      ∀ linker linkee, after.Linked linker linkee ↔
        links.Linked linker linkee ∧ linker ≠ process := by
  have linked : ∀ linkee ∈ (links.linkees.get process).elements, links.Linked process linkee :=
    fun linkee member => (consistent.dual process linkee).mpr member
  cases contained : links.linkees.contains process with
  | false =>
      refine ⟨links, by simp [unlinkAll, contained], consistent, rfl, fun linker linkee =>
        ⟨fun was => ⟨was, ?_⟩, And.left⟩⟩
      rintro rfl
      have := SetMap.contains_of_related ((consistent.dual linker linkee).mp was)
      simp [contained] at this
  | true =>
      obtain ⟨middle, executed, indexed, sameLinkees, sameDelivered, kept⟩ :=
        unlink_foldlM (links.linkees.get process).nodup consistent.toIndexed linked
      let after : Links := { middle with linkees := middle.linkees.remove process }
      have keptAll : ∀ linker linkee, after.Linked linker linkee ↔
          links.Linked linker linkee ∧ linker ≠ process := by
        intro linker linkee
        rw [show after.Linked linker linkee ↔ middle.Linked linker linkee from Iff.rfl, kept]
        constructor
        · rintro ⟨was, out⟩
          refine ⟨was, fun same => out ⟨?_, same⟩⟩
          subst same
          exact (consistent.dual linker linkee).mp was
        · exact fun ⟨was, different⟩ => ⟨was, fun both => different both.2⟩
      refine ⟨after, by simp [unlinkAll, contained, executed, after],
        ⟨⟨indexed.linkers, ?_, ?_⟩, indexed.remotes, indexed.remote⟩, sameDelivered, keptAll⟩
      · exact (sameLinkees ▸ consistent.linkees : middle.linkees.Inhabited).remove
      · intro linker linkee
        rw [keptAll, consistent.dual]
        simp only [after, SetMap.related_remove, sameLinkees]
        exact and_comm

/-- The check that an exited process is not its own linker passes. -/
theorem notify_foldlM_guarded {process : ProcessId} {pid : UPID} {linkers : List ProcessId}
    (others : process ∉ linkers) :
    linkers.foldlM (fun links linker => if linker = process then none
      else links.notify pid linker) links = linkers.foldlM (notify pid) links := by
  induction linkers generalizing links with
  | nil => rfl
  | cons first rest ih =>
      obtain ⟨different, restOthers⟩ := not_or.mp (List.mem_cons.not.mp others)
      simp only [List.foldlM_cons, Ne.symm different, if_false]
      cases notify pid links first with
      | none => rfl
      | some middle => exact ih restOthers

/-- `exited(ProcessBase*)` fails no check, removes exactly the links that mention the
process, and reports those with other linkers once. -/
theorem exitedProcess_spec (consistent : links.Consistent here) (process : ProcessId)
    {pid : UPID} (local' : pid.address = here) :
    ∃ middle after, links.exitedProcess here process pid = some after ∧
      after.Consistent here ∧
      (middle.delivered = links.delivered ∧ ∀ linker linkee, middle.Linked linker linkee ↔
        links.Linked linker linkee ∧ linker ≠ process) ∧
      Reported middle after ∧
      ∀ linker linkee, after.Linked linker linkee ↔
        links.Linked linker linkee ∧ linker ≠ process ∧ linkee ≠ pid := by
  obtain ⟨middle, unlinked, middleConsistent, sameDelivered, kept⟩ :=
    unlinkAll_spec consistent process
  have gone : process ∉ (middle.linkers.get pid).elements :=
    fun still => ((kept process pid).mp still).2 rfl
  have silent : ∀ linker linkee, middle.linkers.contains pid = false →
      middle.Linked linker linkee → linkee ≠ pid := by
    rintro linker linkee missing linked rfl
    simp [SetMap.contains_of_related linked] at missing
  cases contained : middle.linkers.contains pid with
  | false =>
      refine ⟨middle, middle, ?_, middleConsistent, ⟨sameDelivered, kept⟩, .refl middle, ?_⟩
      · simp [exitedProcess, unlinked, contained]
      · intro linker linkee
        rw [kept]
        refine ⟨fun ⟨was, other⟩ => ⟨was, other, ?_⟩, fun ⟨was, other, _⟩ => ⟨was, other⟩⟩
        exact silent linker linkee contained ((kept linker linkee).mpr ⟨was, other⟩)
  | true =>
      obtain ⟨after, executed, dual, sameRemotes, reported, removed⟩ :=
        notifyAll_spec middleConsistent.toDual pid
      have indexed : after.Indexed here := by
        refine ⟨dual.linkers, sameRemotes ▸ middleConsistent.remotes, ?_⟩
        intro address linkee
        rw [sameRemotes, middleConsistent.remote, dual.contains_iff,
          middleConsistent.toDual.contains_iff]
        simp only [removed]
        constructor
        · rintro ⟨rfl, away, linker, linked⟩
          exact ⟨rfl, away, linker, linked, fun same => away (same ▸ local')⟩
        · exact fun ⟨at', away, linker, linked, _⟩ => ⟨at', away, linker, linked⟩
      refine ⟨middle, after, ?_, ⟨dual, indexed.remotes, indexed.remote⟩,
        ⟨sameDelivered, kept⟩, reported, ?_⟩
      · simp only [exitedProcess, unlinked, Option.bind_eq_bind, Option.bind_some, contained,
          if_true, notify_foldlM_guarded gone]
        exact executed
      · intro linker linkee
        rw [removed, kept, and_assoc]

end Links

end Libprocess.Sockets
