import Mathlib.Data.List.Basic
import Libprocess.Loop.Run

/-!
# Loops that send

A loop asks a socket to take what is left, learns how much of it was taken, and goes on.  A `Sender`
says what such a loop does between two calls of the socket.  Whatever it counts with, if it tracks
how much of a content has been taken, it sends the content.
-/

namespace Libprocess.Transmission

/-- A call of `send` or `sendfile` of a socket.  A file is given by its content. -/
inductive Call where
  | send (data : List UInt8)
  | sendfile (content : List UInt8) (offset : Int) (size : Nat)

namespace Call

def size : Call → Nat
  | send data => data.length
  | sendfile _ _ size => size

/-- The bytes that are taken if the call reports a length. -/
def taken (length : Nat) : Call → List UInt8
  | send data => data.take length
  | sendfile content offset _ => (content.drop offset.toNat).take length

end Call

/-- A `PollSocketImpl`: what the operating system reports for each call, at most as much as asked
for.  There is no report if the call fails. -/
structure PollSocket where
  reply : (call asked : Nat) → Option Nat
  legal : ∀ {call asked length}, reply call asked = some length → length ≤ asked

/-- No call fails, and each takes something. -/
structure PartialSocket extends PollSocket where
  progress : ∀ call asked, 0 < asked → ∃ length, reply call asked = some length ∧ 0 < length

/-- What a loop does around a call of the socket.  `asked` is the size of the call and `length` what
it reports. -/
structure Sender (S : Type) where
  iterate : S → S × Call
  /-- The continuation of the call. -/
  sent : S → (asked length : Nat) → S
  body : S → (asked length : Nat) → S × ControlFlow Unit

/-- The state of a loop, the number of calls made, and the bytes that were taken. -/
structure Transfer (S : Type) where
  state : S
  calls : Nat
  transmitted : List UInt8

/-- How a round of a loop ends. -/
inductive Round (S : Type) where
  /-- `CHECK(size > 0)` fails. -/
  | aborted
  | failed
  | done (transfer : Transfer S) (flow : ControlFlow Unit)

/-- How a loop ends. -/
inductive Ending where
  | aborted
  | failed
  | completed
  deriving DecidableEq, Repr

namespace Sender

variable {S : Type} {sender : Sender S} {socket : PollSocket} {transfer : Transfer S}
variable {trace : List (Transfer S)} {ending : Ending}

/-- What the loop does once its call has reported a length. -/
def after (sender : Sender S) (transfer : Transfer S) (length : Nat) :
    Transfer S × ControlFlow Unit :=
  let next := sender.iterate transfer.state
  let body := sender.body (sender.sent next.1 next.2.size length) next.2.size length
  (⟨body.1, transfer.calls + 1, transfer.transmitted ++ next.2.taken length⟩, body.2)

/-- One round.  `PollSocketImpl` aborts on calls of size zero. -/
def round (sender : Sender S) (socket : PollSocket) (transfer : Transfer S) : Round S :=
  let size := (sender.iterate transfer.state).2.size
  if size = 0 then .aborted
  else
    match socket.reply transfer.calls size with
    | none => .failed
    | some length => .done (sender.after transfer length).1 (sender.after transfer length).2

theorem round_reported {length : Nat} (filled : (sender.iterate transfer.state).2.size ≠ 0)
    (reported : socket.reply transfer.calls (sender.iterate transfer.state).2.size = some length) :
    sender.round socket transfer =
      .done (sender.after transfer length).1 (sender.after transfer length).2 := by
  unfold round
  simp only [if_neg filled, reported]

/-- The rounds of a loop to its end, with the state behind each. -/
inductive Runs (sender : Sender S) (socket : PollSocket) :
    Transfer S → List (Transfer S) → Ending → Prop where
  | aborted {transfer : Transfer S} : sender.round socket transfer = .aborted →
      Runs sender socket transfer [] .aborted
  | failed {transfer : Transfer S} : sender.round socket transfer = .failed →
      Runs sender socket transfer [] .failed
  | breaks {transfer next : Transfer S} : sender.round socket transfer = .done next (.Break ()) →
      Runs sender socket transfer [next] .completed
  | continues {transfer next : Transfer S} {trace : List (Transfer S)} {ending : Ending} :
      sender.round socket transfer = .done next .Continue →
      Runs sender socket next trace ending → Runs sender socket transfer (next :: trace) ending

/-- The loop ends, it has sent the content, and after each round it has counted what it sent. -/
def Transmits (sender : Sender S) (socket : PollSocket) (content : List UInt8) (index : S → Nat)
    (start : S) : Prop :=
  ∃ trace last, sender.Runs socket ⟨start, 0, []⟩ (trace ++ [last]) .completed ∧
    last.transmitted = content ∧
    ∀ transfer ∈ trace ++ [last], index transfer.state = transfer.transmitted.length

/-- In the states of a loop, an index tells how much of the content has been sent. -/
structure Tracks (sender : Sender S) (content : List UInt8) (index : S → Nat) (valid : S → Prop) :
    Prop where
  bounded : ∀ {state}, valid state → index state ≤ content.length
  size : ∀ {state}, valid state →
    (sender.iterate state).2.size = content.length - index state
  taken : ∀ {state length}, valid state →
    (sender.iterate state).2.taken length = (content.drop (index state)).take length
  advances : ∀ {transfer length}, valid transfer.state →
    length ≤ content.length - index transfer.state →
    valid (sender.after transfer length).1.state ∧
      index (sender.after transfer length).1.state = index transfer.state + length ∧
      (sender.after transfer length).2 =
        if index transfer.state + length = content.length then .Break () else .Continue

section Tracks

variable {content : List UInt8} {index : S → Nat} {valid : S → Prop}

/-- What has been sent is the beginning of the content, up to the index. -/
structure Faithful (content : List UInt8) (index : S → Nat) (valid : S → Prop)
    (transfer : Transfer S) : Prop where
  valid : valid transfer.state
  sent : transfer.transmitted = content.take (index transfer.state)

section

variable (tracks : sender.Tracks content index valid)

include tracks

section

variable (faithful : Faithful content index valid transfer)

include faithful

theorem Tracks.counted :
    index transfer.state = transfer.transmitted.length := by
  rw [faithful.sent, List.length_take, Nat.min_eq_left (tracks.bounded faithful.valid)]

/-- A round aborts exactly if everything has been sent. -/
theorem Tracks.round_aborted :
    sender.round socket transfer = .aborted ↔ index transfer.state = content.length := by
  have bounded := tracks.bounded faithful.valid
  have size := tracks.size faithful.valid
  unfold round
  constructor
  · intro aborted
    dsimp only at aborted
    split at aborted
    · omega
    · split at aborted <;> cases aborted
  · intro whole
    rw [if_pos (by omega)]

/-- A round sends what comes next. -/
theorem Tracks.round_done {next : Transfer S} {flow : ControlFlow Unit}
    (done : sender.round socket transfer = .done next flow) :
    Faithful content index valid next ∧
      flow = if index next.state = content.length then .Break () else .Continue := by
  have size := tracks.size faithful.valid
  unfold round at done
  dsimp only at done
  split at done
  · cases done
  · split at done
    · cases done
    · next length reported =>
        have small := socket.legal reported
        rw [size] at small
        obtain ⟨kept, advanced, breaks⟩ := tracks.advances faithful.valid small
        cases done
        refine ⟨⟨kept, ?_⟩, ?_⟩
        · rw [advanced, List.take_add, ← faithful.sent, ← tracks.taken faithful.valid]
          rfl
        · rw [breaks, advanced]

end

section

variable (runs : sender.Runs socket transfer trace ending)

include runs

/-- After each round, what has been sent is the beginning of the content. -/
theorem Tracks.faithful_of_mem (faithful : Faithful content index valid transfer) :
    ∀ later ∈ trace, Faithful content index valid later := by
  induction runs with
  | aborted | failed => exact fun later member => absurd member List.not_mem_nil
  | breaks done =>
      intro later member
      rw [List.mem_singleton.mp member]
      exact (tracks.round_done faithful done).1
  | continues done _ ih =>
      have first := (tracks.round_done faithful done).1
      intro later member
      cases List.mem_cons.mp member with
      | inl same =>
          rw [same]
          exact first
      | inr inside => exact ih first later inside

/-- A loop that has something to send never makes a call of size zero. -/
theorem Tracks.not_aborted (faithful : Faithful content index valid transfer)
    (left : index transfer.state ≠ content.length) : ending ≠ .aborted := by
  induction runs with
  | aborted aborted => exact fun _ => left ((tracks.round_aborted faithful).mp aborted)
  | failed => exact nofun
  | breaks => exact nofun
  | continues done _ ih =>
      obtain ⟨first, flow⟩ := tracks.round_done faithful done
      apply ih first
      intro whole
      rw [if_pos whole] at flow
      cases flow

/-- A loop ends with its content sent. -/
theorem Tracks.completed
    (faithful : Faithful content index valid transfer) (completed : ending = .completed) :
    ∃ earlier last, trace = earlier ++ [last] ∧ last.transmitted = content := by
  induction runs with
  | aborted => cases completed
  | failed => cases completed
  | @breaks _ next done =>
      obtain ⟨first, flow⟩ := tracks.round_done faithful done
      refine ⟨[], next, rfl, ?_⟩
      split at flow
      · next whole => rw [first.sent, whole, List.take_length]
      · cases flow
  | @continues _ next _ _ done _ ih =>
      obtain ⟨earlier, last, rfl, sent⟩ := ih (tracks.round_done faithful done).1 completed
      exact ⟨next :: earlier, last, rfl, sent⟩

end

/-- A loop comes to its end if each call takes something. -/
theorem Tracks.terminates {socket : PartialSocket}
    (faithful : Faithful content index valid transfer)
    (left : index transfer.state ≠ content.length) :
    ∃ trace, sender.Runs socket.toPollSocket transfer trace .completed := by
  induction remaining : content.length - index transfer.state using Nat.strong_induction_on
    generalizing transfer with
  | _ count ih =>
      have bounded := tracks.bounded faithful.valid
      have size := tracks.size faithful.valid
      obtain ⟨length, reported, positive⟩ := socket.progress transfer.calls
        (sender.iterate transfer.state).2.size (by omega)
      have small := socket.legal reported
      rw [size] at small
      have filled : (sender.iterate transfer.state).2.size ≠ 0 := by omega
      have done := round_reported filled reported
      have advanced := (tracks.advances faithful.valid small).2.1
      obtain ⟨first, continued⟩ := tracks.round_done faithful done
      by_cases whole : index (sender.after transfer length).1.state = content.length
      · rw [if_pos whole] at continued
        rw [continued] at done
        exact ⟨_, .breaks done⟩
      · rw [if_neg whole] at continued
        rw [continued] at done
        obtain ⟨trace, runs⟩ := ih _ (by omega) first whole rfl
        exact ⟨_, .continues done runs⟩

/-- A loop sends its content exactly if there is something to send. -/
theorem Tracks.whole_iff (socket : PartialSocket)
    {start : S} (fresh : valid start) (zero : index start = 0) :
    sender.Transmits socket.toPollSocket content index start ↔ content ≠ [] := by
  have faithful : Faithful content index valid ⟨start, 0, []⟩ :=
    ⟨fresh, by rw [zero, List.take_zero]⟩
  constructor
  · rintro ⟨trace, last, runs, _, _⟩ rfl
    have aborted : sender.round socket.toPollSocket ⟨start, 0, []⟩ = .aborted :=
      (tracks.round_aborted faithful).mpr zero
    generalize trace ++ [last] = rounds at runs
    cases runs with
    | breaks done | continues done _ =>
        rw [aborted] at done
        cases done
  · intro filled
    have left : index start ≠ content.length := by
      rw [zero]
      exact fun empty => filled (List.length_eq_zero_iff.mp empty.symm)
    obtain ⟨trace, runs⟩ := tracks.terminates faithful left
    obtain ⟨earlier, last, rfl, sent⟩ := tracks.completed runs faithful rfl
    refine ⟨earlier, last, runs, sent, ?_⟩
    intro later member
    exact tracks.counted (tracks.faithful_of_mem runs faithful later member)

end

end Tracks

end Sender

end Libprocess.Transmission
