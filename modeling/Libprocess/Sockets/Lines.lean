import Libprocess.Sockets.Network
import Mathlib.Logic.Function.Basic

/-!
# Lines of messages

Each socket has a line of encoders: the one that is being sent and those that wait behind
it.  A message joins a line at its end, only the front of a line is handed to the socket,
and it leaves the line when all of it has been handed.

If a message joins a line only when no earlier message to its address is left in another
line, the messages to an address are handed over in the order in which they were sent.
-/

namespace Libprocess.Sockets

structure Lines where
  line : Fd → List Encoder
  addresses : Fd → Option Address
  messages : List Message
  handed : List Nat

namespace Lines

/-- All bytes of the message have been handed over. -/
def Done (lines : Lines) (message : Message) : Prop :=
  lines.handed.count message.number = message.size

/-- No byte of a message is handed over before all bytes of the earlier messages to its
address. -/
def Ordered (messages : List Message) (handed : List Nat) : Prop :=
  ∀ (early late : Nat) (first second : Message), messages[early]? = some first →
    messages[late]? = some second → early < late → first.address = second.address →
    late ∈ handed → handed.count early = first.size

/-- The bytes of an encoder. -/
def bytes (encoder : Encoder) (sent : Nat) : List Nat :=
  (encoder.message.map (List.replicate sent)).getD []

/-- A socket may be connected to an address, or lose it, while its line is empty. -/
def Retargets (line : Fd → List Encoder) (before after : Fd → Option Address) : Prop :=
  ∀ socket, line socket ≠ [] → after socket = before socket

inductive Step (lines : Lines) : Lines → Prop where
  | retarget {addresses : Fd → Option Address}
      (kept : Retargets lines.line lines.addresses addresses) :
      Step lines { lines with addresses := addresses }
  | join {socket : Fd} {message : Message} {addresses : Fd → Option Address}
      (kept : Retargets lines.line lines.addresses addresses)
      (next : message.number = lines.messages.length)
      (connected : addresses socket = some message.address)
      (clear : ∀ other encoder, other ≠ socket → encoder ∈ lines.line other →
        lines.addresses other = some message.address → encoder.remaining = 0) :
      Step lines {
        line := Function.update lines.line socket (lines.line socket ++ [message.encoder])
        addresses := addresses
        messages := lines.messages ++ [message]
        handed := lines.handed }
  | hand {socket : Fd} {encoder : Encoder} {rest : List Encoder} {sent : Nat}
      (front : lines.line socket = encoder :: rest) (bound : sent ≤ encoder.remaining) :
      Step lines { lines with
        line := Function.update lines.line socket (encoder.advance sent :: rest)
        handed := lines.handed ++ bytes encoder sent }
  | leave {socket : Fd} {encoder : Encoder} {rest : List Encoder}
      {addresses : Fd → Option Address}
      (front : lines.line socket = encoder :: rest) (finished : encoder.remaining = 0)
      (kept : Retargets (Function.update lines.line socket rest) lines.addresses addresses) :
      Step lines { lines with
        line := Function.update lines.line socket rest
        addresses := addresses }

/-- An encoder stands for a message to the address of its socket. -/
def Entry (lines : Lines) (socket : Fd) (encoder : Encoder) (message : Message) : Prop :=
  lines.messages[message.number]? = some message ∧ encoder.message = some message.number ∧
    encoder.size = message.size ∧ lines.addresses socket = some message.address ∧
    encoder.index = lines.handed.count message.number ∧ encoder.index ≤ encoder.size

/-- Every message is done or in one line, behind the earlier messages to its address that
are not done. -/
structure Orderly (lines : Lines) : Prop where
  numbered : ∀ (number : Nat) (message : Message), lines.messages[number]? = some message →
    message.number = number
  known : ∀ number ∈ lines.handed, number < lines.messages.length
  entry : ∀ socket, ∀ encoder ∈ lines.line socket, ∃ message, lines.Entry socket encoder message
  distinct : ∀ socket, (lines.line socket).Pairwise fun first second =>
    first.message ≠ second.message
  unique : ∀ socket other, ∀ first ∈ lines.line socket, ∀ second ∈ lines.line other,
    first.message = second.message → socket = other
  covered : ∀ (number : Nat) (message : Message), lines.messages[number]? = some message →
    lines.Done message ∨ ∃ socket, ∃ encoder ∈ lines.line socket, encoder.message = some number
  behind : ∀ socket before encoder after, lines.line socket = before ++ encoder :: after →
    ∀ (late early : Nat) (message : Message), encoder.message = some late → early < late →
      lines.messages[early]? = some message → lines.addresses socket = some message.address →
      lines.Done message ∨ ∃ other ∈ before, other.message = some early
  ordered : Ordered lines.messages lines.handed

theorem orderly_empty (addresses : Fd → Option Address) :
    Orderly ⟨fun _ => [], addresses, [], []⟩ := by
  constructor <;> simp [Ordered]

variable {lines : Lines}

section

variable (orderly : lines.Orderly) {socket : Fd} {encoder : Encoder}
  (member : encoder ∈ lines.line socket) {number : Nat} (stands : encoder.message = some number)

include orderly member stands

/-- An encoder stands for a message that was sent. -/
theorem Orderly.sent_of : number < lines.messages.length := by
  obtain ⟨own, listed, named, -⟩ := orderly.entry socket encoder member
  rw [Option.some.inj (named.symm.trans stands)] at listed
  exact (List.getElem?_eq_some_iff.mp listed).1

theorem Orderly.entry_of {message : Message} (sent : lines.messages[number]? = some message) :
    lines.Entry socket encoder message := by
  obtain ⟨own, entry⟩ := orderly.entry socket encoder member
  have same : own.number = number := Option.some.inj (entry.2.1.symm.trans stands)
  obtain rfl : own = message := Option.some.inj (entry.1.symm.trans (same ▸ sent))
  exact entry

/-- An encoder with nothing left stands for a message that is done. -/
theorem Orderly.done_of_remaining (finished : encoder.remaining = 0) {message : Message}
    (sent : lines.messages[number]? = some message) : lines.Done message := by
  obtain ⟨-, -, size, -, index, bound⟩ := orderly.entry_of member stands sent
  simp only [Done, Encoder.remaining] at finished ⊢
  omega

end

theorem Entry.of_step {next : Lines} {socket : Fd} {encoder : Encoder} {message : Message}
    (entry : lines.Entry socket encoder message)
    (listed : ∀ (number : Nat) (message : Message), lines.messages[number]? = some message →
      next.messages[number]? = some message)
    (address : next.addresses socket = lines.addresses socket)
    (handed : next.handed.count message.number = lines.handed.count message.number) :
    next.Entry socket encoder message := by
  obtain ⟨sent, named, size, connected, index, bound⟩ := entry
  exact ⟨listed _ _ sent, named, size, address.trans connected, index.trans handed.symm, bound⟩

theorem Orderly.retarget (orderly : lines.Orderly) {addresses : Fd → Option Address}
    (kept : Retargets lines.line lines.addresses addresses) :
    Orderly { lines with addresses := addresses } where
  numbered := orderly.numbered
  known := orderly.known
  entry socket encoder member := by
    obtain ⟨message, entry⟩ := orderly.entry socket encoder member
    exact ⟨message, entry.of_step (fun _ _ => id) (kept socket (List.ne_nil_of_mem member)) rfl⟩
  distinct := orderly.distinct
  unique := orderly.unique
  covered := orderly.covered
  behind socket before encoder after position late early message stands earlier sent connected := by
    refine orderly.behind socket before encoder after position late early message stands earlier
      sent ?_
    rw [← kept socket (by simp [show lines.line socket = _ from position])]
    exact connected
  ordered := orderly.ordered

theorem getElem?_concat {messages : List Message} {message found : Message} {number : Nat}
    (sent : (messages ++ [message])[number]? = some found) :
    messages[number]? = some found ∨ number = messages.length ∧ found = message := by
  rcases Nat.lt_trichotomy number messages.length with old | same | beyond
  · exact .inl (by rwa [List.getElem?_append_left old] at sent)
  · subst same
    exact .inr ⟨rfl, by simpa using sent.symm⟩
  · simp [List.getElem?_eq_none (show (messages ++ [message]).length ≤ number by simpa)] at sent

theorem getElem?_append {messages : List Message} {message found : Message} {number : Nat}
    (sent : messages[number]? = some found) :
    (messages ++ [message])[number]? = some found := by
  obtain ⟨bound, -⟩ := List.getElem?_eq_some_iff.mp sent
  rwa [List.getElem?_append_left bound]

/-- A new message joins a line. -/
theorem Orderly.join (orderly : lines.Orderly) {socket : Fd} {message : Message}
    {addresses : Fd → Option Address}
    (kept : Retargets lines.line lines.addresses addresses)
    (next : message.number = lines.messages.length)
    (connected : addresses socket = some message.address)
    (clear : ∀ other encoder, other ≠ socket → encoder ∈ lines.line other →
      lines.addresses other = some message.address → encoder.remaining = 0) :
    Orderly {
      line := Function.update lines.line socket (lines.line socket ++ [message.encoder])
      addresses := addresses
      messages := lines.messages ++ [message]
      handed := lines.handed } := by
  -- A member of a line is an old one or the new encoder.
  have member_cases : ∀ other encoder,
      encoder ∈ Function.update lines.line socket (lines.line socket ++ [message.encoder]) other →
      encoder ∈ lines.line other ∨ other = socket ∧ encoder = message.encoder := by
    intro other encoder member
    by_cases same : other = socket
    · subst same
      simp only [Function.update_self, List.mem_append, List.mem_singleton] at member
      exact member.imp id fun is => ⟨rfl, is⟩
    · exact .inl (by simpa [same] using member)
  have fresh : lines.handed.count message.number = 0 :=
    List.count_eq_zero.mpr fun handed => by
      have := orderly.known _ handed
      omega
  have older : ∀ other, ∀ encoder ∈ lines.line other, encoder.message ≠ message.encoder.message := by
    intro other encoder member same
    exact absurd (orderly.sent_of member same) (by omega)
  -- Every message that has been sent to the address is done or in the line.
  have ahead : ∀ (number : Nat) (first : Message), lines.messages[number]? = some first →
      first.address = message.address →
      lines.Done first ∨ ∃ encoder ∈ lines.line socket, encoder.message = some number := by
    intro number first sent address
    rcases orderly.covered number first sent with done | ⟨other, encoder, member, stands⟩
    · exact .inl done
    · by_cases same : other = socket
      · exact .inr ⟨encoder, same ▸ member, stands⟩
      · have entry := orderly.entry_of member stands sent
        exact .inl (orderly.done_of_remaining member stands
          (clear other encoder same member (address ▸ entry.2.2.2.1)) sent)
  refine ⟨?_, ?_, ?_, ?_, ?_, ?_, ?_, ?_⟩
  · intro number found sent
    rcases getElem?_concat sent with old | ⟨rfl, rfl⟩
    · exact orderly.numbered number found old
    · exact next
  · intro number handed
    have := orderly.known number handed
    simp only [List.length_append, List.length_singleton]
    omega
  · intro other encoder member
    rcases member_cases other encoder member with old | ⟨rfl, rfl⟩
    · obtain ⟨own, entry⟩ := orderly.entry other encoder old
      exact ⟨own, entry.of_step (fun _ _ => getElem?_append)
        (kept other (List.ne_nil_of_mem old)) rfl⟩
    · exact ⟨message, by simp [next], rfl, rfl, connected, fresh.symm, Nat.zero_le _⟩
  · intro other
    by_cases same : other = socket
    · subst same
      simp only [Function.update_self]
      refine List.pairwise_append.mpr ⟨orderly.distinct other, List.pairwise_singleton _ _, ?_⟩
      intro encoder member new is
      exact List.mem_singleton.mp is ▸ older other encoder member
    · simpa [same] using orderly.distinct other
  · intro first second encoder member other joined same
    rcases member_cases first encoder member with old | ⟨rfl, rfl⟩ <;>
      rcases member_cases second other joined with before | ⟨rfl, rfl⟩
    · exact orderly.unique first second encoder old other before same
    · exact absurd same (older first encoder old)
    · exact absurd same.symm (older second other before)
    · rfl
  · intro number found sent
    have stays : ∀ other encoder, encoder ∈ lines.line other → encoder ∈
        Function.update lines.line socket (lines.line socket ++ [message.encoder]) other := by
      intro other encoder member
      by_cases same : other = socket
      · subst same
        simp [member]
      · simpa [same] using member
    rcases getElem?_concat sent with old | ⟨rfl, rfl⟩
    · refine (orderly.covered number found old).imp id ?_
      rintro ⟨other, encoder, member, stands⟩
      exact ⟨other, encoder, stays other encoder member, stands⟩
    · exact .inr ⟨socket, found.encoder, by simp, by simp [Message.encoder, next]⟩
  · intro other before encoder after position late early found stands earlier sent at'
    -- Behind an old encoder nothing changes.
    have old : ∀ init, lines.line other = before ++ encoder :: init →
        lines.Done found ∨ ∃ first ∈ before, first.message = some early := by
      intro init was
      have bound := orderly.sent_of (show encoder ∈ lines.line other by simp [was]) stands
      rcases getElem?_concat sent with before' | ⟨rfl, -⟩
      · refine orderly.behind other before encoder init was late early found stands earlier before' ?_
        rw [← kept other (by simp [was])]
        exact at'
      · omega
    by_cases same : other = socket
    · subst same
      simp only [Function.update_self] at position
      rcases after.eq_nil_or_concat with rfl | ⟨init, last, rfl⟩
      · obtain ⟨rfl, is⟩ := List.append_inj' position rfl
        obtain rfl : message.encoder = encoder := List.head_eq_of_cons_eq is
        have named : message.number = late := Option.some.inj stands
        rcases getElem?_concat sent with before' | ⟨rfl, -⟩
        · exact ahead early found before' (Option.some.inj (at'.symm.trans connected))
        · omega
      · rw [List.concat_eq_append, ← List.cons_append, ← List.append_assoc] at position
        exact old init (List.append_inj' position rfl).1
    · exact old after (by simpa [same] using position)
  · intro early late first second sent later earlier address handed
    have bound := orderly.known late handed
    rcases getElem?_concat sent with old | ⟨rfl, -⟩
    · rcases getElem?_concat later with before | ⟨rfl, -⟩
      · exact orderly.ordered early late first second old before earlier address handed
      · exact absurd bound (by simp)
    · exact absurd bound (by omega)

/-- Bytes of the front of a line are handed over. -/
theorem Orderly.hand (orderly : lines.Orderly) {socket : Fd} {encoder : Encoder}
    {rest : List Encoder} {sent : Nat} (front : lines.line socket = encoder :: rest)
    (bound : sent ≤ encoder.remaining) :
    Orderly { lines with
      line := Function.update lines.line socket (encoder.advance sent :: rest)
      handed := lines.handed ++ bytes encoder sent } := by
  have member : encoder ∈ lines.line socket := by simp [front]
  obtain ⟨own, listed, named, size, connected, index, within⟩ := orderly.entry socket encoder member
  have bytes_eq : bytes encoder sent = List.replicate sent own.number := by
    simp [bytes, named]
  have others (number : Nat) (different : number ≠ own.number) :
      (lines.handed ++ bytes encoder sent).count number = lines.handed.count number := by
    simp [bytes_eq, List.count_replicate, Ne.symm different]
  have mine : (lines.handed ++ bytes encoder sent).count own.number =
      lines.handed.count own.number + sent := by
    simp [bytes_eq]
  -- A message that is done stays done: nothing is left of its encoder.
  have done (number : Nat) (message : Message) (found : lines.messages[number]? = some message)
      (complete : lines.handed.count number = message.size) :
      (lines.handed ++ bytes encoder sent).count number = message.size := by
    by_cases same : number = own.number
    · subst same
      obtain rfl : own = message := Option.some.inj (listed.symm.trans found)
      simp only [Encoder.remaining] at bound
      rw [mine]
      omega
    · rw [others number same, complete]
  -- A member of a line is the front of this line or stands for another message.
  have member_cases : ∀ other entry,
      entry ∈ Function.update lines.line socket (encoder.advance sent :: rest) other →
      other = socket ∧ entry = encoder.advance sent ∨
        entry ∈ lines.line other ∧ entry.message ≠ encoder.message := by
    intro other entry joined
    by_cases same : other = socket
    · subst same
      simp only [Function.update_self, List.mem_cons] at joined
      rcases joined with rfl | behind
      · exact .inl ⟨rfl, rfl⟩
      · have distinct := orderly.distinct other
        rw [front, List.pairwise_cons] at distinct
        exact .inr ⟨by simp [front, behind], (distinct.1 entry behind).symm⟩
    · rw [Function.update_of_ne same] at joined
      exact .inr ⟨joined, fun clash =>
        same (orderly.unique other socket entry joined encoder member clash)⟩
  have stays : ∀ other entry, entry ∈ lines.line other → ∃ still ∈
      Function.update lines.line socket (encoder.advance sent :: rest) other,
      still.message = entry.message := by
    intro other entry joined
    by_cases same : other = socket
    · subst same
      rw [front, List.mem_cons] at joined
      rcases joined with rfl | behind
      · exact ⟨entry.advance sent, by simp, rfl⟩
      · exact ⟨entry, by simp [behind], rfl⟩
    · exact ⟨entry, by simpa [same] using joined, rfl⟩
  refine ⟨orderly.numbered, ?_, ?_, ?_, ?_, ?_, ?_, ?_⟩
  · intro number handed
    rcases List.mem_append.mp handed with old | new
    · exact orderly.known number old
    · rw [bytes_eq] at new
      rw [List.eq_of_mem_replicate new]
      exact (List.getElem?_eq_some_iff.mp listed).1
  · intro other entry joined
    rcases member_cases other entry joined with ⟨rfl, rfl⟩ | ⟨old, different⟩
    · refine ⟨own, listed, named, size, connected, ?_, ?_⟩
      · simp only [Encoder.advance, mine, index]
      · simp only [Encoder.advance, Encoder.remaining] at bound ⊢
        omega
    · obtain ⟨message, found, standsFor, rest'⟩ := orderly.entry other entry old
      refine ⟨message, Entry.of_step ⟨found, standsFor, rest'⟩ (fun _ _ => id) rfl
        (others message.number fun same => different ?_)⟩
      rw [standsFor, named, same]
  · intro other
    by_cases same : other = socket
    · subst same
      have distinct := orderly.distinct other
      rw [front, List.pairwise_cons] at distinct
      simp only [Function.update_self, List.pairwise_cons]
      exact distinct
    · simpa [same] using orderly.distinct other
  · intro first second entry joined other joined' same
    rcases member_cases first entry joined with ⟨rfl, rfl⟩ | ⟨old, different⟩ <;>
      rcases member_cases second other joined' with ⟨rfl, rfl⟩ | ⟨old', different'⟩
    · rfl
    · exact absurd same.symm different'
    · exact absurd same different
    · exact orderly.unique first second entry old other old' same
  · intro number message found
    rcases orderly.covered number message found with complete | ⟨other, entry, joined, stands⟩
    · have is := orderly.numbered number message found
      exact .inl (done message.number message (is ▸ found) complete)
    · obtain ⟨still, joined', same⟩ := stays other entry joined
      exact .inr ⟨other, still, joined', same.trans stands⟩
  · intro other before entry after position late early message stands earlier found at'
    have is := orderly.numbered early message found
    have old (was : List Encoder) (first : Encoder) (position : lines.line other =
        was ++ first :: after) (stands : first.message = some late)
        (kept : ∀ entry ∈ was, ∃ still ∈ before, still.message = entry.message) :
        Done { lines with
          line := Function.update lines.line socket (encoder.advance sent :: rest)
          handed := lines.handed ++ bytes encoder sent } message ∨
            ∃ other ∈ before, other.message = some early := by
      rcases orderly.behind other was first after position late early message stands earlier found
        at' with complete | ⟨ahead, joined, same⟩
      · exact .inl (done message.number message (is ▸ found) complete)
      · obtain ⟨still, joined', same'⟩ := kept ahead joined
        exact .inr ⟨still, joined', same'.trans same⟩
    by_cases same : other = socket
    · subst same
      simp only [Function.update_self] at position
      cases before with
      | nil =>
          obtain ⟨rfl, rfl⟩ := List.cons.inj position
          exact old [] encoder front stands (by simp)
      | cons head before =>
          obtain ⟨rfl, rfl⟩ := List.cons.inj position
          refine old (encoder :: before) entry (by simp [front]) stands fun ahead joined => ?_
          rcases List.mem_cons.mp joined with rfl | behind
          · exact ⟨ahead.advance sent, by simp, rfl⟩
          · exact ⟨ahead, by simp [behind], rfl⟩
    · simp only [ne_eq, same, not_false_eq_true, Function.update_of_ne] at position
      exact old before entry position stands fun ahead joined => ⟨ahead, joined, rfl⟩
  · intro early late first second found later earlier address handed
    rcases List.mem_append.mp handed with old | new
    · exact done early first found (orderly.ordered early late first second found later earlier
        address old)
    · rw [bytes_eq] at new
      obtain rfl := List.eq_of_mem_replicate new
      obtain rfl : own = second := Option.some.inj (listed.symm.trans later)
      have is := orderly.numbered early first found
      rcases orderly.behind socket [] encoder rest front own.number early first named earlier found
        (connected.trans (congrArg some address.symm)) with complete | ⟨_, none, -⟩
      · exact done early first found (is ▸ complete)
      · simp at none

/-- An encoder with nothing left leaves the front of its line. -/
theorem Orderly.leave (orderly : lines.Orderly) {socket : Fd} {encoder : Encoder}
    {rest : List Encoder} {addresses : Fd → Option Address}
    (front : lines.line socket = encoder :: rest) (finished : encoder.remaining = 0)
    (kept : Retargets (Function.update lines.line socket rest) lines.addresses addresses) :
    Orderly { lines with
      line := Function.update lines.line socket rest
      addresses := addresses } := by
  have member : encoder ∈ lines.line socket := by simp [front]
  have old : ∀ other entry, entry ∈ Function.update lines.line socket rest other →
      entry ∈ lines.line other := by
    intro other entry joined
    by_cases same : other = socket
    · subst same
      rw [front]
      exact List.mem_cons_of_mem _ (by simpa using joined)
    · simpa [same] using joined
  refine ⟨orderly.numbered, orderly.known, ?_, ?_, ?_, ?_, ?_, orderly.ordered⟩
  · intro other entry joined
    obtain ⟨message, was⟩ := orderly.entry other entry (old other entry joined)
    exact ⟨message, was.of_step (fun _ _ => id) (kept other (List.ne_nil_of_mem joined)) rfl⟩
  · intro other
    by_cases same : other = socket
    · subst same
      have distinct := orderly.distinct other
      rw [front, List.pairwise_cons] at distinct
      simpa using distinct.2
    · simpa [same] using orderly.distinct other
  · intro first second entry joined other joined' same
    exact orderly.unique first second entry (old first entry joined) other
      (old second other joined') same
  · intro number message found
    rcases orderly.covered number message found with complete | ⟨other, entry, joined, stands⟩
    · exact .inl complete
    · by_cases same : other = socket
      · subst same
        rw [front, List.mem_cons] at joined
        rcases joined with rfl | behind
        · exact .inl (orderly.done_of_remaining member stands finished found)
        · exact .inr ⟨other, entry, by simpa using behind, stands⟩
      · exact .inr ⟨other, entry, by simpa [same] using joined, stands⟩
  · intro other before entry after position late early message stands earlier found at'
    have address : lines.addresses other = some message.address := by
      rw [← kept other
        (by rw [show Function.update lines.line socket rest other = _ from position]; simp)]
      exact at'
    by_cases same : other = socket
    · subst same
      simp only [Function.update_self] at position
      rcases orderly.behind other (encoder :: before) entry after (by simp [front, position]) late
        early message stands earlier found address with complete | ⟨ahead, joined, named⟩
      · exact .inl complete
      · rcases List.mem_cons.mp joined with rfl | behind
        · exact .inl (orderly.done_of_remaining member named finished found)
        · exact .inr ⟨ahead, behind, named⟩
    · simp only [ne_eq, same, not_false_eq_true, Function.update_of_ne] at position
      exact orderly.behind other before entry after position late early message stands earlier found
        address

/-- Lines stay orderly. -/
theorem Step.orderly {next : Lines} (step : lines.Step next) (orderly : lines.Orderly) :
    next.Orderly := by
  cases step with
  | retarget kept => exact orderly.retarget kept
  | join kept next connected clear => exact orderly.join kept next connected clear
  | hand front bound => exact orderly.hand front bound
  | leave front finished kept => exact orderly.leave front finished kept

end Lines

end Libprocess.Sockets
