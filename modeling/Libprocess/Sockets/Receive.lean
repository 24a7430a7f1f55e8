import Mathlib.Data.List.Basic
import Libprocess.Loop.Run

/-!
# Receiving a number of bytes

`SocketImpl::recv` receives through a loop that asks for the same number of bytes in every round and
looks at the number of bytes it has only afterwards.  What the underlying `recv` reports is chosen
by the wire.
-/

namespace Libprocess.Sockets

/-- A byte stream, and how many bytes the underlying `recv` reports at a position of the stream: at
least one and at most as many as asked for, until the end of the stream. -/
structure Wire where
  stream : List UInt8
  reply : (position asked : Nat) → Nat
  legal : ∀ position asked, 0 < asked → position < stream.length →
    0 < reply position asked ∧ reply position asked ≤ asked ∧
      position + reply position asked ≤ stream.length

namespace Wire

variable {wire : Wire} {pagesize chunk position target asked : Nat} {size : Option Int}
variable {buffer data text : List UInt8}

/-- The underlying `recv`.  No byte stands for the end of the stream. -/
def receive (wire : Wire) (position asked : Nat) : List UInt8 :=
  if asked = 0 ∨ wire.stream.length ≤ position then []
  else (wire.stream.drop position).take (wire.reply position asked)

/-- The body of the loop in `SocketImpl::recv`, with the buffer that it changes. -/
def body (size : Option Int) (buffer data : List UInt8) :
    List UInt8 × ControlFlow (List UInt8) :=
  if data.length = 0 then (buffer, .Break buffer)
  else
    let buffer := buffer ++ data
    match size with
    | none => (buffer, .Break buffer)
    | some size =>
        if size < 0 then (buffer, .Continue)
        else if buffer.length < size.toNat then (buffer, .Continue)
        else (buffer, .Break buffer)

theorem body_continue {next : List UInt8} (continues : body size buffer data = (next, .Continue)) :
    0 < data.length ∧ next = buffer ++ data := by
  unfold body at continues
  split at continues
  · cases continues
  · next filled =>
      refine ⟨Nat.pos_of_ne_zero filled, ?_⟩
      dsimp only at continues
      split at continues
      · cases continues
      · split at continues
        · cases continues
          rfl
        · split at continues
          · cases continues
            rfl
          · cases continues

theorem receive_length (wire : Wire) (position asked : Nat) :
    position ≤ wire.stream.length →
      position + (wire.receive position asked).length ≤ wire.stream.length := by
  intro bounded
  unfold receive
  split
  · simpa using bounded
  · rw [List.length_take, List.length_drop]
    omega

theorem receive_pos (filled : 0 < (wire.receive position asked).length) :
    0 < asked ∧ position < wire.stream.length := by
  unfold receive at filled
  split at filled
  · cases filled
  · next open_ =>
      constructor <;> omega

/-- What is received is what the stream holds next. -/
theorem receive_append (wire : Wire) (position asked : Nat) :
    wire.receive position asked ++
        wire.stream.drop (position + (wire.receive position asked).length) =
      wire.stream.drop position := by
  unfold receive
  split
  · simp
  · rw [← List.drop_drop, List.length_take]
    apply (congrArg _ _).trans (List.take_append_drop (wire.reply position asked) _)
    cases Nat.le_total (wire.reply position asked) (wire.stream.drop position).length with
    | inl room => rw [Nat.min_eq_left room]
    | inr short => rw [Nat.min_eq_right short, List.drop_length, List.drop_eq_nil_of_le short]

theorem receive_eq_nil (positive : 0 < asked) (bounded : position ≤ wire.stream.length)
    (empty : wire.receive position asked = []) : position = wire.stream.length := by
  by_contra different
  have before : position < wire.stream.length := Nat.lt_of_le_of_ne bounded different
  have legal := wire.legal position asked positive before
  unfold receive at empty
  rw [if_neg (by omega)] at empty
  have none := congrArg List.length empty
  rw [List.length_take, List.length_drop, List.length_nil] at none
  omega

theorem receive_length_eq (positive : 0 < asked) (before : position < wire.stream.length) :
    (wire.receive position asked).length = wire.reply position asked := by
  have legal := wire.legal position asked positive before
  unfold receive
  rw [if_neg (by omega), List.length_take, List.length_drop]
  omega

/-- The loop in `SocketImpl::recv`: the text, and how far the stream has been consumed. -/
def recvLoop (wire : Wire) (chunk : Nat) (size : Option Int) (buffer : List UInt8)
    (position : Nat) : List UInt8 × Nat :=
  match _round : body size buffer (wire.receive position chunk) with
  | (_, .Break text) => (text, position + (wire.receive position chunk).length)
  | (next, .Continue) =>
      recvLoop wire chunk size next (position + (wire.receive position chunk).length)
termination_by wire.stream.length - position
decreasing_by
  have filled := (body_continue _round).1
  have remaining := (receive_pos filled).2
  omega

/-- `SocketImpl::recv`; the default chunk is sixteen pages. -/
def recv (wire : Wire) (pagesize : Nat) (size : Option Int) (position : Nat) :
    List UInt8 × Nat :=
  let chunk := match size with
    | none => 16 * pagesize
    | some size => if size < 0 then 16 * pagesize else size.toNat
  recvLoop wire chunk size [] position

/-- Consecutive calls. -/
def recvs (wire : Wire) (pagesize : Nat) : List Int → Nat → List (List UInt8) × Nat
  | [], position => ([], position)
  | size :: sizes, position =>
      let first := wire.recv pagesize (some size) position
      let others := wire.recvs pagesize sizes first.2
      (first.1 :: others.1, others.2)

/-! ## The contract -/

/-- What consecutive calls return and leave by the contract: a number of bytes each, or everything
that is left. -/
def promised : List Int → List UInt8 → List (List UInt8) × List UInt8
  | [], stream => ([], stream)
  | size :: sizes, stream =>
      if size < 0 then (stream :: (promised sizes []).1, (promised sizes []).2)
      else
        let others := promised sizes (stream.drop size.toNat)
        (stream.take size.toNat :: others.1, others.2)

/-- Consecutive calls do what the contract says. -/
def Honours (wire : Wire) (pagesize : Nat) (sizes : List Int) : Prop :=
  ((wire.recvs pagesize sizes 0).1, wire.stream.drop (wire.recvs pagesize sizes 0).2) =
    promised sizes wire.stream

/-- A position at which a piece ends if all requests are for the same number of bytes. -/
inductive Reaches (wire : Wire) (asked : Nat) : Nat → Nat → Prop where
  | here {position : Nat} : Reaches wire asked position position
  | next {position target : Nat} : position < wire.stream.length →
      Reaches wire asked (position + wire.reply position asked) target →
      Reaches wire asked position target

/-- Where a call ends by the contract. -/
def promisedEnd (wire : Wire) (size : Int) (position : Nat) : Nat :=
  if size < 0 then wire.stream.length
  else min (position + size.toNat) wire.stream.length

/-- No piece crosses the last byte that a call asks for. -/
def Aligned (wire : Wire) : List Int → Nat → Prop
  | [], _ => True
  | size :: sizes, position =>
      (0 ≤ size → wire.Reaches size.toNat position (wire.promisedEnd size position)) ∧
        wire.Aligned sizes (wire.promisedEnd size position)

section Loop

variable (wire : Wire) (chunk : Nat) (size : Option Int)

theorem recvLoop_break (breaks : (body size buffer (wire.receive position chunk)).2 = .Break text) :
    wire.recvLoop chunk size buffer position =
      (text, position + (wire.receive position chunk).length) := by
  rw [recvLoop]
  split
  · next result first =>
      rw [first] at breaks
      cases breaks
      rfl
  · next result first =>
      rw [first] at breaks
      cases breaks

/-- A text that the body breaks with is what has been received. -/
theorem body_break (breaks : (body size buffer data).2 = .Break text) : text = buffer ++ data := by
  unfold body at breaks
  split at breaks
  · next empty =>
      cases breaks
      rw [List.length_eq_zero_iff.mp empty, List.append_nil]
  · dsimp only at breaks
    split at breaks
    · cases breaks
      rfl
    · split at breaks
      · cases breaks
      · split at breaks
        · cases breaks
        · cases breaks
          rfl

/-- The rounds of a loop: an end at once, or a piece and the other rounds. -/
theorem recvLoop_induction {motive : List UInt8 → Nat → List UInt8 × Nat → Prop}
    (ended : ∀ buffer position text,
      (body size buffer (wire.receive position chunk)).2 = .Break text →
      motive buffer position (text, position + (wire.receive position chunk).length))
    (continued : ∀ buffer position result,
      (body size buffer (wire.receive position chunk)).2 = .Continue →
      motive (buffer ++ wire.receive position chunk)
        (position + (wire.receive position chunk).length) result →
      motive buffer position result) (buffer : List UInt8) (position : Nat) :
    motive buffer position (wire.recvLoop chunk size buffer position) := by
  fun_induction recvLoop wire chunk size buffer position with
  | case1 buffer position next text round =>
      apply ended
      rw [round]
  | case2 buffer position next round ih =>
      apply continued
      · rw [round]
      · rw [← (body_continue round).2]
        exact ih

/-- The text is what the stream holds up to the position that is left. -/
theorem recvLoop_text (bounded : position ≤ wire.stream.length) :
    (wire.recvLoop chunk size buffer position).1 ++
        wire.stream.drop (wire.recvLoop chunk size buffer position).2 =
      buffer ++ wire.stream.drop position ∧
    position ≤ (wire.recvLoop chunk size buffer position).2 ∧
    (wire.recvLoop chunk size buffer position).2 ≤ wire.stream.length := by
  revert bounded
  apply recvLoop_induction wire chunk size (motive := fun buffer position result =>
    position ≤ wire.stream.length →
      result.1 ++ wire.stream.drop result.2 = buffer ++ wire.stream.drop position ∧
        position ≤ result.2 ∧ result.2 ≤ wire.stream.length)
  · intro buffer position text breaks bounded
    refine ⟨?_, Nat.le_add_right _ _, receive_length wire position chunk bounded⟩
    rw [body_break _ breaks, List.append_assoc, receive_append]
  · intro buffer position result _ ih bounded
    have later := ih (receive_length wire position chunk bounded)
    refine ⟨?_, by omega, later.2.2⟩
    rw [later.1, List.append_assoc, receive_append]

end Loop

section Sized

variable {count : Nat}

@[simp] theorem body_nil : body size buffer [] = (buffer, .Break buffer) := rfl

theorem body_negative {size : Int} (negative : size < 0) (filled : data ≠ []) :
    (body (some size) buffer data).2 = .Continue := by
  have length : data.length ≠ 0 := fun zero => filled (List.length_eq_zero_iff.mp zero)
  simp [body, length, negative]

theorem body_short (filled : data ≠ []) (short : (buffer ++ data).length < count) :
    (body (some (count : Int)) buffer data).2 = .Continue := by
  have length : data.length ≠ 0 := fun zero => filled (List.length_eq_zero_iff.mp zero)
  have negative : ¬ (count : Int) < 0 := by omega
  simp only [body, if_neg length, if_neg negative, Int.toNat_natCast, if_pos short]

theorem body_enough (filled : data ≠ []) (enough : count ≤ (buffer ++ data).length) :
    (body (some (count : Int)) buffer data).2 = .Break (buffer ++ data) := by
  have length : data.length ≠ 0 := fun zero => filled (List.length_eq_zero_iff.mp zero)
  have negative : ¬ (count : Int) < 0 := by omega
  simp only [body, if_neg length, if_neg negative, Int.toNat_natCast, if_neg (Nat.not_lt.mpr enough)]

/-- Without a number the loop runs to the end of the stream. -/
theorem recvLoop_negative {size : Int} (negative : size < 0) (positive : 0 < chunk)
    (buffer : List UInt8) (bounded : position ≤ wire.stream.length) :
    (wire.recvLoop chunk (some size) buffer position).2 = wire.stream.length := by
  revert bounded
  apply recvLoop_induction wire chunk (some size) (motive := fun _ position result =>
    position ≤ wire.stream.length → result.2 = wire.stream.length)
  · intro buffer position text breaks bounded
    by_cases empty : wire.receive position chunk = []
    · simp only [empty, List.length_nil, Nat.add_zero]
      exact receive_eq_nil positive bounded empty
    · rw [body_negative negative empty] at breaks
      cases breaks
  · intro buffer position result _ ih bounded
    exact ih (receive_length wire position chunk bounded)

theorem Reaches.le (reaches : wire.Reaches asked position target) : position ≤ target := by
  induction reaches with
  | here => exact Nat.le_refl _
  | next _ _ ih => exact Nat.le_trans (Nat.le_add_right _ _) ih

/-- Before the target, a piece has to end further on. -/
theorem reaches_iff (before : position < target) (remaining : position < wire.stream.length) :
    wire.Reaches asked position target ↔
      wire.Reaches asked (position + wire.reply position asked) target := by
  constructor
  · intro reaches
    cases reaches with
    | here => exact absurd before (Nat.lt_irrefl _)
    | next _ later => exact later
  · exact .next remaining

/-- The loop ends with the promised byte exactly if a piece ends with it. -/
theorem recvLoop_sized (start : Nat) (buffer : List UInt8)
    (bounded : position ≤ wire.stream.length) (received : start + buffer.length = position)
    (missing : buffer.length < count) :
    (wire.recvLoop count (some (count : Int)) buffer position).2 =
        min (start + count) wire.stream.length ↔
      wire.Reaches count position (min (start + count) wire.stream.length) := by
  revert bounded received missing
  apply recvLoop_induction wire count (some (count : Int)) (motive := fun buffer position result =>
    position ≤ wire.stream.length → start + buffer.length = position → buffer.length < count →
      (result.2 = min (start + count) wire.stream.length ↔
        wire.Reaches count position (min (start + count) wire.stream.length)))
  · intro buffer position text breaks bounded received missing
    by_cases empty : wire.receive position count = []
    · have ended := receive_eq_nil (by omega) bounded empty
      have target : min (start + count) wire.stream.length = position := by omega
      simp only [empty, List.length_nil, Nat.add_zero, target, true_iff]
      exact .here
    · have remaining := (receive_pos (List.length_pos_iff.mpr empty)).2
      have length : (wire.receive position count).length = wire.reply position count :=
        receive_length_eq (by omega) remaining
      have enough : ¬ (buffer ++ wire.receive position count).length < count := by
        intro short
        rw [body_short empty short] at breaks
        cases breaks
      rw [List.length_append] at enough
      rw [reaches_iff (by omega) remaining, ← length]
      constructor
      · intro same
        rw [← same]
        exact .here
      · intro reaches
        have after := reaches.le
        omega
  · intro buffer position result continues ih bounded received missing
    by_cases empty : wire.receive position count = []
    · rw [empty, body_nil] at continues
      cases continues
    · have remaining := (receive_pos (List.length_pos_iff.mpr empty)).2
      have length : (wire.receive position count).length = wire.reply position count :=
        receive_length_eq (by omega) remaining
      have short : (buffer ++ wire.receive position count).length < count := by
        by_contra enough
        rw [body_enough empty (Nat.not_lt.mp enough)] at continues
        cases continues
      rw [reaches_iff (by omega) remaining, ← length]
      apply ih (receive_length wire position count bounded) _ short
      rw [List.length_append]
      omega

end Sized

section Calls

variable {size : Int}

theorem recv_text (wire : Wire) (pagesize : Nat) (size : Option Int)
    (bounded : position ≤ wire.stream.length) :
    (wire.recv pagesize size position).1 ++
        wire.stream.drop (wire.recv pagesize size position).2 =
      wire.stream.drop position ∧
    position ≤ (wire.recv pagesize size position).2 ∧
    (wire.recv pagesize size position).2 ≤ wire.stream.length :=
  recvLoop_text wire _ size bounded

/-- Where a call ends, the promised end is one of the places at which the wire cuts. -/
theorem recv_end (positive : 0 < pagesize) (bounded : position ≤ wire.stream.length) :
    (wire.recv pagesize (some size) position).2 = wire.promisedEnd size position ↔
      (0 ≤ size → wire.Reaches size.toNat position (wire.promisedEnd size position)) := by
  unfold promisedEnd recv
  by_cases negative : size < 0
  · simp only [if_pos negative]
    rw [recvLoop_negative negative (by omega) [] bounded]
    simp [Int.not_le.mpr negative]
  · obtain ⟨count, rfl⟩ := Int.eq_ofNat_of_zero_le (Int.not_lt.mp negative)
    simp only [if_neg negative, Int.toNat_natCast, Int.natCast_nonneg, forall_const]
    cases count with
    | zero =>
        have nothing : wire.receive position 0 = [] := by simp [receive]
        have target : min (position + 0) wire.stream.length = position := by omega
        have breaks : (body (some ((0 : Nat) : Int)) [] (wire.receive position 0)).2 =
            .Break [] := by
          rw [nothing]
          rfl
        rw [recvLoop_break wire 0 _ breaks, nothing, target]
        simp [Reaches.here]
    | succ count => exact recvLoop_sized position [] bounded rfl (Nat.succ_pos count)

/-- What is left behind a promised end. -/
theorem drop_promisedEnd (wire : Wire) (size : Int) (position : Nat) :
    wire.stream.drop (wire.promisedEnd size position) =
      if size < 0 then [] else (wire.stream.drop position).drop size.toNat := by
  unfold promisedEnd
  split
  · exact List.drop_length
  · rw [List.drop_drop]
    cases Nat.le_total (position + size.toNat) wire.stream.length with
    | inl room => rw [Nat.min_eq_left room]
    | inr short => rw [Nat.min_eq_right short, List.drop_length, List.drop_eq_nil_of_le short]

theorem recv_promised (bounded : position ≤ wire.stream.length) :
    (wire.recv pagesize (some size) position).1 =
        (if size < 0 then wire.stream.drop position
          else (wire.stream.drop position).take size.toNat) ↔
      (wire.recv pagesize (some size) position).2 = wire.promisedEnd size position := by
  obtain ⟨whole, advanced, within⟩ := recv_text wire pagesize (some size) bounded
  have total := congrArg List.length whole
  rw [List.length_append, List.length_drop, List.length_drop] at total
  have split : (if size < 0 then wire.stream.drop position
        else (wire.stream.drop position).take size.toNat) ++
      wire.stream.drop (wire.promisedEnd size position) = wire.stream.drop position := by
    rw [drop_promisedEnd]
    split
    · exact List.append_nil _
    · exact List.take_append_drop _ _
  have ends : wire.promisedEnd size position ≤ wire.stream.length := by
    unfold promisedEnd
    split <;> omega
  have promisedLength := congrArg List.length split
  rw [List.length_append, List.length_drop, List.length_drop] at promisedLength
  constructor
  · intro same
    rw [← same] at promisedLength
    omega
  · intro same
    rw [same] at whole
    exact List.append_cancel_right (whole.trans split.symm)

theorem promised_cons (size : Int) (sizes : List Int) (stream : List UInt8) :
    promised (size :: sizes) stream =
      ((if size < 0 then stream else stream.take size.toNat) ::
          (promised sizes (if size < 0 then [] else stream.drop size.toNat)).1,
        (promised sizes (if size < 0 then [] else stream.drop size.toNat)).2) := by
  rw [promised]
  split <;> rfl

theorem recvs_iff_aligned (positive : 0 < pagesize) (sizes : List Int)
    (bounded : position ≤ wire.stream.length) :
    ((wire.recvs pagesize sizes position).1,
        wire.stream.drop (wire.recvs pagesize sizes position).2) =
      promised sizes (wire.stream.drop position) ↔ wire.Aligned sizes position := by
  induction sizes generalizing position with
  | nil => simp [recvs, promised, Aligned]
  | cons size sizes ih =>
      have ends : wire.promisedEnd size position ≤ wire.stream.length := by
        unfold promisedEnd
        split <;> omega
      rw [Aligned, ← recv_end positive bounded, ← ih ends, drop_promisedEnd, recvs, promised_cons,
        Prod.mk.injEq, List.cons.injEq, recv_promised bounded, Prod.ext_iff, and_assoc]
      apply and_congr_right
      intro same
      rw [same]

/-- Consecutive calls honour the contract exactly if no piece crosses a last byte. -/
theorem honours_iff (positive : 0 < pagesize) (sizes : List Int) :
    wire.Honours pagesize sizes ↔ wire.Aligned sizes 0 :=
  recvs_iff_aligned positive sizes (Nat.zero_le _)

end Calls

/-- Six bytes, three at a time. -/
def thirds : Wire where
  stream := [1, 2, 3, 4, 5, 6]
  reply position asked := min (min 3 asked) (6 - position)
  legal := by
    intro position asked positive before
    simp only [List.length_cons, List.length_nil] at before ⊢
    omega

theorem honours_iff_thirds : thirds.Honours 4096 [3, -1] ↔ thirds.Aligned [3, -1] 0 :=
  honours_iff (by decide) [3, -1]

/-- A call for five bytes returns six. -/
theorem not_honours_thirds : ¬ thirds.Honours 4096 [5] := by
  have first : (thirds.recv 4096 (some (5 : Nat)) 0).2 ≠ thirds.promisedEnd (5 : Nat) 0 := by
    rw [ne_eq, recv_end (by decide) (by decide)]
    intro aligned
    cases aligned (by decide) with
    | next _ later =>
        cases later with
        | next _ last => exact absurd last.le (by decide)
  intro honours
  apply first
  rw [← recv_promised (by decide)]
  exact (List.cons.inj (congrArg Prod.fst honours)).1

end Wire

end Libprocess.Sockets
