import Libprocess.Sockets.Sending

/-!
# Encoders

A `DataEncoder` or a `FileEncoder` gives out everything that is left and is then backed up by what
was not taken.  The loops `internal::_send` and `http::internal::send` send an encoder, and
`SocketImpl::send` sends a string with an index of its own.
-/

namespace Libprocess.Transmission

/-- `static_cast<off_t>` of a `size_t` -/
def toOffset (size : Nat) : Int := Int.bmod size (2 ^ 64)

/-- `static_cast<size_t>` of an `off_t` -/
def toSize (offset : Int) : Nat := (offset % 2 ^ 64).toNat

theorem toOffset_of_lt {size : Nat} (small : size < 2 ^ 63) : toOffset size = size := by
  unfold toOffset
  apply Int.bmod_eq_of_le <;> omega

theorem toSize_of_lt {offset : Int} (positive : 0 ≤ offset) (small : offset < 2 ^ 63) :
    toSize offset = offset.toNat := by
  unfold toSize
  rw [Int.emod_eq_of_lt positive (by omega)]

/-- `DataEncoder` -/
structure DataEncoder where
  data : List UInt8
  index : Nat
  bounded : index ≤ data.length

namespace DataEncoder

def new (data : List UInt8) : DataEncoder := ⟨data, 0, Nat.zero_le _⟩

/-- The bytes from the index on. -/
def next (encoder : DataEncoder) : DataEncoder × List UInt8 :=
  (⟨encoder.data, encoder.data.length, Nat.le_refl _⟩, encoder.data.drop encoder.index)

def backup (encoder : DataEncoder) (length : Nat) : DataEncoder :=
  if length ≤ encoder.index then
    ⟨encoder.data, encoder.index - length, Nat.le_trans (Nat.sub_le _ _) encoder.bounded⟩
  else encoder

def remaining (encoder : DataEncoder) : Nat := encoder.data.length - encoder.index

end DataEncoder

/-- A file whose size is an `off_t`. -/
structure File where
  content : List UInt8
  small : content.length < 2 ^ 63

/-- `FileEncoder`, with the content of its file. -/
structure FileEncoder where
  file : File
  size : Int
  index : Int

namespace FileEncoder

/-- An encoder for a whole file. -/
def new (file : File) : FileEncoder := ⟨file, toOffset file.content.length, 0⟩

/-- The offset and the length of what is left. -/
def next (encoder : FileEncoder) : FileEncoder × Int × Nat :=
  ({ encoder with index := encoder.size }, encoder.index, toSize (encoder.size - encoder.index))

def backup (encoder : FileEncoder) (length : Nat) : FileEncoder :=
  if toOffset length ≤ encoder.index then
    { encoder with index := encoder.index - toOffset length }
  else encoder

def remaining (encoder : FileEncoder) : Nat := toSize (encoder.size - encoder.index)

end FileEncoder

/-- `Encoder` -/
inductive Encoder where
  | data (encoder : DataEncoder)
  | file (encoder : FileEncoder)

namespace Encoder

/-- `next`, and the call of the socket that is made for the result. -/
def next : Encoder → Encoder × Call
  | data encoder => (.data encoder.next.1, .send encoder.next.2)
  | file encoder =>
      (.file encoder.next.1, .sendfile encoder.file.content encoder.next.2.1 encoder.next.2.2)

def backup (length : Nat) : Encoder → Encoder
  | data encoder => .data (encoder.backup length)
  | file encoder => .file (encoder.backup length)

def remaining : Encoder → Nat
  | data encoder => encoder.remaining
  | file encoder => encoder.remaining

def index : Encoder → Nat
  | data encoder => encoder.index
  | file encoder => encoder.index.toNat

/-- `Encoder` for a text or for a file, as it is constructed. -/
def ofData (data : List UInt8) : Encoder := .data (.new data)

def ofFile (file : File) : Encoder := .file (.new file)

/-- What an encoder is for. -/
def content : Encoder → List UInt8
  | data encoder => encoder.data
  | file encoder => encoder.file.content

/-- The index of an encoder lies within its content. -/
def Valid : Encoder → Prop
  | data _ => True
  | file encoder => encoder.size = encoder.file.content.length ∧ 0 ≤ encoder.index ∧
      encoder.index ≤ encoder.size

/-- An encoder for a content. -/
def For (content : List UInt8) (encoder : Encoder) : Prop :=
  encoder.content = content ∧ encoder.Valid

end Encoder

/-- The loop of `internal::_send`, which backs the encoder up in the continuation of a call. -/
def _send : Sender Encoder where
  iterate := Encoder.next
  sent encoder asked length := encoder.backup (asked - length)
  body encoder _ _ := (encoder, if encoder.remaining = 0 then .Break () else .Continue)

/-- The loop of `http::internal::send`, which backs the encoder up in its body. -/
def send : Sender Encoder where
  iterate := Encoder.next
  sent encoder _ _ := encoder
  body encoder asked length :=
    let encoder := encoder.backup (asked - length)
    (encoder, if encoder.remaining ≠ 0 then .Continue else .Break ())

/-- The variables of `SocketImpl::send`. -/
structure Sending where
  data : List UInt8
  index : Nat

/-- The loop of `SocketImpl::send` -/
def sendString : Sender Sending where
  iterate sending := (sending, .send (sending.data.drop sending.index))
  sent sending _ _ := sending
  body sending _ length :=
    let index := sending.index + length
    ({ sending with index := index },
      if index ≠ sending.data.length then .Continue else .Break ())

namespace Encoder

variable {encoder : Encoder} {content : List UInt8} {length : Nat}

/-- What is asked for is everything from the index on. -/
theorem next_call (valid : encoder.For content) :
    encoder.index ≤ content.length ∧
      encoder.next.2.size = content.length - encoder.index ∧
      ∀ length, encoder.next.2.taken length = (content.drop encoder.index).take length := by
  obtain ⟨rfl, valid⟩ := valid
  cases encoder with
  | data encoder => exact ⟨encoder.bounded, List.length_drop, fun _ => rfl⟩
  | file encoder =>
      obtain ⟨size, positive, within⟩ := valid
      have small := encoder.file.small
      refine ⟨?_, ?_, fun _ => rfl⟩
      · simp only [index, Encoder.content]
        omega
      · simp only [next, Call.size, FileEncoder.next, index, Encoder.content]
        rw [toSize_of_lt (by omega) (by omega)]
        omega

/-- Backed up by what was not taken, the index has advanced by what was taken. -/
theorem backup_next (valid : encoder.For content)
    (small : length ≤ content.length - encoder.index) :
    (encoder.next.1.backup (encoder.next.2.size - length)).For content ∧
      (encoder.next.1.backup (encoder.next.2.size - length)).index = encoder.index + length ∧
      (encoder.next.1.backup (encoder.next.2.size - length)).remaining =
        content.length - (encoder.index + length) := by
  have asked := (next_call valid).2.1
  rw [asked]
  obtain ⟨rfl, valid⟩ := valid
  cases encoder with
  | data encoder =>
      have bounded := encoder.bounded
      simp only [index, Encoder.content] at small ⊢
      have backed : encoder.next.1.backup (encoder.data.length - encoder.index - length) =
          ⟨encoder.data, encoder.index + length, by omega⟩ := by
        unfold DataEncoder.backup DataEncoder.next
        dsimp only
        rw [if_pos (by omega)]
        congr 1
        omega
      simp only [next, backup, backed]
      exact ⟨⟨rfl, trivial⟩, trivial, rfl⟩
  | file encoder =>
      obtain ⟨size, positive, within⟩ := valid
      have limit := encoder.file.small
      simp only [index, Encoder.content] at small ⊢
      have backed : encoder.next.1.backup
          (encoder.file.content.length - encoder.index.toNat - length) =
          { encoder with index := encoder.index + length } := by
        unfold FileEncoder.backup FileEncoder.next
        dsimp only
        rw [toOffset_of_lt (by omega), if_pos (by omega)]
        congr 1
        omega
      simp only [next, backup, backed]
      have advanced : (encoder.index + length).toNat = encoder.index.toNat + length := by omega
      refine ⟨⟨rfl, size, ?_, ?_⟩, ?_, ?_⟩
      · change 0 ≤ encoder.index + (length : Int)
        omega
      · change encoder.index + (length : Int) ≤ encoder.size
        omega
      · exact advanced
      · change toSize (encoder.size - (encoder.index + length)) = _
        have left : encoder.size - (encoder.index + length) =
            ((encoder.file.content.length - (encoder.index.toNat + length) : Nat) : Int) := by
          omega
        rw [left, toSize_of_lt (by omega) (by omega), Int.toNat_natCast]

theorem ofData_for (data : List UInt8) : (ofData data).For data := ⟨rfl, trivial⟩

theorem ofFile_for (file : File) : (ofFile file).For file.content := by
  have size : toOffset file.content.length = file.content.length := toOffset_of_lt file.small
  refine ⟨rfl, ?_⟩
  simp only [Valid, ofFile, FileEncoder.new, size, true_and]
  omega

end Encoder

theorem flow_remaining {whole index : Nat} (bounded : index ≤ whole) :
    (if whole - index = 0 then ControlFlow.Break () else .Continue) =
      if index = whole then .Break () else .Continue := by
  by_cases equal : index = whole
  · rw [if_pos equal, if_pos (by omega)]
  · rw [if_neg equal, if_neg (by omega)]

/-- `internal::_send` counts with the index of its encoder. -/
theorem _send_tracks (content : List UInt8) :
    _send.Tracks content Encoder.index (Encoder.For content) where
  bounded valid := (Encoder.next_call valid).1
  size valid := (Encoder.next_call valid).2.1
  taken valid := (Encoder.next_call valid).2.2 _
  advances := by
    intro transfer length valid small
    have bounded := (Encoder.next_call valid).1
    obtain ⟨kept, advanced, remaining⟩ := Encoder.backup_next valid small
    refine ⟨kept, advanced, ?_⟩
    simp only [Sender.after, _send]
    rw [remaining]
    exact flow_remaining (by omega)

/-- So does `http::internal::send`. -/
theorem send_tracks (content : List UInt8) :
    send.Tracks content Encoder.index (Encoder.For content) where
  bounded valid := (Encoder.next_call valid).1
  size valid := (Encoder.next_call valid).2.1
  taken valid := (Encoder.next_call valid).2.2 _
  advances := by
    intro transfer length valid small
    have bounded := (Encoder.next_call valid).1
    obtain ⟨kept, advanced, remaining⟩ := Encoder.backup_next valid small
    refine ⟨kept, advanced, ?_⟩
    simp only [Sender.after, send]
    rw [remaining, ite_not]
    exact flow_remaining (by omega)

/-- `SocketImpl::send` counts with a variable. -/
theorem sendString_tracks (content : List UInt8) :
    sendString.Tracks content Sending.index
      (fun sending => sending.data = content ∧ sending.index ≤ content.length) where
  bounded valid := valid.2
  size := by
    rintro sending ⟨rfl, _⟩
    exact List.length_drop
  taken := by
    rintro sending length ⟨rfl, _⟩
    rfl
  advances := by
    rintro transfer length ⟨rfl, bounded⟩ small
    refine ⟨⟨rfl, ?_⟩, rfl, ?_⟩
    · simp only [Sender.after, sendString]
      omega
    · simp only [Sender.after, sendString, ite_not]

/-- All loops, with an encoder for a text or for a file and with a string, send everything once and
in order and count it. -/
theorem transmits_iff (socket : PartialSocket) (data : List UInt8) (file : File)
    (filled : file.content ≠ []) :
    (_send.Transmits socket.toPollSocket data Encoder.index (.ofData data) ∧
      send.Transmits socket.toPollSocket data Encoder.index (.ofData data) ∧
      sendString.Transmits socket.toPollSocket data Sending.index ⟨data, 0⟩ ∧
      _send.Transmits socket.toPollSocket file.content Encoder.index (.ofFile file) ∧
      send.Transmits socket.toPollSocket file.content Encoder.index (.ofFile file)) ↔
    data ≠ [] := by
  rw [(_send_tracks data).whole_iff socket (Encoder.ofData_for data) rfl,
    (send_tracks data).whole_iff socket (Encoder.ofData_for data) rfl,
    (sendString_tracks data).whole_iff socket ⟨rfl, Nat.zero_le _⟩ rfl,
    (_send_tracks file.content).whole_iff socket (Encoder.ofFile_for file) rfl,
    (send_tracks file.content).whole_iff socket (Encoder.ofFile_for file) rfl]
  simp [filled]

/-- A socket that takes two bytes at most. -/
def pairs : PartialSocket where
  reply _ asked := some (min 2 asked)
  legal := by
    intro call asked length reported
    cases reported
    exact Nat.min_le_right _ _
  progress := by
    intro call asked positive
    exact ⟨_, rfl, by omega⟩

theorem transmits_iff_pairs :
    (_send.Transmits pairs.toPollSocket [1, 2, 3] Encoder.index (.ofData [1, 2, 3]) ∧
      send.Transmits pairs.toPollSocket [1, 2, 3] Encoder.index (.ofData [1, 2, 3]) ∧
      sendString.Transmits pairs.toPollSocket [1, 2, 3] Sending.index ⟨[1, 2, 3], 0⟩ ∧
      _send.Transmits pairs.toPollSocket [4] Encoder.index (.ofFile ⟨[4], by decide⟩) ∧
      send.Transmits pairs.toPollSocket [4] Encoder.index (.ofFile ⟨[4], by decide⟩)) ↔
    [1, 2, 3] ≠ ([] : List UInt8) :=
  transmits_iff pairs [1, 2, 3] ⟨[4], by decide⟩ (by decide)

/-- The empty string is not sent: the first call is of size zero. -/
theorem not_transmits_empty :
    ¬ sendString.Transmits pairs.toPollSocket [] Sending.index ⟨[], 0⟩ := by
  rintro ⟨trace, last, runs, _⟩
  have aborted : sendString.round pairs.toPollSocket ⟨⟨[], 0⟩, 0, []⟩ = .aborted := rfl
  generalize trace ++ [last] = rounds at runs
  cases runs with
  | breaks done | continues done _ =>
      rw [aborted] at done
      cases done

end Libprocess.Transmission
