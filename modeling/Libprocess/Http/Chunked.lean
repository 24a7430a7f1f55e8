import Libprocess.Messages.Requests

/-!
# The chunked transfer coding

A body is a sequence of chunks, each of which tells its size, a chunk of size zero and a trailer.  A
chunk may contain anything, since its end is found by its size.
-/

namespace Libprocess.Http.Chunked

open Messages (cutLine cutLine_append parseHex parseHex_toDigits isSome_hexDigit_of_mem_toDigits)

/-- `std::hex << data.size() << "\r\n" << data << "\r\n"` -/
def chunk (data : String) : String :=
  String.ofList (Nat.toDigits 16 data.length) ++ "\r\n" ++ data ++ "\r\n"

/-- `"0\r\n" << "\r\n"` -/
def lastChunk : String := "0\r\n" ++ "\r\n"

/-- What is written for the result of a read, which is empty at the end of the pipe. -/
def frame (data : String) : String := if data = "" then lastChunk else chunk data

/-! ## The grammar -/

/-- `chunk-size [ chunk-ext ]` -/
def parseSize (line : List Char) : Option Nat :=
  let digits := line.takeWhile fun character => (hexDigit character).isSome
  let extension := line.dropWhile fun character => (hexDigit character).isSome
  if digits ≠ [] ∧ (extension = [] ∨ extension.head? = some ';') then parseHex digits else none

/-- `trailer-part CRLF`, and what stands behind it. -/
def parseTrailer : Nat → List Char → Option (List Char)
  | 0, _ => none
  | fuel + 1, text =>
      (cutLine text).bind fun cut => if cut.1 = [] then some cut.2 else parseTrailer fuel cut.2

/-- `chunked-body`: the data of the chunks before the one of size zero, and what stands behind the
body. -/
def parseBody : Nat → List Char → Option (List (List Char) × List Char)
  | 0, _ => none
  | fuel + 1, text =>
      (cutLine text).bind fun cut =>
        (parseSize cut.1).bind fun size =>
          if size = 0 then (parseTrailer (cut.2.length + 1) cut.2).map fun rest => ([], rest)
          else if size ≤ cut.2.length then
            match cut.2.drop size with
            | '\r' :: '\n' :: rest =>
                (parseBody fuel rest).map fun body => (cut.2.take size :: body.1, body.2)
            | _ => none
          else none

/-- The data of the chunks of a text that is one body, the last chunk of which is the only one of
size zero. -/
def parse (text : String) : Option (List (List Char)) :=
  (parseBody (text.length + 1) text.toList).bind fun body =>
    if body.2 = [] then some body.1 else none

/-- What is written for several chunks. -/
def frames (datas : List String) : String := String.join (datas.map chunk)

section Parsing

variable {data : String} {rest text : List Char} {fuel : Nat}

theorem digits_single (number : Nat) : ∀ character ∈ Nat.toDigits 16 number, character ≠ '\r' := by
  rintro character member rfl
  have digit := isSome_hexDigit_of_mem_toDigits member
  cases digit

theorem parseSize_toDigits (number : Nat) : parseSize (Nat.toDigits 16 number) = some number := by
  have digits : ∀ character ∈ Nat.toDigits 16 number, (hexDigit character).isSome = true :=
    fun _ => isSome_hexDigit_of_mem_toDigits
  have all := List.takeWhile_eq_self_iff.mpr digits
  have none := List.dropWhile_eq_nil_iff.mpr digits
  unfold parseSize
  simp only [all, none, ne_eq, Nat.toDigits_ne_nil, not_false_eq_true, true_or, and_self, if_true]
  exact parseHex_toDigits number

theorem chunk_toList (data : String) : (chunk data).toList =
    Nat.toDigits 16 data.length ++ '\r' :: '\n' :: (data.toList ++ ['\r', '\n']) := by
  simp [chunk]

/-- A chunk is read by its size, whatever it contains. -/
theorem parseBody_chunk (filled : data ≠ "") :
    parseBody (fuel + 1) ((chunk data).toList ++ rest) =
      (parseBody fuel rest).map fun body => (data.toList :: body.1, body.2) := by
  have positive : data.length ≠ 0 := by
    rw [← String.length_toList, ne_eq, List.length_eq_zero_iff]
    exact fun empty => filled (String.toList_eq_nil_iff.mp empty)
  have within : data.length ≤ (data.toList ++ '\r' :: '\n' :: rest).length := by
    rw [List.length_append, String.length_toList]
    exact Nat.le_add_right _ _
  have behind : (data.toList ++ '\r' :: '\n' :: rest).drop data.length = '\r' :: '\n' :: rest := by
    rw [← String.length_toList, List.drop_left]
  have before : (data.toList ++ '\r' :: '\n' :: rest).take data.length = data.toList := by
    rw [← String.length_toList, List.take_left]
  have split : (chunk data).toList ++ rest = Nat.toDigits 16 data.length ++ '\r' :: '\n' ::
      (data.toList ++ '\r' :: '\n' :: rest) := by
    simp [chunk_toList]
  rw [split, parseBody, cutLine_append (digits_single data.length), Option.bind_some,
    parseSize_toDigits, Option.bind_some, if_neg positive, if_pos within, behind, before]
  rfl

theorem parseBody_lastChunk : parseBody (fuel + 1) (lastChunk.toList ++ rest) = some ([], rest) := by
  have split : lastChunk.toList ++ rest = ['0'] ++ '\r' :: '\n' :: ('\r' :: '\n' :: rest) := rfl
  have zero : parseSize ['0'] = some 0 := parseSize_toDigits 0
  rw [split, parseBody, cutLine_append (by simp), Option.bind_some, zero, Option.bind_some,
    if_pos rfl]
  rfl

theorem frames_cons (data : String) (datas : List String) :
    (frames (data :: datas)).toList = (chunk data).toList ++ (frames datas).toList := by
  simp [frames]

theorem length_le_frames (datas : List String) : datas.length ≤ (frames datas).toList.length := by
  induction datas with
  | nil => exact Nat.zero_le _
  | cons data datas ih =>
      rw [frames_cons, List.length_append, chunk_toList, List.length_append, List.length_cons,
        List.length_cons]
      omega

theorem parseBody_frames {datas : List String} (filled : ∀ data ∈ datas, data ≠ "")
    (enough : datas.length < fuel) :
    parseBody fuel ((frames datas).toList ++ (lastChunk.toList ++ rest)) =
      some (datas.map String.toList, rest) := by
  induction datas generalizing fuel with
  | nil =>
      cases fuel with
      | zero => cases enough
      | succ fuel => exact parseBody_lastChunk
  | cons data datas ih =>
      cases fuel with
      | zero => cases enough
      | succ fuel =>
          have others := ih (fun other member => filled other (List.mem_cons_of_mem _ member))
            (Nat.lt_of_succ_lt_succ enough)
          rw [frames_cons, List.append_assoc, parseBody_chunk (filled data List.mem_cons_self),
            others]
          rfl

/-- Chunks and the last chunk are a body of these chunks. -/
theorem parse_frames {datas : List String} (filled : ∀ data ∈ datas, data ≠ "") :
    parse (frames datas ++ lastChunk) = some (datas.map String.toList) := by
  have enough : datas.length < (frames datas ++ lastChunk).length + 1 := by
    have chunks := length_le_frames datas
    rw [← String.length_toList, String.toList_append, List.length_append]
    omega
  have body : parseBody _ ((frames datas).toList ++ (lastChunk.toList ++ [])) = some (_, []) :=
    parseBody_frames filled enough
  rw [List.append_nil, ← String.toList_append] at body
  rw [parse, body]
  rfl

theorem parseBody_unfinished {datas : List String} (filled : ∀ data ∈ datas, data ≠ "") :
    parseBody fuel (frames datas).toList = none := by
  induction datas generalizing fuel with
  | nil => cases fuel <;> rfl
  | cons data datas ih =>
      cases fuel with
      | zero => rfl
      | succ fuel =>
          rw [frames_cons, parseBody_chunk (filled data List.mem_cons_self),
            ih fun other member => filled other (List.mem_cons_of_mem _ member)]
          rfl

/-- Chunks without the last chunk are no body. -/
theorem parse_unfinished {datas : List String} (filled : ∀ data ∈ datas, data ≠ "") :
    parse (frames datas) = none := by
  rw [parse, parseBody_unfinished filled]
  rfl

end Parsing

end Libprocess.Http.Chunked
