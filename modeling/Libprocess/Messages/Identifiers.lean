import Mathlib.Data.List.TakeWhile
import Mathlib.Algebra.Group.Nat.Defs

/-!
# Process identifiers as text

A `UPID` is written as `id@ip:port` and read back from the first word of a text.  Texts are byte
strings; a byte is a character below 256.  IP addresses are printed and parsed by another library.
-/

namespace Libprocess.Messages

/-- `std::isspace` -/
def isSpace : Char → Bool
  | ' ' | '\t' | '\n' | '\x0b' | '\x0c' | '\r' => true
  | _ => false

/-- `std::string::find` of one character, from a position on. -/
def find (text : List Char) (character : Char) (start : Nat) : Option Nat :=
  ((text.drop start).findIdx? (· == character)).map (· + start)

/-- `std::string::substr`; nothing stands for `npos`. -/
def substr (text : List Char) (start : Nat) : Option Nat → List Char
  | none => text.drop start
  | some count => (text.drop start).take count

section Strings

variable {left right : List Char} {character : Char}

theorem find_append (absent : character ∉ left) :
    find (left ++ character :: right) character 0 = some left.length := by
  have none : left.findIdx? (· == character) = none := by
    rw [List.findIdx?_eq_none_iff]
    intro other member
    simp only [beq_eq_false_iff_ne, ne_eq]
    rintro rfl
    exact absent member
  simp [find, List.findIdx?_append, none, List.findIdx?_cons]

@[simp] theorem substr_left : substr (left ++ right) 0 (some left.length) = left := by
  simp [substr]

@[simp] theorem substr_right :
    substr (left ++ character :: right) (left.length + 1) none = right := by
  simp [substr, List.drop_append]

end Strings

/-- `sscanf` with `%hu`.  A number that does not fit is the largest `unsigned long`, and a negative
one wraps around. -/
def scanPort (text : List Char) : Option UInt16 :=
  let text := text.dropWhile isSpace
  let negative := text.head? = some '-'
  let digits := (if negative ∨ text.head? = some '+' then text.tail else text).takeWhile Char.isDigit
  if digits = [] then none
  else
    let value := Nat.ofDigitChars 10 digits 0
    some (.ofNat (if 2 ^ 64 ≤ value then 2 ^ 64 - 1
      else if negative then 2 ^ 64 - value
      else value))

theorem isSpace_of_isDigit {character : Char} (digit : character.isDigit = true) :
    isSpace character = false := by
  unfold isSpace
  split <;> first | rfl | cases digit

/-- A decimal numeral of a port. -/
structure Numeral (text : List Char) : Prop where
  filled : text ≠ []
  digits : ∀ character ∈ text, character.isDigit = true
  small : Nat.ofDigitChars 10 text 0 ≤ 65535

theorem Numeral.scanPort {text : List Char} (numeral : Numeral text) :
    scanPort text = some (.ofNat (Nat.ofDigitChars 10 text 0)) := by
  obtain ⟨filled, digits, small⟩ := numeral
  cases text with
  | nil => exact absurd rfl filled
  | cons first rest =>
      have numeral : first.isDigit = true := digits first List.mem_cons_self
      have space : isSpace first = false := isSpace_of_isDigit numeral
      have minus : first ≠ '-' := by
        rintro rfl
        cases numeral
      have plus : first ≠ '+' := by
        rintro rfl
        cases numeral
      have all : (first :: rest).takeWhile Char.isDigit = first :: rest :=
        List.takeWhile_eq_self_iff.mpr digits
      have fits : ¬ 2 ^ 64 ≤ Nat.ofDigitChars 10 (first :: rest) 0 := by omega
      have head : (first :: rest).dropWhile isSpace = first :: rest := by simp [space]
      simp only [Messages.scanPort, head, List.head?_cons, Option.some.injEq, minus, plus, or_self,
        if_false, all, reduceCtorEq, if_neg fits]

theorem numeral_toDigits (port : UInt16) : Numeral (Nat.toDigits 10 port.toNat) where
  filled := Nat.toDigits_ne_nil
  digits := fun _ => Nat.isDigit_of_mem_toDigits (by decide) (by decide)
  small := by
    have bound := port.toNat_lt
    rw [Nat.ofDigitChars_ten_toDigits]
    omega

theorem scanPort_toDigits (port : UInt16) :
    scanPort (Nat.toDigits 10 port.toNat) = some port := by
  rw [(numeral_toDigits port).scanPort, Nat.ofDigitChars_ten_toDigits, UInt16.ofNat_toNat]

/-- The functions of `net::IP` and of `strings` that are used. -/
structure Stout where
  IP : Type
  /-- `INADDR_ANY` -/
  any : IP
  /-- `operator<<` -/
  print : IP → String
  /-- `net::IP::parse`, for IPv4 addresses. -/
  parse : String → Option IP
  /-- `net::getIP` -/
  getIP : String → Option IP
  /-- `strings::trim` -/
  trim : String → String

/-- What is known of these functions. -/
structure Stout.Documented (stout : Stout) : Prop where
  /-- An IPv4 address is printed in dotted decimal notation, -/
  dotted : ∀ ip, ∀ character ∈ (stout.print ip).toList, character.isDigit = true ∨ character = '.'
  /-- which is parsed as the address. -/
  parse : ∀ ip, stout.parse (stout.print ip) = some ip
  /-- Only space at the ends is trimmed. -/
  trim : ∀ text, (∀ character ∈ text.toList, isSpace character = false) → stout.trim text = text

/-- `UPID` -/
structure UPID (stout : Stout) where
  id : String
  host : Option String
  ip : stout.IP
  port : UInt16

namespace UPID

variable {stout : Stout}

/-- `UPID::operator==` -/
def Same (left right : UPID stout) : Prop :=
  left.id = right.id ∧ left.ip = right.ip ∧ left.port = right.port

/-- `operator<<` -/
def print (pid : UPID stout) : String :=
  pid.id ++ "@" ++ (stout.print pid.ip ++ ":" ++ toString pid.port.toNat)

/-- What `operator>>` leaves when it fails. -/
def failed (host : Option String) : UPID stout := ⟨"", host, stout.any, 0⟩

/-- `operator>>`: whether the stream is good afterwards, and the identifier. -/
def extract (text : String) : Bool × UPID stout :=
  let str := (text.toList.dropWhile isSpace).takeWhile fun character => !isSpace character
  if str = [] then (false, failed none)
  else
    match find str '@' 0 with
    | none => (false, failed none)
    | some index =>
        let id := substr str 0 (some index)
        let str := substr str (index + 1) none
        match find str ':' 0 with
        | none => (false, failed none)
        | some index =>
            let host := String.ofList (substr str 0 (some index))
            let named := if (stout.parse host).isSome then none else some host
            match (stout.parse host).or (stout.getIP host) with
            | none => (false, failed named)
            | some ip =>
                match scanPort (substr str (index + 1) none) with
                | none => (false, failed named)
                | some port => (true, ⟨String.ofList id, named, ip, port⟩)

/-- `UPID::UPID`, which leaves out the state of the stream. -/
def read (text : String) : UPID stout := (extract text).2

/-- The identifiers that can be read back. -/
structure Readable (pid : UPID stout) : Prop where
  id : pid.id ≠ ""
  characters : ∀ character ∈ pid.id.toList, isSpace character = false ∧ character ≠ '@'

variable {pid : UPID stout}

theorem Readable.unspaced (readable : pid.Readable) :
    ∀ character ∈ pid.id.toList, isSpace character = false :=
  fun character member => (readable.characters character member).1

theorem print_toList (pid : UPID stout) :
    pid.print.toList = pid.id.toList ++ '@' ::
      ((stout.print pid.ip).toList ++ ':' :: Nat.toDigits 10 pid.port.toNat) := by
  simp [print, Nat.toString_eq_repr]

/-- A printed identifier is one word. -/
theorem print_word (documented : stout.Documented)
    (unspaced : ∀ character ∈ pid.id.toList, isSpace character = false) :
    ∀ character ∈ pid.print.toList, isSpace character = false := by
  intro character member
  rw [print_toList] at member
  simp only [List.mem_append, List.mem_cons] at member
  obtain inside | rfl | inside | rfl | inside := member
  · exact unspaced character inside
  · rfl
  · cases documented.dotted pid.ip character inside with
    | inl digit => exact isSpace_of_isDigit digit
    | inr dot =>
        rw [dot]
        rfl
  · rfl
  · exact isSpace_of_isDigit (Nat.isDigit_of_mem_toDigits (by decide) (by decide) inside)

theorem dropWhile_word {text : List Char}
    (word : ∀ character ∈ text, isSpace character = false) :
    (text.dropWhile isSpace).takeWhile (fun character => !isSpace character) = text := by
  have start : text.dropWhile isSpace = text := by
    cases text with
    | nil => rfl
    | cons first rest => simp [word first List.mem_cons_self]
  rw [start, List.takeWhile_eq_self_iff]
  intro character member
  simp [word character member]

/-- An identifier is read back as it was printed. -/
theorem read_print (documented : stout.Documented) (readable : pid.Readable) :
    (read pid.print : UPID stout) = ⟨pid.id, none, pid.ip, pid.port⟩ := by
  have word := dropWhile_word (print_word documented readable.unspaced)
  have unmarked : '@' ∉ pid.id.toList := fun member => (readable.characters _ member).2 rfl
  have unsplit : ':' ∉ (stout.print pid.ip).toList := by
    intro member
    obtain digit | dot := documented.dotted pid.ip _ member
    · cases digit
    · cases dot
  simp only [read, extract, word]
  rw [print_toList, find_append unmarked]
  simp [find_append unsplit, documented.parse, scanPort_toDigits]

end UPID

end Libprocess.Messages
