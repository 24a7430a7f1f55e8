import Libprocess.Http.Encoding

/-!
# Percent encoding

`http::encode` escapes the characters that are reserved, unsafe or not printable, and those that its
caller names.  `http::decode` reads the text back.
-/

namespace Libprocess.Http

/-- Every character of a byte string is below 256. -/
def Bytes (text : List Char) : Prop := ∀ character ∈ text, character.toNat < 256

instance (text : List Char) : Decidable (Bytes text) :=
  List.decidableBAll (fun character : Char => character.toNat < 256) text

/-- The reserved and the unsafe characters that `encode` lists. -/
def special : List Char := "$&+,/:;=?@ \"<>#%\x7b\x7d|\\^~[]`".toList

/-- A number as `std::hex` and `std::uppercase` write it. -/
def upperHex (number : Nat) : List Char := (Nat.toDigits 16 number).map Char.toUpper

/-- `'%' << std::setfill('0') << std::setw(2) << std::hex << std::uppercase` -/
def escape (character : Char) : List Char :=
  '%' :: (upperHex character.toNat).leftpad 2 '0'

/-- One round of the loop in `encode`. -/
def encodeCharacter (additional : List Char) (character : Char) : List Char :=
  if character ∈ special then escape character
  else if character.toNat < 0x20 ∨ 0x7F < character.toNat ∨ character ∈ additional then
    escape character
  else [character]

/-- The loop of `http::encode` -/
def encodeCharacters (additional : List Char) (text : List Char) : List Char :=
  text.flatMap (encodeCharacter additional)

/-- `http::encode` -/
def encode (text : String) (additional_chars : String := "") : String :=
  String.ofList (encodeCharacters additional_chars.toList text.toList)

/-- A character that `encode` writes as it is. -/
structure Plain (additional : List Char) (character : Char) : Prop where
  printable : 0x20 ≤ character.toNat ∧ character.toNat ≤ 0x7F
  unreserved : character ∉ special
  unlisted : character ∉ additional

/-- A text of plain characters and escapes. -/
inductive Escaped (additional : List Char) : List Char → Prop where
  | nil : Escaped additional []
  | plain {character : Char} {rest : List Char} : Plain additional character →
      Escaped additional rest → Escaped additional (character :: rest)
  | escape {high low : Char} {rest : List Char} : (hexDigit high).isSome → (hexDigit low).isSome →
      Escaped additional rest → Escaped additional ('%' :: high :: low :: rest)

section Escapes

/-- The escape of a byte has the two digits of the byte. -/
theorem escape_eq : ∀ number < 256, ∃ high low,
    escape (Char.ofNat number) = ['%', high, low] ∧
      hexDigit high = some (number / 16) ∧ hexDigit low = some (number % 16) := by
  have each : ∀ number : Fin 256,
      (escape (Char.ofNat number)).length = 3 ∧
        (escape (Char.ofNat number)).head? = some '%' ∧
        (escape (Char.ofNat number))[1]?.bind hexDigit = some (number / 16 : Nat) ∧
        (escape (Char.ofNat number))[2]?.bind hexDigit = some (number % 16 : Nat) := by
    decide +kernel
  intro number small
  have written := each ⟨number, small⟩
  revert written
  simp only
  match escape (Char.ofNat number) with
  | [percent, high, low] =>
      intro written
      refine ⟨high, low, ?_, ?_, ?_⟩
      · simpa using written.2.1
      · simpa using written.2.2.1
      · simpa using written.2.2.2
  | [] | [_] | [_, _] | _ :: _ :: _ :: _ :: _ => simp

theorem escape_of_byte {character : Char} (byte : character.toNat < 256) : ∃ high low,
    escape character = ['%', high, low] ∧ hexDigit high = some (character.toNat / 16) ∧
      hexDigit low = some (character.toNat % 16) := by
  have written := escape_eq character.toNat byte
  rwa [Char.ofNat_toNat] at written

variable {additional : List Char} {character : Char}

theorem encodeCharacter_cases (additional : List Char) (character : Char) :
    encodeCharacter additional character = escape character ∨
      encodeCharacter additional character = [character] ∧ Plain additional character := by
  unfold encodeCharacter
  split
  · left
    rfl
  · rename_i unreserved
    split
    · left
      rfl
    · rename_i proper
      simp only [not_or, Nat.not_lt] at proper
      right
      exact ⟨rfl, ⟨proper.1, proper.2.1⟩, unreserved, proper.2.2⟩

theorem Plain.ne_percent (plain : Plain additional character) : character ≠ '%' := by
  rintro rfl
  exact plain.unreserved (by decide)

theorem Plain.ne_plus (plain : Plain additional character) : character ≠ '+' := by
  rintro rfl
  exact plain.unreserved (by decide)

end Escapes

section RoundTrip

variable {additional : List Char} {character : Char} {text rest : List Char}

theorem decodeCharacters_plain (percent : character ≠ '%') (plus : character ≠ '+') :
    decodeCharacters (character :: rest) = (decodeCharacters rest).map (character :: ·) := by
  rw [decodeCharacters]
  · rw [if_neg plus]
  · rintro high low others rfl
    exact absurd rfl percent
  · rintro rfl
    exact absurd rfl percent

/-- What is written for one character is read as that character. -/
theorem decodeCharacters_encodeCharacter (byte : character.toNat < 256) :
    decodeCharacters (encodeCharacter additional character ++ rest) =
      (decodeCharacters rest).map (character :: ·) := by
  cases encodeCharacter_cases additional character with
  | inl escaped =>
      obtain ⟨high, low, written, upper, lower⟩ := escape_of_byte byte
      have value : 16 * (character.toNat / 16) + character.toNat % 16 = character.toNat :=
        Nat.div_add_mod _ _
      rw [escaped, written]
      simp [decodeCharacters, upper, lower, value, Char.ofNat_toNat]
  | inr kept =>
      rw [kept.1]
      exact decodeCharacters_plain kept.2.ne_percent kept.2.ne_plus

theorem decodeCharacters_encodeCharacters (bytes : Bytes text) :
    decodeCharacters (encodeCharacters additional text) = .ok text := by
  induction text with
  | nil => rfl
  | cons first others ih =>
      have byte : first.toNat < 256 := bytes first List.mem_cons_self
      have tail := ih fun character member => bytes character (List.mem_cons_of_mem _ member)
      simp only [encodeCharacters, List.flatMap_cons] at tail ⊢
      rw [decodeCharacters_encodeCharacter byte, tail]
      rfl

theorem decode_encode {text : String} (bytes : Bytes text.toList) (additional_chars : String) :
    decode (encode text additional_chars) = .ok text := by
  simp [decode, encode, decodeCharacters_encodeCharacters bytes]

theorem Escaped.encodeCharacter (byte : character.toNat < 256)
    (escaped : Escaped additional rest) :
    Escaped additional (encodeCharacter additional character ++ rest) := by
  cases encodeCharacter_cases additional character with
  | inl whole =>
      obtain ⟨high, low, written, upper, lower⟩ := escape_of_byte byte
      rw [whole, written]
      apply Escaped.escape
      · simp [upper]
      · simp [lower]
      · exact escaped
  | inr kept =>
      rw [kept.1]
      exact Escaped.plain kept.2 escaped

theorem escaped_encodeCharacters (bytes : Bytes text) :
    Escaped additional (encodeCharacters additional text) := by
  induction text with
  | nil => exact Escaped.nil
  | cons first others ih =>
      have tail := ih fun character member => bytes character (List.mem_cons_of_mem _ member)
      simp only [encodeCharacters, List.flatMap_cons]
      exact Escaped.encodeCharacter (bytes first List.mem_cons_self) tail

theorem printable_of_hexDigit (digit : (hexDigit character).isSome) :
    0x20 ≤ character.toNat ∧ character.toNat ≤ 0x7F := by
  unfold hexDigit at digit
  split at digit
  · rename_i range
    exact ⟨Nat.le_trans (by decide) range.1, Nat.le_trans range.2 (by decide)⟩
  split at digit
  · rename_i range
    exact ⟨Nat.le_trans (by decide) range.1, Nat.le_trans range.2 (by decide)⟩
  split at digit
  · rename_i range
    exact ⟨Nat.le_trans (by decide) range.1, Nat.le_trans range.2 (by decide)⟩
  · cases digit

theorem Escaped.printable (escaped : Escaped additional text) :
    ∀ character ∈ text, 0x20 ≤ character.toNat ∧ character.toNat ≤ 0x7F := by
  induction escaped with
  | nil => simp
  | plain kept _ ih =>
      intro other member
      cases List.mem_cons.mp member with
      | inl first =>
          rw [first]
          exact kept.printable
      | inr later => exact ih other later
  | escape upper lower _ ih =>
      intro other member
      simp only [List.mem_cons] at member
      obtain rfl | rfl | rfl | later := member
      · decide
      · exact printable_of_hexDigit upper
      · exact printable_of_hexDigit lower
      · exact ih other later

theorem hexDigit_special : ∀ character ∈ special, hexDigit character = none :=
  forall_mem_of_all (by decide)

/-- A special character is not in an encoded text, apart from the percent sign. -/
theorem Escaped.not_mem (escaped : Escaped additional text)
    (listed : character ∈ special) (percent : character ≠ '%') : character ∉ text := by
  induction escaped with
  | nil => simp
  | plain kept _ ih =>
      simp only [List.mem_cons, not_or]
      constructor
      · rintro rfl
        exact kept.unreserved listed
      · exact ih
  | escape upper lower _ ih =>
      have none := hexDigit_special character listed
      simp only [List.mem_cons, not_or]
      refine ⟨percent, ?_, ?_, ih⟩
      · rintro rfl
        simp [none] at upper
      · rintro rfl
        simp [none] at lower

theorem escaped_encode {text : String} (bytes : Bytes text.toList) (additional_chars : String) :
    Escaped additional_chars.toList (encode text additional_chars).toList := by
  rw [encode, String.toList_ofList]
  exact escaped_encodeCharacters bytes

/-- A byte string is read back as it was encoded.  The encoded text is printable, and what is
special or named by the caller stands in it only within an escape. -/
theorem percent_roundTrip (text additional_chars : String) (bytes : Bytes text.toList) :
    decode (encode text additional_chars) = .ok text ∧
      (∀ character ∈ (encode text additional_chars).toList,
        0x20 ≤ character.toNat ∧ character.toNat ≤ 0x7F) ∧
      Escaped additional_chars.toList (encode text additional_chars).toList := by
  have escaped := escaped_encode bytes additional_chars
  exact ⟨decode_encode bytes additional_chars, escaped.printable, escaped⟩

/-- The byte 255 and a percent sign at the end of a text. -/
theorem percent_roundTrip_bytes :
    decode (encode "a+\u00ff%" "a") = .ok "a+\u00ff%" :=
  (percent_roundTrip "a+\u00ff%" "a" (by decide)).1

example : encode "a+ \u00ff%" "a" = "%61%2B%20%FF%25" := by decide +kernel

end RoundTrip

end Libprocess.Http
