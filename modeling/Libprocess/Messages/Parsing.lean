import Libprocess.Messages.Wire

/-!
# Reading process identifiers

`operator>>` splits a text at the first `@` and at the first `:` behind it, and scans the port with
`sscanf`, which accepts a sign, a number of any size and anything behind the number.
-/

namespace Libprocess.Messages

section Splitting

variable {text : List Char} {character : Char}

theorem find_cases (text : List Char) (character : Char) :
    find text character 0 = none ∧ character ∉ text ∨
      ∃ left right, text = left ++ character :: right ∧ character ∉ left ∧
        find text character 0 = some left.length := by
  by_cases member : character ∈ text
  · right
    obtain ⟨left, right, whole, absent⟩ := List.eq_append_cons_of_mem member
    refine ⟨left, right, whole, absent, ?_⟩
    rw [whole]
    exact find_append absent
  · left
    refine ⟨?_, member⟩
    simp only [find, List.drop_zero, Option.map_eq_none_iff, List.findIdx?_eq_none_iff,
      beq_eq_false_iff_ne, ne_eq]
    rintro other inside rfl
    exact member inside

/-- The first occurrence of a character cuts a text in one way only. -/
theorem cut_unique {left right other rest : List Char} (first : character ∉ left)
    (second : character ∉ other)
    (same : left ++ character :: right = other ++ character :: rest) :
    left = other ∧ right = rest := by
  have cut := congrArg (find · character 0) same
  simp only [find_append first, find_append second, Option.some.injEq] at cut
  obtain ⟨start, tail⟩ := List.append_inj same cut
  exact ⟨start, (List.cons.inj tail).2⟩

end Splitting

namespace UPID

variable {stout : Stout}

/-- Without space, the text is cut at the first `@` and at the first `:` behind it. -/
inductive Cut (text : List Char) : Prop where
  | unmarked : '@' ∉ text → Cut text
  | unsplit {id rest : List Char} : text = id ++ '@' :: rest → '@' ∉ id → ':' ∉ rest → Cut text
  | parts {id host port : List Char} : text = id ++ '@' :: (host ++ ':' :: port) → '@' ∉ id →
      ':' ∉ host → Cut text

theorem cut (text : List Char) : Cut text := by
  cases find_cases text '@' with
  | inl unmarked => exact .unmarked unmarked.2
  | inr marked =>
      obtain ⟨id, rest, rfl, start, _⟩ := marked
      cases find_cases rest ':' with
      | inl unsplit => exact .unsplit rfl start unsplit.2
      | inr split =>
          obtain ⟨host, port, rfl, middle, _⟩ := split
          exact .parts rfl start middle

/-- The address of a host, by its literal or by its name. -/
def resolve (stout : Stout) (host : List Char) : Option stout.IP :=
  (stout.parse (String.ofList host)).or (stout.getIP (String.ofList host))

section Extract

variable {text : String} {id host port rest : List Char}
  (word : ∀ character ∈ text.toList, isSpace character = false)

include word

theorem extract_unmarked (unmarked : '@' ∉ text.toList) :
    (extract text : Bool × UPID stout) = (false, failed none) := by
  have absent : find text.toList '@' 0 = none := by
    cases find_cases text.toList '@' with
    | inl none => exact none.1
    | inr some =>
        obtain ⟨left, right, whole, _⟩ := some
        exact absurd (by simp [whole]) unmarked
  simp only [extract, dropWhile_word word]
  split
  · rfl
  · simp [absent]

theorem extract_unsplit (whole : text.toList = id ++ '@' :: rest) (start : '@' ∉ id)
    (unsplit : ':' ∉ rest) : (extract text : Bool × UPID stout) = (false, failed none) := by
  have absent : find rest ':' 0 = none := by
    cases find_cases rest ':' with
    | inl none => exact none.1
    | inr some =>
        obtain ⟨left, right, whole, _⟩ := some
        exact absurd (by simp [whole]) unsplit
  simp only [extract, dropWhile_word word]
  rw [whole, find_append start]
  simp [absent]

variable (stout) in
/-- What is read of a text with both separators. -/
theorem extract_parts (whole : text.toList = id ++ '@' :: (host ++ ':' :: port))
    (start : '@' ∉ id) (middle : ':' ∉ host) : ∃ named, (extract text : Bool × UPID stout) =
      match resolve stout host, scanPort port with
      | some ip, some number => (true, ⟨String.ofList id, named, ip, number⟩)
      | _, _ => (false, failed named) := by
  refine ⟨if (stout.parse (String.ofList host)).isSome then none else some (String.ofList host), ?_⟩
  simp only [extract, dropWhile_word word]
  rw [whole, find_append start]
  simp only [List.append_eq_nil_iff, reduceCtorEq, and_false, if_false, substr_left, substr_right,
    find_append middle]
  unfold resolve
  split
  · rename_i none
    simp [none]
  · rename_i ip found
    split
    · rename_i none
      simp [found, none]
    · rename_i number scanned
      simp [found, scanned]

end Extract

/-- The text has the form `id@host:port` for what is read of it. -/
structure Stands (text : String) (pid : UPID stout) (host port : List Char) : Prop where
  form : text.toList = pid.id.toList ++ '@' :: (host ++ ':' :: port)
  start : '@' ∉ pid.id.toList
  middle : ':' ∉ host
  numeral : Numeral port
  number : pid.port.toNat = Nat.ofDigitChars 10 port 0

/-- What is accepted has the form of an identifier, and nothing is left of what is not. -/
structure Sound (stout : Stout) (text : String) : Prop where
  accepted : ∀ pid : UPID stout, extract text = (true, pid) → ∃ host port, Stands text pid host port
  rejected : ∀ pid : UPID stout, extract text = (false, pid) →
    pid.id = "" ∧ pid.ip = stout.any ∧ pid.port = 0

/-- A number is scanned, but what stands for the port is not a numeral of a port: there is a sign in
front of it, something behind its digits, or it is too large. -/
inductive Misread : List Char → Prop where
  | signed {sign first : Char} {rest : List Char} : sign = '-' ∨ sign = '+' →
      first.isDigit = true → Misread (sign :: first :: rest)
  | trailed {first other : Char} {rest : List Char} : first.isDigit = true → other ∈ rest →
      other.isDigit = false → Misread (first :: rest)
  | large {port : List Char} : port ≠ [] → (∀ character ∈ port, character.isDigit = true) →
      65535 < Nat.ofDigitChars 10 port 0 → Misread port

/-- If the text has both separators and an address between them, the port is not misread. -/
def Proper (stout : Stout) (text : String) : Prop :=
  ∀ id host port, text.toList = id ++ '@' :: (host ++ ':' :: port) → '@' ∉ id → ':' ∉ host →
    (stout.parse (String.ofList host)).isSome ∨ (stout.getIP (String.ofList host)).isSome →
    ¬ Misread port

section Ports

variable {port : List Char}

/-- `sscanf` wants a digit behind the sign, if there is one. -/
theorem isSome_scanPort_iff (unspaced : ∀ character ∈ port, isSpace character = false) :
    (scanPort port).isSome ↔ ∃ first rest, first.isDigit = true ∧
      (port = first :: rest ∨ ∃ sign, (sign = '-' ∨ sign = '+') ∧ port = sign :: first :: rest) := by
  cases port with
  | nil => simp [scanPort]
  | cons head tail =>
      have start : (head :: tail).dropWhile isSpace = head :: tail := by
        simp [unspaced head List.mem_cons_self]
      by_cases signed : head = '-' ∨ head = '+'
      · constructor
        · intro scanned
          cases tail with
          | nil => simp [scanPort, start, signed] at scanned
          | cons first rest =>
              cases digit : first.isDigit with
              | false => simp [scanPort, start, signed, digit] at scanned
              | true => exact ⟨first, rest, digit, .inr ⟨head, signed, rfl⟩⟩
        · rintro ⟨first, rest, digit, same | ⟨sign, _, same⟩⟩
          · cases same
            rcases signed with rfl | rfl <;> cases digit
          · cases same
            simp [scanPort, start, signed, digit]
      · constructor
        · intro scanned
          cases digit : head.isDigit with
          | false => simp [scanPort, start, not_or.mp signed, digit] at scanned
          | true => exact ⟨head, tail, digit, .inl rfl⟩
        · rintro ⟨first, rest, digit, same | ⟨sign, isSign, same⟩⟩
          · cases same
            simp [scanPort, start, not_or.mp signed, digit]
          · cases same
            exact absurd isSign signed

theorem misread_iff (unspaced : ∀ character ∈ port, isSpace character = false) :
    Misread port ↔ (scanPort port).isSome ∧ ¬ Numeral port := by
  rw [isSome_scanPort_iff unspaced]
  constructor
  · rintro (⟨sign, digit⟩ | ⟨digit, inside, letter⟩ | ⟨filled, digits, big⟩)
    · refine ⟨⟨_, _, digit, .inr ⟨_, sign, rfl⟩⟩, fun numeral => ?_⟩
      have letter := numeral.digits _ List.mem_cons_self
      rcases sign with rfl | rfl <;> cases letter
    · refine ⟨⟨_, _, digit, .inl rfl⟩, fun numeral => ?_⟩
      have other := numeral.digits _ (List.mem_cons_of_mem _ inside)
      rw [letter] at other
      cases other
    · obtain ⟨first, rest, rfl⟩ := List.exists_cons_of_ne_nil filled
      exact ⟨⟨first, rest, digits first List.mem_cons_self, .inl rfl⟩,
        fun numeral => absurd numeral.small (Nat.not_le.mpr big)⟩
  · rintro ⟨⟨first, rest, digit, rfl | ⟨sign, signed, rfl⟩⟩, improper⟩
    · by_cases digits : ∀ character ∈ first :: rest, character.isDigit = true
      · exact .large (by simp) digits (Nat.not_le.mp fun small => improper ⟨by simp, digits, small⟩)
      · obtain ⟨other, inside, letter⟩ : ∃ other ∈ rest, other.isDigit = false := by
          simpa [digit] using digits
        exact .trailed digit inside letter
    · exact .signed signed digit

end Ports

section Soundness

variable {text : String} {pid : UPID stout}

theorem rejected_empty (word : ∀ character ∈ text.toList, isSpace character = false)
    (rejected : extract text = (false, pid)) :
    pid.id = "" ∧ pid.ip = stout.any ∧ pid.port = 0 := by
  cases cut text.toList with
  | unmarked unmarked =>
      rw [extract_unmarked word unmarked] at rejected
      cases rejected
      exact ⟨rfl, rfl, rfl⟩
  | unsplit whole start unsplit =>
      rw [extract_unsplit word whole start unsplit] at rejected
      cases rejected
      exact ⟨rfl, rfl, rfl⟩
  | parts whole start middle =>
      obtain ⟨named, read⟩ := extract_parts stout word whole start middle
      rw [read] at rejected
      split at rejected
      · cases rejected
      · cases rejected
        exact ⟨rfl, rfl, rfl⟩

/-- What is accepted has both separators, an address between them, and a port that is scanned. -/
theorem accepted_parts (word : ∀ character ∈ text.toList, isSpace character = false)
    (accepted : extract text = (true, pid)) : ∃ host port,
      text.toList = pid.id.toList ++ '@' :: (host ++ ':' :: port) ∧ '@' ∉ pid.id.toList ∧
        ':' ∉ host ∧ resolve stout host = some pid.ip ∧ scanPort port = some pid.port := by
  cases cut text.toList with
  | unmarked unmarked =>
      rw [extract_unmarked word unmarked] at accepted
      cases accepted
  | unsplit whole start unsplit =>
      rw [extract_unsplit word whole start unsplit] at accepted
      cases accepted
  | @parts id host port whole start middle =>
      obtain ⟨named, read⟩ := extract_parts stout word whole start middle
      rw [read] at accepted
      split at accepted
      · rename_i ip number resolved scanned
        cases accepted
        refine ⟨host, port, ?_, ?_, middle, resolved, scanned⟩
        · simpa using whole
        · simpa using start
      · cases accepted

/-- Reading a text without space is sound exactly if no sign, no tail and no large number stands for
the port of an address. -/
theorem extract_sound_iff (word : ∀ character ∈ text.toList, isSpace character = false) :
    Sound stout text ↔ Proper stout text := by
  constructor
  · intro sound id host port whole start middle resolves misread
    have unspaced : ∀ character ∈ port, isSpace character = false := by
      intro character member
      exact word character (by simp [whole, member])
    obtain ⟨scanned, improper⟩ := (misread_iff unspaced).mp misread
    obtain ⟨ip, resolved⟩ : ∃ ip, resolve stout host = some ip := by
      rw [← Option.isSome_iff_exists, resolve, Option.isSome_or]
      simpa using resolves
    obtain ⟨number, scanned⟩ := Option.isSome_iff_exists.mp scanned
    obtain ⟨named, read⟩ := extract_parts stout word whole start middle
    simp only [resolved, scanned] at read
    obtain ⟨other, text, stands⟩ := sound.accepted _ read
    have form := stands.form
    rw [whole, String.toList_ofList] at form
    have tail := (cut_unique start start form).2
    have same := (cut_unique middle stands.middle tail).2
    exact improper (same ▸ stands.numeral)
  · intro proper
    constructor
    · intro pid accepted
      obtain ⟨host, port, whole, start, middle, resolved, scanned⟩ := accepted_parts word accepted
      have unspaced : ∀ character ∈ port, isSpace character = false := by
        intro character member
        exact word character (by simp [whole, member])
      have resolves : (stout.parse (String.ofList host)).isSome ∨
          (stout.getIP (String.ofList host)).isSome := by
        have found : (resolve stout host).isSome := by simp [resolved]
        simpa [resolve, Option.isSome_or] using found
      have numeral : Numeral port := by
        by_contra improper
        exact proper _ _ _ whole start middle resolves
          ((misread_iff unspaced).mpr ⟨by simp [scanned], improper⟩)
      refine ⟨host, port, whole, start, middle, numeral, ?_⟩
      have number := numeral.scanPort.symm.trans scanned
      have small := numeral.small
      rw [← Option.some.inj number, UInt16.toNat_ofNat']
      omega
    · intro pid rejected
      exact rejected_empty word rejected

/-- An identifier is read back as it was printed exactly if its name has no `@`. -/
theorem extract_print_iff (documented : stout.Documented)
    (unspaced : ∀ character ∈ pid.id.toList, isSpace character = false) :
    (∃ host, extract pid.print = (true, (⟨pid.id, host, pid.ip, pid.port⟩ : UPID stout))) ↔
      '@' ∉ pid.id.toList := by
  have word := print_word documented unspaced
  constructor
  · rintro ⟨host, accepted⟩
    obtain ⟨_, _, _, start, _⟩ := accepted_parts word accepted
    exact start
  · intro start
    have middle : ':' ∉ (stout.print pid.ip).toList := by
      intro member
      obtain digit | dot := documented.dotted pid.ip _ member
      · cases digit
      · cases dot
    have resolved : resolve stout (stout.print pid.ip).toList = some pid.ip := by
      simp [resolve, documented.parse]
    obtain ⟨named, read⟩ := extract_parts stout word (print_toList pid) start middle
    simp only [resolved, scanPort_toDigits, String.ofList_toList] at read
    exact ⟨named, read⟩

end Soundness

/-! ## Texts and identifiers -/

theorem extract_sound_iff_numeral : Sound loopback "server(1)@127.0.0.1:05051" := by
  have proper : Proper loopback "server(1)@127.0.0.1:05051" := by
    intro id host port whole start middle _ misread
    have form : "server(1)@127.0.0.1:05051".toList =
        "server(1)".toList ++ '@' :: ("127.0.0.1".toList ++ ':' :: "05051".toList) := by decide
    have tail := (cut_unique start (by decide) (whole.symm.trans form)).2
    have same := (cut_unique middle (by decide) tail).2
    rw [same, misread_iff (Http.forall_mem_of_all (by decide))] at misread
    exact misread.2 ⟨by decide, Http.forall_mem_of_all (by decide), by decide +kernel⟩
  exact (extract_sound_iff (Http.forall_mem_of_all (by decide))).mpr proper

/-- A port of `-1` is accepted and read as 65535. -/
theorem not_sound_negative :
    (extract "server(1)@127.0.0.1:-1" : Bool × UPID loopback) =
        (true, ⟨"server(1)", none, true, 65535⟩) ∧
      ¬ Sound loopback "server(1)@127.0.0.1:-1" := by
  have accepted : (extract "server(1)@127.0.0.1:-1" : Bool × UPID loopback) =
      (true, ⟨"server(1)", none, true, 65535⟩) := by rfl
  refine ⟨accepted, ?_⟩
  intro sound
  obtain ⟨host, port, stands⟩ := sound.accepted _ accepted
  have form : "server(1)@127.0.0.1:-1".toList =
      "server(1)".toList ++ '@' :: ("127.0.0.1".toList ++ ':' :: "-1".toList) := by decide
  have tail := (cut_unique stands.start (by decide) (stands.form.symm.trans form)).2
  have same := (cut_unique stands.middle (by decide) tail).2
  have digit := stands.numeral.digits '-' (by simp [same])
  cases digit

theorem extract_print_iff_plain : ∃ host,
    extract (messageTo "server(1)").receiver.print =
      (true, (⟨"server(1)", host, true, 5051⟩ : UPID loopback)) :=
  (@extract_print_iff loopback (messageTo "server(1)").receiver loopback_documented
    (Http.forall_mem_of_all (by decide))).mpr (by decide)

/-- The identifier of a process `a@b` is not read back. -/
theorem not_extract_print_at : ¬ ∃ host,
    extract (messageTo "a@b").receiver.print =
      (true, (⟨"a@b", host, true, 5051⟩ : UPID loopback)) := by
  have failed : (extract (messageTo "a@b").receiver.print : Bool × UPID loopback).1 = false := by
    rfl
  rintro ⟨host, accepted⟩
  rw [accepted] at failed
  cases failed

end UPID

end Libprocess.Messages
