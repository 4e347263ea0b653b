import ClassAtlas.ClassFile.Error
import ClassAtlas.Text.Utf8
import Mathlib.Data.String.Basic

/-!
# Reading text byte by byte

A cursor stands at a byte of a text, looks at it, moves on, and cuts words out of the text between
two places where it stood. Nothing in its type keeps it from calling itself on and on, from going
past the end or from cutting a character in two; those runs have results of their own.

A byte of another character is never taken for an ASCII character (`tells_byte`), so that a cursor
that asks for ASCII characters only stays between characters where it asks (`Stands`).
-/

namespace ClassAtlas

/-- How a run stops without a value. -/
inductive Halt
  /-- The text is refused. -/
  | refused (error : ClassFileError)
  /-- A byte was asked for or passed that is not there, or the text was cut off a boundary. -/
  | crashed
  deriving Repr, DecidableEq

/-- A text, and the error that refuses it. Calls may be nested `turns` deep, which is more than
there are bytes; a run that needs more counts as one that never ends. -/
structure Source where
  text : String
  refusal : ClassFileError
  turns : Nat
  enough : text.utf8ByteSize < turns

namespace Source

def bytes (source : Source) : Bytes := source.text.toUTF8.data.toList

/-- Whether the text may be cut in front of this byte. -/
def isBoundary (source : Source) (p : Nat) : Bool := (⟨p⟩ : String.Pos.Raw).isValid source.text

/-- What was found, or the refusal if it is nothing. -/
def answer {α : Type} (source : Source) (found : Option α) : Except Halt α :=
  found.elim (.error (.refused source.refusal)) .ok

end Source

/-- A program at a byte of a text. A run without any result does not end. -/
abbrev Cursor := ReaderT Source (StateT Nat (ExceptT Halt Option))

namespace Cursor

variable {α β : Type}

/-! ## Programs -/

def position : Cursor Nat := fun _ p => some (.ok (p, p))

def atEnd : Cursor Bool := fun source p => some (.ok (decide (source.bytes.length ≤ p), p))

def refuse : Cursor α := fun source _ => some (.error (.refused source.refusal))

/-- The next byte, left where it is, as the character with its number. -/
def letter : Cursor Char := fun source p =>
  some ((source.bytes[p]?.elim (.error .crashed)) fun byte => .ok (Char.ofUInt8 byte, p))

def advance : Cursor Unit := fun source p =>
  some (if p < source.bytes.length then .ok ((), p + 1) else .error .crashed)

/-- The text from an earlier position to this one. -/
def cut (start : Nat) : Cursor (List Char) := fun source p =>
  let word := String.Pos.Raw.extract source.text ⟨start⟩ ⟨p⟩
  some (if start ≤ p ∧ source.isBoundary start ∧ source.isBoundary p then .ok (word.toList, p)
    else .error .crashed)

/-- The next byte, where there has to be one. -/
def peek : Cursor Char := do
  if ← atEnd then refuse else letter

def expect (c : Char) : Cursor Unit := do
  if (← peek) = c then advance else refuse

/-- A program with calls of itself, nested at most so deep. -/
def nested (body : Cursor α → Cursor α) : Nat → Cursor α
  | 0 => fun _ _ => none
  | depth + 1 => body (nested body depth)

/-- A program that calls itself. -/
def recursive (body : Cursor α → Cursor α) : Cursor α := fun source =>
  nested body source.turns source

def skipping (stops : List Char) (again : Cursor Unit) : Cursor Unit := do
  if ← atEnd then
    return ()
  else if (← letter) ∈ stops then
    return ()
  else
    advance
    again

/-- Up to the first of `stops`, or to the end. -/
def skipTo (stops : List Char) : Cursor Unit := recursive (skipping stops)

/-- The text before the first of `stops`. It is not empty, and one of `stops` follows it. -/
def word (stops : List Char) : Cursor (List Char) := do
  let start ← position
  skipTo stops
  if ← atEnd then
    refuse
  else if (← position) = start then
    refuse
  else
    cut start

/-- Items up to the character `close`, which is passed too. -/
def upTo (close : Char) (item : Cursor α) : Cursor (List α) := recursive fun again => do
  if (← peek) = close then
    expect close
    return []
  else
    let first ← item
    let others ← again
    return first :: others

def toEnd (item : Cursor α) : Cursor (List α) := recursive fun again => do
  if ← atEnd then
    return []
  else
    let first ← item
    let others ← again
    return first :: others

/-- A value that has to use up the text. -/
def whole (reading : Cursor α) : Cursor α := do
  let a ← reading
  if ← atEnd then return a else refuse

/-- What is read from the start of a text. -/
def run (reading : Cursor α) (source : Source) : Option (Except Halt α) :=
  Option.map (Except.map Prod.fst) (reading source 0)

/-! ## One step after the other -/

section Steps

variable {source : Source} {p q : Nat} {reading : Cursor α} {next : α → Cursor β}

theorem bind_of_ok {a : α} (h : reading source p = some (.ok (a, q))) :
    (reading >>= next) source p = next a source q := by
  show ((reading source p : Option _) >>= _ : Option _) = _
  rw [h]
  rfl

theorem bind_of_error {halt : Halt} (h : reading source p = some (.error halt)) :
    (reading >>= next) source p = some (.error halt) := by
  show ((reading source p : Option _) >>= _ : Option _) = _
  rw [h]
  rfl

end Steps

/-! ## Bytes and characters -/

theorem utf8EncodeChar_ascii {c : Char} (ascii : c.toNat < 128) :
    String.utf8EncodeChar c = [UInt8.ofNat c.toNat] := if_pos (Nat.le_of_lt_succ ascii)

theorem le_of_mem_utf8EncodeChar {c : Char} (other : 128 ≤ c.toNat) {byte : UInt8}
    (inside : byte ∈ String.utf8EncodeChar c) : 128 ≤ byte.toNat := by
  have wide : ¬ c.val.toNat ≤ 127 := Nat.not_le_of_lt other
  simp only [String.utf8EncodeChar, if_neg wide] at inside
  split at inside <;> try split at inside
  all_goals
    simp only [List.mem_cons, List.not_mem_nil, or_false] at inside
    rcases inside with rfl | rfl | rfl | rfl <;> rw [UInt8.toNat_ofNat'] <;> omega

theorem length_le_utf8Len (s : List Char) : s.length ≤ String.utf8Len s := by
  induction s with
  | nil => exact Nat.le_refl _
  | cons c rest ih =>
    have positive := c.utf8Size_pos
    rw [String.utf8Len_cons, List.length_cons]
    omega

theorem length_flatMap_utf8EncodeChar (s : List Char) :
    (s.flatMap String.utf8EncodeChar).length = String.utf8Len s := by
  induction s with
  | nil => rfl
  | cons c rest ih =>
    rw [List.flatMap_cons, List.length_append, String.length_utf8EncodeChar, ih,
      String.utf8Len_cons, Nat.add_comm]

/-- A letter stands for a character as far as anyone can tell who asks for single bytes only. -/
def Tells (letter c : Char) : Prop := ∀ d : Char, d.toNat < 128 → (letter = d ↔ c = d)

theorem tells_self (c : Char) : Tells c c := fun _ _ => Iff.rfl

/-- No byte of another character is taken for an ASCII character. -/
theorem tells_of_mem {c : Char} (other : 128 ≤ c.toNat) {byte : UInt8}
    (inside : byte ∈ String.utf8EncodeChar c) : Tells (Char.ofUInt8 byte) c := by
  have high := le_of_mem_utf8EncodeChar other inside
  intro d ascii
  constructor
  · rintro rfl
    exact absurd high (Nat.not_le_of_lt ascii)
  · rintro rfl
    exact absurd other (Nat.not_le_of_lt ascii)

theorem ofUInt8_ascii {c : Char} (ascii : c.toNat < 128) :
    Char.ofUInt8 (UInt8.ofNat c.toNat) = c := by
  have fits : c.toNat < UInt8.size := Nat.lt_trans ascii (by decide)
  have same : (UInt8.ofNat c.toNat).toNat = c.toNat := UInt8.toNat_ofNat_of_lt' fits
  apply Char.ext
  apply UInt32.toNat_inj.mp
  exact same

theorem tells_byte {c : Char} {byte : UInt8} (inside : byte ∈ String.utf8EncodeChar c) :
    Tells (Char.ofUInt8 byte) c := by
  by_cases ascii : c.toNat < 128
  · rw [utf8EncodeChar_ascii ascii, List.mem_singleton] at inside
    rw [inside, ofUInt8_ascii ascii]
    exact tells_self c
  · exact tells_of_mem (Nat.le_of_not_lt ascii) inside

/-- What is seen of a character at its first byte. -/
def letterOf (c : Char) : Char := Char.ofUInt8 ((String.utf8EncodeChar c).headD 0)

theorem exists_utf8EncodeChar (c : Char) :
    ∃ byte others, String.utf8EncodeChar c = byte :: others ∧ letterOf c = Char.ofUInt8 byte := by
  have nonempty : String.utf8EncodeChar c ≠ [] := by
    have size := String.length_utf8EncodeChar c
    have positive := c.utf8Size_pos
    intro empty
    rw [empty, List.length_nil] at size
    omega
  obtain ⟨byte, others, shape⟩ := List.exists_cons_of_ne_nil nonempty
  exact ⟨byte, others, shape, by rw [letterOf, shape, List.headD_cons]⟩

theorem tells_letterOf (c : Char) : Tells (letterOf c) c := by
  obtain ⟨byte, others, shape, same⟩ := exists_utf8EncodeChar c
  rw [same]
  exact tells_byte (shape ▸ List.mem_cons_self)

theorem Tells.mem_iff {letter c : Char} (h : Tells letter c) {stops : List Char}
    (ascii : ∀ stop ∈ stops, stop.toNat < 128) : letter ∈ stops ↔ c ∈ stops := by
  constructor
  · intro stop
    rwa [(h letter (ascii letter stop)).mp rfl]
  · intro stop
    rwa [(h c (ascii c stop)).mpr rfl]

/-- Bytes are passed as long as characters are. -/
theorem takeWhile_flatMap_utf8EncodeChar {stops : List Char}
    (ascii : ∀ stop ∈ stops, stop.toNat < 128) (s : List Char) :
    (s.flatMap String.utf8EncodeChar).takeWhile (Char.ofUInt8 · ∉ stops) =
      (s.takeWhile (· ∉ stops)).flatMap String.utf8EncodeChar := by
  induction s with
  | nil => rfl
  | cons c rest ih =>
    have each : ∀ byte ∈ String.utf8EncodeChar c, (Char.ofUInt8 byte ∈ stops ↔ c ∈ stops) :=
      fun byte inside => (tells_byte inside).mem_iff ascii
    rw [List.flatMap_cons]
    by_cases stop : c ∈ stops
    · rw [utf8EncodeChar_ascii (ascii c stop)] at each ⊢
      have ends := (each _ (List.mem_singleton_self _)).mpr stop
      rw [List.takeWhile_cons_of_neg (by simpa using stop), List.singleton_append,
        List.takeWhile_cons_of_neg (by simpa using ends), List.flatMap_nil]
    · have all : ∀ byte ∈ String.utf8EncodeChar c, decide (Char.ofUInt8 byte ∉ stops) = true :=
        fun byte inside => decide_eq_true (mt (each byte inside).mp stop)
      rw [List.takeWhile_append_of_pos all, ih,
        List.takeWhile_cons_of_pos (by simpa using stop), List.flatMap_cons]

end Cursor

/-! ## Places in a text -/

namespace Source

variable {source : Source} {s rest : List Char} {p q : Nat}

theorem bytes_eq (source : Source) :
    source.bytes = source.text.toList.flatMap String.utf8EncodeChar := by
  show source.text.toByteArray.data.toList = _
  rw [← String.utf8Encode_toList, List.utf8Encode, List.data_toByteArray, List.toList_toArray]

theorem length_bytes (source : Source) :
    source.bytes.length = String.utf8Len source.text.toList := by
  rw [bytes_eq, Cursor.length_flatMap_utf8EncodeChar]

theorem length_bytes_lt (source : Source) : source.bytes.length < source.turns := by
  rw [source.length_bytes, String.utf8Len_toList]
  exact source.enough

/-- The position is that of a character, or of the end, and this text is ahead. -/
def Stands (source : Source) (s : List Char) (p : Nat) : Prop :=
  ∃ front, source.text.toList = front ++ s ∧ p = String.utf8Len front

theorem stands_start (source : Source) : source.Stands source.text.toList 0 := ⟨[], rfl, rfl⟩

theorem Stands.behind {word : List Char} (h : source.Stands (word ++ rest) p) :
    source.Stands rest (p + String.utf8Len word) := by
  obtain ⟨front, whole, rfl⟩ := h
  exact ⟨front ++ word, by rw [whole, List.append_assoc], (String.utf8Len_append _ _).symm⟩

theorem Stands.length_bytes (h : source.Stands s p) :
    source.bytes.length = p + String.utf8Len s := by
  obtain ⟨front, whole, rfl⟩ := h
  rw [source.length_bytes, whole, String.utf8Len_append]

theorem Stands.drop_bytes (h : source.Stands s p) :
    source.bytes.drop p = s.flatMap String.utf8EncodeChar := by
  obtain ⟨front, whole, rfl⟩ := h
  rw [bytes_eq, whole, List.flatMap_append, ← Cursor.length_flatMap_utf8EncodeChar, List.drop_left]

theorem stands_iff_isBoundary : (∃ s, source.Stands s p) ↔ source.isBoundary p = true := by
  rw [isBoundary, String.Pos.Raw.isValid_eq_true_iff, String.Pos.Raw.isValid_iff_exists_append]
  constructor
  · rintro ⟨s, front, whole, rfl⟩
    refine ⟨String.ofList front, String.ofList s, ?_, (String.rawEndPos_ofList front).symm⟩
    rw [← String.ofList_append, ← whole, String.ofList_toList]
  · rintro ⟨front, s, whole, same⟩
    refine ⟨s.toList, front.toList, ?_, ?_⟩
    · rw [whole, String.toList_append]
    · rw [String.utf8Len_toList]
      exact congrArg String.Pos.Raw.byteIdx same

/-- No more calls are needed than there are characters ahead. -/
theorem Stands.length_lt (h : source.Stands s p) : s.length < source.turns := by
  have size := h.length_bytes
  have few := Cursor.length_le_utf8Len s
  have enough := source.length_bytes_lt
  omega

/-- Less text ahead is further on. -/
theorem Stands.lt (h : source.Stands s p) (later : source.Stands rest q)
    (shorter : rest.length < s.length) : p < q := by
  obtain ⟨front, whole, rfl⟩ := h
  obtain ⟨front', whole', rfl⟩ := later
  have lengths := congrArg List.length (whole.symm.trans whole')
  rw [List.length_append, List.length_append] at lengths
  have before : front <+: front' :=
    List.prefix_of_prefix_length_le ⟨s, whole.symm⟩ ⟨rest, whole'.symm⟩ (by omega)
  obtain ⟨passed, rfl⟩ := before
  have nonempty : passed ≠ [] := by
    rintro rfl
    rw [List.append_nil] at lengths
    omega
  have moved := Nat.pos_of_ne_zero (mt String.utf8Len_eq_zero.mp nonempty)
  rw [String.utf8Len_append]
  omega

end Source

end ClassAtlas
