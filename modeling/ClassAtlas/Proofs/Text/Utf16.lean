import ClassAtlas.Text.Utf16
import Mathlib.Tactic.Basic

/-!
# Code units read as text

`Reads units text` says what a row of code units stands for. The units of a character stand for it,
and a surrogate without its partner stands for U+FFFD.

* `Reads.eq`: `decodeLossy` gives the text that the units stand for, so there is only one;
* `reads_decodeLossy`: every row of 16-bit units stands for some text.
-/

namespace ClassAtlas.Utf16

def IsSurrogate (unit : Nat) : Prop := IsHighSurrogate unit ∨ IsLowSurrogate unit

/-- The units stand for the text. A low surrogate that is met has no partner: the high one before it
would have taken it along. -/
inductive Reads : List Nat → List Char → Prop
  | nil : Reads [] []
  | char {units : List Nat} {text : List Char} (c : Char) (rest : Reads units text) :
    Reads (encodeChar c ++ units) (c :: text)
  | lone {unit : Nat} {units : List Nat} {text : List Char} (surrogate : IsSurrogate unit)
    (alone : IsHighSurrogate unit → ∀ next ∈ units.head?, ¬ IsLowSurrogate next)
    (rest : Reads units text) : Reads (unit :: units) (replacement :: text)

/-- No character has the number of a surrogate. -/
theorem not_isSurrogate_toNat (c : Char) : ¬ IsSurrogate c.toNat := by
  have valid : c.toNat < 0xD800 ∨ 0xDFFF < c.toNat ∧ c.toNat < 0x110000 := c.valid
  unfold IsSurrogate IsHighSurrogate IsLowSurrogate
  omega

theorem toNat_lt (c : Char) : c.toNat < 0x110000 := by
  have valid : c.toNat < 0xD800 ∨ 0xDFFF < c.toNat ∧ c.toNat < 0x110000 := c.valid
  omega

theorem toNat_ofNat {n : Nat} (small : n < 0x110000) (plain : ¬ IsSurrogate n) :
    (Char.ofNat n).toNat = n := by
  unfold IsSurrogate IsHighSurrogate IsLowSurrogate at plain
  have valid : n.isValidChar := by
    show n < 0xD800 ∨ 0xDFFF < n ∧ n < 0x110000
    omega
  rw [Char.ofNat, dif_pos valid]
  rfl

/-! ## Each kind of unit -/

theorem decodeLossy_plain {unit : Nat} (plain : ¬ IsSurrogate unit) (units : List Nat) :
    decodeLossy (unit :: units) = Char.ofNat unit :: decodeLossy units := by
  cases units with
  | nil => exact congrArg (fun c => [c]) (if_neg plain)
  | cons next units =>
    rw [decodeLossy, if_neg fun pair => plain (.inl pair.1)]
    exact if_neg plain

theorem decodeLossy_pair {high low : Nat} (first : IsHighSurrogate high)
    (second : IsLowSurrogate low) (units : List Nat) :
    decodeLossy (high :: low :: units) =
      Char.ofNat (0x10000 + (high - 0xD800) * 0x400 + (low - 0xDC00)) :: decodeLossy units := by
  rw [decodeLossy, if_pos ⟨first, second⟩]

theorem decodeLossy_lone {unit : Nat} {units : List Nat} (surrogate : IsSurrogate unit)
    (alone : IsHighSurrogate unit → ∀ next ∈ units.head?, ¬ IsLowSurrogate next) :
    decodeLossy (unit :: units) = replacement :: decodeLossy units := by
  cases units with
  | nil => exact congrArg (fun c => [c]) (if_pos surrogate)
  | cons next units =>
    rw [decodeLossy, if_neg fun pair => alone pair.1 next rfl pair.2]
    exact if_pos surrogate

/-- The units of a character are read as that character. -/
theorem decodeLossy_encodeChar (c : Char) (units : List Nat) :
    decodeLossy (encodeChar c ++ units) = c :: decodeLossy units := by
  unfold encodeChar
  split
  next small =>
    rw [List.singleton_append, decodeLossy_plain (not_isSurrogate_toNat c), Char.ofNat_toNat]
  next large =>
    have bound := toNat_lt c
    have high : IsHighSurrogate (0xD800 + (c.toNat - 0x10000) / 0x400) := by
      unfold IsHighSurrogate
      omega
    have low : IsLowSurrogate (0xDC00 + (c.toNat - 0x10000) % 0x400) := by
      unfold IsLowSurrogate
      omega
    have whole : 0x10000 + (0xD800 + (c.toNat - 0x10000) / 0x400 - 0xD800) * 0x400 +
        (0xDC00 + (c.toNat - 0x10000) % 0x400 - 0xDC00) = c.toNat := by omega
    show decodeLossy (_ :: _ :: units) = _
    rw [decodeLossy_pair high low, whole, Char.ofNat_toNat]

/-! ## Whole texts -/

/-- What the units stand for is what they are read as. -/
theorem Reads.eq {units : List Nat} {text : List Char} (h : Reads units text) :
    decodeLossy units = text := by
  induction h with
  | nil => rfl
  | char c _ ih => rw [decodeLossy_encodeChar, ih]
  | lone surrogate alone _ ih => rw [decodeLossy_lone surrogate alone, ih]

theorem encodeChar_plain {unit : Nat} (small : unit < 0x10000) (plain : ¬ IsSurrogate unit) :
    encodeChar (Char.ofNat unit) = [unit] := by
  rw [encodeChar, toNat_ofNat (by omega) plain, if_pos small]

theorem encodeChar_pair {high low : Nat} (first : IsHighSurrogate high)
    (second : IsLowSurrogate low) :
    encodeChar (Char.ofNat (0x10000 + (high - 0xD800) * 0x400 + (low - 0xDC00))) = [high, low] := by
  unfold IsHighSurrogate at first
  unfold IsLowSurrogate at second
  have number : (Char.ofNat (0x10000 + (high - 0xD800) * 0x400 + (low - 0xDC00))).toNat =
      0x10000 + (high - 0xD800) * 0x400 + (low - 0xDC00) := by
    apply toNat_ofNat
    · omega
    · unfold IsSurrogate IsHighSurrogate IsLowSurrogate
      omega
  have front : 0xD800 + (0x10000 + (high - 0xD800) * 0x400 + (low - 0xDC00) - 0x10000) / 0x400 =
      high := by omega
  have back : 0xDC00 + (0x10000 + (high - 0xD800) * 0x400 + (low - 0xDC00) - 0x10000) % 0x400 =
      low := by omega
  rw [encodeChar, number, if_neg (by omega), front, back]

/-- Every row of units stands for some text. The cases are those of the reading, pairs first. -/
theorem reads_decodeLossy {units : List Nat} (small : ∀ unit ∈ units, unit < 0x10000) :
    Reads units (decodeLossy units) := by
  fun_induction decodeLossy units with
  | case1 => exact .nil
  | case2 high low rest pair ih =>
    have others := ih fun unit h => small unit (by simp [h])
    have read := Reads.char (Char.ofNat (0x10000 + (high - 0xD800) * 0x400 + (low - 0xDC00))) others
    rwa [encodeChar_pair pair.1 pair.2] at read
  | case3 unit next rest unpaired surrogate ih =>
    refine .lone surrogate ?_ (ih fun unit h => small unit (List.mem_cons_of_mem _ h))
    intro high other same
    cases same
    exact fun low => unpaired ⟨high, low⟩
  | case4 unit next rest _ plain ih =>
    have others := ih fun unit h => small unit (List.mem_cons_of_mem _ h)
    have read := Reads.char (Char.ofNat unit) others
    rwa [encodeChar_plain (small unit List.mem_cons_self) plain] at read
  | case5 unit =>
    split
    next surrogate => exact .lone surrogate (fun _ _ inside => nomatch inside) .nil
    next plain =>
      have read := Reads.char (Char.ofNat unit) .nil
      rwa [encodeChar_plain (small unit List.mem_cons_self) plain] at read

/-- The units of a text stand for it. -/
theorem reads_encode (text : List Char) : Reads (text.flatMap encodeChar) text := by
  induction text with
  | nil => exact .nil
  | cons c text ih => exact .char c ih

theorem encodeChar_lt {c : Char} {unit : Nat} (h : unit ∈ encodeChar c) : unit < 0x10000 := by
  have bound := toNat_lt c
  unfold encodeChar at h
  split at h
  next small =>
    cases List.mem_singleton.mp h
    exact small
  next =>
    simp only [List.mem_cons, List.not_mem_nil, or_false] at h
    omega

end ClassAtlas.Utf16
