/-!
# UTF-16

Characters as 16-bit code units, and the reading of units that replaces what is no character.
-/

namespace ClassAtlas.Utf16

/-- The code units of a character: one, or a surrogate pair above U+FFFF. -/
def encodeChar (c : Char) : List Nat :=
  if c.toNat < 0x10000 then [c.toNat]
  else [0xD800 + (c.toNat - 0x10000) / 0x400, 0xDC00 + (c.toNat - 0x10000) % 0x400]

def IsHighSurrogate (unit : Nat) : Prop := 0xD800 ≤ unit ∧ unit < 0xDC00

def IsLowSurrogate (unit : Nat) : Prop := 0xDC00 ≤ unit ∧ unit < 0xE000

instance (unit : Nat) : Decidable (IsHighSurrogate unit) := inferInstanceAs (Decidable (_ ∧ _))
instance (unit : Nat) : Decidable (IsLowSurrogate unit) := inferInstanceAs (Decidable (_ ∧ _))

/-- The character that stands for what cannot be read. -/
def replacement : Char := '\uFFFD'

/-- The text of the code units. A surrogate without its partner is replaced. -/
def decodeLossy : List Nat → List Char
  | [] => []
  | high :: low :: rest =>
    if IsHighSurrogate high ∧ IsLowSurrogate low then
      Char.ofNat (0x10000 + (high - 0xD800) * 0x400 + (low - 0xDC00)) :: decodeLossy rest
    else if IsHighSurrogate high ∨ IsLowSurrogate high then
      replacement :: decodeLossy (low :: rest)
    else
      Char.ofNat high :: decodeLossy (low :: rest)
  | [unit] =>
    [if IsHighSurrogate unit ∨ IsLowSurrogate unit then replacement else Char.ofNat unit]

end ClassAtlas.Utf16
