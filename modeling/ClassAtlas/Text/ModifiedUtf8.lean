import ClassAtlas.Text.Utf16
import ClassAtlas.Text.Utf8

/-!
# Modified UTF-8

The text form of class files. Each UTF-16 code unit is written by itself in one to three bytes, so
a character above U+FFFF takes six, and NUL takes two, so that no byte is zero. `decode` undoes
`encode`; units that form no character are read as U+FFFD. Bytes that each stand for a character
are read at once.
-/

namespace ClassAtlas.ModifiedUtf8

/-- One code unit in one, two or three bytes. -/
def encodeUnit (unit : Nat) : List UInt8 :=
  if 0 < unit ∧ unit < 0x80 then [UInt8.ofNat unit]
  else if unit < 0x800 then
    [UInt8.ofNat (0xC0 + unit / 0x40), UInt8.ofNat (0x80 + unit % 0x40)]
  else
    [UInt8.ofNat (0xE0 + unit / 0x1000), UInt8.ofNat (0x80 + unit / 0x40 % 0x40),
      UInt8.ofNat (0x80 + unit % 0x40)]

def encode (text : List Char) : List UInt8 :=
  text.flatMap fun c => (Utf16.encodeChar c).flatMap encodeUnit

/-- The six bits of a byte that continues a unit. -/
def continuation? (byte : UInt8) : Option Nat :=
  if 0x80 ≤ byte.toNat ∧ byte.toNat < 0xC0 then some (byte.toNat - 0x80) else none

/-- The code units of the bytes. Overlong forms are accepted. -/
def units? : List UInt8 → Option (List Nat)
  | [] => some []
  | first :: rest =>
    let lead := first.toNat
    if 0x01 ≤ lead ∧ lead < 0x80 then
      (units? rest).map (lead :: ·)
    else if 0xC0 ≤ lead ∧ lead < 0xE0 then
      match rest with
      | second :: rest => do
        let low ← continuation? second
        let others ← units? rest
        return ((lead - 0xC0) * 0x40 + low) :: others
      | [] => none
    else if 0xE0 ≤ lead ∧ lead < 0xF0 then
      match rest with
      | second :: third :: rest => do
        let middle ← continuation? second
        let low ← continuation? third
        let others ← units? rest
        return ((lead - 0xE0) * 0x1000 + middle * 0x40 + low) :: others
      | _ => none
    else
      none

/-- The text of the bytes by their units, if they split into units. -/
def decodeUnits (bytes : Bytes) : Option (List Char) :=
  (units? bytes).map Utf16.decodeLossy

/-- A byte that stands for a character by itself. -/
def isPlain (byte : UInt8) : Bool := byte != 0 && decide (byte < 0x80)

/-- The text of the bytes. Where all are plain, no units are made: the text is the same as in
UTF-8. -/
def decode (bytes : Bytes) : Option (List Char) :=
  if bytes.all isPlain then bytes.utf8?.map String.toList else decodeUnits bytes

end ClassAtlas.ModifiedUtf8
