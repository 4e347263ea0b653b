import ClassAtlas.Text.Utf16

/-!
# Bytes and their text

The text that bytes encode in UTF-8, if they encode one, and the reading of damaged UTF-8 that
replaces what is no character: a character that breaks off as a whole, any other wrong byte by
itself.
-/

namespace ClassAtlas

abbrev Bytes := List UInt8

/-- The text that the bytes encode in UTF-8. -/
def Bytes.utf8? (bytes : Bytes) : Option String := String.fromUTF8? ⟨bytes.toArray⟩

namespace Utf8

/-- What a first byte gives to its character, and the ranges of the bytes after it. -/
def lead? (byte : Nat) : Option (Nat × List (Nat × Nat)) :=
  let any := (0x80, 0xBF)
  if byte < 0x80 then some (byte, [])
  else if byte < 0xC2 then none
  else if byte < 0xE0 then some (byte - 0xC0, [any])
  else if byte = 0xE0 then some (0, [(0xA0, 0xBF), any])
  else if byte = 0xED then some (0xD, [(0x80, 0x9F), any])
  else if byte < 0xF0 then some (byte - 0xE0, [any, any])
  else if byte = 0xF0 then some (0, [(0x90, 0xBF), any, any])
  else if byte < 0xF4 then some (byte - 0xF0, [any, any, any])
  else if byte = 0xF4 then some (4, [(0x80, 0x8F), any, any])
  else none

/-- What follows a byte that starts anew: the bits of its character so far and the ranges of the
bytes to come, and what can be written down already. -/
def start (byte : Nat) : List Char × Nat × List (Nat × Nat) :=
  match lead? byte with
  | some (code, []) => ([Char.ofNat code], 0, [])
  | some (code, ranges) => ([], code, ranges)
  | none => ([Utf16.replacement], 0, [])

/-- One byte further. -/
def step (code : Nat) (ranges : List (Nat × Nat)) (byte : Nat) :
    List Char × Nat × List (Nat × Nat) :=
  match ranges with
  | [] => start byte
  | (least, greatest) :: ranges =>
    if least ≤ byte ∧ byte ≤ greatest then
      let code := code * 0x40 + byte % 0x40
      if ranges.isEmpty then ([Char.ofNat code], 0, []) else ([], code, ranges)
    else
      let (text, next) := start byte
      (Utf16.replacement :: text, next)

/-- The text of the bytes after those of a character that is not complete. -/
def textAfter (code : Nat) (ranges : List (Nat × Nat)) : Bytes → List Char
  | [] => if ranges.isEmpty then [] else [Utf16.replacement]
  | byte :: rest =>
    let (text, code, ranges) := step code ranges byte.toNat
    text ++ textAfter code ranges rest

def decodeLossy (bytes : Bytes) : String := String.ofList (textAfter 0 [] bytes)

end Utf8

end ClassAtlas
