import ClassAtlas.ClassFile.Error
import ClassAtlas.Text.Utf8

/-!
# Reading class-file bytes

A reader takes a value from the front of the bytes and leaves the rest. Words are big-endian. A
reader that needs more bytes than there are fails with `unexpectedEnd`.
-/

namespace ClassAtlas

/-- A reader of class-file items. -/
abbrev Reader := StateT Bytes (Except ClassFileError)

namespace Reader

variable {α σ : Type}

def fail (error : ClassFileError) : Reader α := fun _ => .error error

/-- A result that needs no bytes. -/
def lift (result : Except ClassFileError α) : Reader α := fun bytes =>
  result.map fun a => (a, bytes)

/-- An unsigned byte. -/
def u1 : Reader UInt8 := fun bytes =>
  match bytes with
  | a :: rest => .ok (a, rest)
  | _ => .error .unexpectedEnd

/-- An unsigned word of two bytes. -/
def u2 : Reader UInt16 := fun bytes =>
  match bytes with
  | a :: b :: rest => .ok (UInt16.ofNat (a.toNat * 0x100 + b.toNat), rest)
  | _ => .error .unexpectedEnd

/-- An unsigned word of four bytes. -/
def u4 : Reader UInt32 := fun bytes =>
  match bytes with
  | a :: b :: c :: d :: rest =>
    .ok (UInt32.ofNat (((a.toNat * 0x100 + b.toNat) * 0x100 + c.toNat) * 0x100 + d.toNat), rest)
  | _ => .error .unexpectedEnd

/-- Two words of four bytes, the higher first. -/
def u8 : Reader UInt64 := do
  let high ← u4
  let low ← u4
  return UInt64.ofNat (high.toNat * 0x100000000 + low.toNat)

/-- The next `count` bytes. -/
def take (count : Nat) : Reader Bytes := fun bytes =>
  let front := bytes.take count
  if front.length = count then .ok (front, bytes.drop count) else .error .unexpectedEnd

def skip (count : Nat) : Reader Unit := do
  let _ ← take count

/-- The values of `count` readings. -/
def times (count : Nat) (item : Reader α) : Reader (List α) :=
  match count with
  | 0 => return []
  | count + 1 => do
    let first ← item
    let others ← times count item
    return first :: others

/-- A state after `count` steps. -/
def iterate (count : Nat) (step : σ → Reader σ) (state : σ) : Reader σ :=
  match count with
  | 0 => return state
  | count + 1 => do iterate count step (← step state)

/-- The value read from the front of `body` alone. -/
def inside (body : Bytes) (item : Reader α) : Reader α :=
  lift ((item.run body).map Prod.fst)

end Reader

end ClassAtlas
