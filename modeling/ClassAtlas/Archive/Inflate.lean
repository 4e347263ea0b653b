import ClassAtlas.Archive.PrefixCode

/-!
# Deflated content

Deflated content is a sequence of blocks. A block holds plain bytes or symbols in prefix codes; a
symbol is a byte, a copy of what came before, or the end of the block.
-/

namespace ClassAtlas

namespace Inflate

/-- The bits to come and the bytes so far. -/
structure State where
  bits : List Bool
  output : Array UInt8
  deriving Inhabited

/-- A reader of bits that writes bytes. -/
abbrev Inflater := StateT State (Except DeflateFault)

def bit : Inflater Nat := do
  match (← get).bits with
  | [] => throw .incomplete
  | b :: bits =>
    modify ({ · with bits })
    return b.toNat

/-- A number of `count` bits, the lowest first. -/
def number : Nat → Inflater Nat
  | 0 => return 0
  | count + 1 => do
    let low ← bit
    return low + 2 * (← number count)

def emit (byte : UInt8) : Inflater Unit :=
  modify fun state => { state with output := state.output.push byte }

/-- A symbol in a code. -/
def symbol (code : PrefixCode) : Inflater Nat := do
  let (symbol, bits) ← PrefixCode.symbolFrom 0 code.levels (← get).bits
  modify ({ · with bits })
  return symbol

/-- The least length and the number of further bits, for each symbol of a copy. -/
def copyLengths : List (Nat × Nat) :=
  [(3, 0), (4, 0), (5, 0), (6, 0), (7, 0), (8, 0), (9, 0), (10, 0), (11, 1), (13, 1), (15, 1),
    (17, 1), (19, 2), (23, 2), (27, 2), (31, 2), (35, 3), (43, 3), (51, 3), (59, 3), (67, 4),
    (83, 4), (99, 4), (115, 4), (131, 5), (163, 5), (195, 5), (227, 5), (258, 0)]

/-- The least distance and the number of further bits, for each symbol of a distance. -/
def copyDistances : List (Nat × Nat) :=
  [(1, 0), (2, 0), (3, 0), (4, 0), (5, 1), (7, 1), (9, 2), (13, 2), (17, 3), (25, 3), (33, 4),
    (49, 4), (65, 5), (97, 5), (129, 6), (193, 6), (257, 7), (385, 7), (513, 8), (769, 8),
    (1025, 9), (1537, 9), (2049, 10), (3073, 10), (4097, 11), (6145, 11), (8193, 12), (12289, 12),
    (16385, 13), (24577, 13)]

/-- The value that a symbol starts, with its further bits. -/
def extended (table : List (Nat × Nat)) (symbol : Nat) : Inflater Nat :=
  match table[symbol]? with
  | some (least, further) => do return least + (← number further)
  | none => throw .corrupt

/-- Repeats bytes from `distance` back. In front of the first byte stand zeros. -/
def copy (distance : Nat) : Nat → Inflater Unit
  | 0 => return ()
  | count + 1 => do
    let output := (← get).output
    emit (if distance ≤ output.size then output.getD (output.size - distance) 0 else 0)
    copy distance count

/-- The symbols of a block up to its end. Each takes a bit, so `fuel` as great as the number of
bits is enough. -/
def symbols (literals distances : PrefixCode) : Nat → Inflater Unit
  | 0 => throw .incomplete
  | fuel + 1 => do
    let next ← symbol literals
    if next = 256 then return ()
    else
      if next < 256 then emit (UInt8.ofNat next)
      else
        let length ← extended copyLengths (next - 257)
        let distance ← extended copyDistances (← symbol distances)
        copy distance length
      symbols literals distances fuel

/-- The code lengths that are known without being told. -/
def fixedLengths : List Nat :=
  List.replicate 144 8 ++ List.replicate 112 9 ++ List.replicate 24 7 ++ List.replicate 8 8

def fixedDistances : List Nat := List.replicate 32 5

/-- The order in which the lengths of the code for code lengths are told. -/
def lengthOrder : List Nat := [16, 17, 18, 0, 8, 7, 9, 6, 10, 5, 11, 4, 12, 3, 13, 2, 14, 1, 15]

/-- Code lengths up to `total`, after those that are `known` already. Three of the symbols repeat
a length. Each adds a length, so `fuel` as great as `total` is enough. -/
def codeLengths (code : PrefixCode) (total : Nat) : Nat → List Nat → Inflater (List Nat)
  | 0, known => if known.length = total then return known else throw .corrupt
  | fuel + 1, known =>
    if total < known.length then throw .corrupt
    else if known.length = total then return known
    else do
      match (← symbol code) with
      | 16 =>
        match known.getLast? with
        | some last => codeLengths code total fuel (known ++ List.replicate (3 + (← number 2)) last)
        | none => throw .corrupt
      | 17 => codeLengths code total fuel (known ++ List.replicate (3 + (← number 3)) 0)
      | 18 => codeLengths code total fuel (known ++ List.replicate (11 + (← number 7)) 0)
      | length => codeLengths code total fuel (known ++ [length])

/-- The `count` lengths that are told first of the code for code lengths. -/
def lengthsOfLengths : Nat → Inflater (List Nat)
  | 0 => return []
  | count + 1 => do
    let first ← number 3
    return first :: (← lengthsOfLengths count)

/-- The code that has been told by its lengths. -/
def codeOf (mayBeSparse : Bool) (lengths : List Nat) : Inflater PrefixCode :=
  if PrefixCode.IsComplete lengths ∨ (mayBeSparse ∧ PrefixCode.IsSparse lengths) then
    return .ofLengths lengths
  else throw .corrupt

/-- The two codes that a block tells before it uses them. -/
def toldCodes : Inflater (PrefixCode × PrefixCode) := do
  let literalCount := 257 + (← number 5)
  let distanceCount := 1 + (← number 5)
  let count := 4 + (← number 4)
  if 286 < literalCount ∨ 30 < distanceCount then throw .corrupt
  else
    let placed := lengthOrder.zip (← lengthsOfLengths count)
    let code ← codeOf false ((List.range 19).map fun symbol => (placed.lookup symbol).getD 0)
    let total := literalCount + distanceCount
    let lengths ← codeLengths code total total []
    return (← codeOf true (lengths.take literalCount), ← codeOf true (lengths.drop literalCount))

/-- The `count` bytes of a block that is not compressed. -/
def plainBytes : Nat → Inflater Unit
  | 0 => return ()
  | count + 1 => do
    emit (UInt8.ofNat (← number 8))
    plainBytes count

/-- A block that is not compressed. It starts at a byte, with its length and the complement of
it. -/
def plainBlock : Inflater Unit := do
  modify fun state => { state with bits := state.bits.drop (state.bits.length % 8) }
  let length ← number 16
  let complement ← number 16
  if length + complement = 0xFFFF then plainBytes length else throw .corrupt

/-- One block. -/
def block : Inflater Unit := do
  match (← number 2) with
  | 0 => plainBlock
  | 1 => symbols (.ofLengths fixedLengths) (.ofLengths fixedDistances) (← get).bits.length
  | 2 =>
    let (literals, distances) ← toldCodes
    symbols literals distances (← get).bits.length
  | _ => throw .corrupt

/-- The blocks up to the last one. Each takes a bit, so `fuel` as great as the number of bits is
enough. -/
def blocks : Nat → Inflater Unit
  | 0 => throw .incomplete
  | fuel + 1 => do
    let isLast ← bit
    block
    if isLast = 1 then return () else blocks fuel

end Inflate

/-- The content of deflated bytes. What follows the last block does not matter. -/
def inflate (bytes : Bytes) : Except DeflateFault Bytes :=
  let bits := bitsOf bytes
  ((Inflate.blocks bits.length).run { bits, output := #[] }).map fun ((), state) =>
    state.output.toList

end ClassAtlas
