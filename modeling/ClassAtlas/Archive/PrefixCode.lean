import ClassAtlas.Text.Utf8

/-!
# Prefix codes

Compressed content is a sequence of bits, from the lowest bit of each byte on. A prefix code gives
each symbol a code word so that none starts another. Codes are canonical: shorter words come before
longer ones, and words of one length follow the order of their symbols, so the lengths alone say
which code it is.
-/

namespace ClassAtlas

/-- The bits of bytes, the lowest of each byte first. -/
def bitsOf (bytes : Bytes) : List Bool :=
  bytes.flatMap fun byte => (List.range 8).map byte.toNat.testBit

/-- The longest code words have so many bits. -/
def maxWordLength : Nat := 15

/-- Why compressed content cannot be read. -/
inductive DeflateFault where
  /-- The bits end too early. -/
  | incomplete
  | corrupt
  deriving Repr, DecidableEq, Inhabited

def DeflateFault.message : DeflateFault → String
  | incomplete => "incomplete deflate stream"
  | corrupt => "corrupt deflate stream"

/-- The symbols of each word length from one on, in order. -/
structure PrefixCode where
  levels : List (List Nat)
  deriving Repr, DecidableEq, Inhabited

namespace PrefixCode

/-- The symbols whose words have the given length. -/
def symbolsOfLength (lengths : List Nat) (length : Nat) : List Nat :=
  (lengths.zipIdx.filter (·.1 = length)).map Prod.snd

/-- The code in which symbol `i` has a word of length `lengths[i]`, or none if that is zero. Even
without words it takes a bit to see that there is none. -/
def ofLengths (lengths : List Nat) : PrefixCode :=
  ⟨(List.range (lengths.foldl max 1)).map fun i => symbolsOfLength lengths (i + 1)⟩

/-- The share of all words that the code covers, as a multiple of `2 ^ -15`. -/
def coverage (lengths : List Nat) : Nat :=
  (lengths.filter (· ≠ 0)).foldl
    (fun covered length => covered + 1 <<< (maxWordLength - length)) 0

/-- Whether everything that can be read starts with a word. -/
def IsComplete (lengths : List Nat) : Prop := coverage lengths = 1 <<< maxWordLength

/-- Whether there is no word, or one of a single bit. -/
def IsSparse (lengths : List Nat) : Prop := lengths.filter (· ≠ 0) ∈ [[], [1]]

instance (lengths : List Nat) : Decidable (IsComplete lengths) :=
  inferInstanceAs (Decidable (_ = _))
instance (lengths : List Nat) : Decidable (IsSparse lengths) :=
  inferInstanceAs (Decidable (_ ∈ _))

/-- The symbol of the word that is read bit by bit: `word` counts the words of the present length
that come before it and are no start of a longer word. -/
def symbolFrom (word : Nat) : List (List Nat) → List Bool → Except DeflateFault (Nat × List Bool)
  | [], _ => .error .corrupt
  | _, [] => .error .incomplete
  | level :: levels, bit :: bits =>
    let word := 2 * word + bit.toNat
    match level[word]? with
    | some symbol => .ok (symbol, bits)
    | none => symbolFrom (word - level.length) levels bits

end PrefixCode

end ClassAtlas
