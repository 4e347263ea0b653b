import ClassAtlas.Text.Split

/-!
# Glob patterns

`?` stands for one character, `*` for any text, `[…]` and `[!…]` for a character in or out of a
set, and `**` as a whole component for any number of components. The wildcards also stand for
slashes and for a leading dot.
-/

namespace ClassAtlas.Glob

/-- A member of a set of characters. An inverted range has none. -/
inductive CharSet where
  | single (char : Char)
  | range (low high : Char)
  deriving Repr, DecidableEq, Inhabited

def CharSet.has (set : CharSet) (c : Char) : Bool :=
  match set with
  | single char => c = char
  | range low high => low.val ≤ c.val && c.val ≤ high.val

inductive Token where
  | literal (char : Char)
  | anyChar
  | anyText
  /-- `**`: any number of whole components. -/
  | anyComponents
  | within (sets : List CharSet)
  | except (sets : List CharSet)
  deriving Repr, DecidableEq, Inhabited

/-- A compiled pattern. -/
structure Pattern where
  tokens : List Token
  deriving Repr, DecidableEq, Inhabited

/-- Why a text is no pattern. -/
inductive Fault where
  /-- Three or more stars. -/
  | tooManyStars
  /-- `**` that is not a whole component. -/
  | partialRecursion
  /-- `[` that no `]` closes. -/
  | unclosedSet
  deriving Repr, DecidableEq, Inhabited

/-- A fault with its place, counted in characters. -/
structure PatternError where
  position : Nat
  fault : Fault
  deriving Repr, DecidableEq, Inhabited

def Fault.message : Fault → String
  | tooManyStars => "wildcards are either regular `*` or recursive `**`"
  | partialRecursion => "recursive wildcards must form a single path component"
  | unclosedSet => "invalid range pattern"

def PatternError.message (error : PatternError) : String :=
  "Pattern syntax error near position " ++ error.position.repr ++ ": " ++ error.fault.message

/-- The sets between brackets: `a-z` is a range, any other character stands for itself. -/
def charSets : List Char → List CharSet
  | low :: '-' :: high :: rest => .range low high :: charSets rest
  | c :: rest => .single c :: charSets rest
  | [] => []

/-- The content of a set and the text after its `]`. The first character closes nothing. -/
def closeSet? : List Char → Option (List Char × List Char)
  | [] => none
  | first :: rest =>
    match rest.span (· ≠ ']') with
    | (_, []) => none
    | (more, _ :: after) => some (first :: more, after)

/-- Another `**` right after one adds nothing. -/
def pushRecursion (tokens : List Token) : List Token :=
  match tokens with
  | .anyComponents :: _ :: _ => tokens
  | _ => .anyComponents :: tokens

/-- The tokens of the text from `position` on, after the reversed tokens in front of it. The
character `previous?` stands right before the text. Each step takes a character, so `fuel` as long
as the text is enough. -/
def compileFrom (fuel position : Nat) (previous? : Option Char) (reversed : List Token)
    (text : List Char) : Except PatternError (List Token) :=
  match fuel, text with
  | _, [] | 0, _ => .ok reversed.reverse
  | fuel + 1, '?' :: rest => compileFrom fuel (position + 1) (some '?') (.anyChar :: reversed) rest
  | fuel + 1, '*' :: _ =>
    let stars := (text.takeWhile (· = '*')).length
    let rest := text.drop stars
    let next := position + stars
    if 2 < stars then .error ⟨position + 2, .tooManyStars⟩
    else if stars = 2 then
      if previous? = none ∨ previous? = some '/' then
        match rest with
        | [] => compileFrom fuel next (some '*') (pushRecursion reversed) []
        | '/' :: rest => compileFrom fuel (next + 1) (some '/') (pushRecursion reversed) rest
        | _ => .error ⟨next, .partialRecursion⟩
      else .error ⟨position - 1, .partialRecursion⟩
    else compileFrom fuel next (some '*') (.anyText :: reversed) rest
  | fuel + 1, '[' :: '!' :: rest =>
    match closeSet? rest with
    | some (content, after) =>
      compileFrom fuel (position + content.length + 3) (some ']')
        (.except (charSets content) :: reversed) after
    | none => .error ⟨position, .unclosedSet⟩
  | fuel + 1, '[' :: rest =>
    match closeSet? rest with
    | some (content, after) =>
      compileFrom fuel (position + content.length + 2) (some ']')
        (.within (charSets content) :: reversed) after
    | none => .error ⟨position, .unclosedSet⟩
  | fuel + 1, c :: rest => compileFrom fuel (position + 1) (some c) (.literal c :: reversed) rest

/-- The pattern that a text describes. -/
def Pattern.compile (text : String) : Except PatternError Pattern :=
  (compileFrom text.length 0 none [] text.toList).map Pattern.mk

end ClassAtlas.Glob
