import ClassAtlas.Glob

/-!
# Matching text with patterns

What a pattern describes is said by recursion on its tokens. Trying every choice for every wildcard
takes too long for patterns with many of them, so a match is computed by rows instead: a row says
for each rest of a text, from the whole text to the empty rest, whether the last tokens describe it,
and each token in front turns the row into another one. `accepts_eq` says that both agree.
-/

namespace ClassAtlas.Glob

/-- Whether the token stands for this one character. -/
def Token.accepts (token : Token) (c : Char) : Bool :=
  match token with
  | literal char => c = char
  | anyChar => true
  | within sets => sets.any (·.has c)
  | except sets => !sets.any (·.has c)
  | anyText | anyComponents => false

/-- Whether some rest of the text passes, the text itself and the empty rest included. -/
def someRest (passes : List Char → Bool) : List Char → Bool
  | [] => passes []
  | c :: rest => passes (c :: rest) || someRest passes rest

/-- Whether some rest that follows a slash passes, or the empty rest. -/
def someRestAfterSlash (passes : List Char → Bool) : List Char → Bool
  | [] => passes []
  | c :: rest => (c = '/' && passes rest) || someRestAfterSlash passes rest

def matchTokens : List Token → List Char → Bool
  | [], text => text.isEmpty
  | .anyText :: tokens, text => someRest (matchTokens tokens) text
  | .anyComponents :: tokens, text =>
    matchTokens tokens text || someRestAfterSlash (matchTokens tokens) text
  | _ :: _, [] => false
  | token :: tokens, c :: rest => token.accepts c && matchTokens tokens rest

/-- The row for one more token that stands for one character. -/
def charRow (token : Token) : List Char → List Bool → List Bool
  | c :: text, _ :: row => (token.accepts c && row.headD false) :: charRow token text row
  | _, _ => [false]

/-- The row for one more `*`. -/
def textRow : List Char → List Bool → List Bool
  | _ :: text, here :: row =>
    let rests := textRow text row
    (here || rests.headD false) :: rests
  | _, row => row

/-- For each rest, whether the row has a rest of it that follows a slash, or the empty rest. -/
def slashRow : List Char → List Bool → List Bool
  | c :: text, _ :: row =>
    let rests := slashRow text row
    ((c = '/' && row.headD false) || rests.headD false) :: rests
  | _, row => row

def tokenRow (token : Token) (text : List Char) (row : List Bool) : List Bool :=
  match token with
  | .anyText => textRow text row
  | .anyComponents => List.zipWith (· || ·) row (slashRow text row)
  | token => charRow token text row

/-- The row for no tokens: only the empty rest is described. -/
def emptyRow : List Char → List Bool
  | [] => [true]
  | _ :: text => false :: emptyRow text

def matchRow (tokens : List Token) (text : List Char) : List Bool :=
  tokens.foldr (fun token row => tokenRow token text row) (emptyRow text)

/-- A text with all its rests. -/
def rests : List Char → List (List Char)
  | [] => [[]]
  | c :: text => (c :: text) :: rests text

theorem headD_map_rests (f : List Char → Bool) (text : List Char) :
    ((rests text).map f).headD false = f text := by
  cases text <;> rfl

theorem emptyRow_eq (text : List Char) : emptyRow text = (rests text).map (matchTokens []) := by
  induction text with
  | nil => rfl
  | cons c text ih => simp [emptyRow, rests, matchTokens, ih]

theorem textRow_eq (f : List Char → Bool) (text : List Char) :
    textRow text ((rests text).map f) = (rests text).map (someRest f) := by
  induction text with
  | nil => rfl
  | cons c text ih =>
    simp only [rests, List.map_cons, textRow, ih, headD_map_rests, someRest]

theorem slashRow_eq (f : List Char → Bool) (text : List Char) :
    slashRow text ((rests text).map f) = (rests text).map (someRestAfterSlash f) := by
  induction text with
  | nil => rfl
  | cons c text ih =>
    simp only [rests, List.map_cons, slashRow, ih, headD_map_rests, someRestAfterSlash]

theorem charRow_eq (token : Token) (f : List Char → Bool) (text : List Char) :
    charRow token text ((rests text).map f) =
      (rests text).map fun rest =>
        match rest with
        | [] => false
        | c :: rest => token.accepts c && f rest := by
  induction text with
  | nil => rfl
  | cons c text ih => simp only [rests, List.map_cons, charRow, ih, headD_map_rests]

theorem tokenRow_eq (token : Token) (tokens : List Token) (text : List Char) :
    tokenRow token text ((rests text).map (matchTokens tokens)) =
      (rests text).map (matchTokens (token :: tokens)) := by
  cases token with
  | anyText => exact textRow_eq _ _
  | anyComponents =>
    simp only [tokenRow, slashRow_eq, List.zipWith_map, List.zipWith_self]
    rfl
  | literal | anyChar | within | except =>
    simp only [tokenRow, charRow_eq]
    refine List.map_congr_left fun rest _ => ?_
    cases rest <;> rfl

theorem matchRow_eq (tokens : List Token) (text : List Char) :
    matchRow tokens text = (rests text).map (matchTokens tokens) := by
  induction tokens with
  | nil => exact emptyRow_eq text
  | cons token tokens ih =>
    have step : matchRow (token :: tokens) text = tokenRow token text (matchRow tokens text) := rfl
    rw [step, ih, tokenRow_eq]

/-- Whether the whole text is described by the pattern. -/
def Pattern.accepts (pattern : Pattern) (text : String) : Bool :=
  (matchRow pattern.tokens text.toList).headD false

theorem Pattern.accepts_eq (pattern : Pattern) (text : String) :
    pattern.accepts text = matchTokens pattern.tokens text.toList := by
  rw [accepts, matchRow_eq, headD_map_rests]

end ClassAtlas.Glob
