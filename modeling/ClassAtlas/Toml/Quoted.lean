import ClassAtlas.Text.Scan
import ClassAtlas.Toml.Scalar

/-!
# Quoted text

Basic strings have escapes, literal strings have none; both have a form over several lines. Every
step takes a character, so the length of the text is enough `fuel`.
-/

namespace ClassAtlas.Toml

/-- Control characters stand in no text, a tab excepted. -/
def isPlain (c : Char) : Bool := c = '\t' || (0x20 ≤ c.toNat && c.toNat ≠ 0x7F)

/-- A character given by its code point in `count` hexadecimal digits. -/
def codePoint? (count : Nat) (text : List Char) : Option (Char × List Char) :=
  let digits := text.take count
  let code := numeral 16 digits
  if digits.length = count && digits.all isHexDigit && code.isValidChar then
    some (Char.ofNat code, text.drop count)
  else none

/-- The character that an escape stands for, after its backslash. -/
def escape? : List Char → Option (Char × List Char)
  | 'b' :: rest => some ('\x08', rest)
  | 't' :: rest => some ('\t', rest)
  | 'n' :: rest => some ('\n', rest)
  | 'f' :: rest => some ('\x0c', rest)
  | 'r' :: rest => some ('\r', rest)
  | 'e' :: rest => some ('\x1b', rest)
  | '"' :: rest => some ('"', rest)
  | '\\' :: rest => some ('\\', rest)
  | 'x' :: rest => codePoint? 2 rest
  | 'u' :: rest => codePoint? 4 rest
  | 'U' :: rest => codePoint? 8 rest
  | _ => none

/-- The text up to the closing quote of a basic string. -/
def basicBody : Nat → List Char → Option (List Char × List Char)
  | fuel + 1, c :: rest =>
    if c = '"' then some ([], rest)
    else if c = '\\' then do
      let (d, rest) ← escape? rest
      let (body, rest) ← basicBody fuel rest
      return (d :: body, rest)
    else if isPlain c then do
      let (body, rest) ← basicBody fuel rest
      return (c :: body, rest)
    else none
  | _, _ => none

/-- A line break. -/
def newline? : List Char → Option (List Char)
  | '\n' :: rest => some rest
  | '\r' :: '\n' :: rest => some rest
  | _ => none

/-- A line break that is left out right after the opening quotes. -/
def skipNewline (text : List Char) : List Char := (newline? text).getD text

def isBlank (c : Char) : Bool := c = ' ' || c = '\t'

/-- The text after blanks and line breaks. -/
def skipLines : Nat → List Char → List Char
  | fuel + 1, c :: rest =>
    if isBlank c then skipLines fuel rest
    else
      match newline? (c :: rest) with
      | some rest => skipLines fuel rest
      | none => c :: rest
  | _, text => text

/-- The text after a backslash that ends a line: blanks, the line break and all blank text that
follows. -/
def continueLine? (text : List Char) : Option (List Char) :=
  (newline? (text.dropWhile isBlank)).map fun rest => skipLines rest.length rest

/-- The quotes in front of the text: how many of them belong to the content if they close it.
Three close, and up to two in front of those are content. -/
def closing? (quote : Char) (text : List Char) : Option (List Char × List Char) :=
  let run := (text.takeWhile (· = quote)).length
  if run < 3 then none
  else some (List.replicate (min run 5 - 3) quote, text.drop (min run 5))

/-- The text up to the closing quotes of a string over several lines. -/
def linesBody (quote : Char) (escapes : Bool) : Nat → List Char → Option (List Char × List Char)
  | fuel + 1, c :: rest =>
    match closing? quote (c :: rest) with
    | some closed => some closed
    | none =>
      if c = '\\' && escapes then
        match continueLine? rest with
        | some rest => linesBody quote escapes fuel rest
        | none => do
          let (d, rest) ← escape? rest
          let (body, rest) ← linesBody quote escapes fuel rest
          return (d :: body, rest)
      else
        match newline? (c :: rest) with
        | some after => do
          let lineBreak := (c :: rest).take ((c :: rest).length - after.length)
          let (body, rest) ← linesBody quote escapes fuel after
          return (lineBreak ++ body, rest)
        | none =>
          if isPlain c then do
            let (body, rest) ← linesBody quote escapes fuel rest
            return (c :: body, rest)
          else none
  | _, _ => none

/-- The text up to the closing quote of a literal string. -/
def literalBody (text : List Char) : Option (List Char × List Char) :=
  match text.span (fun c => c ≠ '\'' && isPlain c) with
  | (body, '\'' :: rest) => some (body, rest)
  | _ => none

/-- A string on one line, as keys and values have it. -/
def scanLineString : Scan String := fun text =>
  match text with
  | '"' :: rest => (basicBody rest.length rest).map fun (s, rest) => (String.ofList s, rest)
  | '\'' :: rest => (literalBody rest).map fun (s, rest) => (String.ofList s, rest)
  | _ => none

/-- A string, on one line or on several. -/
def scanString : Scan String := fun text =>
  match text with
  | '"' :: '"' :: '"' :: rest =>
    (linesBody '"' true text.length (skipNewline rest)).map fun (s, rest) => (String.ofList s, rest)
  | '\'' :: '\'' :: '\'' :: rest =>
    (linesBody '\'' false text.length (skipNewline rest)).map fun (s, rest) =>
      (String.ofList s, rest)
  | _ => scanLineString text

end ClassAtlas.Toml
