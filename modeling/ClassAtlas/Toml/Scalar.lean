import ClassAtlas.Toml.Value

/-!
# Numbers, booleans, dates and times

Each reader takes the whole text of a scalar.
-/

namespace ClassAtlas.Toml

/-- The digits without the underscores that part them. An underscore has digits on both sides. -/
def ungroup (isDigit : Char → Bool) : List Char → Option (List Char)
  | [] => none
  | [c] => if isDigit c then some [c] else none
  | c :: '_' :: rest => if isDigit c then (ungroup isDigit rest).map (c :: ·) else none
  | c :: rest => if isDigit c then (ungroup isDigit rest).map (c :: ·) else none

def digitValue (c : Char) : Nat :=
  if c.isDigit then c.toNat - '0'.toNat else c.toLower.toNat - 'a'.toNat + 10

/-- The number that digits to a base denote. -/
def numeral (base : Nat) (digits : List Char) : Nat :=
  digits.foldl (fun n c => n * base + digitValue c) 0

def isBinDigit (c : Char) : Bool := c = '0' || c = '1'

def isOctDigit (c : Char) : Bool := '0' ≤ c && c ≤ '7'

def isHexDigit (c : Char) : Bool :=
  c.isDigit || ('a' ≤ c.toLower && c.toLower ≤ 'f')

/-- A sign, and what follows it. -/
def splitSign : List Char → Int × List Char
  | '+' :: rest => (1, rest)
  | '-' :: rest => (-1, rest)
  | text => (1, text)

/-- Decimal digits of a number that has no needless zero in front. -/
def decimalDigits? (text : List Char) : Option (List Char) :=
  match ungroup Char.isDigit text with
  | some ('0' :: _ :: _) => none
  | digits? => digits?

/-- Integers are those of 128 bits, signed or unsigned. -/
def isInteger128 (n : Int) : Bool :=
  -0x80000000000000000000000000000000 ≤ n && n < 0x100000000000000000000000000000000

/-- An integer, decimal with an optional sign or with the sign of its base in front. -/
def integer? (text : List Char) : Option Int :=
  let value? : Option Int :=
    match text with
    | '0' :: 'x' :: digits => (ungroup isHexDigit digits).map fun ds => (numeral 16 ds : Int)
    | '0' :: 'o' :: digits => (ungroup isOctDigit digits).map fun ds => (numeral 8 ds : Int)
    | '0' :: 'b' :: digits => (ungroup isBinDigit digits).map fun ds => (numeral 2 ds : Int)
    | _ =>
      let (sign, digits) := splitSign text
      (decimalDigits? digits).map fun ds => sign * (numeral 10 ds : Int)
  value?.filter isInteger128

/-- Whether `mantissa · 10 ^ exponent` is past the largest double-precision number, rounding
included. -/
def overflows (mantissa : Nat) (exponent : Int) : Bool :=
  let size : Int := mantissa.repr.length + exponent
  if mantissa = 0 || size < 300 then false
  else if 320 < size then true
  else Nat.pow 2 1024 - Nat.pow 2 970 ≤
    (if 0 ≤ exponent then mantissa * Nat.pow 10 exponent.toNat
      else mantissa / Nat.pow 10 (-exponent).toNat)

/-- The exponent after its letter. -/
def exponent? (text : List Char) : Option Int :=
  let (sign, digits) := splitSign text
  (ungroup Char.isDigit digits).map fun ds => sign * (numeral 10 ds : Int)

/-- A fraction, an exponent or both after the integer part of a number. -/
def fractionAndExponent? (text : List Char) : Option (List Char × Int) :=
  match text with
  | '.' :: rest =>
    let (fraction, after) := rest.span fun c => c.isDigit || c = '_'
    match ungroup Char.isDigit fraction, after with
    | some digits, [] => some (digits, 0)
    | some digits, e :: exponent =>
      if e = 'e' || e = 'E' then (exponent? exponent).map fun n => (digits, n) else none
    | none, _ => none
  | e :: exponent =>
    if e = 'e' || e = 'E' then (exponent? exponent).map fun n => ([], n) else none
  | [] => none

/-- Whether the text is a floating-point number in range. -/
def isFloat (text : List Char) : Bool :=
  let (_, unsigned) := splitSign text
  if unsigned = "inf".toList || unsigned = "nan".toList then true
  else
    let (whole, rest) := unsigned.span fun c => c.isDigit || c = '_'
    match decimalDigits? whole, fractionAndExponent? rest with
    | some digits, some (fraction, exponent) =>
      !overflows (numeral 10 (digits ++ fraction)) (exponent - fraction.length)
    | _, _ => false

/-- A number of exactly `count` digits in front of a text. -/
def fixedDigits? (count : Nat) (text : List Char) : Option (Nat × List Char) :=
  let digits := text.take count
  if digits.length = count && digits.all Char.isDigit then
    some (numeral 10 digits, text.drop count)
  else none

def isLeapYear (year : Nat) : Bool := (year % 4 = 0 && year % 100 ≠ 0) || year % 400 = 0

def daysInMonth (year month : Nat) : Nat :=
  if month = 2 then (if isLeapYear year then 29 else 28)
  else if month ∈ [4, 6, 9, 11] then 30 else 31

/-- What follows a date. -/
def afterDate? (text : List Char) : Option (List Char) := do
  let (year, rest) ← fixedDigits? 4 text
  let rest ← if rest.head? = some '-' then some rest.tail else none
  let (month, rest) ← fixedDigits? 2 rest
  let rest ← if rest.head? = some '-' then some rest.tail else none
  let (day, rest) ← fixedDigits? 2 rest
  if 1 ≤ month && month ≤ 12 && 1 ≤ day && day ≤ daysInMonth year month then some rest else none

/-- What follows hours and minutes. -/
def afterMinutes? (text : List Char) : Option (List Char) := do
  let (hour, rest) ← fixedDigits? 2 text
  let rest ← if rest.head? = some ':' then some rest.tail else none
  let (minute, rest) ← fixedDigits? 2 rest
  if hour ≤ 23 && minute ≤ 59 then some rest else none

/-- What follows a time. The seconds and their fraction may be left out. -/
def afterTime? (text : List Char) : Option (List Char) := do
  match (← afterMinutes? text) with
  | ':' :: rest =>
    let (second, rest) ← fixedDigits? 2 rest
    if second ≤ 60 then
      match rest with
      | '.' :: fraction =>
        let digits := fraction.takeWhile Char.isDigit
        if digits.isEmpty then none else some (fraction.drop digits.length)
      | _ => some rest
    else none
  | rest => some rest

/-- Whether the text is nothing or a distance from universal time. -/
def isOffset : List Char → Bool
  | [] => true
  | [c] => c = 'Z' || c = 'z'
  | c :: rest => (c = '+' || c = '-') && afterMinutes? rest = some []

/-- Whether the text is a date, a time, or a date and a time with an optional offset. -/
def isDatetime (text : List Char) : Bool :=
  match afterDate? text with
  | some [] => true
  | some (separator :: rest) =>
    (separator = 'T' || separator = 't' || separator = ' ') && (afterTime? rest).any isOffset
  | none => afterTime? text = some []

/-- The value of a scalar without quotes. -/
def scalar? (text : List Char) : Option Value :=
  if text = "true".toList then some (.boolean true)
  else if text = "false".toList then some (.boolean false)
  else
    match integer? text with
    | some n => some (.integer n)
    | none =>
      if isFloat text then some (.float (String.ofList text))
      else if isDatetime text then some (.datetime (String.ofList text))
      else none

end ClassAtlas.Toml
