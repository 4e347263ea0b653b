import ClassAtlas.Environment
import ClassAtlas.Settings
import ClassAtlas.Text.Split

/-!
# Settings from variables

Six settings have a variable. The variables of one family share the start of their names, so that
several programs can be set apart. Blanks around a flag or a number do not count.
-/

namespace ClassAtlas

namespace Environment

/-- The variable of a family for one setting. -/
def settingName (family key : String) : String := family ++ "_" ++ key

def setting? (environment : Environment) (family key : String) : Option String :=
  environment.get? (settingName family key)

/-- The settings that have a variable. -/
def settingKeys : List String :=
  ["CLASSPATH", "JAVA_HOME", "EXCLUDE", "WORKER_THREADS", "EXCLUDE_TESTS", "PARALLEL"]

/-- Whether a variable of the family is set at all. -/
def hasSettings (environment : Environment) (family : String) : Bool :=
  settingKeys.any fun key => (environment.setting? family key).isSome

end Environment

/-- The number of a text of digits, with a plus sign in front or none. Counts have 64 bits. -/
def countOfText? (text : List Char) : Option Nat :=
  let digits := (['+'].isPrefixOf? text).getD text
  if digits.isEmpty || !digits.all Char.isDigit then none
  else
    let count := Nat.ofDigitChars 10 digits 0
    if count < 0x10000000000000000 then some count else none

/-- The meaning of a word for yes or no, in lower case. -/
def flagOfText? (word : String) : Option Bool :=
  if ["1", "true", "yes", "on"].contains word then some true
  else if ["0", "false", "no", "off"].contains word then some false
  else none

/-- The parts between commas, without blanks around them and without empty parts. -/
def patternsOfText (text : String) : List String :=
  ((text.toList.splitOn ',').map fun part => String.ofList (trimBlanks part)).filter (· ≠ "")

namespace Environment

/-- A flag of the family, if it is set. -/
def flag (environment : Environment) (family key : String) : Except ImportError (Option Bool) :=
  match environment.setting? family key with
  | none => .ok none
  | some text =>
    let word := String.ofList ((trimBlanks text.toList).map Char.toLower)
    match flagOfText? word with
    | some value => .ok (some value)
    | none =>
      .error (.config (settingName family key ++ " must be a boolean, got '" ++ word ++ "'"))

/-- The number of workers, if it is set. -/
def workerThreads (environment : Environment) (family : String) :
    Except ImportError (Option Nat) :=
  match environment.setting? family "WORKER_THREADS" with
  | none => .ok none
  | some text =>
    match countOfText? (trimBlanks text.toList) with
    | some count => .ok (some count)
    | none =>
      .error (.config (settingName family "WORKER_THREADS" ++
        " must be a positive number, got '" ++ text ++ "'"))

end Environment

/-- The settings of the variables of a family. -/
def PartialSettings.ofEnvironment (environment : Environment) (family : String) :
    Except ImportError PartialSettings := do
  let workerThreads ← environment.workerThreads family
  let excludeTests ← environment.flag family "EXCLUDE_TESTS"
  let parallel ← environment.flag family "PARALLEL"
  return {
    classpath := (environment.setting? family "CLASSPATH").map pathsOfList
    javaHome := (environment.setting? family "JAVA_HOME").map Path.mk
    excludePatterns := (environment.setting? family "EXCLUDE").map patternsOfText
    workerThreads, excludeTests, parallel }

end ClassAtlas
