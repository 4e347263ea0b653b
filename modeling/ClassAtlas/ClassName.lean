import ClassAtlas.Text.Split

/-!
# Class names

A dotted name such as `com.example.Outer$Inner` has a package, which ends at the last dot, and a
simple part after it. Class files and archives write slashes for the dots.
-/

namespace ClassAtlas.ClassName

/-- An internal name (`java/lang/String`) with dots for slashes. -/
def dotted (name : List Char) : List Char :=
  name.map fun c => if c = '/' then '.' else c

/-- A dotted name with slashes for dots. -/
def slashed (name : List Char) : List Char :=
  name.map fun c => if c = '.' then '/' else c

theorem slashed_dotted {name : List Char} (h : '.' ∉ name) : slashed (dotted name) = name := by
  induction name with
  | nil => rfl
  | cons c name ih =>
    simp only [List.mem_cons, not_or] at h
    have hc : c ≠ '.' := fun e => h.1 e.symm
    by_cases hs : c = '/' <;> simp_all [slashed, dotted]

/-- The package of a class; empty for the default package. -/
def package (name : String) : String :=
  match splitAtLast '.' name.toList with
  | some (before, _) => String.ofList before
  | none => ""

/-- What follows the package. -/
def simplePart (name : String) : String :=
  match splitAtLast '.' name.toList with
  | some (_, after) => String.ofList after
  | none => name

/-- The name as source code has it. Inside an enclosing class, the prefix that repeats the
enclosing name falls away with its `$`, and so do digits in front: an anonymous class has the
empty name. -/
def simple (name : String) (enclosing? : Option String) : String :=
  let part := simplePart name
  match enclosing? with
  | none => part
  | some enclosing =>
    match ((simplePart enclosing).toList ++ ['$']).isPrefixOf? part.toList with
    | some rest => String.ofList (rest.dropWhile Char.isDigit)
    | none => part

end ClassAtlas.ClassName
