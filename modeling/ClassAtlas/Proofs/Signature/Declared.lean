import ClassAtlas.Proofs.Signature.Written
import Mathlib.Data.List.Chain

/-!
# The grammar of generic declarations

`ClassSignature.Written` and `MethodSignature.Written` say which texts stand for which declarations.
Nothing marks where the last bound of a type parameter ends and the name of the next one begins, so
that the reader goes on for as long as a colon follows.

A parameter may have no bound at all: then a single colon stands in front of the next name. The
reader takes that name for a bound if a reference type could start with its first letter. A list of
parameters is `TypeParameter.Clear` if this happens nowhere in it.

* `parse_written`: a declaration with a clear list is read as it is written;
* `clear_of_parse`: its type parameters come out as they are written only if the list is clear;
* `Signature.unbounded_parameters`: both, of classes and of methods.
-/

namespace ClassAtlas

open Scan (Reads ReadsBefore)

namespace TypeSignature

theorem JavaForm.reads_written {text : List Char} {type : TypeSignature}
    (h : JavaForm ReferenceWritten text type) :
    Reads (scanJavaType TypeSignature.reference) text type :=
  JavaForm.reads (h.imp fun _ _ written _ => taken_of_written written)

theorem ClassForm.reads_written {text : List Char} {type : TypeSignature}
    (h : ClassForm ReferenceWritten text type) : Reads (scanClassType reference) text type :=
  ClassForm.reads (h.imp fun _ _ written _ => taken_of_written written)

/-- No type is taken for the end of a list of parameters, nor for `void`. -/
theorem JavaForm.opens {text : List Char} {type : TypeSignature}
    (h : JavaForm ReferenceWritten text type) : ∃ c more, text = c :: more ∧ c ≠ ')' ∧ c ≠ 'V' := by
  cases h with
  | base type => exact ⟨type.tag, [], rfl, by cases type <;> decide⟩
  | reference h =>
    obtain ⟨c, more, shape, letter⟩ := h.starts
    exact ⟨c, more, shape, by rcases letter with rfl | rfl | rfl <;> decide⟩

theorem ClassForm.opens {Reference : List Char → TypeSignature → Prop} {text : List Char}
    {type : TypeSignature} (h : ClassForm Reference text type) : ∃ more, text = 'L' :: more := by
  cases h with
  | mk => exact ⟨_, rfl⟩

end TypeSignature

open TypeSignature (ReferenceWritten ClassForm JavaForm)

namespace TypeParameter

/-! ## Bounds -/

/-- Each text behind a colon. -/
def colons (texts : List (List Char)) : List Char := (texts.map (':' :: ·)).flatten

/-- The text stands for the bounds of a parameter: its class bound, if it has one, behind a colon
that is there in any case, and each interface behind a further colon. -/
inductive BoundsWritten : List Char → List TypeSignature → Prop
  | classBound {text : List Char} {first : TypeSignature} {texts : List (List Char)}
    {others : List TypeSignature} (h : ReferenceWritten text first)
    (each : List.Forall₂ ReferenceWritten texts others) :
    BoundsWritten (':' :: (text ++ colons texts)) (first :: others)
  | interfaces {texts : List (List Char)} {bounds : List TypeSignature}
    (each : List.Forall₂ ReferenceWritten texts bounds) :
    BoundsWritten (':' :: colons texts) bounds

theorem length_le_length_colons (texts : List (List Char)) :
    texts.length ≤ (colons texts).length := by
  induction texts with
  | nil => exact Nat.le_refl _
  | cons text texts ih =>
    simp only [colons, List.map_cons, List.flatten_cons, List.length_append,
      List.length_cons] at ih ⊢
    omega

theorem scanInterfaceBounds_colon (fuel : Nat) (s : List Char) :
    scanInterfaceBounds (fuel + 1) (':' :: s) =
      (TypeSignature.reference >>= fun first => scanInterfaceBounds fuel >>= fun others =>
        pure (first :: others)) s := rfl

theorem scanInterfaceBounds_other (fuel : Nat) {c : Char} (other : c ≠ ':') (s : List Char) :
    scanInterfaceBounds (fuel + 1) (c :: s) = some ([], c :: s) := by
  show (if c = ':' then _ else pure [] : Scan (List TypeSignature)) (c :: s) = _
  rw [if_neg other]
  rfl

theorem interfaceBounds_eq {texts : List (List Char)} {bounds : List TypeSignature}
    (each : List.Forall₂ ReferenceWritten texts bounds) {fuel : Nat} (enough : texts.length < fuel)
    {c : Char} (other : c ≠ ':') (rest : List Char) :
    scanInterfaceBounds fuel (colons texts ++ c :: rest) = some (bounds, c :: rest) := by
  induction each generalizing fuel with
  | nil =>
    obtain ⟨fewer, rfl⟩ := Nat.exists_eq_add_of_lt enough
    exact scanInterfaceBounds_other _ other rest
  | @cons text bound texts bounds first _ ih =>
    obtain ⟨fewer, rfl⟩ := Nat.exists_eq_succ_of_ne_zero (Nat.ne_of_gt (Nat.zero_lt_of_lt enough))
    have read := TypeSignature.reads_reference first (colons texts ++ c :: rest)
    have next := ih (Nat.lt_of_succ_lt_succ enough)
    have split : colons (text :: texts) ++ c :: rest =
        ':' :: (text ++ (colons texts ++ c :: rest)) := by
      simp [colons]
    rw [split, scanInterfaceBounds_colon, Scan.bind_of_eq_some read, Scan.bind_of_eq_some next]
    rfl

/-- What is read once it is clear whether there is a class bound. -/
def boundsBehind (name : List Char) (classBound : List TypeSignature) : Scan TypeParameter := do
  let interfaceBounds ← fun s => scanInterfaceBounds s.length s
  return { name := String.ofList name, bounds := classBound ++ interfaceBounds }

/-- The remaining bounds, in front of anything but a further one. -/
theorem boundsBehind_eq {name : List Char} {bounds others : List TypeSignature}
    {texts : List (List Char)} (each : List.Forall₂ ReferenceWritten texts others) {c : Char}
    (other : c ≠ ':') (rest : List Char) :
    boundsBehind name bounds (colons texts ++ c :: rest) =
      some ({ name := String.ofList name, bounds := bounds ++ others }, c :: rest) := by
  have few := length_le_length_colons texts
  have enough : texts.length < (colons texts ++ c :: rest).length := by
    simp only [List.length_append, List.length_cons]
    omega
  have last : (fun s => scanInterfaceBounds s.length s : Scan (List TypeSignature))
      (colons texts ++ c :: rest) = some (others, c :: rest) :=
    interfaceBounds_eq each enough other rest
  exact Scan.bind_of_eq_some last

/-! ## Parameters -/

/-- A name that ends at its colon and is not taken for the end of the list. Every identifier is
one: it is not empty, and none of `. ; [ / < > :` is in it. -/
structure IsName (name : List Char) : Prop where
  nonempty : name ≠ []
  unended : ':' ∉ name
  apart : name.head? ≠ some '>'

/-- The text declares the parameter. -/
inductive Declared : List Char → TypeParameter → Prop
  | mk {name text : List Char} {bounds : List TypeSignature} (named : IsName name)
    (bounded : BoundsWritten text bounds) :
    Declared (name ++ text) { name := String.ofList name, bounds }

/-- Parameters in angle brackets; nothing if there are none. -/
inductive ListDeclared : List Char → List TypeParameter → Prop
  | nothing : ListDeclared [] []
  | brackets {texts : List (List Char)} {parameters : List TypeParameter} (filled : parameters ≠ [])
    (each : List.Forall₂ Declared texts parameters) :
    ListDeclared ('<' :: (texts.flatten ++ ['>'])) parameters

theorem scan_name {name : List Char} (named : IsName name) {c : Char} (s : List Char) :
    scan (name ++ ':' :: c :: s) =
      (if c ∈ ['L', 'T', '['] then
        (TypeSignature.reference >>= fun bound => pure [bound]) >>= boundsBehind name
      else pure [] >>= boundsBehind name) (c :: s) := by
  have word : Scan.word [':'] (name ++ ':' :: c :: s) = _ :=
    Scan.word_eq (.single named.nonempty named.unended) (List.mem_singleton_self _)
  exact (Scan.bind_of_eq_some word).trans rfl

section Scanning

variable {text : List Char} {parameter : TypeParameter} {c : Char}

/-- A parameter is read in front of anything but a further bound. If it has no bound, what follows
must not look like one. -/
theorem Declared.scan_eq (h : Declared text parameter) (other : c ≠ ':')
    (clear : parameter.bounds = [] → c ∉ ['L', 'T', '[']) (rest : List Char) :
    scan (text ++ c :: rest) = some (parameter, c :: rest) := by
  cases h with
  | @mk name _ _ named bounded =>
    cases bounded with
    | @classBound text first texts others written each =>
      obtain ⟨d, more, rfl, letter⟩ := written.starts
      have starts : d ∈ ['L', 'T', '['] := by simpa using letter
      have read := ((TypeSignature.reads_reference written).map fun bound => [bound])
        (colons texts ++ c :: rest)
      have split : name ++ ':' :: (d :: more ++ colons texts) ++ c :: rest =
          name ++ ':' :: d :: (more ++ (colons texts ++ c :: rest)) := by
        simp
      rw [List.cons_append] at read
      rw [split, scan_name named, if_pos starts, Scan.bind_of_eq_some read,
        boundsBehind_eq each other]
      rfl
    | @interfaces texts bounds each =>
      -- Behind the colon stands the colon of an interface, or what follows the parameter.
      have ahead : ∃ d more, colons texts ++ c :: rest = d :: more ∧ d ∉ ['L', 'T', '['] := by
        cases each with
        | nil => exact ⟨c, rest, rfl, clear rfl⟩
        | cons => exact ⟨':', _, rfl, by decide⟩
      obtain ⟨d, more, shape, starts⟩ := ahead
      have last : boundsBehind name [] (colons texts ++ c :: rest) = _ :=
        boundsBehind_eq each other rest
      rw [List.append_assoc, List.cons_append, shape, scan_name named, if_neg starts, ← shape]
      exact last

/-- In front of what looks like a bound, a parameter without bounds is read with one. -/
theorem Declared.clear_of_scan (h : Declared text parameter) {rest left : List Char}
    (read : scan (text ++ c :: rest) = some (parameter, left)) :
    parameter.bounds = [] → c ∉ ['L', 'T', '['] := by
  intro unbounded starts
  cases h with
  | @mk name _ _ named bounded =>
    cases bounded with
    | classBound => cases unbounded
    | interfaces each =>
      cases unbounded
      cases each
      have shape : name ++ ':' :: colons [] ++ c :: rest = name ++ ':' :: c :: rest := by
        simp [colons]
      rw [shape, scan_name named, if_pos starts] at read
      obtain ⟨classBound, _, bound, read⟩ := Scan.bind_eq_some read
      obtain ⟨first, _, _, bound⟩ := Scan.bind_eq_some bound
      obtain ⟨rfl, rfl⟩ := Scan.pure_eq_some bound
      obtain ⟨interfaces, _, _, read⟩ := Scan.bind_eq_some read
      obtain ⟨same, rfl⟩ := Scan.pure_eq_some read
      cases congrArg TypeParameter.bounds same

end Scanning

/-! ## Lists of parameters -/

/-- No parameter without bounds stands in front of one whose name starts as a reference type
does. -/
def Clear (parameters : List TypeParameter) : Prop :=
  parameters.IsChain fun parameter next =>
    parameter.bounds = [] → ¬ TypeSignature.Starts next.name.toList

/-- Where every parameter has a bound, no name can be taken for one. -/
theorem clear_of_bounded {parameters : List TypeParameter}
    (h : ∀ parameter ∈ parameters, parameter.bounds ≠ []) : Clear parameters := by
  induction parameters with
  | nil => exact .nil
  | cons parameter others ih =>
    rw [List.forall_mem_cons] at h
    exact List.isChain_cons.mpr ⟨fun _ _ unbounded => absurd unbounded h.1, ih h.2⟩

section Lists

variable {texts : List (List Char)} {parameters : List TypeParameter}

theorem Declared.opens {text : List Char} {parameter : TypeParameter}
    (h : Declared text parameter) : ∃ c more, text = c :: more ∧ c ≠ ':' ∧ c ≠ '>' ∧
      (c ∈ ['L', 'T', '['] ↔ TypeSignature.Starts parameter.name.toList) := by
  cases h with
  | @mk name _ _ named _ =>
    obtain ⟨c, more, rfl⟩ := List.exists_cons_of_ne_nil named.nonempty
    refine ⟨c, _, rfl, ?_, ?_, ?_⟩
    · rintro rfl
      exact named.unended List.mem_cons_self
    · rintro rfl
      exact named.apart rfl
    · simp [TypeSignature.Starts]

/-- What stands in front of the rest of a list: the next name, or the closing bracket. -/
theorem exists_front (each : List.Forall₂ Declared texts parameters) (rest : List Char) :
    ∃ c more, texts.flatten ++ '>' :: rest = c :: more ∧ c ≠ ':' ∧
      (c ∈ ['L', 'T', '['] ↔
        ∃ next ∈ parameters.head?, TypeSignature.Starts next.name.toList) := by
  cases each with
  | nil => exact ⟨'>', rest, rfl, by decide, by simp⟩
  | cons first _ =>
    obtain ⟨c, more, rfl, other, _, starts⟩ := first.opens
    exact ⟨c, _, rfl, other, by simpa using starts⟩

/-- A parameter is told apart from the rest of the list exactly if it is clear of the next one. -/
theorem clear_cons_iff {parameter : TypeParameter} {c : Char}
    (starts : c ∈ ['L', 'T', '['] ↔
      ∃ next ∈ parameters.head?, TypeSignature.Starts next.name.toList) :
    Clear (parameter :: parameters) ↔
      (parameter.bounds = [] → c ∉ ['L', 'T', '[']) ∧ Clear parameters := by
  rw [Clear, List.isChain_cons, starts]
  refine and_congr_left fun _ => ⟨fun h unbounded => ?_, fun h next there unbounded => ?_⟩
  · rintro ⟨next, there, type⟩
    exact h next there unbounded type
  · exact fun type => h unbounded ⟨next, there, type⟩

/-- The induction is on the parameters. In front of each stands a list that is read as a whole. -/
theorem upToWithin_declared (each : List.Forall₂ Declared texts parameters)
    (clear : Clear parameters) {bound : Nat} (enough : texts.length < bound) (rest : List Char) :
    Scan.upToWithin '>' scan bound (texts.flatten ++ '>' :: rest) = some (parameters, rest) := by
  induction each generalizing bound with
  | nil =>
    obtain ⟨fewer, rfl⟩ := Nat.exists_eq_succ_of_ne_zero (Nat.ne_of_gt enough)
    exact Scan.upToWithin_close fewer rest
  | @cons text parameter texts parameters first others ih =>
    obtain ⟨fewer, rfl⟩ := Nat.exists_eq_succ_of_ne_zero (Nat.ne_of_gt (Nat.zero_lt_of_lt enough))
    obtain ⟨d, left, shape, other, starts⟩ := exists_front others rest
    obtain ⟨own, clear⟩ := (clear_cons_iff starts).mp clear
    have read := first.scan_eq other own left
    have next := ih clear (Nat.lt_of_succ_lt_succ enough)
    obtain ⟨c, more, rfl, _, unclosed, _⟩ := first.opens
    rw [List.flatten_cons, List.append_assoc, List.cons_append, Scan.upToWithin_item unclosed,
      shape, ← List.cons_append, Scan.bind_of_eq_some read, ← shape, Scan.bind_of_eq_some next]
    rfl

/-- The first parameter that is not clear of the next one would come out with a bound. -/
theorem clear_of_upToWithin (each : List.Forall₂ Declared texts parameters) {bound : Nat}
    {rest left : List Char}
    (h : Scan.upToWithin '>' scan bound (texts.flatten ++ '>' :: rest) = some (parameters, left)) :
    Clear parameters := by
  induction each generalizing bound with
  | nil => exact .nil
  | @cons text parameter texts parameters first others ih =>
    cases bound with
    | zero => cases h
    | succ bound =>
      obtain ⟨d, behind, shape, other, starts⟩ := exists_front others rest
      obtain ⟨c, more, whole, _, unclosed, _⟩ := first.opens
      rw [List.flatten_cons, List.append_assoc, whole, List.cons_append,
        Scan.upToWithin_item unclosed, shape, ← List.cons_append, ← whole] at h
      obtain ⟨found, middle, read, h⟩ := Scan.bind_eq_some h
      obtain ⟨listed, _, next, h⟩ := Scan.bind_eq_some h
      obtain ⟨same, rfl⟩ := Scan.pure_eq_some h
      cases same
      have own := first.clear_of_scan read
      rw [first.scan_eq other own behind] at read
      cases read
      rw [← shape] at next
      exact (clear_cons_iff starts).mpr ⟨own, ih next⟩

theorem ListDeclared.reads {text : List Char} (h : ListDeclared text parameters)
    (clear : Clear parameters) : ReadsBefore (· ≠ '<') scanList text parameters := by
  intro c rest other
  cases h with
  | nothing =>
    show scanList (c :: rest) = some ([], c :: rest)
    unfold scanList
    split
    next same => exact absurd (List.cons.inj same).1 other
    next => rfl
  | @brackets texts _ filled each =>
    obtain ⟨first, others, rfl⟩ := List.exists_cons_of_ne_nil filled
    have few : texts.length ≤ texts.flatten.length := by
      apply Scan.length_le_length_flatten _ each
      intro text parameter (h : Declared text parameter)
      obtain ⟨c, more, rfl, _⟩ := h.opens
      exact List.cons_ne_nil c more
    have enough : texts.length < (texts.flatten ++ '>' :: c :: rest).length := by
      simp only [List.length_append, List.length_cons]
      omega
    have listed : Scan.upTo '>' scan (texts.flatten ++ '>' :: c :: rest) = _ :=
      upToWithin_declared each clear enough (c :: rest)
    unfold scanList
    simp only [List.cons_append, List.append_assoc, List.nil_append, listed]

theorem ListDeclared.clear_of_scanList {text : List Char} (h : ListDeclared text parameters)
    {rest left : List Char} (read : scanList (text ++ rest) = some (parameters, left)) :
    Clear parameters := by
  cases h with
  | nothing => exact .nil
  | @brackets texts _ filled each =>
    unfold scanList at read
    simp only [List.cons_append, List.append_assoc, List.nil_append] at read
    split at read
    · cases read
    · cases read
    next _ listed =>
      cases read
      exact clear_of_upToWithin each listed

end Lists

end TypeParameter

open TypeParameter (Clear ListDeclared)

namespace ClassSignature

/-! ## Classes -/

/-- The text stands for a class: its type parameters, what it extends, and its interfaces. -/
inductive Written : List Char → ClassSignature → Prop
  | mk {front text : List Char} {typeParameters : List TypeParameter} {superclass : TypeSignature}
    {texts : List (List Char)} {interfaces : List TypeSignature}
    (declared : ListDeclared front typeParameters)
    (extended : ClassForm ReferenceWritten text superclass)
    (each : List.Forall₂ (ClassForm ReferenceWritten) texts interfaces) :
    Written (front ++ (text ++ texts.flatten)) { typeParameters, superclass, interfaces }

variable {text : List Char} {signature : ClassSignature}

theorem parse_eq (signature : String) : parse signature =
    (Scan.whole scan signature).elim (.error (.badSignature signature)) .ok := by
  unfold parse
  cases Scan.whole scan signature <;> rfl

theorem parse_ofList_iff :
    parse (String.ofList text) = .ok signature ↔ scan text = some (signature, []) := by
  rw [parse_eq, Scan.elim_eq_ok_iff, Scan.whole_eq_some_iff, String.toList_ofList]

/-- A class is read as it is written, if no type parameter is taken for a bound. -/
theorem parse_written (h : Written text signature) (clear : Clear signature.typeParameters) :
    parse (String.ofList text) = .ok signature := by
  rw [parse_ofList_iff]
  cases h with
  | @mk front text _ _ texts _ declared extended each =>
    obtain ⟨more, shape⟩ := extended.opens
    have parameters := declared.reads clear 'L' (more ++ texts.flatten) (by decide)
    rw [← List.cons_append, ← shape] at parameters
    have superclass := extended.reads_written texts.flatten
    have interfaces := Scan.toEnd_flatten (each.imp fun text type form => by
      obtain ⟨more, shape⟩ := form.opens
      exact And.intro (shape ▸ List.cons_ne_nil 'L' more) form.reads_written)
    refine (Scan.bind_of_eq_some parameters).trans ((Scan.bind_of_eq_some superclass).trans ?_)
    exact Scan.bind_of_eq_some interfaces

theorem clear_of_parse (h : Written text signature) {other : ClassSignature}
    (read : parse (String.ofList text) = .ok other)
    (same : other.typeParameters = signature.typeParameters) : Clear signature.typeParameters := by
  rw [parse_ofList_iff] at read
  obtain ⟨parameters, _, listed, read⟩ := Scan.bind_eq_some read
  obtain ⟨superclass, _, _, read⟩ := Scan.bind_eq_some read
  obtain ⟨interfaces, _, _, read⟩ := Scan.bind_eq_some read
  obtain ⟨rfl, _⟩ := Scan.pure_eq_some read
  dsimp only at same
  subst same
  cases h with
  | mk declared => exact declared.clear_of_scanList listed

end ClassSignature

namespace MethodSignature

/-! ## Methods -/

/-- The text stands for what a method returns. -/
inductive ReturnForm : List Char → TypeSignature → Prop
  | void : ReturnForm ['V'] .void
  | value {text : List Char} {type : TypeSignature} (h : JavaForm ReferenceWritten text type) :
    ReturnForm text type

/-- The text stands for a method: its type parameters, its parameters in parentheses, what it
returns, and what it throws, each behind its mark. -/
inductive Written : List Char → MethodSignature → Prop
  | mk {front text : List Char} {typeParameters : List TypeParameter}
    {texts thrown : List (List Char)} {parameters throws : List TypeSignature}
    {returnType : TypeSignature} (declared : ListDeclared front typeParameters)
    (each : List.Forall₂ (JavaForm ReferenceWritten) texts parameters)
    (returns : ReturnForm text returnType)
    (raises : List.Forall₂ ReferenceWritten thrown throws) :
    Written (front ++ '(' :: (texts.flatten ++ ')' :: (text ++ (thrown.map ('^' :: ·)).flatten)))
      { typeParameters, parameters, returnType, throws }

theorem ReturnForm.reads {text : List Char} {type : TypeSignature} (h : ReturnForm text type) :
    Reads scanReturn text type := by
  intro rest
  cases h with
  | void => rfl
  | value form =>
    have read := form.reads_written rest
    obtain ⟨c, more, rfl, -, other⟩ := form.opens
    show (if c = 'V' then _ else TypeSignature.scanJavaType TypeSignature.reference :
      Scan TypeSignature) (c :: more ++ rest) = _
    rw [if_neg other, read]

theorem reads_parameters {texts : List (List Char)} {parameters : List TypeSignature}
    (each : List.Forall₂ (JavaForm ReferenceWritten) texts parameters) :
    Reads (Scan.upTo ')' (TypeSignature.scanJavaType TypeSignature.reference))
      (texts.flatten ++ [')']) parameters := by
  have items := each.imp fun text type form =>
    show Scan.Opens (fun _ => True) ')' text ∧
        ReadsBefore (fun _ => True) (TypeSignature.scanJavaType TypeSignature.reference) text type
      from by
        obtain ⟨c, more, shape, other, -⟩ := form.opens
        exact ⟨⟨c, more, shape, trivial, other⟩, form.reads_written.before _⟩
  exact Scan.upTo_flatten trivial items

theorem scan_throws {thrown : List (List Char)} {throws : List TypeSignature}
    (raises : List.Forall₂ ReferenceWritten thrown throws) :
    Scan.toEnd scanThrows (thrown.map ('^' :: ·)).flatten = some (throws, []) := by
  apply Scan.toEnd_flatten
  rw [List.forall₂_map_left_iff]
  exact raises.imp fun text type written => ⟨List.cons_ne_nil _ _,
    (Scan.reads_expect '^').bind (TypeSignature.reads_reference written)⟩

variable {text : List Char} {signature : MethodSignature}

theorem parse_eq (signature : String) : parse signature =
    (Scan.whole scan signature).elim (.error (.badSignature signature)) .ok := by
  unfold parse
  cases Scan.whole scan signature <;> rfl

theorem parse_ofList_iff :
    parse (String.ofList text) = .ok signature ↔ scan text = some (signature, []) := by
  rw [parse_eq, Scan.elim_eq_ok_iff, Scan.whole_eq_some_iff, String.toList_ofList]

/-- A method is read as it is written, if no type parameter is taken for a bound. -/
theorem parse_written (h : Written text signature) (clear : Clear signature.typeParameters) :
    parse (String.ofList text) = .ok signature := by
  rw [parse_ofList_iff]
  cases h with
  | @mk front text _ texts thrown _ _ _ declared each returns raises =>
    have parameters := declared.reads clear '('
      (texts.flatten ++ ')' :: (text ++ (thrown.map ('^' :: ·)).flatten)) (by decide)
    have taken := reads_parameters each (text ++ (thrown.map ('^' :: ·)).flatten)
    have returned := returns.reads (thrown.map ('^' :: ·)).flatten
    rw [List.append_assoc] at taken
    refine (Scan.bind_of_eq_some parameters).trans ?_
    refine (Scan.bind_of_eq_some (Scan.reads_expect '(' _)).trans ?_
    refine (Scan.bind_of_eq_some taken).trans ((Scan.bind_of_eq_some returned).trans ?_)
    exact Scan.bind_of_eq_some (scan_throws raises)

theorem clear_of_parse (h : Written text signature) {other : MethodSignature}
    (read : parse (String.ofList text) = .ok other)
    (same : other.typeParameters = signature.typeParameters) : Clear signature.typeParameters := by
  rw [parse_ofList_iff] at read
  obtain ⟨typeParameters, _, listed, read⟩ := Scan.bind_eq_some read
  obtain ⟨_, _, _, read⟩ := Scan.bind_eq_some read
  obtain ⟨parameters, _, _, read⟩ := Scan.bind_eq_some read
  obtain ⟨returnType, _, _, read⟩ := Scan.bind_eq_some read
  obtain ⟨throws, _, _, read⟩ := Scan.bind_eq_some read
  obtain ⟨rfl, _⟩ := Scan.pure_eq_some read
  dsimp only at same
  subst same
  cases h with
  | mk declared => exact declared.clear_of_scanList listed

end MethodSignature

namespace Signature

/-! ## Parameters without bounds -/

/-- What becomes of a declaration with these type parameters, read by `parse` from its text. -/
structure ReadIfClear {α : Type} (parse : String → Except ClassFileError α)
    (typeParameters : α → List TypeParameter) (text : List Char) (signature : α) : Prop where
  /-- With a clear list, it is read as it is written. -/
  clear : Clear (typeParameters signature) → parse (String.ofList text) = .ok signature
  /-- Otherwise no type parameters come out that are those written. -/
  unclear : ¬ Clear (typeParameters signature) → ∀ other,
    parse (String.ofList text) = .ok other → typeParameters other ≠ typeParameters signature

/-- A type parameter without bounds is read as one, and what follows it as what it is, unless the
next one has a name that starts with `L`, `T` or `[`. -/
theorem unbounded_parameters (text : List Char) :
    (∀ signature, ClassSignature.Written text signature →
      ReadIfClear ClassSignature.parse ClassSignature.typeParameters text signature) ∧
    ∀ signature, MethodSignature.Written text signature →
      ReadIfClear MethodSignature.parse MethodSignature.typeParameters text signature := by
  constructor
  · intro signature written
    exact ⟨ClassSignature.parse_written written, fun unclear other read same =>
      unclear (ClassSignature.clear_of_parse written read same)⟩
  · intro signature written
    exact ⟨MethodSignature.parse_written written, fun unclear other read same =>
      unclear (MethodSignature.clear_of_parse written read same)⟩

/-- Here `T` stands behind a parameter without bounds, and is read as a bound of it. -/
example : ClassSignature.parse "<A:T:LObject;>LObject;" =
    .ok ⟨[⟨"A", [.typeVariable ":LObject"]⟩], .classType "Object" [], []⟩ := by cbv

/-- A parameter without bounds, and one behind it. -/
def pairOf (next : String) : List TypeParameter :=
  [{ name := "A", bounds := [] }, { name := next, bounds := [.classType "Object" []] }]

theorem form_object : ClassForm ReferenceWritten "LObject;".toList (.classType "Object" []) := by
  have word : Scan.IsWord ['<', '.', ';'] "Object".toList := ⟨by simp, by simp⟩
  exact TypeSignature.classForm_of_word word

theorem declared_pairOf (next : String) (named : TypeParameter.IsName next.toList) :
    ListDeclared ("<A:".toList ++ next.toList ++ ":LObject;>".toList) (pairOf next) := by
  have plain : TypeParameter.IsName ['A'] := ⟨by decide, by decide, by decide⟩
  have first : TypeParameter.Declared "A:".toList { name := "A", bounds := [] } :=
    .mk plain (.interfaces .nil)
  have second : TypeParameter.Declared (next.toList ++ ":LObject;".toList)
      { name := String.ofList next.toList, bounds := [.classType "Object" []] } :=
    .mk named (.classBound (.mk (.classType form_object)) .nil)
  rw [String.ofList_toList] at second
  have both := ListDeclared.brackets (List.cons_ne_nil _ _) (.cons first (.cons second .nil))
  simpa [pairOf] using both

theorem clear_pairOf_iff {next : String} :
    Clear (pairOf next) ↔ ¬ TypeSignature.Starts next.toList := by
  simp [pairOf, Clear]

/-- Behind a parameter without bounds, `K` is read as the parameter that it is, and `T` is not. -/
theorem unbounded_parameters_pairOf :
    ClassSignature.Written "<A:K:LObject;>LObject;".toList
      ⟨pairOf "K", .classType "Object" [], []⟩ ∧
    ClassSignature.parse "<A:K:LObject;>LObject;" =
      .ok ⟨pairOf "K", .classType "Object" [], []⟩ ∧
    MethodSignature.Written "<A:T:LObject;>()V".toList ⟨pairOf "T", [], .void, []⟩ ∧
    ∀ other, MethodSignature.parse "<A:T:LObject;>()V" = .ok other →
      other.typeParameters ≠ pairOf "T" := by
  have inClass : ClassSignature.Written "<A:K:LObject;>LObject;".toList _ :=
    .mk (declared_pairOf "K" ⟨by decide, by decide, by decide⟩) form_object .nil
  have inMethod : MethodSignature.Written "<A:T:LObject;>()V".toList _ :=
    .mk (declared_pairOf "T" ⟨by decide, by decide, by decide⟩) .nil .void .nil
  have clear : Clear (pairOf "K") := by
    rw [clear_pairOf_iff]
    simp [TypeSignature.Starts]
  have unclear : ¬ Clear (pairOf "T") := by
    rw [clear_pairOf_iff]
    simp [TypeSignature.Starts]
  exact ⟨inClass, ((unbounded_parameters _).1 _ inClass).clear clear, inMethod,
    ((unbounded_parameters _).2 _ inMethod).unclear unclear⟩

end Signature

end ClassAtlas
