import ClassAtlas.Proofs.Descriptor.Written
import ClassAtlas.Signature.Parser

/-!
# The grammar of generic types

`ReferenceWritten` says which texts stand for which generic types, without a reader. The grammar has
the one knot that the reader has: every form but the last is stated over a given relation for the
reference types inside it, and `ReferenceWritten` is the least relation that is its own form.

What is written is read (`reads_reference`), and nothing else (`shaped_reference`).
-/

namespace ClassAtlas.TypeSignature

open Scan (Reads ReadsBefore Shaped IsWord)

/-! ## The forms -/

section Forms

variable (Reference : List Char → TypeSignature → Prop)

/-- A primitive or a reference type. -/
inductive JavaForm : List Char → TypeSignature → Prop
  | base (type : Primitive) : JavaForm [type.tag] (.base type)
  | reference {text : List Char} {type : TypeSignature} (h : Reference text type) :
    JavaForm text type

/-- A wildcard, with a bound or without, or a type. -/
inductive ArgumentForm : List Char → TypeArgument → Prop
  | any : ArgumentForm ['*'] .any
  | upper {text : List Char} {bound : TypeSignature} (h : Reference text bound) :
    ArgumentForm ('+' :: text) (.upper bound)
  | lower {text : List Char} {bound : TypeSignature} (h : Reference text bound) :
    ArgumentForm ('-' :: text) (.lower bound)
  | exactly {text : List Char} {type : TypeSignature} (h : Reference text type) :
    ArgumentForm text (.exactly type)

/-- Nothing at all, or arguments in angle brackets. -/
inductive ArgumentsForm : List Char → List TypeArgument → Prop
  | none : ArgumentsForm [] []
  | some {texts : List (List Char)} {arguments : List TypeArgument} (filled : arguments ≠ [])
    (each : List.Forall₂ (ArgumentForm Reference) texts arguments) :
    ArgumentsForm ('<' :: (texts.flatten ++ ['>'])) arguments

/-- A part of the name of a class, with its arguments. -/
inductive PartForm : List Char → List Char × List TypeArgument → Prop
  | mk {name text : List Char} {arguments : List TypeArgument} (named : IsWord ['<', '.', ';'] name)
    (own : ArgumentsForm Reference text arguments) : PartForm (name ++ text) (name, arguments)

/-- A class and its inner classes, down to the one that is meant. Dots stand between them, where the
name has `$`; the arguments of all of them follow one another. -/
inductive ClassForm : List Char → TypeSignature → Prop
  | mk {text outer : List Char} {own : List TypeArgument} {texts : List (List Char)}
    {inner : List (List Char × List TypeArgument)} (first : PartForm Reference text (outer, own))
    (others : List.Forall₂ (PartForm Reference) texts inner) :
    ClassForm ('L' :: (['.'].intercalate (text :: texts) ++ [';']))
      (classType (String.ofList (['$'].intercalate (ClassName.dotted outer :: inner.map Prod.fst)))
        (own ++ inner.flatMap Prod.snd))

/-- A class type, a type variable or an array. -/
inductive ReferenceForm : List Char → TypeSignature → Prop
  | classType {text : List Char} {type : TypeSignature} (h : ClassForm Reference text type) :
    ReferenceForm text type
  | typeVariable {name : List Char} (nonempty : name ≠ []) (unended : ';' ∉ name) :
    ReferenceForm ('T' :: (name ++ [';'])) (.typeVariable (String.ofList name))
  | array {text : List Char} {element : TypeSignature} (h : JavaForm Reference text element) :
    ReferenceForm ('[' :: text) (.array element)

end Forms

/-- The text stands for the reference type. -/
inductive ReferenceWritten : List Char → TypeSignature → Prop
  | mk {text : List Char} {type : TypeSignature} (h : ReferenceForm ReferenceWritten text type) :
    ReferenceWritten text type

/-- A name alone is a class type. -/
theorem classForm_of_word {Reference : List Char → TypeSignature → Prop} {name : List Char}
    (h : Scan.IsWord ['<', '.', ';'] name) :
    ClassForm Reference ('L' :: (name ++ [';']))
      (.classType (String.ofList (ClassName.dotted name)) []) := by
  have part : PartForm Reference (name ++ []) (name, []) := .mk h .none
  have form := ClassForm.mk part .nil
  simpa [List.intercalate] using form

/-! ## Nesting -/

theorem intercalate_cons {α : Type} (mark : α) (first : List α) (others : List (List α)) :
    [mark].intercalate (first :: others) = first ++ (others.map (mark :: ·)).flatten := by
  induction others generalizing first with
  | nil => simp [List.intercalate]
  | cons second others ih =>
    have behind := ih second
    rw [List.intercalate] at behind ⊢
    rw [List.intersperse_cons_cons, List.flatten_cons, List.flatten_cons, behind]
    simp

theorem length_flatten_le_marked {α : Type} (mark : α) (texts : List (List α)) :
    texts.flatten.length ≤ (texts.map (mark :: ·)).flatten.length := by
  induction texts with
  | nil => exact Nat.le_refl _
  | cons text texts ih =>
    simp only [List.map_cons, List.flatten_cons, List.length_append, List.length_cons]
    omega

section Nesting

variable {R Q : List Char → TypeSignature → Prop} {text : List Char}

theorem forall₂_imp_of_length {α : Type} {R Q : List Char → α → Prop} {texts : List (List Char)}
    {items : List α} (each : List.Forall₂ R texts items)
    (imp : ∀ text a, R text a → text.length ≤ texts.flatten.length → Q text a) :
    List.Forall₂ Q texts items := by
  induction each with
  | nil => exact .nil
  | @cons text a texts items first _ ih =>
    simp only [List.flatten_cons, List.length_append] at imp
    refine .cons (imp text a first (Nat.le_add_right _ _)) (ih fun text a h short => ?_)
    exact imp text a h (Nat.le_trans short (Nat.le_add_left _ _))

theorem JavaForm.imp {type : TypeSignature} (h : JavaForm R text type)
    (imp : ∀ part type, R part type → part.length ≤ text.length → Q part type) :
    JavaForm Q text type := by
  cases h with
  | base type => exact .base type
  | reference h => exact .reference (imp _ _ h (Nat.le_refl _))

theorem ArgumentForm.imp {argument : TypeArgument} (h : ArgumentForm R text argument)
    (imp : ∀ part type, R part type → part.length ≤ text.length → Q part type) :
    ArgumentForm Q text argument := by
  cases h with
  | any => exact .any
  | upper h => exact .upper (imp _ _ h (Nat.le_succ _))
  | lower h => exact .lower (imp _ _ h (Nat.le_succ _))
  | exactly h => exact .exactly (imp _ _ h (Nat.le_refl _))

theorem ArgumentsForm.imp {arguments : List TypeArgument} (h : ArgumentsForm R text arguments)
    (imp : ∀ part type, R part type → part.length ≤ text.length → Q part type) :
    ArgumentsForm Q text arguments := by
  cases h with
  | none => exact .none
  | @some texts _ filled each =>
    simp only [List.length_cons, List.length_append] at imp
    refine .some filled (forall₂_imp_of_length each fun text argument h short => ?_)
    exact h.imp fun part type h shorter => imp part type h (by omega)

theorem PartForm.imp {part : List Char × List TypeArgument} (h : PartForm R text part)
    (imp : ∀ part type, R part type → part.length ≤ text.length → Q part type) :
    PartForm Q text part := by
  cases h with
  | mk named own =>
    simp only [List.length_append] at imp
    exact .mk named (own.imp fun part type h shorter => imp part type h (by omega))

theorem ClassForm.imp {type : TypeSignature} (h : ClassForm R text type)
    (imp : ∀ part type, R part type → part.length < text.length → Q part type) :
    ClassForm Q text type := by
  cases h with
  | @mk text outer own texts inner first others =>
    have longer := length_flatten_le_marked '.' texts
    simp only [intercalate_cons, List.length_cons, List.length_append] at imp
    refine .mk (first.imp fun part type h short => imp part type h (by omega))
      (forall₂_imp_of_length others fun text argument h short => ?_)
    exact h.imp fun part type h shorter => imp part type h (by omega)

/-- Whatever is inside a reference type is written in less text. -/
theorem ReferenceForm.imp {type : TypeSignature} (h : ReferenceForm R text type)
    (imp : ∀ part type, R part type → part.length < text.length → Q part type) :
    ReferenceForm Q text type := by
  cases h with
  | classType h => exact .classType (h.imp imp)
  | typeVariable nonempty unended => exact .typeVariable nonempty unended
  | array h =>
    exact .array (h.imp fun part type h short => imp part type h (Nat.lt_succ_of_le short))

end Nesting

/-- What is to be shown of a reference type may be taken to hold of those inside it. -/
theorem ReferenceWritten.induction {motive : List Char → TypeSignature → Prop}
    (step : ∀ {text type}, ReferenceForm (fun part type =>
      ReferenceWritten part type ∧ part.length < text.length ∧ motive part type) text type →
        motive text type)
    {text : List Char} {type : TypeSignature} (h : ReferenceWritten text type) :
    motive text type := by
  obtain ⟨form⟩ := h
  refine step (form.imp fun part type h shorter => ⟨h, shorter, ?_⟩)
  exact ReferenceWritten.induction step h
termination_by text.length

/-! ## What is written is read -/

/-- The first character tells a reference type from a primitive and from a wildcard. -/
def Starts (text : List Char) : Prop :=
  ∃ c more, text = c :: more ∧ (c = 'L' ∨ c = 'T' ∨ c = '[')

theorem ReferenceForm.starts {Reference : List Char → TypeSignature → Prop} {text : List Char}
    {type : TypeSignature} (h : ReferenceForm Reference text type) : Starts text := by
  cases h with
  | classType h =>
    obtain ⟨_, _⟩ := h
    exact ⟨'L', _, rfl, .inl rfl⟩
  | typeVariable => exact ⟨'T', _, rfl, .inr (.inl rfl)⟩
  | array => exact ⟨'[', _, rfl, .inr (.inr rfl)⟩

theorem ReferenceWritten.starts {text : List Char} {type : TypeSignature}
    (h : ReferenceWritten text type) : Starts text := by
  obtain ⟨form⟩ := h
  exact form.starts

/-- The text is one for a reference type, and the reader takes it. -/
structure Taken (reference : Scan TypeSignature) (text : List Char) (type : TypeSignature) :
    Prop where
  starts : Starts text
  reads : Reads reference text type

section Reading

variable {reference : Scan TypeSignature} {text : List Char}

theorem JavaForm.reads {type : TypeSignature} (h : JavaForm (Taken reference) text type) :
    Reads (scanJavaType reference) text type := by
  intro rest
  cases h with
  | base type => cases type <;> rfl
  | reference h =>
    have read := h.reads rest
    obtain ⟨c, more, rfl, letter⟩ := h.starts
    rw [← read]
    rcases letter with rfl | rfl | rfl <;> rfl

theorem ArgumentForm.reads {argument : TypeArgument}
    (h : ArgumentForm (Taken reference) text argument) :
    Reads (scanArgument reference) text argument := by
  cases h with
  | any => exact fun _ => rfl
  | upper h => exact ((Scan.reads_expect '+').bind (h.reads.map TypeArgument.upper)).peek
  | lower h => exact ((Scan.reads_expect '-').bind (h.reads.map TypeArgument.lower)).peek
  | exactly h =>
    have read := h.reads.map TypeArgument.exactly
    obtain ⟨c, more, rfl, letter⟩ := h.starts
    rcases letter with rfl | rfl | rfl <;> exact read.peek

theorem ArgumentForm.opens {argument : TypeArgument}
    (h : ArgumentForm (Taken reference) text argument) :
    Scan.Opens (fun _ => True) '>' text := by
  cases h with
  | any => exact ⟨'*', _, rfl, trivial, by decide⟩
  | upper => exact ⟨'+', _, rfl, trivial, by decide⟩
  | lower => exact ⟨'-', _, rfl, trivial, by decide⟩
  | exactly h =>
    obtain ⟨c, more, same, letter⟩ := h.starts
    exact ⟨c, more, same, trivial, by rcases letter with rfl | rfl | rfl <;> decide⟩

/-- That there are no arguments is seen from what follows the name. -/
theorem ArgumentsForm.reads {arguments : List TypeArgument}
    (h : ArgumentsForm (Taken reference) text arguments) :
    ReadsBefore (· ≠ '<') (scanArguments reference) text arguments := by
  cases h with
  | none =>
    intro c rest other
    show (if c = '<' then _ else pure [] : Scan (List TypeArgument)) (c :: rest) = _
    rw [if_neg other]
    rfl
  | @some texts _ filled each =>
    have items := each.imp fun text argument h =>
      And.intro h.opens (h.reads.before fun _ => True)
    have listed := Scan.upTo_flatten trivial items
    obtain ⟨first, others, rfl⟩ := List.exists_cons_of_ne_nil filled
    refine Reads.before (.peek (.bind (Scan.reads_expect '<') (.gives listed ?_))) _
    rfl

theorem PartForm.bind_eq {β : Type} {part : List Char × List TypeArgument}
    (h : PartForm (Taken reference) text part) {c : Char} (ends : c = '.' ∨ c = ';')
    (next : List Char → List TypeArgument → Scan β) (rest : List Char) :
    (Scan.word ['<', '.', ';'] >>= fun name => scanArguments reference >>= next name)
      (text ++ c :: rest) = next part.1 part.2 (c :: rest) := by
  cases h with
  | @mk name text arguments named own =>
    have other : c ≠ '<' := by rcases ends with rfl | rfl <;> decide
    have read := own.reads c rest other
    have stopped : ∃ stop more, text ++ c :: rest = stop :: more ∧ stop ∈ ['<', '.', ';'] := by
      cases own with
      | none => exact ⟨c, rest, rfl, by rcases ends with rfl | rfl <;> decide⟩
      | some => exact ⟨'<', _, rfl, by decide⟩
    obtain ⟨stop, more, shape, stops⟩ := stopped
    rw [shape] at read
    rw [List.append_assoc, shape, Scan.bind_of_eq_some (Scan.word_eq named stops),
      Scan.bind_of_eq_some read]

/-- An inner class as the reader has it: `$` already stands before its name. -/
def marked (part : List Char × List TypeArgument) : List Char × List TypeArgument :=
  ('$' :: part.1, part.2)

theorem PartForm.reads_inner {part : List Char × List TypeArgument}
    (h : PartForm (Taken reference) text part) :
    ReadsBefore (fun c => c = '.' ∨ c = ';') (scanInner reference) ('.' :: text) (marked part) := by
  intro c rest ends
  have opened := Scan.reads_expect '.' (text ++ c :: rest)
  exact (Scan.bind_of_eq_some opened).trans (h.bind_eq ends _ rest)

theorem joined_eq (outer : List Char) (inner : List (List Char × List TypeArgument)) :
    ['$'].intercalate (outer :: inner.map Prod.fst) =
      outer ++ (inner.map marked).flatMap Prod.fst := by
  rw [intercalate_cons, List.flatMap_def, List.map_map, List.map_map]
  rfl

theorem flatMap_marked (inner : List (List Char × List TypeArgument)) :
    (inner.map marked).flatMap Prod.snd = inner.flatMap Prod.snd := by
  rw [List.flatMap_map]
  rfl

theorem ClassForm.reads {type : TypeSignature} (h : ClassForm (Taken reference) text type) :
    Reads (scanClassType reference) text type := by
  cases h with
  | @mk text outer own texts inner first others =>
    intro rest
    have items : List.Forall₂ (fun text part =>
        Scan.Opens (fun c => c = '.' ∨ c = ';') ';' text ∧
          ReadsBefore (fun c => c = '.' ∨ c = ';') (scanInner reference) text part)
        (texts.map ('.' :: ·)) (inner.map marked) := by
      rw [List.forall₂_map_left_iff, List.forall₂_map_right_iff]
      exact others.imp fun text part h =>
        ⟨⟨'.', text, rfl, .inl rfl, by decide⟩, h.reads_inner⟩
    have listed := Scan.upTo_flatten (.inr rfl) items rest
    have stopped : ∃ c more, (texts.map ('.' :: ·)).flatten ++ [';'] ++ rest = c :: more ∧
        (c = '.' ∨ c = ';') := by
      cases texts with
      | nil => exact ⟨';', rest, rfl, .inr rfl⟩
      | cons => exact ⟨'.', _, rfl, .inl rfl⟩
    obtain ⟨c, more, shape, ends⟩ := stopped
    rw [shape] at listed
    have opened := Scan.reads_expect 'L' (text ++ c :: more)
    have whole : 'L' :: (['.'].intercalate (text :: texts) ++ [';']) ++ rest =
        ['L'] ++ (text ++ c :: more) := by
      rw [intercalate_cons, ← shape]
      simp only [List.cons_append, List.append_assoc, List.nil_append]
    rw [whole, joined_eq, ← flatMap_marked]
    refine (Scan.bind_of_eq_some opened).trans ((first.bind_eq ends _ more).trans ?_)
    exact Scan.bind_of_eq_some listed

theorem ReferenceForm.reads {type : TypeSignature} (h : ReferenceForm (Taken reference) text type) :
    Reads (scanReferenceType reference) text type := by
  cases h with
  | classType h =>
    have read := h.reads
    obtain ⟨_, _⟩ := h
    exact read.peek
  | @typeVariable name nonempty unended =>
    have ending := (Scan.reads_expect ';').map fun _ =>
      TypeSignature.typeVariable (String.ofList name)
    refine .peek (.bind (Scan.reads_expect 'T') (.word ?_ (List.mem_singleton_self _) ending))
    exact .single nonempty unended
  | array h => exact .peek (.bind (Scan.reads_expect '[') (h.reads.map TypeSignature.array))

end Reading

/-- Each level of nesting takes a character, so that the length of the text is depth enough. -/
theorem reads_within {text : List Char} {type : TypeSignature} (h : ReferenceWritten text type)
    (depth : Nat) (enough : text.length ≤ depth) : Reads (referenceWithin depth) text type := by
  refine ReferenceWritten.induction (motive := fun text type =>
    ∀ depth, text.length ≤ depth → Reads (referenceWithin depth) text type) ?_ h depth enough
  intro text type form depth enough
  obtain ⟨c, more, rfl, -⟩ := form.starts
  cases depth with
  | zero => exact absurd enough (Nat.not_succ_le_zero _)
  | succ depth =>
    have inside : ReferenceForm (Taken (referenceWithin depth)) (c :: more) type := by
      refine form.imp fun part type h _ => ⟨h.1.starts, h.2.2 depth ?_⟩
      exact Nat.le_of_lt_succ (Nat.lt_of_lt_of_le h.2.1 enough)
    exact inside.reads

theorem reads_reference {text : List Char} {type : TypeSignature} (h : ReferenceWritten text type) :
    Reads reference text type := by
  intro rest
  refine reads_within h (text ++ rest).length ?_ rest
  rw [List.length_append]
  exact Nat.le_add_right _ _

theorem taken_of_written {text : List Char} {type : TypeSignature}
    (h : ReferenceWritten text type) : Taken reference text type := ⟨h.starts, reads_reference h⟩

/-! ## What is read is written -/

section Shapes

variable {reference : Scan TypeSignature} {Reference : List Char → TypeSignature → Prop}

theorem shaped_java (shaped : Shaped reference Reference) :
    Shaped (scanJavaType reference) (JavaForm Reference) := by
  intro s rest type read
  cases s with
  | nil => cases read
  | cons c more =>
    unfold scanJavaType at read
    cases tagged : Primitive.ofTag? c with
    | some p =>
      simp only [tagged, Option.some.injEq, Prod.mk.injEq] at read
      obtain ⟨rfl, rfl⟩ := read
      rw [Primitive.ofTag?_eq_some_iff.mp tagged]
      exact ⟨[p.tag], rfl, .base p⟩
    | none =>
      simp only [tagged] at read
      obtain ⟨text, split, form⟩ := shaped read
      exact ⟨text, split, .reference form⟩

theorem shaped_argument (shaped : Shaped reference Reference) :
    Shaped (scanArgument reference) (ArgumentForm Reference) := by
  intro s rest argument read
  obtain ⟨c, more, rfl, looked⟩ := Scan.peek_bind_eq_some read
  split at looked
  · obtain ⟨_, _, opened, looked⟩ := Scan.bind_eq_some looked
    obtain ⟨rfl, rfl⟩ := Scan.pure_eq_some looked
    rw [Scan.expect_eq_some opened]
    exact ⟨['*'], rfl, .any⟩
  · obtain ⟨_, _, opened, looked⟩ := Scan.bind_eq_some looked
    obtain ⟨bound, _, bounded, looked⟩ := Scan.bind_eq_some looked
    obtain ⟨rfl, rfl⟩ := Scan.pure_eq_some looked
    obtain ⟨text, rfl, form⟩ := shaped bounded
    rw [Scan.expect_eq_some opened]
    exact ⟨'+' :: text, rfl, .upper form⟩
  · obtain ⟨_, _, opened, looked⟩ := Scan.bind_eq_some looked
    obtain ⟨bound, _, bounded, looked⟩ := Scan.bind_eq_some looked
    obtain ⟨rfl, rfl⟩ := Scan.pure_eq_some looked
    obtain ⟨text, rfl, form⟩ := shaped bounded
    rw [Scan.expect_eq_some opened]
    exact ⟨'-' :: text, rfl, .lower form⟩
  · obtain ⟨type, _, meant, looked⟩ := Scan.bind_eq_some looked
    obtain ⟨rfl, rfl⟩ := Scan.pure_eq_some looked
    obtain ⟨text, split, form⟩ := shaped meant
    exact ⟨text, split, .exactly form⟩

theorem shaped_arguments (shaped : Shaped reference Reference) :
    Shaped (scanArguments reference) (ArgumentsForm Reference) := by
  intro s rest arguments read
  obtain ⟨c, more, rfl, looked⟩ := Scan.peek_bind_eq_some read
  by_cases bracket : c = '<'
  · rw [if_pos bracket] at looked
    obtain ⟨_, _, opened, looked⟩ := Scan.bind_eq_some looked
    obtain ⟨found, _, listed, looked⟩ := Scan.bind_eq_some looked
    cases found with
    | nil => cases looked
    | cons first others =>
      obtain ⟨rfl, rfl⟩ := Scan.pure_eq_some looked
      obtain ⟨_, rfl, texts, rfl, each⟩ := Scan.shaped_upTo (shaped_argument shaped) listed
      rw [Scan.expect_eq_some opened]
      exact ⟨_, rfl, .some (List.cons_ne_nil _ _) each⟩
  · rw [if_neg bracket] at looked
    obtain ⟨rfl, rfl⟩ := Scan.pure_eq_some looked
    exact ⟨[], rfl, .none⟩

theorem shaped_part (shaped : Shaped reference Reference) {s middle rest name : List Char}
    {arguments : List TypeArgument}
    (named : Scan.word ['<', '.', ';'] s = some (name, middle))
    (own : scanArguments reference middle = some (arguments, rest)) :
    ∃ text, s = text ++ rest ∧ PartForm Reference text (name, arguments) := by
  obtain ⟨rfl, word, -⟩ := Scan.word_eq_some named
  obtain ⟨text, rfl, form⟩ := shaped_arguments shaped own
  exact ⟨name ++ text, (List.append_assoc _ _ _).symm, .mk word form⟩

theorem shaped_inner (shaped : Shaped reference Reference) :
    Shaped (scanInner reference) fun text found => ∃ behind part,
      text = '.' :: behind ∧ found = marked part ∧ PartForm Reference behind part := by
  intro s rest found read
  obtain ⟨_, _, opened, read⟩ := Scan.bind_eq_some read
  obtain ⟨name, _, named, read⟩ := Scan.bind_eq_some read
  obtain ⟨arguments, _, own, read⟩ := Scan.bind_eq_some read
  obtain ⟨rfl, rfl⟩ := Scan.pure_eq_some read
  obtain ⟨text, rfl, form⟩ := shaped_part shaped named own
  rw [Scan.expect_eq_some opened]
  exact ⟨'.' :: text, rfl, text, (name, arguments), rfl, rfl, form⟩

/-- The inner classes of a row, with the dots and the marks taken off. -/
theorem exists_parts {texts : List (List Char)} {found : List (List Char × List TypeArgument)}
    (each : List.Forall₂ (fun text found => ∃ behind part,
      text = '.' :: behind ∧ found = marked part ∧ PartForm Reference behind part) texts found) :
    ∃ behind inner, texts = behind.map ('.' :: ·) ∧ found = inner.map marked ∧
      List.Forall₂ (PartForm Reference) behind inner := by
  induction each with
  | nil => exact ⟨[], [], rfl, rfl, .nil⟩
  | cons first _ ih =>
    obtain ⟨text, part, rfl, rfl, form⟩ := first
    obtain ⟨behind, inner, rfl, rfl, forms⟩ := ih
    exact ⟨text :: behind, part :: inner, rfl, rfl, .cons form forms⟩

theorem shaped_class (shaped : Shaped reference Reference) :
    Shaped (scanClassType reference) (ClassForm Reference) := by
  intro s rest type read
  obtain ⟨_, _, opened, read⟩ := Scan.bind_eq_some read
  obtain ⟨outer, _, named, read⟩ := Scan.bind_eq_some read
  obtain ⟨arguments, _, own, read⟩ := Scan.bind_eq_some read
  obtain ⟨found, _, listed, read⟩ := Scan.bind_eq_some read
  obtain ⟨rfl, rfl⟩ := Scan.pure_eq_some read
  obtain ⟨text, rfl, first⟩ := shaped_part shaped named own
  obtain ⟨_, rfl, texts, rfl, each⟩ := Scan.shaped_upTo (shaped_inner shaped) listed
  obtain ⟨behind, inner, rfl, rfl, others⟩ := exists_parts each
  rw [Scan.expect_eq_some opened, flatMap_marked, ← joined_eq]
  refine ⟨_, ?_, .mk first others⟩
  rw [intercalate_cons]
  simp only [List.cons_append, List.append_assoc]

theorem shaped_form (shaped : Shaped reference Reference) :
    Shaped (scanReferenceType reference) (ReferenceForm Reference) := by
  intro s rest type read
  obtain ⟨c, more, rfl, looked⟩ := Scan.peek_bind_eq_some read
  split at looked
  · obtain ⟨text, split, form⟩ := shaped_class shaped looked
    exact ⟨text, split, .classType form⟩
  · obtain ⟨_, _, opened, looked⟩ := Scan.bind_eq_some looked
    obtain ⟨name, _, named, looked⟩ := Scan.bind_eq_some looked
    obtain ⟨_, _, ended, looked⟩ := Scan.bind_eq_some looked
    obtain ⟨rfl, rfl⟩ := Scan.pure_eq_some looked
    obtain ⟨rfl, word, -⟩ := Scan.word_eq_some named
    rw [Scan.expect_eq_some opened, Scan.expect_eq_some ended]
    refine ⟨_, ?_, .typeVariable word.nonempty (word.unended (List.mem_singleton_self _))⟩
    simp only [List.cons_append, List.append_assoc, List.nil_append]
  · obtain ⟨_, _, opened, looked⟩ := Scan.bind_eq_some looked
    obtain ⟨element, _, made, looked⟩ := Scan.bind_eq_some looked
    obtain ⟨rfl, rfl⟩ := Scan.pure_eq_some looked
    obtain ⟨text, rfl, form⟩ := shaped_java shaped made
    rw [Scan.expect_eq_some opened]
    exact ⟨'[' :: text, rfl, .array form⟩
  · cases looked

end Shapes

theorem shaped_within (depth : Nat) : Shaped (referenceWithin depth) ReferenceWritten := by
  induction depth with
  | zero => exact fun accepted => nomatch accepted
  | succ depth ih =>
    intro s rest type read
    obtain ⟨text, split, form⟩ := shaped_form ih read
    exact ⟨text, split, .mk form⟩

theorem shaped_reference : Shaped reference ReferenceWritten := fun read => shaped_within _ read

/-! ## Whole texts -/

theorem parse_eq (signature : String) : parse signature =
    (Scan.whole reference signature).elim (.error (.badSignature signature)) .ok := by
  unfold parse
  cases Scan.whole reference signature <;> rfl

theorem parse_eq_ok_iff {signature : String} {type : TypeSignature} :
    parse signature = .ok type ↔ ReferenceWritten signature.toList type := by
  rw [parse_eq, Scan.elim_eq_ok_iff, Scan.whole_iff reads_reference shaped_reference]

theorem parse_eq_error_iff {signature : String} {error : ClassFileError} :
    parse signature = .error error ↔
      (¬ ∃ type, ReferenceWritten signature.toList type) ∧ error = .badSignature signature := by
  simp only [parse_eq, Scan.elim_eq_error_iff, Scan.whole_iff reads_reference shaped_reference]

end ClassAtlas.TypeSignature
