import ClassAtlas.Descriptor
import ClassAtlas.Proofs.Text.Scans

/-!
# The grammar of descriptors

`JavaType.FieldWritten` and `MethodType.Written` say which texts stand for which types, without a
reader. The readers follow them in both directions: what is written is read (`reads_field`,
`MethodType.reads`), and nothing else (`shaped_field`, `MethodType.shaped`). Where one type ends and
the next begins is not marked, so that the split is a matter of the grammar alone.
-/

namespace ClassAtlas

open Scan (Reads Shaped)

theorem Primitive.ofTag?_eq_some_iff {c : Char} {p : Primitive} :
    ofTag? c = some p ↔ c = p.tag := by
  constructor
  · intro h
    unfold ofTag? at h
    split at h <;> cases h <;> rfl
  · rintro rfl
    exact ofTag?_tag p

namespace JavaType

/-! ## Types of fields -/

/-- The text stands for a primitive or a class: a letter, or a name between `L` and `;`. -/
inductive ComponentWritten : List Char → JavaType → Prop
  | primitive (type : Primitive) : ComponentWritten [type.tag] (.primitive type)
  | object {name : List Char} (nonempty : name ≠ []) (unended : ';' ∉ name) :
    ComponentWritten ('L' :: (name ++ [';'])) (.object (String.ofList (ClassName.dotted name)))

/-- The text stands for the type of a field: at most 255 brackets, one for each dimension, and what
the array is made of. -/
inductive FieldWritten : List Char → JavaType → Prop
  | component {text : List Char} {type : JavaType} (h : ComponentWritten text type) :
    FieldWritten text type
  | array {text : List Char} {element : JavaType} {dimensions : Nat}
    (h : ComponentWritten text element) (positive : 0 < dimensions) (few : dimensions ≤ 255) :
    FieldWritten (List.replicate dimensions '[' ++ text) (.array element dimensions)

theorem reads_component {text : List Char} {type : JavaType} (h : ComponentWritten text type) :
    Reads scanComponent text type := by
  cases h with
  | primitive type =>
    intro rest
    cases type <;> rfl
  | @object name nonempty unended =>
    have word : Scan.IsWord [';'] name := .single nonempty unended
    have ending := (Scan.reads_expect ';').map fun _ =>
      object (String.ofList (ClassName.dotted name))
    have named : Reads (Scan.word [';'] >>= fun name => Scan.expect ';' >>= fun _ =>
        pure (object (String.ofList (ClassName.dotted name)))) (name ++ [';'])
        (object (String.ofList (ClassName.dotted name))) :=
      Reads.word word (List.mem_singleton_self _) ending
    exact Reads.peek ((Scan.reads_expect 'L').bind named)

theorem shaped_component : Shaped scanComponent ComponentWritten := by
  intro s rest type read
  obtain ⟨c, more, rfl, looked⟩ := Scan.peek_bind_eq_some read
  by_cases letter : c = 'L'
  · rw [if_pos letter] at looked
    obtain ⟨_, _, opened, looked⟩ := Scan.bind_eq_some looked
    obtain ⟨name, _, named, looked⟩ := Scan.bind_eq_some looked
    obtain ⟨_, _, ended, looked⟩ := Scan.bind_eq_some looked
    obtain ⟨rfl, rfl⟩ := Scan.pure_eq_some looked
    obtain ⟨rfl, word, -⟩ := Scan.word_eq_some named
    rw [Scan.expect_eq_some opened, Scan.expect_eq_some ended]
    refine ⟨_, ?_, .object word.nonempty (word.unended (List.mem_singleton_self _))⟩
    rw [List.cons_append, List.append_assoc]
    rfl
  · rw [if_neg letter] at looked
    obtain ⟨p, tagged, same⟩ := Option.map_eq_some_iff.mp looked
    cases same
    rw [Primitive.ofTag?_eq_some_iff.mp tagged]
    exact ⟨_, rfl, .primitive p⟩

/-- No component starts with a bracket, and none with a character that ends a list of them. -/
theorem ComponentWritten.starts {text : List Char} {type : JavaType}
    (h : ComponentWritten text type) :
    ∃ c more, text = c :: more ∧ c ≠ '[' ∧ c ≠ ')' ∧ c ≠ 'V' := by
  cases h with
  | primitive type => exact ⟨type.tag, [], rfl, by cases type <;> decide⟩
  | object => exact ⟨'L', _, rfl, by decide⟩

/-- The brackets in front of a component are its dimensions. -/
theorem scan_brackets {more : List Char} (other : more.head? ≠ some '[') (dimensions : Nat) :
    scan (List.replicate dimensions '[' ++ more) =
      if 255 < dimensions then none
      else (scanComponent more).map fun (element, rest) =>
        (if dimensions = 0 then element else array element dimensions, rest) := by
  have empty : more.takeWhile (· = '[') = [] := by
    cases more with
    | nil => rfl
    | cons c more =>
      have different : c ≠ '[' := fun same => other (congrArg some same)
      exact List.takeWhile_cons_of_neg (by simpa using different)
  have front : (List.replicate dimensions '[' ++ more).takeWhile (· = '[') =
      List.replicate dimensions '[' := by
    rw [List.takeWhile_append_of_pos (by simp), empty, List.append_nil]
  have back : (List.replicate dimensions '[' ++ more).drop dimensions = more :=
    List.drop_left' List.length_replicate
  simp only [scan, front, List.length_replicate, back]

/-- A component behind its brackets. -/
theorem scan_dimensions {text : List Char} {element : JavaType} (h : ComponentWritten text element)
    {dimensions : Nat} (few : dimensions ≤ 255) (rest : List Char) :
    scan (List.replicate dimensions '[' ++ (text ++ rest)) =
      some (if dimensions = 0 then element else array element dimensions, rest) := by
  have other : (text ++ rest).head? ≠ some '[' := by
    obtain ⟨c, more, rfl, different, -⟩ := h.starts
    exact fun same => different (Option.some.inj same)
  rw [scan_brackets other, if_neg (Nat.not_lt_of_le few), reads_component h]
  rfl

theorem reads_field {text : List Char} {type : JavaType} (h : FieldWritten text type) :
    Reads scan text type := by
  intro rest
  cases h with
  | component h => exact scan_dimensions h (Nat.zero_le _) rest
  | array h positive few =>
    rw [List.append_assoc, scan_dimensions h few, if_neg (Nat.ne_of_gt positive)]

/-- Every text is brackets, perhaps none, and what comes behind them. -/
theorem exists_brackets (s : List Char) :
    ∃ dimensions more, s = List.replicate dimensions '[' ++ more ∧ more.head? ≠ some '[' := by
  refine ⟨(s.takeWhile (· = '[')).length, s.dropWhile (· = '['), ?_, ?_⟩
  · have brackets : s.takeWhile (· = '[') =
        List.replicate (s.takeWhile (· = '[')).length '[' := by
      apply List.eq_replicate_of_mem
      intro c inside
      simpa using List.mem_takeWhile_imp inside
    rw [← brackets, List.takeWhile_append_dropWhile]
  · intro bracket
    have other := List.head?_dropWhile_not (fun c => decide (c = '[')) s
    rw [bracket] at other
    simp at other

theorem shaped_field : Shaped scan FieldWritten := by
  intro s rest type read
  obtain ⟨dimensions, more, rfl, other⟩ := exists_brackets s
  rw [scan_brackets other] at read
  split at read
  next => cases read
  next few =>
    obtain ⟨⟨element, left⟩, component, same⟩ := Option.map_eq_some_iff.mp read
    cases same
    obtain ⟨text, split, written⟩ := shaped_component component
    rw [split]
    by_cases zero : dimensions = 0
    · rw [if_pos zero, zero]
      exact ⟨text, rfl, .component written⟩
    · rw [if_neg zero, ← List.append_assoc]
      exact ⟨_, rfl, .array written (Nat.pos_of_ne_zero zero) (Nat.le_of_not_lt few)⟩

theorem FieldWritten.starts {text : List Char} {type : JavaType} (h : FieldWritten text type) :
    ∃ c more, text = c :: more ∧ c ≠ ')' ∧ c ≠ 'V' := by
  cases h with
  | component h =>
    obtain ⟨c, more, whole, -, different⟩ := h.starts
    exact ⟨c, more, whole, different⟩
  | @array _ _ dimensions _ positive _ =>
    obtain ⟨fewer, rfl⟩ := Nat.exists_eq_add_of_le' positive
    exact ⟨'[', _, rfl, by decide⟩

theorem parse_eq (descriptor : String) : parse descriptor =
    (Scan.whole scan descriptor).elim (.error (.badDescriptor descriptor)) .ok := by
  unfold parse
  cases Scan.whole scan descriptor <;> rfl

theorem parse_eq_ok_iff {descriptor : String} {type : JavaType} :
    parse descriptor = .ok type ↔ FieldWritten descriptor.toList type := by
  rw [parse_eq, Scan.elim_eq_ok_iff, Scan.whole_iff reads_field shaped_field]

theorem parse_eq_error_iff {descriptor : String} {error : ClassFileError} :
    parse descriptor = .error error ↔
      (¬ ∃ type, FieldWritten descriptor.toList type) ∧ error = .badDescriptor descriptor := by
  simp only [parse_eq, Scan.elim_eq_error_iff, Scan.whole_iff reads_field shaped_field]

end JavaType

namespace MethodType

/-! ## Methods -/

/-- The text stands for what a method returns. -/
inductive ReturnWritten : List Char → JavaType → Prop
  | void : ReturnWritten ['V'] .void
  | value {text : List Char} {type : JavaType} (h : JavaType.FieldWritten text type) :
    ReturnWritten text type

/-- The text stands for a method: its parameters in parentheses, one after another, and what it
returns. -/
inductive Written : List Char → MethodType → Prop
  | mk {texts : List (List Char)} {parameters : List JavaType} {text : List Char}
    {returnType : JavaType} (each : List.Forall₂ JavaType.FieldWritten texts parameters)
    (returns : ReturnWritten text returnType) :
    Written ('(' :: (texts.flatten ++ [')'] ++ text)) { parameters, returnType }

theorem reads_return {text : List Char} {type : JavaType} (h : ReturnWritten text type) :
    Reads scanReturn text type := by
  cases h with
  | void => exact fun _ => rfl
  | value h =>
    intro rest
    have read := JavaType.reads_field h rest
    obtain ⟨c, more, rfl, -, other⟩ := h.starts
    show (if c = 'V' then _ else JavaType.scan : Scan JavaType) (c :: more ++ rest) = _
    rw [if_neg other, read]

theorem shaped_return : Shaped scanReturn ReturnWritten := by
  intro s rest type read
  obtain ⟨c, more, rfl, looked⟩ := Scan.peek_bind_eq_some read
  by_cases letter : c = 'V'
  · rw [if_pos letter] at looked
    obtain ⟨_, _, opened, looked⟩ := Scan.bind_eq_some looked
    obtain ⟨rfl, rfl⟩ := Scan.pure_eq_some looked
    rw [Scan.expect_eq_some opened]
    exact ⟨['V'], rfl, .void⟩
  · rw [if_neg letter] at looked
    obtain ⟨text, split, written⟩ := JavaType.shaped_field looked
    exact ⟨text, split, .value written⟩

theorem reads {text : List Char} {type : MethodType} (h : Written text type) :
    Reads scan text type := by
  cases h with
  | mk each returns =>
    have items := each.imp fun text type written =>
      show Scan.Opens (fun _ => True) ')' text ∧
          Scan.ReadsBefore (fun _ => True) JavaType.scan text type from by
        obtain ⟨c, more, whole, other, -⟩ := written.starts
        exact ⟨⟨c, more, whole, trivial, other⟩, (JavaType.reads_field written).before _⟩
    have parameters := Scan.upTo_flatten trivial items
    exact (Scan.reads_expect '(').bind (parameters.bind ((reads_return returns).map _))

theorem shaped : Shaped scan Written := by
  intro s rest type read
  obtain ⟨_, _, opened, read⟩ := Scan.bind_eq_some read
  obtain ⟨parameters, _, listed, read⟩ := Scan.bind_eq_some read
  obtain ⟨returnType, _, returned, read⟩ := Scan.bind_eq_some read
  obtain ⟨rfl, rfl⟩ := Scan.pure_eq_some read
  obtain ⟨_, rfl, texts, rfl, each⟩ := Scan.shaped_upTo JavaType.shaped_field listed
  obtain ⟨text, rfl, returns⟩ := shaped_return returned
  refine ⟨_, ?_, .mk each returns⟩
  rw [Scan.expect_eq_some opened, List.cons_append, List.append_assoc _ text]

theorem parse_eq (descriptor : String) : parse descriptor =
    (Scan.whole scan descriptor).elim (.error (.badDescriptor descriptor)) .ok := by
  unfold parse
  cases Scan.whole scan descriptor <;> rfl

theorem parse_eq_ok_iff {descriptor : String} {type : MethodType} :
    parse descriptor = .ok type ↔ Written descriptor.toList type := by
  rw [parse_eq, Scan.elim_eq_ok_iff, Scan.whole_iff reads shaped]

theorem parse_eq_error_iff {descriptor : String} {error : ClassFileError} :
    parse descriptor = .error error ↔
      (¬ ∃ type, Written descriptor.toList type) ∧ error = .badDescriptor descriptor := by
  simp only [parse_eq, Scan.elim_eq_error_iff, Scan.whole_iff reads shaped]

end MethodType

end ClassAtlas
