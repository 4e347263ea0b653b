import ClassAtlas.Proofs.Descriptor.Written
import ClassAtlas.Proofs.Text.Simulation

/-!
# Descriptors read byte by byte

The readers of descriptors again, as programs that look at one byte at a time and count the brackets
in a byte. They do what the readers of characters do (`follows_fieldType`, `follows_methodType`),
and so they end and stay inside the text.
-/

namespace ClassAtlas.Bytewise

open Cursor

/-- No brackets, or what is done in front of one. -/
def bracketTurn (further : Cursor Nat) : Cursor Nat := do
  if ← atEnd then
    return 0
  else if (← letter) = '[' then
    further
  else
    return 0

/-- The number of brackets ahead. The byte that counts them has room for so many. -/
def brackets : Nat → Cursor Nat
  | 0 => bracketTurn refuse
  | room + 1 => bracketTurn do
    advance
    let others ← brackets room
    return others + 1

def objectType : Cursor JavaType := do
  expect 'L'
  let name ← word [';']
  advance
  return .object (String.ofList (ClassName.dotted name))

def typeTurn (again : Cursor JavaType) : Cursor JavaType := do
  let tag ← peek
  match Primitive.ofTag? tag with
  | some p =>
    advance
    return .primitive p
  | none =>
    if tag = 'L' then
      objectType
    else if tag = '[' then
      let dimensions ← brackets 255
      let element ← again
      return .array element dimensions
    else
      refuse

/-- A type in front of a text. -/
def fieldType : Cursor JavaType := recursive typeTurn

def returnType : Cursor JavaType := do
  if (← peek) = 'V' then
    advance
    return .void
  else
    fieldType

def methodType : Cursor MethodType := do
  expect '('
  let parameters ← upTo ')' fieldType
  let returnType ← returnType
  return { parameters, returnType }

variable {source : Source} {s : List Char}

/-! ## Brackets -/

/-- What `brackets` does with characters. -/
def scanBrackets (room : Nat) : Scan Nat := fun s =>
  let count := (s.takeWhile (· = '[')).length
  if room < count then none else some (count, s.drop count)

theorem scanBrackets_other (room : Nat) (other : s.head? ≠ some '[') :
    scanBrackets room s = some (0, s) := by
  cases s with
  | nil => rfl
  | cons c rest =>
    have different : c ≠ '[' := fun same => other (congrArg some same)
    simp [scanBrackets, different]

theorem scanBrackets_zero (rest : List Char) : scanBrackets 0 ('[' :: rest) = none := by
  simp [scanBrackets]

theorem scanBrackets_succ (room : Nat) (rest : List Char) :
    scanBrackets (room + 1) ('[' :: rest) =
      (scanBrackets room >>= fun others => pure (others + 1)) rest := by
  show _ = (scanBrackets room rest).bind _
  simp only [scanBrackets, decide_true, List.takeWhile_cons_of_pos, List.length_cons,
    Nat.add_lt_add_iff_right, List.drop_succ_cons]
  split <;> rfl

theorem scanBrackets_replicate (other : s.head? ≠ some '[') (room count : Nat) :
    scanBrackets room (List.replicate count '[' ++ s) =
      if room < count then none else some (count, s) := by
  induction count generalizing room with
  | zero => exact scanBrackets_other room other
  | succ count ih =>
    rw [List.replicate_succ, List.cons_append]
    cases room with
    | zero => exact scanBrackets_zero _
    | succ room =>
      rw [scanBrackets_succ]
      show (scanBrackets room _).bind _ = _
      simp only [ih, Nat.add_lt_add_iff_right]
      split <;> rfl

theorem length_le_of_scanBrackets {room count : Nat} {rest : List Char}
    (h : scanBrackets room s = some (count, rest)) : rest.length ≤ s.length := by
  dsimp only [scanBrackets] at h
  split at h
  · cases h
  · cases h
    rw [List.length_drop]
    exact Nat.sub_le _ _

/-- A bracket ahead is taken. -/
theorem length_lt_of_scanBrackets {room count : Nat} {rest left : List Char}
    (h : scanBrackets room ('[' :: rest) = some (count, left)) :
    left.length < ('[' :: rest).length := by
  cases room with
  | zero =>
    rw [scanBrackets_zero] at h
    cases h
  | succ room =>
    rw [scanBrackets_succ] at h
    obtain ⟨others, _, counted, h⟩ := Scan.bind_eq_some h
    obtain ⟨-, rfl⟩ := Scan.pure_eq_some h
    exact Nat.lt_succ_of_le (length_le_of_scanBrackets counted)

theorem follows_bracketTurn {further : Cursor Nat} (room : Nat)
    (counts : ∀ rest, s = '[' :: rest → Follows source further (scanBrackets room) s) :
    Follows source (bracketTurn further) (scanBrackets room) s := by
  cases s with
  | nil => exact follows_end (follows_given (scanBrackets_other room nofun))
  | cons c rest =>
    refine follows_inside (follows_letter fun tells => tells.follows (by decide) ?_ fun other => ?_)
    · rintro rfl
      exact counts rest rfl
    · have apart : (c :: rest).head? ≠ some '[' := fun same => other (Option.some.inj same)
      exact follows_given (scanBrackets_other room apart)

theorem follows_brackets (room : Nat) (s : List Char) :
    Follows source (brackets room) (scanBrackets room) s := by
  induction room generalizing s with
  | zero =>
    refine follows_bracketTurn 0 ?_
    rintro rest rfl
    exact follows_refuse (scanBrackets_zero rest)
  | succ room ih =>
    refine follows_bracketTurn (room + 1) ?_
    rintro rest rfl
    exact follows_advance (by decide) (scanBrackets_succ room rest)
      ((ih rest).bind fun _ _ => follows_pure _ _)

/-! ## Types -/

theorem tag_lt (p : Primitive) : p.tag.toNat < 128 := by cases p <;> decide

theorem ofTag?_eq {letter c : Char} (tells : Tells letter c) :
    Primitive.ofTag? letter = Primitive.ofTag? c := by
  apply Option.ext
  intro p
  rw [Primitive.ofTag?_eq_some_iff, Primitive.ofTag?_eq_some_iff]
  exact tells p.tag (tag_lt p)

/-- A tag that is ahead is that of a primitive type, or something else is done. -/
theorem follows_primitive {α : Type} {ofPrimitive : Primitive → α} {otherwise : Char → Cursor α}
    {scan : Scan α} (nothing : scan [] = none)
    (taken : ∀ p rest, scan (p.tag :: rest) = some (ofPrimitive p, rest))
    (other : ∀ {letter c rest}, s = c :: rest → Tells letter c → Primitive.ofTag? c = none →
      Follows source (otherwise letter) scan s) :
    Follows source (do
      let tag ← peek
      match Primitive.ofTag? tag with
      | some p =>
        advance
        return ofPrimitive p
      | none => otherwise tag) scan s := by
  cases s with
  | nil => exact follows_peek_nil nothing
  | cons c rest =>
    refine follows_peek fun tells => ?_
    rw [ofTag?_eq tells]
    cases tagged : Primitive.ofTag? c with
    | some p =>
      obtain rfl := Primitive.ofTag?_eq_some_iff.mp tagged
      exact follows_advance (tag_lt p) (taken p rest) (follows_pure (ofPrimitive p) rest)
    | none => exact other rfl tells tagged

theorem follows_objectType (rest : List Char) :
    Follows source objectType JavaType.scanComponent ('L' :: rest) := by
  have letter : 'L'.toNat < 128 := by decide
  have mark : ';'.toNat < 128 := by decide
  have read : Follows source objectType _ ('L' :: rest) :=
    (follows_expect letter _).bind fun _ _ => follows_wordEnd mark fun _ rest _ =>
      follows_pure _ rest
  exact read.congr rfl

theorem scan_plain (other : s.head? ≠ some '[') :
    JavaType.scan s = JavaType.scanComponent s := by
  refine (JavaType.scan_brackets other 0).trans ?_
  show (JavaType.scanComponent s).map _ = _
  cases JavaType.scanComponent s <;> rfl

/-- In front of a bracket, the reader of characters counts the brackets and then reads on. -/
theorem scan_bracket (rest : List Char) :
    JavaType.scan ('[' :: rest) = (scanBrackets 255 >>= fun dimensions =>
      JavaType.scan >>= fun element => pure (.array element dimensions)) ('[' :: rest) := by
  obtain ⟨count, more, shape, other⟩ := JavaType.exists_brackets ('[' :: rest)
  have positive : count ≠ 0 := by
    rintro rfl
    rw [List.replicate_zero, List.nil_append] at shape
    exact other (shape ▸ rfl)
  have counted := scanBrackets_replicate other 255 count
  rw [shape, JavaType.scan_brackets other]
  by_cases many : 255 < count
  · rw [if_pos many] at counted ⊢
    exact (Scan.bind_of_eq_none counted).symm
  · rw [if_neg many] at counted ⊢
    rw [Scan.bind_of_eq_some counted]
    show _ = (JavaType.scan more).bind _
    rw [scan_plain other]
    simp only [if_neg positive]
    cases JavaType.scanComponent more <;> rfl

/-- Without a bracket ahead there is no call inside. -/
theorem follows_component {again : Cursor JavaType} (other : s.head? ≠ some '[') :
    Follows source (typeTurn again) JavaType.scan s := by
  refine Follows.congr ?_ (scan_plain other)
  refine follows_primitive rfl (fun p => JavaType.reads_component (.primitive p)) ?_
  rintro letter c rest rfl tells tagged
  refine tells.follows (by decide) ?_ fun different => tells.follows (by decide) ?_ ?_
  · rintro rfl
    exact follows_objectType rest
  · rintro rfl
    exact (other rfl).elim
  · intro _
    refine follows_refuse ?_
    show (if c = 'L' then _ else _ : Scan JavaType) (c :: rest) = none
    rw [if_neg different]
    exact Option.map_eq_none_iff.mpr tagged

theorem follows_array {again : Cursor JavaType} {rest : List Char}
    (inside : ∀ t, t.length < ('[' :: rest).length → Follows source again JavaType.scan t) :
    Follows source (typeTurn again) JavaType.scan ('[' :: rest) := by
  have plain : Primitive.ofTag? '[' = none := rfl
  refine Follows.congr ?_ (scan_bracket rest)
  refine follows_peek fun tells => ?_
  rw [ofTag?_eq tells, plain]
  refine tells.follows (by decide) nofun fun _ => tells.follows (by decide) (fun _ => ?_)
    fun differs => (differs rfl).elim
  refine (follows_brackets 255 _).bind fun read _ => ?_
  exact (inside _ (length_lt_of_scanBrackets read)).bind fun _ _ => follows_pure _ _

theorem follows_fieldType (s : List Char) : Follows source fieldType JavaType.scan s := by
  refine follows_calls (fun {again t} inside => ?_) s
  by_cases bracket : t.head? = some '['
  · obtain ⟨rest, rfl⟩ := List.head?_eq_some_iff.mp bracket
    exact follows_array inside
  · exact follows_component bracket

/-! ## Method descriptors -/

theorem consumes_scan : Scan.Consumes JavaType.scan :=
  JavaType.shaped_field.consumes fun written => by
    obtain ⟨c, more, rfl, -⟩ := written.starts
    exact List.cons_ne_nil c more

theorem follows_returnType (s : List Char) :
    Follows source returnType MethodType.scanReturn s := by
  refine follows_peeks fun {c rest} ahead tells => tells.follows_ite (by decide) (fun same => ?_)
    fun _ => follows_fieldType s
  rw [ahead, same]
  exact follows_passes (by decide) (follows_pure JavaType.void rest)

theorem follows_methodType (s : List Char) : Follows source methodType MethodType.scan s := by
  have opening : '('.toNat < 128 := by decide
  have closing : ')'.toNat < 128 := by decide
  refine (follows_expect opening s).bind fun _ _ => Follows.bind ?_ fun _ _ =>
    (follows_returnType _).bind fun _ _ => follows_pure _ _
  exact follows_upTo closing consumes_scan fun rest _ => follows_fieldType rest

end ClassAtlas.Bytewise
