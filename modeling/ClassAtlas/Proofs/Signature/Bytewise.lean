import ClassAtlas.Proofs.Descriptor.Bytewise
import ClassAtlas.Proofs.Signature.Declared

/-!
# Signatures read byte by byte

The readers of signatures again, as programs that look at one byte at a time. As over characters,
the grammar has one knot, the reference type, and every other rule is written over a given program
for reference types. The scanners count what may still be nested or listed; here any bound beyond
the length of the text will do.

A rule follows its rule over characters if the reference types inside it do (`Rules`); inside it
there is less text, and this ties the knot (`follows_reference`). So nothing runs on and on, nothing
is read behind the end, and the text is only cut between characters (`readers_safe`).
-/

namespace ClassAtlas.Bytewise

open Cursor

section Programs

variable (reference : Cursor TypeSignature)

/-- A primitive or a reference type. -/
def javaTypeOver : Cursor TypeSignature := do
  let tag ← peek
  match Primitive.ofTag? tag with
  | some p =>
    advance
    return .base p
  | none => reference

def argument : Cursor TypeArgument := do
  let tag ← peek
  if tag = '*' then
    advance
    return .any
  else if tag = '+' then
    advance
    let bound ← reference
    return .upper bound
  else if tag = '-' then
    advance
    let bound ← reference
    return .lower bound
  else
    let type ← reference
    return .exactly type

/-- Arguments in angle brackets, at least one; or nothing. -/
def typeArguments : Cursor (List TypeArgument) := do
  if (← peek) = '<' then
    advance
    let arguments ← upTo '>' (argument reference)
    if arguments.isEmpty then refuse else return arguments
  else
    return []

def innerType : Cursor (List Char × List TypeArgument) := do
  advance
  let name ← word ['<', '.', ';']
  let arguments ← typeArguments reference
  return ('$' :: name, arguments)

/-- Inner-class suffixes, as long as there is a dot, and the end of the class type. -/
def innerTypes : Cursor (List (List Char × List TypeArgument)) := recursive fun again => do
  if (← peek) = '.' then
    let first ← innerType reference
    let others ← again
    return first :: others
  else
    expect ';'
    return []

def classTypeOver : Cursor TypeSignature := do
  expect 'L'
  let outer ← word ['<', '.', ';']
  let arguments ← typeArguments reference
  let inner ← innerTypes reference
  return .classType (String.ofList (ClassName.dotted outer ++ inner.flatMap Prod.fst))
    (arguments ++ inner.flatMap Prod.snd)

/-- A class type, a type variable or an array. -/
def referenceOver : Cursor TypeSignature := do
  let tag ← peek
  if tag = 'L' then
    classTypeOver reference
  else if tag = 'T' then
    advance
    let name ← word [';']
    advance
    return .typeVariable (String.ofList name)
  else if tag = '[' then
    advance
    let element ← javaTypeOver reference
    return .array element
  else
    refuse

end Programs

def reference : Cursor TypeSignature := recursive referenceOver

def javaType : Cursor TypeSignature := javaTypeOver reference

def classType : Cursor TypeSignature := classTypeOver reference

/-- The bounds behind a colon each. -/
def interfaceBounds : Cursor (List TypeSignature) := recursive fun again => do
  if (← peek) = ':' then
    advance
    let first ← reference
    let others ← again
    return first :: others
  else
    return []

/-- The class bound, if there is one. Behind an empty one the next byte may start another parameter;
reference types always start with `L`, `T` or `[`. -/
def classBound : Cursor (List TypeSignature) := do
  let ahead ← peek
  if ahead ∉ [':', '>'] ∧ ahead ∈ ['L', 'T', '['] then
    let bound ← reference
    return [bound]
  else
    return []

def typeParameter : Cursor TypeParameter := do
  let name ← word [':']
  expect ':'
  let classBound ← classBound
  let interfaceBounds ← interfaceBounds
  return { name := String.ofList name, bounds := classBound ++ interfaceBounds }

/-- Type parameters in angle brackets, at least one; or nothing. -/
def typeParameters : Cursor (List TypeParameter) := do
  if ← atEnd then
    return []
  else if (← peek) = '<' then
    advance
    let parameters ← upTo '>' typeParameter
    if parameters.isEmpty then refuse else return parameters
  else
    return []

def classSignature : Cursor ClassSignature := do
  let typeParameters ← typeParameters
  let superclass ← classType
  let interfaces ← toEnd classType
  return { typeParameters, superclass, interfaces }

def resultType : Cursor TypeSignature := do
  if (← peek) = 'V' then
    advance
    return .void
  else
    javaType

def thrownType : Cursor TypeSignature := do
  expect '^'
  reference

def methodSignature : Cursor MethodSignature := do
  let typeParameters ← typeParameters
  expect '('
  let parameters ← upTo ')' javaType
  let returnType ← resultType
  let throws ← toEnd thrownType
  return { typeParameters, parameters, returnType, throws }

variable {source : Source} {s : List Char}

/-! ## The rules -/

section Rules

open TypeSignature

variable {inside : Scan TypeSignature} {again : Cursor TypeSignature}

theorem nameStops_lt : ∀ stop ∈ ['<', '.', ';'], stop.toNat < 128 := by
  rw [List.forall_mem_cons, List.forall_mem_cons, List.forall_mem_singleton]
  decide

theorem ne_nil_of_written {text : List Char} {type : TypeSignature}
    (h : ReferenceWritten text type) : text ≠ [] := by
  obtain ⟨c, more, rfl, -⟩ := h.starts
  exact List.cons_ne_nil c more

theorem follows_javaTypeOver (h : Follows source again inside s) :
    Follows source (javaTypeOver again) (scanJavaType inside) s := by
  refine follows_primitive rfl (fun p rest => ?_) fun {_ c rest} ahead _ tagged => ?_
  · have tagged : Primitive.ofTag? p.tag = some p := Primitive.ofTag?_eq_some_iff.mpr rfl
    simp only [scanJavaType, tagged]
  · refine h.congr ?_
    subst ahead
    simp only [scanJavaType, tagged]

theorem scanArgument_eq (inside : Scan TypeSignature) : scanArgument inside =
    Scan.peek >>= fun c =>
      if c = '*' then Scan.expect '*' >>= fun _ => pure .any
      else if c = '+' then Scan.expect '+' >>= fun _ => inside >>= fun bound => pure (.upper bound)
      else if c = '-' then Scan.expect '-' >>= fun _ => inside >>= fun bound => pure (.lower bound)
      else inside >>= fun type => pure (.exactly type) := by
  refine congrArg (Scan.peek >>= ·) (funext fun c => ?_)
  split
  · rfl
  · rfl
  · rfl
  · simp_all

theorem follows_argument (h : ∀ t, t.length ≤ s.length → Follows source again inside t) :
    Follows source (argument again) (scanArgument inside) s := by
  rw [scanArgument_eq]
  refine follows_peeks fun {c rest} ahead tells => ?_
  subst ahead
  have behind := h rest (Nat.le_succ _)
  refine tells.follows_ite (by decide) ?_ fun _ => tells.follows_ite (by decide) ?_ fun _ =>
    tells.follows_ite (by decide) ?_ fun _ => (h _ (Nat.le_refl _)).bind fun _ _ => follows_pure _ _
  · rintro rfl
    exact follows_passes (by decide) (follows_pure _ _)
  · rintro rfl
    exact follows_passes (by decide) (behind.bind fun _ _ => follows_pure _ _)
  · rintro rfl
    exact follows_passes (by decide) (behind.bind fun _ _ => follows_pure _ _)

theorem consumes_argument (shaped : Scan.Shaped inside ReferenceWritten) :
    Scan.Consumes (scanArgument inside) :=
  Scan.Shaped.consumes (shaped_argument shaped) fun form => by
    cases form with
    | any | upper | lower => exact List.cons_ne_nil _ _
    | exactly written => exact ne_nil_of_written written

theorem follows_typeArguments (shaped : Scan.Shaped inside ReferenceWritten)
    (h : ∀ t, t.length ≤ s.length → Follows source again inside t) :
    Follows source (typeArguments again) (scanArguments inside) s := by
  have closing : '>'.toNat < 128 := by decide
  refine follows_peeks fun {c rest} ahead tells => tells.follows_ite (by decide) ?_ fun _ =>
    follows_pure _ _
  rintro rfl
  subst ahead
  refine follows_passes (by decide) (Follows.bind ?_ fun {arguments rest} _ _ => ?_)
  · refine follows_upTo closing (consumes_argument shaped) fun t short => ?_
    exact follows_argument fun u shorter =>
      h u (Nat.le_trans shorter (Nat.le_trans short (Nat.le_succ _)))
  · cases arguments with
    | nil => exact follows_refuse rfl
    | cons first others => exact follows_pure (first :: others) rest

theorem consumes_inner (shaped : Scan.Shaped inside ReferenceWritten) :
    Scan.Consumes (scanInner inside) :=
  Scan.Shaped.consumes (shaped_inner shaped) fun ⟨behind, _, marked, _⟩ =>
    marked ▸ List.cons_ne_nil '.' behind

theorem follows_innerType {rest : List Char} (shaped : Scan.Shaped inside ReferenceWritten)
    (h : ∀ t, t.length ≤ rest.length → Follows source again inside t) :
    Follows source (innerType again) (scanInner inside) ('.' :: rest) := by
  refine follows_passes (by decide) ((follows_word nameStops_lt _).bind fun _ short => ?_)
  refine Follows.bind ?_ fun _ _ => follows_pure _ _
  exact follows_typeArguments shaped fun t shorter => h t (Nat.le_trans shorter short)

/-- Where the cursor asks for a dot and then for the end, the scanner asks for the end and then for
a dot. -/
theorem follows_innerTypes (shaped : Scan.Shaped inside ReferenceWritten)
    (h : ∀ t, t.length ≤ s.length → Follows source again inside t) :
    Follows source (innerTypes again) (Scan.upTo ';' (scanInner inside)) s := by
  have rows : Follows source (innerTypes again)
      (Scan.upToWithin ';' (scanInner inside) s.length) s := by
    refine follows_recursive (fun _ => follows_peek_nil rfl) ?_
    intro others bound t less few behind
    cases t with
    | nil => exact follows_peek_nil rfl
    | cons c rest =>
      refine follows_peek fun tells => tells.follows (by decide) ?_ fun other => ?_
      · rintro rfl
        refine Follows.congr ?_ (Scan.upToWithin_item (by decide) bound rest)
        refine (follows_innerType shaped fun u short => h u ?_).bind fun read _ => ?_
        · exact Nat.le_trans short (Nat.le_of_succ_le (Nat.le_trans few less))
        · exact (behind _ (consumes_inner shaped read)).bind fun _ _ => follows_pure _ _
      · by_cases ends : c = ';'
        · rw [ends]
          exact follows_close (by decide) bound rest
        · have refused : Follows source (expect ';' >>= fun _ => pure []) _ (c :: rest) :=
            (follows_expect (by decide) _).bind fun _ _ =>
              follows_pure ([] : List (List Char × List TypeArgument)) _
          refine refused.congr ?_
          rw [Scan.bind_of_eq_none (Scan.expect_of_ne ends rest), Scan.upToWithin_item ends]
          exact Scan.bind_of_eq_none (Scan.bind_of_eq_none (Scan.expect_of_ne other rest))
  exact rows.congr rfl

theorem follows_classTypeOver (shaped : Scan.Shaped inside ReferenceWritten)
    (h : ∀ t, t.length < s.length → Follows source again inside t) :
    Follows source (classTypeOver again) (scanClassType inside) s := by
  refine (follows_expect (by decide) s).bind fun {_ left} opened _ => ?_
  have inner : ∀ t, t.length ≤ left.length → Follows source again inside t := fun t short =>
    h t (Nat.lt_of_le_of_lt short (Scan.consumes_expect 'L' opened))
  refine (follows_word nameStops_lt left).bind fun {_ middle} _ short => ?_
  have own : Follows source (typeArguments again) (scanArguments inside) middle :=
    follows_typeArguments shaped fun t shorter => inner t (Nat.le_trans shorter short)
  refine own.bind fun {_ rest} _ shorter => ?_
  have enough : rest.length ≤ left.length := Nat.le_trans shorter short
  have row : Follows source (innerTypes again) (Scan.upTo ';' (scanInner inside)) rest :=
    follows_innerTypes shaped fun t fits => inner t (Nat.le_trans fits enough)
  exact row.bind fun _ _ => follows_pure _ _

theorem scanReferenceType_eq (inside : Scan TypeSignature) : scanReferenceType inside =
    Scan.peek >>= fun c =>
      if c = 'L' then scanClassType inside
      else if c = 'T' then
        Scan.expect 'T' >>= fun _ => Scan.word [';'] >>= fun name => Scan.expect ';' >>= fun _ =>
          pure (.typeVariable (String.ofList name))
      else if c = '[' then
        Scan.expect '[' >>= fun _ => scanJavaType inside >>= fun element => pure (.array element)
      else failure := by
  refine congrArg (Scan.peek >>= ·) (funext fun c => ?_)
  split
  · rfl
  · rfl
  · rfl
  · simp_all

theorem follows_referenceOver (shaped : Scan.Shaped inside ReferenceWritten)
    (h : ∀ t, t.length < s.length → Follows source again inside t) :
    Follows source (referenceOver again) (scanReferenceType inside) s := by
  rw [scanReferenceType_eq]
  refine follows_peeks fun {c rest} ahead tells => ?_
  subst ahead
  refine tells.follows_ite (by decide) (fun _ => follows_classTypeOver shaped h) fun _ =>
    tells.follows_ite (by decide) ?_ fun _ => tells.follows_ite (by decide) ?_ fun _ =>
      follows_refuse rfl
  · rintro rfl
    exact follows_passes (by decide) (follows_wordEnd (by decide) fun _ _ _ => follows_pure _ _)
  · rintro rfl
    have element := follows_javaTypeOver (h rest (Nat.lt_succ_self _))
    exact follows_passes (by decide) (element.bind fun _ _ => follows_pure _ _)

end Rules

/-! ## The knot -/

section Types

open TypeSignature

theorem follows_reference (s : List Char) :
    Follows source reference TypeSignature.reference s := by
  have within : Follows source reference (referenceWithin s.length) s :=
    follows_recursive (fun _ => follows_peek_nil rfl) fun _ _ inside =>
      follows_referenceOver (shaped_within _) inside
  exact within.congr rfl

theorem follows_javaType (s : List Char) :
    Follows source javaType (scanJavaType TypeSignature.reference) s :=
  follows_javaTypeOver (follows_reference s)

theorem follows_classType (s : List Char) :
    Follows source classType (scanClassType TypeSignature.reference) s :=
  follows_classTypeOver shaped_reference fun t _ => follows_reference t

theorem consumes_reference : Scan.Consumes TypeSignature.reference :=
  Scan.Shaped.consumes shaped_reference ne_nil_of_written

theorem consumes_javaType : Scan.Consumes (scanJavaType TypeSignature.reference) :=
  Scan.Shaped.consumes (shaped_java shaped_reference) fun form => by
    obtain ⟨c, more, rfl, -⟩ := form.opens
    exact List.cons_ne_nil c more

theorem consumes_classType : Scan.Consumes (scanClassType TypeSignature.reference) :=
  Scan.Shaped.consumes (shaped_class shaped_reference) fun form => by
    obtain ⟨more, rfl⟩ := form.opens
    exact List.cons_ne_nil 'L' more

end Types

/-! ## Type parameters -/

theorem follows_interfaceBounds (s : List Char) :
    Follows source interfaceBounds (TypeParameter.scanInterfaceBounds s.length) s := by
  refine follows_recursive (fun _ => follows_peek_nil rfl) ?_
  intro again bound t _ _ behind
  cases t with
  | nil => exact follows_peek_nil rfl
  | cons c rest =>
    refine follows_peek fun tells => tells.follows (by decide) ?_ fun other =>
      follows_given (TypeParameter.scanInterfaceBounds_other bound other rest)
    rintro rfl
    refine follows_advance (by decide) (TypeParameter.scanInterfaceBounds_colon bound rest) ?_
    refine (follows_reference rest).bind fun _ short => ?_
    exact (behind _ (Nat.lt_succ_of_le short)).bind fun _ _ => follows_pure _ _

theorem boundStarts_lt : ∀ start ∈ ['L', 'T', '['], start.toNat < 128 := by
  rw [List.forall_mem_cons, List.forall_mem_cons, List.forall_mem_singleton]
  decide

theorem startsBound_iff (c : Char) :
    c ∉ [':', '>'] ∧ c ∈ ['L', 'T', '['] ↔ c ∈ ['L', 'T', '['] := by
  refine and_iff_right_of_imp fun starts => ?_
  simp only [List.mem_cons, List.not_mem_nil, or_false] at starts
  rcases starts with rfl | rfl | rfl <;> decide

/-- What `classBound` does with characters. -/
def scanClassBound : Scan (List TypeSignature) := do
  if (← Scan.peek) ∈ ['L', 'T', '['] then
    let bound ← TypeSignature.reference
    return [bound]
  else
    return []

theorem scan_eq_boundsBehind : TypeParameter.scan =
    Scan.word [':'] >>= fun name => Scan.expect ':' >>= fun _ => scanClassBound >>= fun bounds =>
      TypeParameter.boundsBehind name bounds := by
  refine congrArg (Scan.word [':'] >>= ·) (funext fun name => ?_)
  refine congrArg (Scan.expect ':' >>= ·) (funext fun _ => ?_)
  rw [scanClassBound, bind_assoc]
  refine congrArg (Scan.peek >>= ·) (funext fun c => ?_)
  by_cases starts : c ∈ ['L', 'T', '[']
  · simp only [if_pos starts]
    rfl
  · simp only [if_neg starts]
    rfl

theorem follows_classBound (s : List Char) : Follows source classBound scanClassBound s := by
  refine follows_peeks fun {c _} _ tells => ?_
  have starts := (startsBound_iff (letterOf c)).trans (tells.mem_iff boundStarts_lt)
  by_cases here : c ∈ ['L', 'T', '[']
  · rw [if_pos (starts.mpr here), if_pos here]
    exact (follows_reference _).bind fun _ _ => follows_pure _ _
  · rw [if_neg (mt starts.mp here), if_neg here]
    exact follows_pure _ _

theorem follows_boundsBehind (name : List Char) (bounds : List TypeSignature) (s : List Char) :
    Follows source (interfaceBounds >>= fun others =>
        pure { name := String.ofList name, bounds := bounds ++ others })
      (TypeParameter.boundsBehind name bounds) s := by
  have each : Follows source interfaceBounds
      (fun s => TypeParameter.scanInterfaceBounds s.length s) s :=
    (follows_interfaceBounds s).congr rfl
  exact each.bind fun _ _ => follows_pure _ _

theorem follows_behindName (name : List Char) (s : List Char) :
    Follows source (expect ':' >>= fun _ => classBound >>= fun bounds => interfaceBounds >>=
        fun others => pure { name := String.ofList name, bounds := bounds ++ others })
      (Scan.expect ':' >>= fun _ => scanClassBound >>= fun bounds =>
        TypeParameter.boundsBehind name bounds) s :=
  (follows_expect (by decide) s).bind fun _ _ => (follows_classBound _).bind fun _ _ =>
    follows_boundsBehind _ _ _

theorem follows_typeParameter (s : List Char) :
    Follows source typeParameter TypeParameter.scan s := by
  rw [scan_eq_boundsBehind]
  have colon : ∀ stop ∈ [':'], stop.toNat < 128 := List.forall_mem_singleton.mpr (by decide)
  exact (follows_word colon s).bind fun _ _ => follows_behindName _ _

theorem length_le_of_scanClassBound {rest : List Char} {bounds : List TypeSignature}
    (h : scanClassBound s = some (bounds, rest)) : rest.length ≤ s.length := by
  obtain ⟨c, more, rfl, found⟩ := Scan.peek_bind_eq_some h
  by_cases starts : c ∈ ['L', 'T', '[']
  · rw [if_pos starts] at found
    obtain ⟨bound, left, read, found⟩ := Scan.bind_eq_some found
    obtain ⟨-, rfl⟩ := Scan.pure_eq_some found
    exact Nat.le_of_lt (consumes_reference read)
  · rw [if_neg starts] at found
    obtain ⟨-, rfl⟩ := Scan.pure_eq_some found
    exact Nat.le_refl _

theorem length_le_of_scanInterfaceBounds {bound : Nat} {rest : List Char}
    {bounds : List TypeSignature}
    (h : TypeParameter.scanInterfaceBounds bound s = some (bounds, rest)) :
    rest.length ≤ s.length := by
  induction bound generalizing s bounds with
  | zero => cases h
  | succ bound ih =>
    cases s with
    | nil => cases h
    | cons c more =>
      by_cases colon : c = ':'
      · subst colon
        rw [TypeParameter.scanInterfaceBounds_colon] at h
        obtain ⟨first, middle, read, h⟩ := Scan.bind_eq_some h
        obtain ⟨others, left, behind, h⟩ := Scan.bind_eq_some h
        obtain ⟨-, rfl⟩ := Scan.pure_eq_some h
        have shorter := consumes_reference read
        exact Nat.le_succ_of_le (Nat.le_trans (ih behind) (Nat.le_of_lt shorter))
      · rw [TypeParameter.scanInterfaceBounds_other bound colon] at h
        cases h
        exact Nat.le_refl _

theorem length_le_of_boundsBehind {name rest : List Char} {bounds : List TypeSignature}
    {parameter : TypeParameter}
    (h : TypeParameter.boundsBehind name bounds s = some (parameter, rest)) :
    rest.length ≤ s.length := by
  obtain ⟨others, left, behind, h⟩ := Scan.bind_eq_some h
  obtain ⟨-, rfl⟩ := Scan.pure_eq_some h
  exact length_le_of_scanInterfaceBounds behind

theorem consumes_typeParameter : Scan.Consumes TypeParameter.scan := by
  rw [scan_eq_boundsBehind]
  refine Scan.consumes_bind (Scan.consumes_word [':']) fun {name s _ _} read => ?_
  obtain ⟨_, middle, colon, read⟩ := Scan.bind_eq_some read
  obtain ⟨bounds, left, first, read⟩ := Scan.bind_eq_some read
  calc _ ≤ left.length := length_le_of_boundsBehind read
    _ ≤ middle.length := length_le_of_scanClassBound first
    _ ≤ s.length := Nat.le_of_lt (Scan.consumes_expect ':' colon)

theorem scanList_bracket (rest : List Char) :
    TypeParameter.scanList ('<' :: rest) = (Scan.upTo '>' TypeParameter.scan >>= fun parameters =>
      if parameters.isEmpty then failure else pure parameters) rest := by
  show _ = (Scan.upTo '>' TypeParameter.scan rest).bind _
  unfold TypeParameter.scanList
  cases listed : Scan.upTo '>' TypeParameter.scan rest with
  | none => simp only [listed]; rfl
  | some found =>
    obtain ⟨parameters, left⟩ := found
    simp only [listed]
    cases parameters <;> rfl

theorem scanList_other {c : Char} (other : c ≠ '<') (rest : List Char) :
    TypeParameter.scanList (c :: rest) = some ([], c :: rest) := by
  unfold TypeParameter.scanList
  split
  next ahead => cases ahead; exact (other rfl).elim
  next => rfl

theorem follows_typeParameters (s : List Char) :
    Follows source typeParameters TypeParameter.scanList s := by
  have closing : '>'.toNat < 128 := by decide
  cases s with
  | nil => exact follows_end (follows_given rfl)
  | cons c rest =>
    refine follows_inside (follows_peek fun tells => tells.follows (by decide) ?_ fun other =>
      follows_given (scanList_other other rest))
    rintro rfl
    have row : Follows source (upTo '>' typeParameter) (Scan.upTo '>' TypeParameter.scan) rest :=
      follows_upTo closing consumes_typeParameter fun t _ => follows_typeParameter t
    refine follows_advance (by decide) (scanList_bracket rest) ?_
    refine row.bind fun {parameters _} _ _ => ?_
    cases parameters with
    | nil => exact follows_refuse rfl
    | cons first others => exact follows_pure (first :: others) _

/-! ## Declarations -/

theorem follows_classSignature (s : List Char) :
    Follows source classSignature ClassSignature.scan s :=
  (follows_typeParameters s).bind fun _ _ => (follows_classType _).bind fun _ _ =>
    (follows_toEnd consumes_classType follows_classType _).bind fun _ _ => follows_pure _ _

theorem follows_resultType (s : List Char) :
    Follows source resultType MethodSignature.scanReturn s := by
  refine follows_peeks fun {c rest} ahead tells => tells.follows_ite (by decide) ?_ fun _ =>
    follows_javaType s
  rintro rfl
  rw [ahead]
  exact follows_passes (by decide) (follows_pure _ _)

theorem follows_thrownType (s : List Char) :
    Follows source thrownType MethodSignature.scanThrows s :=
  (follows_expect (by decide) s).bind fun _ _ => follows_reference _

theorem consumes_thrownType : Scan.Consumes MethodSignature.scanThrows :=
  Scan.consumes_bind (Scan.consumes_expect '^') fun read => Nat.le_of_lt (consumes_reference read)

theorem follows_methodSignature (s : List Char) :
    Follows source methodSignature MethodSignature.scan s := by
  have closing : ')'.toNat < 128 := by decide
  have parameters (s : List Char) : Follows source (upTo ')' javaType)
      (Scan.upTo ')' (TypeSignature.scanJavaType TypeSignature.reference)) s :=
    follows_upTo closing consumes_javaType fun s _ => follows_javaType s
  refine (follows_typeParameters s).bind fun _ _ => ?_
  refine (follows_expect (by decide) _).bind fun _ _ => ?_
  refine (parameters _).bind fun _ _ => (follows_resultType _).bind fun _ _ => ?_
  exact (follows_toEnd consumes_thrownType follows_thrownType _).bind fun _ _ => follows_pure _ _

theorem rest_of_classSignature {rest : List Char} {signature : ClassSignature}
    (h : ClassSignature.scan s = some (signature, rest)) : rest = [] := by
  obtain ⟨_, _, _, h⟩ := Scan.bind_eq_some h
  obtain ⟨_, _, _, h⟩ := Scan.bind_eq_some h
  obtain ⟨_, _, listed, h⟩ := Scan.bind_eq_some h
  obtain ⟨-, rfl⟩ := Scan.pure_eq_some h
  exact Scan.rest_of_toEnd listed

theorem rest_of_methodSignature {rest : List Char} {signature : MethodSignature}
    (h : MethodSignature.scan s = some (signature, rest)) : rest = [] := by
  obtain ⟨_, _, _, h⟩ := Scan.bind_eq_some h
  obtain ⟨_, _, _, h⟩ := Scan.bind_eq_some h
  obtain ⟨_, _, _, h⟩ := Scan.bind_eq_some h
  obtain ⟨_, _, _, h⟩ := Scan.bind_eq_some h
  obtain ⟨_, _, listed, h⟩ := Scan.bind_eq_some h
  obtain ⟨-, rfl⟩ := Scan.pure_eq_some h
  exact Scan.rest_of_toEnd listed

/-! ## Every text -/

theorem mapError_elim {α : Type} (source : Source) (found : Option α) :
    (found.elim (Except.error source.refusal) Except.ok).mapError Halt.refused =
      source.answer found := by
  cases found <;> rfl

/-- However deep calls may be nested beyond the length of the text: read byte by byte, every text
gives what it gives character by character, and every part that is read moves the position on. -/
theorem readers_safe (text : String) {turns : Nat} (enough : text.utf8ByteSize < turns) :
    let descriptor : Source := ⟨text, .badDescriptor text, turns, enough⟩
    let signature : Source := ⟨text, .badSignature text, turns, enough⟩
    (run (whole fieldType) descriptor = some ((JavaType.parse text).mapError .refused) ∧
      run (whole methodType) descriptor = some ((MethodType.parse text).mapError .refused) ∧
      run (whole reference) signature = some ((TypeSignature.parse text).mapError .refused) ∧
      run classSignature signature = some ((ClassSignature.parse text).mapError .refused) ∧
      run methodSignature signature = some ((MethodSignature.parse text).mapError .refused)) ∧
    MovesOn descriptor fieldType ∧ MovesOn signature javaType ∧ MovesOn signature reference ∧
      MovesOn signature classType ∧ MovesOn signature typeParameter := by
  intro descriptor signature
  refine ⟨⟨?_, ?_, ?_, ?_, ?_⟩, ?_, ?_, ?_, ?_, ?_⟩
  · rw [JavaType.parse_eq, mapError_elim descriptor]
    exact run_whole (follows_fieldType _)
  · rw [MethodType.parse_eq, mapError_elim descriptor]
    exact run_whole (follows_methodType _)
  · rw [TypeSignature.parse_eq, mapError_elim signature]
    exact run_whole (follows_reference _)
  · rw [ClassSignature.parse_eq, mapError_elim signature]
    exact run_eq (follows_classSignature _) rest_of_classSignature
  · rw [MethodSignature.parse_eq, mapError_elim signature]
    exact run_eq (follows_methodSignature _) rest_of_methodSignature
  · exact movesOn_of_follows follows_fieldType consumes_scan
  · exact movesOn_of_follows follows_javaType consumes_javaType
  · exact movesOn_of_follows follows_reference consumes_reference
  · exact movesOn_of_follows follows_classType consumes_classType
  · exact movesOn_of_follows follows_typeParameter consumes_typeParameter

/-- The second byte of `é` is no place to cut the text, and none is made there. -/
theorem readers_safe_accented :
    ∃ enough : "Lé;".utf8ByteSize < 5,
      let source : Source := ⟨"Lé;", .badDescriptor "Lé;", 5, enough⟩
      cut 1 source 2 = some (.error .crashed) ∧
        run (whole fieldType) source = some (.ok (.object "é")) ∧
        ∃ type q, fieldType source 0 = some (.ok (type, q)) ∧ 0 < q ∧
          q ≤ source.bytes.length ∧ source.isBoundary q = true := by
  have enough : "Lé;".utf8ByteSize < 5 := by decide +kernel
  refine ⟨enough, ?_⟩
  intro source
  have inside : source.isBoundary 2 = false := by
    show (⟨2⟩ : String.Pos.Raw).isValid "Lé;" = false
    decide +kernel
  have start : source.isBoundary 0 = true := by
    show (⟨0⟩ : String.Pos.Raw).isValid "Lé;" = true
    decide +kernel
  have value : JavaType.parse "Lé;" = .ok (.object "é") := by decide +kernel
  obtain ⟨⟨read, -⟩, moves, -⟩ := readers_safe "Lé;" enough
  rw [value] at read
  refine ⟨?_, read, ?_⟩
  · simp [cut, inside]
  · rcases moves 0 start with refused | moved
    · unfold run whole at read
      rw [bind_of_error refused] at read
      cases read
    · exact moved

end ClassAtlas.Bytewise
