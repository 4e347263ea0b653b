import ClassAtlas.Proofs.ClassFile.Confined
import Mathlib.Algebra.GroupWithZero.Nat

/-!
# Reading stays within its bytes

`Advances cost reader`: from any position of a buffer the reader fails, or gets to a position that
is still in the buffer and further on by at least the cost of what was read. So what is read is
bounded by the bytes that are there, whatever the counts in them say.

* `elementValue_eq`: element values obey their own rule, so that the depth which bounds their
  nesting is never reached;
* `spends_elementValue`: a value takes a byte for each value and annotation in it;
* `decode_bounded`: this holds for a whole class file, its constants and each of its attributes.
-/

namespace ClassAtlas

namespace Reader

variable {α β : Type}

/-- What is read has taken at least this many bytes. -/
structure Spends (cost : α → Nat) (reader : Reader α) : Prop where
  le : ∀ {bytes rest : Bytes} {a : α}, reader bytes = .ok (a, rest) →
    cost a + rest.length ≤ bytes.length

/-- From any position of a buffer the reader fails, or goes on by at least the cost of what it reads
and does not leave the buffer. -/
def Advances (cost : α → Nat) (reader : Reader α) : Prop :=
  ∀ (buffer : Bytes) (start : Nat), start ≤ buffer.length →
    (∃ error, reader (buffer.drop start) = .error error) ∨
      ∃ a stop, reader (buffer.drop start) = .ok (a, buffer.drop stop) ∧
        start + cost a ≤ stop ∧ stop ≤ buffer.length

/-- What an incremental reader leaves is the end of what it was given, so its length tells where
that is. -/
theorem Incremental.advances {reader : Reader α} {cost : α → Nat} (h : Incremental reader)
    (spends : Spends cost reader) : Advances cost reader := by
  intro buffer start inside
  cases result : reader (buffer.drop start) with
  | error error => exact .inl ⟨error, rfl⟩
  | ok p =>
    obtain ⟨a, rest⟩ := p
    obtain ⟨front, split, _⟩ := h.takes result
    have taken := spends.le result
    have size := congrArg List.length split
    rw [List.length_append, List.length_drop] at size
    rw [List.length_drop] at taken
    have left : rest = buffer.drop (start + front.length) := by
      rw [← List.drop_drop, split, List.drop_left]
    rw [left]
    exact .inr ⟨a, start + front.length, rfl, by omega, by omega⟩

namespace Spends

/-- An incremental reader gives no bytes back. -/
theorem zero {reader : Reader α} (h : Incremental reader) : Spends (fun _ => 0) reader where
  le read := by
    have shorter := h.length_le read
    omega

theorem mono {reader : Reader α} {cost less : α → Nat} (h : Spends cost reader)
    (few : ∀ a, less a ≤ cost a) : Spends less reader where
  le {_ _ a} read := by
    have taken := h.le read
    have fewer := few a
    omega

theorem lift (result : Except ClassFileError α) : Spends (fun _ => 0) (Reader.lift result) :=
  zero (Incremental.lift result)

theorem pure {a : α} {cost : α → Nat} (free : cost a = 0) :
    Spends cost (Pure.pure a : Reader α) where
  le read := by
    cases read
    omega

theorem fail (error : ClassFileError) (cost : α → Nat) :
    Spends cost (Reader.fail error : Reader α) where
  le read := nomatch read

/-- What comes behind has to take what is not taken in front. -/
theorem bind {reader : Reader α} {next : α → Reader β} {cost : α → Nat} {total : β → Nat}
    (first : Spends cost reader) (second : ∀ a, Spends (fun b => total b - cost a) (next a)) :
    Spends total (reader >>= next) where
  le read := by
    obtain ⟨a, left, taken, others⟩ := bind_eq_ok read
    have one := first.le taken
    have other := (second a).le others
    omega

/-- What is made of a value costs no more than the value. -/
theorem map {reader : Reader α} {cost : α → Nat} {total : β → Nat} (h : Spends cost reader)
    {f : α → β} (few : ∀ a, total (f a) ≤ cost a) :
    Spends total (reader >>= fun a => Pure.pure (f a)) :=
  h.bind fun a => pure (Nat.sub_eq_zero_of_le (few a))

theorem times {item : Reader α} {cost : α → Nat} (h : Spends cost item) (count : Nat) :
    Spends (fun items => (items.map cost).sum) (times count item) := by
  induction count with
  | zero => exact pure rfl
  | succ count ih =>
    apply h.bind
    intro first
    apply ih.map
    intro others
    rw [List.map_cons, List.sum_cons]
    omega

theorem u1 : Spends (fun _ => 1) u1 where
  le {bytes _ _} read := by
    match bytes with
    | b :: bytes =>
      cases read
      simp only [List.length_cons]
      omega

theorem u2 : Spends (fun _ => 2) u2 where
  le {bytes _ _} read := by
    match bytes with
    | b :: c :: bytes =>
      cases read
      simp only [List.length_cons]
      omega

theorem u4 : Spends (fun _ => 4) u4 where
  le {bytes _ _} read := by
    match bytes with
    | b :: c :: d :: e :: bytes =>
      cases read
      simp only [List.length_cons]
      omega

theorem take (count : Nat) : Spends List.length (take count) where
  le read := by
    obtain ⟨split, _⟩ := take_eq_ok read
    rw [split, List.length_append]

end Spends

end Reader

/-! ## Nodes -/

mutual

/-- The number of values and annotations in a value, itself included. -/
def ElementValue.nodes : ElementValue → Nat
  | .nested annotation => annotation.nodes + 1
  | .array values => nodesOfValues values + 1
  | _ => 1

def nodesOfValues : List ElementValue → Nat
  | [] => 0
  | value :: others => value.nodes + nodesOfValues others

/-- The number of values and annotations in an annotation, itself included. -/
def Annotation.nodes : Annotation → Nat
  | .mk _ _ elements => nodesOfElements elements + 1

def nodesOfElements : List AnnotationElement → Nat
  | [] => 0
  | .mk _ value :: others => value.nodes + nodesOfElements others

end

theorem nodesOfValues_eq (values : List ElementValue) :
    nodesOfValues values = (values.map ElementValue.nodes).sum := by
  induction values with
  | nil => rfl
  | cons value values ih => simp [nodesOfValues, ih]

theorem nodesOfElements_eq (elements : List AnnotationElement) :
    nodesOfElements elements = (elements.map fun element => element.value.nodes).sum := by
  induction elements with
  | nil => rfl
  | cons element elements ih =>
    cases element with
    | mk name value => simp [nodesOfElements, ih, AnnotationElement.value]

theorem ElementValue.nodes_pos (value : ElementValue) : 1 ≤ value.nodes := by
  cases value <;> simp only [nodes] <;> omega

theorem Annotation.nodes_pos (tree : Annotation) : 1 ≤ tree.nodes := by
  cases tree
  simp only [nodes]
  omega

namespace ClassFile

open Reader

section Annotations

variable (pool : ConstantPool) (visible : Bool)

/-! ## Depth -/

/-- On so many bytes a depth of as many levels does what the bytes at hand allow. -/
theorem agrees_elementValue (limit : Nat) :
    Reader.Agrees limit (elementValue pool visible) (elementValueWithin pool visible limit) := by
  intro bytes short
  exact agrees_elementValueWithin (Nat.le_refl _) short bytes (Nat.le_refl _)

/-- Element values are read by the rule for element values: the recursion ends with the bytes and
never at the depth that is allowed for. -/
theorem elementValue_eq :
    elementValue pool visible = readElementValue pool visible (elementValue pool visible) := by
  funext bytes
  cases bytes with
  | nil => rfl
  | cons byte bytes =>
    have within : Reader.Agrees (bytes.length + 1)
        (readElementValue pool visible (elementValue pool visible))
        (readElementValue pool visible (elementValueWithin pool visible bytes.length)) :=
      agrees_readElementValue (agrees_elementValue pool visible bytes.length)
        (incremental_elementValue pool visible)
    exact (within (byte :: bytes) (Nat.le_refl _)).symm

/-! ## Annotations -/

theorem spends_operand {α : Type} (select : UInt16 → Except ClassFileError α) :
    Spends (fun _ => 2) (operand select) :=
  Spends.u2.bind fun index => (Spends.lift (select index)).mono fun _ => Nat.le_refl _

variable {reader : Reader ElementValue}

theorem spends_element (h : Spends ElementValue.nodes reader) :
    Spends (fun element => 2 + element.value.nodes) (readElement pool reader) := by
  apply (spends_operand pool.text).bind
  intro name
  apply h.map
  intro value
  simp only [AnnotationElement.value]
  omega

/-- An annotation takes two bytes for its type and two for the number of its elements. -/
theorem spends_annotationItem (h : Spends ElementValue.nodes reader) :
    Spends (fun annotation => 3 + annotation.nodes) (annotationItem pool visible reader) := by
  have element : Spends (fun element => element.value.nodes) (readElement pool reader) :=
    (spends_element pool h).mono fun element => Nat.le_add_left _ _
  apply (spends_operand pool.text).bind
  intro descriptor
  apply (Spends.lift (objectName descriptor)).bind
  intro typeName
  apply Spends.u2.bind
  intro count
  apply (element.times count.toNat).map
  intro elements
  simp only [nodesOfElements_eq, Annotation.nodes]
  omega

/-- A value takes a byte for its letter, and more for its content. -/
theorem spends_readElementValue (h : Spends ElementValue.nodes reader) :
    Spends ElementValue.nodes (readElementValue pool visible reader) := by
  have leaf : ∀ {α : Type} (select : UInt16 → Except ClassFileError α) (f : α → ElementValue)
      (taken : Nat), (∀ a, (f a).nodes = 1) → 1 ≤ taken →
        Spends (fun value => value.nodes - taken) (operand select >>= fun a => pure (f a)) := by
    intro α select f taken single positive
    apply (spends_operand select).map
    intro a
    rw [single a]
    omega
  apply Spends.u1.bind
  intro tag
  split
  -- Apart from enum constants, class literals, annotations, arrays and unknown letters, a letter is
  -- followed by a single operand.
  case h_10 =>
    apply (spends_operand pool.text).bind
    intro descriptor
    apply (Spends.lift (objectName descriptor)).bind
    intro typeName
    exact leaf pool.text (.enum typeName) 3 (fun _ => rfl) (by omega)
  case h_11 =>
    apply (spends_operand pool.text).bind
    intro descriptor
    exact (Spends.lift (literalType descriptor)).map fun type => Nat.le_refl _
  case h_12 =>
    apply (spends_annotationItem pool visible h).map
    intro annotation
    simp only [ElementValue.nodes]
    omega
  case h_13 =>
    apply Spends.u2.bind
    intro count
    apply (h.times count.toNat).map
    intro values
    simp only [ElementValue.nodes, nodesOfValues_eq]
    omega
  case h_14 => exact Spends.fail _ _
  all_goals exact leaf _ _ 1 (fun _ => rfl) (Nat.le_refl _)

theorem spends_elementValueWithin (depth : Nat) :
    Spends ElementValue.nodes (elementValueWithin pool visible depth) := by
  induction depth with
  | zero => exact Spends.fail .unexpectedEnd _
  | succ depth ih => exact spends_readElementValue pool visible ih

theorem spends_elementValue : Spends ElementValue.nodes (elementValue pool visible) where
  le {bytes _ _} read := (spends_elementValueWithin pool visible bytes.length).le read

theorem spends_annotationOfPool :
    Spends (fun annotation => 3 + annotation.nodes)
      (annotationItem pool visible (elementValue pool visible)) :=
  spends_annotationItem pool visible (spends_elementValue pool visible)

theorem spends_annotations :
    Spends (fun annotations => (annotations.map Annotation.nodes).sum)
      (readAnnotations pool visible) := by
  have item : Spends Annotation.nodes (annotationItem pool visible (elementValue pool visible)) :=
    (spends_annotationOfPool pool visible).mono fun annotation => Nat.le_add_left _ _
  apply Spends.u2.bind
  intro count
  apply (item.times count.toNat).mono
  intro annotations
  omega

theorem sum_nodes_flatten (slots : List (List Annotation)) :
    (slots.flatten.map Annotation.nodes).sum =
      (slots.map fun annotations => (annotations.map Annotation.nodes).sum).sum := by
  induction slots with
  | nil => rfl
  | cons annotations slots ih =>
    rw [List.map_flatten] at ih
    simp [ih]

theorem spends_parameterAnnotations :
    Spends (fun slots => (slots.flatten.map Annotation.nodes).sum)
      (readParameterAnnotations pool visible) := by
  apply Spends.u1.bind
  intro count
  apply ((spends_annotations pool visible).times count.toNat).mono
  intro slots
  rw [sum_nodes_flatten]
  omega

end Annotations

/-! ## Constants -/

theorem spends_text : Spends (fun constant => constant.slots.length - 1) Constant.readText := by
  apply Spends.u2.bind
  intro length
  apply (Spends.take length.toNat).bind
  intro bytes
  apply (Spends.lift (Constant.textOf bytes)).map
  intro text
  simp [Constant.slots, Constant.isWide]

/-- A constant of two slots takes eight bytes behind its tag. -/
theorem spends_constant : Spends (fun constant => constant.slots.length) Constant.read := by
  have narrow : ∀ {α : Type} {reader : Reader α} (f : α → Constant), Incremental reader →
      (∀ a, (f a).slots.length = 1) →
        Spends (fun constant => constant.slots.length - 1) (reader >>= fun a => pure (f a)) := by
    intro α reader f incremental single
    apply (Spends.zero incremental).map
    intro a
    rw [single a]
  have wide : ∀ f : UInt64 → Constant, (∀ n, (f n).slots.length = 2) →
      Spends (fun constant => constant.slots.length - 1) (Reader.u8 >>= fun n => pure (f n)) := by
    intro f double
    have word : Spends (fun _ => 4) Reader.u8 :=
      Spends.u4.bind fun high => (Spends.zero Incremental.u4).map fun low => Nat.le_refl _
    apply word.map
    intro n
    rw [double n]
    omega
  apply Spends.u1.bind
  intro tag
  split
  · exact spends_text
  · exact narrow _ Incremental.u4 fun _ => rfl
  · exact narrow _ Incremental.u4 fun _ => rfl
  · exact wide _ fun _ => rfl
  · exact wide _ fun _ => rfl
  · exact narrow _ Incremental.u2 fun _ => rfl
  · exact narrow _ Incremental.u2 fun _ => rfl
  · split
    next size _ => exact narrow (fun _ => .other) (Incremental.skip size) fun _ => rfl
    next => exact Spends.fail _ _

theorem spends_constants (slots : Nat) :
    Spends (fun constants => (constants.flatMap Constant.slots).length)
      (Constant.readList slots) := by
  induction slots using Constant.readList.induct with
  | case1 => exact Spends.pure rfl
  | case2 => exact spends_constant.map fun constant => by simp
  | case3 slots narrow wide =>
    have behind : ∀ (first : Constant) (others : List Constant),
        ((first :: others).flatMap Constant.slots).length - first.slots.length ≤
          (others.flatMap Constant.slots).length := by
      intro first others
      rw [List.flatMap_cons, List.length_append]
      omega
    apply spends_constant.bind
    intro first
    split
    · exact narrow.map (behind first)
    · exact wide.map (behind first)

/-- A pool has no more slots than it has bytes, whatever number of them is declared. -/
theorem spends_pool : Spends (fun pool => pool.slots.size + 1) ConstantPool.read := by
  apply Spends.u2.bind
  intro count
  apply (spends_constants (count.toNat - 1)).map
  intro constants
  simp only [ConstantPool.ofConstants, List.size_toArray, List.length_cons]
  omega

/-- No constant is found behind the last slot. -/
theorem find_of_size_le {α : Type} {pool : ConstantPool} {index : UInt16}
    (behind : pool.slots.size ≤ index.toNat) (select : Constant → Option α) :
    pool.find select index = .error (.badConstantIndex index) := by
  rw [ConstantPool.find, Array.getElem?_eq_none behind]
  rfl

/-! ## Attributes -/

theorem spends_attribute (pool : ConstantPool) :
    Spends (fun named => 6 + named.2.length) (readAttribute pool) := by
  apply (spends_operand pool.text).bind
  intro name
  apply Spends.u4.bind
  intro length
  apply (Spends.take length.toNat).map
  intro body
  dsimp only
  omega

/-- An attribute is its name, its length, and a body of that length. -/
theorem attribute_eq_ok {pool : ConstantPool} {bytes body rest : Bytes} {name : String}
    (h : readAttribute pool bytes = .ok ((name, body), rest)) :
    ∃ index : UInt16, pool.text index = .ok name ∧ body.length < 0x100000000 ∧
      bytes = word2 index.toNat ++ (word4 body.length ++ (body ++ rest)) := by
  obtain ⟨_, left, readName, h⟩ := bind_eq_ok h
  obtain ⟨length, left', readLength, h⟩ := bind_eq_ok h
  obtain ⟨_, left'', readBody, h⟩ := bind_eq_ok h
  cases h
  obtain ⟨rfl, whole⟩ := take_eq_ok readBody
  obtain rfl := u4_eq_ok readLength
  obtain ⟨index, text, rfl⟩ := operand_eq_ok readName
  rw [whole]
  exact ⟨index, text, length.toNat_lt, rfl⟩

/-! ## Class files -/

/-- The reading of annotations ends with the bytes. -/
structure AnnotationsBounded (pool : ConstantPool) (visible : Bool) : Prop where
  /-- Values are read by their own rule to any depth. -/
  recursion : elementValue pool visible = readElementValue pool visible (elementValue pool visible)
  /-- A value takes a byte or more, and no fewer than there are nodes in it. -/
  value : Advances (fun value => max 1 value.nodes) (elementValue pool visible)
  /-- An annotation takes four bytes or more, and no fewer than there are nodes in it. -/
  annotation : Advances (fun annotation => max 4 annotation.nodes)
    (annotationItem pool visible (elementValue pool visible))
  annotations : Advances (fun annotations => (annotations.map Annotation.nodes).sum)
    (readAnnotations pool visible)
  parameters : Advances (fun slots => (slots.flatten.map Annotation.nodes).sum)
    (readParameterAnnotations pool visible)

theorem annotationsBounded (pool : ConstantPool) (visible : Bool) :
    AnnotationsBounded pool visible where
  recursion := elementValue_eq pool visible
  value := by
    apply (incremental_elementValue pool visible).advances
    apply (spends_elementValue pool visible).mono
    intro value
    have positive : 1 ≤ value.nodes := value.nodes_pos
    omega
  annotation := by
    have values := incremental_elementValue pool visible
    apply (incremental_annotationItem pool visible values).advances
    apply (spends_annotationOfPool pool visible).mono
    intro annotation
    have positive : 1 ≤ annotation.nodes := annotation.nodes_pos
    omega
  annotations := (incremental_annotations pool visible).advances (spends_annotations pool visible)
  parameters := by
    apply (incremental_parameterAnnotations pool visible).advances
    exact spends_parameterAnnotations pool visible

/-- An attribute has a body of the declared length, and of its annotations there are no more nodes
than that. -/
structure AttributeBounded (pool : ConstantPool) (bytes body rest : Bytes) : Prop where
  declared : ∃ index : UInt16, body.length < 0x100000000 ∧
    bytes = word2 index.toNat ++ (word4 body.length ++ (body ++ rest))
  annotations : ∀ visible annotations left,
    readAnnotations pool visible body = .ok (annotations, left) →
      (annotations.map Annotation.nodes).sum ≤ body.length
  parameters : ∀ visible slots left,
    readParameterAnnotations pool visible body = .ok (slots, left) →
      (slots.flatten.map Annotation.nodes).sum ≤ body.length

theorem attributeBounded {pool : ConstantPool} {bytes body rest : Bytes} {name : String}
    (h : readAttribute pool bytes = .ok ((name, body), rest)) :
    AttributeBounded pool bytes body rest where
  declared := by
    obtain ⟨index, _, fits, split⟩ := attribute_eq_ok h
    exact ⟨index, fits, split⟩
  annotations visible annotations left read := by
    have taken := (spends_annotations pool visible).le read
    omega
  parameters visible slots left read := by
    have taken := (spends_parameterAnnotations pool visible).le read
    omega

end ClassFile

namespace ClassDecl

open ClassFile Reader

/-- Any bytes are refused for a cause, or the class that they declare is read from their front. -/
theorem decode_cases (bytes : Bytes) :
    (∃ error, decode bytes = .error error) ∨
      ∃ decl stop, decode bytes = .ok decl ∧ stop ≤ bytes.length ∧
        ClassFile.readClass bytes = .ok (decl, bytes.drop stop) := by
  have advances : Advances (fun _ => 0) ClassFile.readClass :=
    incremental_class.advances (.zero incremental_class)
  rcases advances bytes 0 (Nat.zero_le _) with ⟨error, refused⟩ | ⟨decl, stop, read, _, inside⟩
  · rw [List.drop_zero] at refused
    have fails : decode bytes = .error error := by
      rw [decode, StateT.run, refused]
      rfl
    exact .inl ⟨error, fails⟩
  · rw [List.drop_zero] at read
    have declares : decode bytes = .ok decl := by
      rw [decode, StateT.run, read]
      rfl
    exact .inr ⟨decl, stop, declares, inside, read⟩

/-- Any bytes are a class file or refused for a cause, and no reader on the way leaves the bytes it
was given: neither that of the file, nor that of the constants, whose slots are bounded by their
bytes, nor that of an attribute's content. A constant that is not there is refused. Annotations are
bounded by the length of their attribute, whatever their counts say. -/
theorem decode_bounded :
    (∀ bytes, (∃ error, decode bytes = .error error) ∨
      ∃ decl stop, decode bytes = .ok decl ∧ stop ≤ bytes.length ∧
        ClassFile.readClass bytes = .ok (decl, bytes.drop stop)) ∧
    Advances (fun pool => pool.slots.size + 1) ConstantPool.read ∧
    (∀ (kind : TableKind) (head : ClassHead) (name : String) (decl : kind.Decl),
      Advances (fun _ => 0) (kind.revise head name decl)) ∧
    ∀ pool : ConstantPool,
      (∀ (α : Type) (select : Constant → Option α) (index : UInt16),
        pool.slots.size ≤ index.toNat →
          pool.find select index = .error (.badConstantIndex index)) ∧
      (∀ visible, AnnotationsBounded pool visible) ∧
      Advances (fun named => 6 + named.2.length) (readAttribute pool) ∧
      ∀ bytes name body rest, readAttribute pool bytes = .ok ((name, body), rest) →
        AttributeBounded pool bytes body rest := by
  have contents : ∀ (kind : TableKind) (head : ClassHead) (name : String) (decl : kind.Decl),
      Advances (fun _ => 0) (kind.revise head name decl) := by
    intro kind head name decl
    have content := kind.incremental_revise head name decl
    exact content.advances (.zero content)
  refine ⟨decode_cases, incremental_pool.advances spends_pool, contents, ?_⟩
  intro pool
  have attributes : Advances (fun named => 6 + named.2.length) (readAttribute pool) :=
    (incremental_attribute pool).advances (spends_attribute pool)
  refine ⟨?_, annotationsBounded pool, attributes, ?_⟩
  · intro α select index behind
    exact find_of_size_le behind select
  · intro bytes name body rest read
    exact attributeBounded read

end ClassDecl

end ClassAtlas
