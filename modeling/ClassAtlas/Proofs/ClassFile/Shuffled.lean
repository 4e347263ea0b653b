import ClassAtlas.Proofs.ClassDecl.Agreement
import ClassAtlas.Proofs.ClassFile.Notes

/-!
# The order of attributes

Attributes of different names set different properties, or add to different lists. So a table in
which no name stands twice may be shuffled: the file is refused or read as before, and what it
declares agrees (`ClassDecl.decode_shuffled`). Only the enclosing class has two sources, of which
the later wins: `Orderly` asks that a file has at most one of them.
-/

namespace ClassAtlas

namespace ClassFile

open Reader

/-! ## Notes that change places -/

theorem or_left_comm_of_none {α : Type} {a b : Option α} (h : a = none ∨ b = none) (c : Option α) :
    b.or (a.or c) = a.or (b.or c) := by
  rcases h with rfl | rfl <;> simp

/-- Of two different names at most one is this name. -/
theorem none_or_none {α β : Type} {name other : String} (different : name ≠ other)
    {wanted : String} {a : Option α} {b : Option β} (ha : a ≠ none → name = wanted)
    (hb : b ≠ none → other = wanted) : a = none ∨ b = none := by
  by_contra both
  obtain ⟨inOne, inOther⟩ := not_or.mp both
  exact different ((ha inOne).trans (hb inOther).symm)

section Slots

theorem agrees_mergeSlots {one other : List (List Annotation)}
    (h : List.Forall₂ SameByVisibility one other) (more : List (List Annotation)) :
    List.Forall₂ SameByVisibility (mergeSlots one more) (mergeSlots other more) := by
  induction h generalizing more with
  | nil => exact List.forall₂_same.mpr fun _ _ => .refl _
  | cons same others ih =>
    cases more with
    | nil =>
      rw [mergeSlots_nil, mergeSlots_nil]
      exact .cons same others
    | cons slot more => exact .cons (same.append_right slot) (ih more)

/-- Slots of different visibility may be merged in any order. -/
theorem mergeSlots_swap (front : List (List Annotation)) {one other : List (List Annotation)}
    (apart : ∀ slot ∈ one, ∀ slot' ∈ other, ∀ marked ∈ slot, ∀ marked' ∈ slot',
      marked.visible ≠ marked'.visible) :
    List.Forall₂ SameByVisibility (mergeSlots (mergeSlots front one) other)
      (mergeSlots (mergeSlots front other) one) := by
  induction one generalizing front other with
  | nil =>
    rw [mergeSlots_nil, mergeSlots_nil]
    exact List.forall₂_same.mpr fun _ _ => .refl _
  | cons slot one ih =>
    cases other with
    | nil =>
      rw [mergeSlots_nil, mergeSlots_nil]
      exact List.forall₂_same.mpr fun _ _ => .refl _
    | cons slot' other =>
      have first := apart slot List.mem_cons_self slot' List.mem_cons_self
      have others := fun front => ih front (fun a ha b hb =>
        apart a (List.mem_cons_of_mem slot ha) b (List.mem_cons_of_mem slot' hb))
      cases front with
      | nil =>
        have rows := others []
        rw [nil_mergeSlots, nil_mergeSlots] at rows ⊢
        exact .cons (SameByVisibility.swap [] first) rows
      | cons own front => exact .cons (SameByVisibility.swap own first) (others front)

end Slots

section Swaps

variable {name other : String} (different : name ≠ other)

include different

theorem visible_ne {marked marked' : Annotation} (h : name = annotationsName marked.visible)
    (h' : other = annotationsName marked'.visible) : marked.visible ≠ marked'.visible := by
  intro same
  rw [h, h', same] at different
  exact different rfl

theorem FieldNote.swap {a b : FieldNote} (ha : a.From name) (hb : b.From other)
    (field : FieldDecl) : (b.apply (a.apply field)).Agrees (a.apply (b.apply field)) where
  otherwise := by
    simp only [apply,
      or_left_comm_of_none (none_or_none different ha.signature hb.signature),
      or_left_comm_of_none (none_or_none different ha.constant hb.constant)]
  annotations := SameByVisibility.swap field.annotations fun marked inside marked' inside' =>
    visible_ne different (ha.annotations marked inside) (hb.annotations marked' inside')

theorem MethodNote.swap {a b : MethodNote} (ha : a.From name) (hb : b.From other)
    (method : MethodDecl) : (b.apply (a.apply method)).Agrees (a.apply (b.apply method)) where
  otherwise := by
    have exceptions : (method.exceptions ++ a.exceptions) ++ b.exceptions =
        (method.exceptions ++ b.exceptions) ++ a.exceptions := by
      by_cases empty : a.exceptions = []
      · rw [empty, List.append_nil, List.append_nil]
      · have empty' : b.exceptions = [] := by
          by_contra nonempty
          exact different ((ha.exceptions empty).trans (hb.exceptions nonempty).symm)
        rw [empty', List.append_nil, List.append_nil]
    simp only [apply, exceptions,
      or_left_comm_of_none (none_or_none different ha.signature hb.signature)]
  annotations := SameByVisibility.swap method.annotations fun marked inside marked' inside' =>
    visible_ne different (ha.annotations marked inside) (hb.annotations marked' inside')
  parameterAnnotations := by
    refine mergeSlots_swap method.parameterAnnotations ?_
    intro slot inA slot' inB marked inside marked' inside' same
    have named := ha.parameterAnnotations slot inA marked inside
    have named' := hb.parameterAnnotations slot' inB marked' inside'
    rw [named, named', same] at different
    exact different rfl

theorem ClassNote.swap {a b : ClassNote} (ha : a.From name) (hb : b.From other)
    (enclosing : a.enclosingClass = none ∨ b.enclosingClass = none) (decl : ClassDecl) :
    (b.apply (a.apply decl)).Agrees (a.apply (b.apply decl)) where
  otherwise := by
    have access : b.access.getD (a.access.getD decl.access) =
        a.access.getD (b.access.getD decl.access) := by
      rcases none_or_none different ha.access hb.access with missing | missing
      · rw [missing, Option.getD_none, Option.getD_none]
      · rw [missing, Option.getD_none, Option.getD_none]
    simp only [apply, access, or_left_comm_of_none enclosing,
      or_left_comm_of_none (none_or_none different ha.signature hb.signature),
      or_left_comm_of_none (none_or_none different ha.sourceFile hb.sourceFile)]
  fields := List.forall₂_same.mpr fun _ _ => .refl _
  methods := List.forall₂_same.mpr fun _ _ => .refl _
  annotations := SameByVisibility.swap decl.annotations fun marked inside marked' inside' =>
    visible_ne different (ha.annotations marked inside) (hb.annotations marked' inside')

end Swaps

/-! ## Tables -/

/-- The indices do not designate the same text. -/
def DifferentNames (pool : ConstantPool) (one other : AttributeFrame) : Prop :=
  ∀ name, pool.text one.nameIndex = .ok name → pool.text other.nameIndex ≠ .ok name

theorem DifferentNames.symm {pool : ConstantPool} {one other : AttributeFrame}
    (h : DifferentNames pool one other) : DifferentNames pool other one :=
  fun name named named' => h name named' named

/-- What tells something under an index has a name, and the names differ. -/
theorem DifferentNames.exists_names {pool : ConstantPool} {one other : AttributeFrame} {ν : Type}
    {read : String → Reader ν} {a b : ν} (apart : DifferentNames pool one other)
    (toldA : one.note pool read = .ok a) (toldB : other.note pool read = .ok b) :
    ∃ name name', name ≠ name' ∧
      (pool.text one.nameIndex = .ok name ∧ ∃ rest, read name one.body = .ok (a, rest)) ∧
      pool.text other.nameIndex = .ok name' ∧ ∃ rest, read name' other.body = .ok (b, rest) := by
  obtain ⟨name, rest, named, readA⟩ := AttributeFrame.note_eq_ok toldA
  obtain ⟨name', rest', named', readB⟩ := AttributeFrame.note_eq_ok toldB
  refine ⟨name, name', ?_, ⟨named, rest, readA⟩, named', rest', readB⟩
  rintro rfl
  exact apart name named named'

/-- No name stands twice in the table. -/
def NamesOnce (pool : ConstantPool) (table : List AttributeFrame) : Prop :=
  table.Pairwise (DifferentNames pool)

theorem alike_fieldTable {pool : ConstantPool} {table table' : List AttributeFrame}
    (once : NamesOnce pool table) (perm : table.Perm table') (field : FieldDecl) :
    Alike FieldDecl.Agrees (tableTold pool (reviseField pool) field table)
      (tableTold pool (reviseField pool) field table') := by
  have notes : ∀ table, tableTold pool (reviseField pool) field table =
      noted (AttributeFrame.note pool (fieldNote pool field.type)) FieldNote.apply field table := by
    intro table
    refine tableTold_eq_noted (fun other : FieldDecl => other.type = field.type) ?_ ?_ table rfl
    · intro name other same
      rw [reviseField_eq, same]
    · exact fun other note same => same
  rw [notes, notes]
  refine alike_noted_perm ?congr .refl .trans .symm ?comm perm once field
  case congr =>
    intro one other agrees note
    refine ⟨?_, agrees.annotations.append_right _⟩
    exact (congrArg (fun field => { note.apply field with annotations := [] }) agrees.otherwise :)
  case comm =>
    intro one other a b apart toldA toldB
    obtain ⟨name, name', different, ⟨_, _, readA⟩, _, _, readB⟩ := apart.exists_names toldA toldB
    exact FieldNote.swap different (fieldNote_from _ _ _ _ _ _ readA)
      (fieldNote_from _ _ _ _ _ _ readB)

theorem alike_methodTable {pool : ConstantPool} {table table' : List AttributeFrame}
    (once : NamesOnce pool table) (perm : table.Perm table') (method : MethodDecl) :
    Alike MethodDecl.Agrees (tableTold pool (reviseMethod pool) method table)
      (tableTold pool (reviseMethod pool) method table') := by
  have notes : ∀ table, tableTold pool (reviseMethod pool) method table =
      noted (AttributeFrame.note pool (methodNote pool)) MethodNote.apply method table :=
    fun table => tableTold_eq_noted (fun _ => True)
      (fun name other _ => reviseMethod_eq pool name other) (fun _ _ _ => trivial) table trivial
  rw [notes, notes]
  refine alike_noted_perm ?congr .refl .trans .symm ?comm perm once method
  case congr =>
    intro one other agrees note
    refine ⟨?_, agrees.annotations.append_right _, agrees_mergeSlots agrees.parameterAnnotations _⟩
    exact (congrArg (fun method => { note.apply method with
      annotations := [], parameterAnnotations := [] }) agrees.otherwise :)
  case comm =>
    intro one other a b apart toldA toldB
    obtain ⟨name, name', different, ⟨_, _, readA⟩, _, _, readB⟩ := apart.exists_names toldA toldB
    exact MethodNote.swap different (methodNote_from _ _ _ _ _ readA)
      (methodNote_from _ _ _ _ _ readB)

/-- Both attributes tell of a class around this one. -/
def BothEnclose (head : ClassHead) (one other : AttributeFrame) : Prop :=
  head.pool.text one.nameIndex = .ok "EnclosingMethod" ∧
    head.pool.text other.nameIndex = .ok "InnerClasses" ∧
    DeclaresOuter head.pool head.thisIndex head.name other.body

/-- The attributes tell of different things. -/
structure ApartInClass (head : ClassHead) (one other : AttributeFrame) : Prop where
  names : DifferentNames head.pool one other
  enclosing : ¬ BothEnclose head one other
  enclosing' : ¬ BothEnclose head other one

theorem ApartInClass.symm {head : ClassHead} {one other : AttributeFrame}
    (h : ApartInClass head one other) : ApartInClass head other one :=
  ⟨h.names.symm, h.enclosing', h.enclosing⟩

theorem ApartInClass.swap {head : ClassHead} {one other : AttributeFrame} {a b : ClassNote}
    (apart : ApartInClass head one other)
    (toldA : one.note head.pool (classNote head.pool head.thisIndex head.name) = .ok a)
    (toldB : other.note head.pool (classNote head.pool head.thisIndex head.name) = .ok b)
    (decl : ClassDecl) : (b.apply (a.apply decl)).Agrees (a.apply (b.apply decl)) := by
  obtain ⟨name, name', different, ⟨named, _, readA⟩, named', _, readB⟩ :=
    apart.names.exists_names toldA toldB
  have fromA := classNote_from _ _ _ _ _ _ _ readA
  have fromB := classNote_from _ _ _ _ _ _ _ readB
  refine ClassNote.swap different fromA fromB ?_ decl
  by_contra both
  obtain ⟨inA, inB⟩ := not_or.mp both
  rcases fromA.enclosingClass inA with rfl | rfl
  · rcases fromB.enclosingClass inB with rfl | rfl
    · exact different rfl
    · exact apart.enclosing ⟨named, named', declaresOuter_of_enclosing readB inB⟩
  · rcases fromB.enclosingClass inB with rfl | rfl
    · exact apart.enclosing' ⟨named', named, declaresOuter_of_enclosing readA inA⟩
    · exact different rfl

theorem alike_classTable {head : ClassHead} {table table' : List AttributeFrame}
    (apart : table.Pairwise (ApartInClass head)) (perm : table.Perm table') {decl decl' : ClassDecl}
    (name : decl.name = head.name) (agrees : decl.Agrees decl') :
    Alike ClassDecl.Agrees
      (tableTold head.pool (reviseClass head.pool head.thisIndex) decl table)
      (tableTold head.pool (reviseClass head.pool head.thisIndex) decl' table') := by
  have name' : decl'.name = head.name :=
    (congrArg ClassDecl.name agrees.otherwise :).symm.trans name
  have notes : ∀ (decl : ClassDecl) table, decl.name = head.name →
      tableTold head.pool (reviseClass head.pool head.thisIndex) decl table =
      noted (AttributeFrame.note head.pool (classNote head.pool head.thisIndex head.name))
        ClassNote.apply decl table := by
    intro decl table own
    refine tableTold_eq_noted (fun other : ClassDecl => other.name = head.name) ?_ ?_ table own
    · intro name other same
      rw [reviseClass_eq, same]
    · exact fun other note same => same
  have congr : ∀ {one other : ClassDecl}, one.Agrees other → ∀ note : ClassNote,
      (note.apply one).Agrees (note.apply other) := by
    intro one other agrees note
    refine ⟨?_, agrees.fields, agrees.methods, agrees.annotations.append_right _⟩
    exact (congrArg (fun decl => { note.apply decl with
      fields := [], methods := [], annotations := [] }) agrees.otherwise :)
  rw [notes decl table name, notes decl' table' name']
  have shuffled := alike_noted_perm congr .refl .trans .symm
    (fun apart toldA toldB => apart.swap toldA toldB) perm apart decl
  exact shuffled.trans (alike_noted congr table' agrees) .trans

/-! ## Files -/

/-- The same member with its attributes in another order. -/
structure MemberFrame.Shuffles (one other : MemberFrame) : Prop where
  head : one.head = other.head
  attributes : one.attributes.Perm other.attributes

/-- The same file with the attributes of every table in another order. -/
structure ClassFrame.Shuffles (file other : ClassFrame) : Prop where
  head : file.head = other.head
  fields : List.Forall₂ MemberFrame.Shuffles file.fields other.fields
  methods : List.Forall₂ MemberFrame.Shuffles file.methods other.methods
  attributes : file.attributes.Perm other.attributes

/-- No table has two attributes of one name, and at most one attribute tells of an enclosing
class. -/
structure ClassFrame.Orderly (file : ClassFrame) : Prop where
  fields : ∀ field ∈ file.fields, NamesOnce file.head.head.pool field.attributes
  methods : ∀ method ∈ file.methods, NamesOnce file.head.head.pool method.attributes
  attributes : NamesOnce file.head.head.pool file.attributes
  enclosing : ∀ one ∈ file.attributes, ∀ other ∈ file.attributes,
    ¬ BothEnclose file.head.head one other

theorem ClassFrame.Orderly.apart {file : ClassFrame} (orderly : file.Orderly) :
    file.attributes.Pairwise (ApartInClass file.head.head) :=
  orderly.attributes.imp_of_mem fun {one other} inside inside' names =>
    ⟨names, orderly.enclosing one inside other inside', orderly.enclosing other inside' one inside⟩

theorem ClassFrame.Shuffles.fits {file other : ClassFrame} (shuffles : file.Shuffles other)
    (fits : file.Fits) : other.Fits := by
  have short : ∀ {members members' : List MemberFrame},
      List.Forall₂ MemberFrame.Shuffles members members' →
      (∀ member ∈ members, member.attributes.length < 0x10000) →
      ∀ member ∈ members', member.attributes.length < 0x10000 := by
    intro members members' rows
    induction rows with
    | nil => exact fun _ _ inside => absurd inside List.not_mem_nil
    | cons first _ ih =>
      intro each
      obtain ⟨own, others⟩ := List.forall_mem_cons.mp each
      exact List.forall_mem_cons.mpr ⟨first.attributes.length_eq ▸ own, ih others⟩
  constructor
  · exact shuffles.fields.length_eq ▸ fits.fields
  · exact short shuffles.fields fits.eachField
  · exact shuffles.methods.length_eq ▸ fits.methods
  · exact short shuffles.methods fits.eachMethod
  · exact shuffles.attributes.length_eq ▸ fits.attributes

section Members

variable {pool : ConstantPool} {member member' : MemberFrame}

theorem alike_field (once : NamesOnce pool member.attributes) (shuffles : member.Shuffles member') :
    Alike FieldDecl.Agrees (member.field pool) (member'.field pool) := by
  unfold MemberFrame.field MemberFrame.told
  rw [shuffles.head]
  cases member'.head.told pool JavaType.parse bareField with
  | error e => exact .refused e e
  | ok start => exact alike_fieldTable once shuffles.attributes start

theorem alike_method (once : NamesOnce pool member.attributes)
    (shuffles : member.Shuffles member') :
    Alike MethodDecl.Agrees (member.method pool) (member'.method pool) := by
  unfold MemberFrame.method MemberFrame.told
  rw [shuffles.head]
  cases member'.head.told pool MethodType.parse bareMethod with
  | error e => exact .refused e e
  | ok start => exact alike_methodTable once shuffles.attributes start

end Members

theorem alike_decl {file other : ClassFrame} (orderly : file.Orderly)
    (shuffles : file.Shuffles other) : Alike ClassDecl.Agrees file.decl other.decl := by
  have fields : Alike (List.Forall₂ FieldDecl.Agrees)
      (file.fields.mapM (MemberFrame.field file.head.head.pool))
      (other.fields.mapM (MemberFrame.field file.head.head.pool)) := by
    apply alike_mapM
    have each := (List.forall₂_and_left _ _).mpr ⟨orderly.fields, shuffles.fields⟩
    exact each.imp fun _ _ h => alike_field h.1 h.2
  have methods : Alike (List.Forall₂ MethodDecl.Agrees)
      (file.methods.mapM (MemberFrame.method file.head.head.pool))
      (other.methods.mapM (MemberFrame.method file.head.head.pool)) := by
    apply alike_mapM
    have each := (List.forall₂_and_left _ _).mpr ⟨orderly.methods, shuffles.methods⟩
    exact each.imp fun _ _ h => alike_method h.1 h.2
  unfold ClassFrame.decl
  rw [← shuffles.head]
  refine fields.bind fun ownFields otherFields fieldsAgree => ?_
  refine methods.bind fun ownMethods otherMethods methodsAgree => ?_
  exact alike_classTable orderly.apart shuffles.attributes rfl
    ⟨rfl, fieldsAgree, methodsAgree, .refl _⟩

/-- A file in frames declares what its frames tell. -/
theorem decode_frames {file : ClassFrame} (fits : file.Fits) (rest : Bytes) :
    ClassDecl.decode (file.bytes ++ rest) = file.decl := by
  have read := yields_class fits rest
  change (readClass (file.bytes ++ rest)).map Prod.fst = _
  rw [read]
  cases file.decl <;> rfl

end ClassFile

open ClassFile Reader in
/-- The attributes of an orderly file may be shuffled within their tables: the file is refused or
read as before, what it declares agrees, and the references are the same. And a file whose head is
refused, so that there are no tables to speak of, is refused whatever stands behind its head. -/
theorem ClassDecl.decode_shuffled :
    (∀ {file other : ClassFrame}, file.Fits → file.Orderly → file.Shuffles other →
      ∀ rest, Alike (fun decl decl' => decl.Agrees decl' ∧
          ∀ reference, reference ∈ decl.references ↔ reference ∈ decl'.references)
        (decode (file.bytes ++ rest)) (decode (other.bytes ++ rest))) ∧
    ∀ {head : Bytes} {e : ClassFileError}, Yields readHead head (.error e) →
      ∀ more, decode (head ++ more) = .error e := by
  constructor
  · intro file other fits orderly shuffles rest
    rw [decode_frames fits, decode_frames (shuffles.fits fits)]
    exact (alike_decl orderly shuffles).mono fun decl decl' agrees =>
      ⟨agrees, fun reference => agrees.mem_references⟩
  · intro head e refused more
    rw [decode_eq_error_iff, readClass_eq, refused.bind_apply]
    rfl

namespace ClassFile

/-- The small class with its two attributes the other way round. -/
theorem decode_shuffled_counterForm :
    ∃ decl, ClassDecl.decode
        ((counterHole.fill counterHead [sourceFileFrame, stampFrame]).bytes ++ []) = .ok decl ∧
      counterForm.decl.Agrees decl := by
  have stamp : counterHead.head.pool.text 13 = .ok "Stamp" :=
    text_of_names (counterConstants_names 11 rfl rfl (by decide))
  have sourceFile : counterHead.head.pool.text 8 = .ok "SourceFile" :=
    text_of_names (counterConstants_names 6 rfl rfl (by decide))
  have orderly : (counterHole.fill counterHead [stampFrame, sourceFileFrame]).Orderly := by
    have alone : ∀ frame : AttributeFrame, NamesOnce counterHead.head.pool [frame] :=
      fun frame => List.pairwise_singleton _ frame
    have neither : ∀ frame ∈ [stampFrame, sourceFileFrame],
        counterHead.head.pool.text frame.nameIndex ≠ .ok "EnclosingMethod" := by
      simp [stampFrame, sourceFileFrame, stamp, sourceFile]
    constructor
    · exact List.forall_mem_singleton.mpr (alone _)
    · exact List.forall_mem_singleton.mpr (alone _)
    · have different : DifferentNames counterHead.head.pool stampFrame sourceFileFrame := by
        intro name named named'
        have same : "Stamp" = "SourceFile" :=
          Except.ok.inj (stamp.symm.trans (named.trans (named'.symm.trans sourceFile)))
        exact absurd same (by decide)
      exact List.pairwise_pair.mpr different
    · exact fun one inside other _ both => neither one inside both.1
  have shuffles : (counterHole.fill counterHead [stampFrame, sourceFileFrame]).Shuffles
      (counterHole.fill counterHead [sourceFileFrame, stampFrame]) := by
    have same : ∀ member : MemberFrame, member.Shuffles member := fun member => ⟨rfl, .refl _⟩
    exact ⟨rfl, List.forall₂_same.mpr fun member _ => same member,
      List.forall₂_same.mpr fun member _ => same member, .swap _ _ _⟩
  have alike := ClassDecl.decode_shuffled.1 fits_counterHole orderly shuffles []
  have decoded : ClassDecl.decode
      ((counterHole.fill counterHead [stampFrame, sourceFileFrame]).bytes ++ []) =
        .ok counterForm.decl := by
    rw [bytes_counterHole]
    exact ClassDecl.decode_of_ok (reads_class counterForm_fits [])
  rw [decoded] at alike
  cases other : ClassDecl.decode
      ((counterHole.fill counterHead [sourceFileFrame, stampFrame]).bytes ++ []) with
  | error e =>
    rw [other] at alike
    cases alike
  | ok decl =>
    rw [other] at alike
    cases alike with
    | given related => exact ⟨decl, rfl, related.1⟩

end ClassFile

end ClassAtlas
