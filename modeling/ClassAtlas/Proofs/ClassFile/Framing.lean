import ClassAtlas.Proofs.ClassFile.Frames

/-!
# Class files are read frame by frame

* `yields_attribute`, `yields_table`, `yields_class`: a file in frames is read frame by frame, and
  what it tells depends on the bodies alone;
* `shaped_class`: whatever is read is a file in frames;
* `leads_attribute`, `leads_table`: a file leads to each of its tables and a table to each of its
  attributes.
-/

namespace ClassAtlas.ClassFile

open Reader

/-! ## Tables -/

section Tables

variable {δ : Type} {pool : ConstantPool} {revise : String → δ → Reader δ}

/-- One attribute in front of the bytes revises the declaration. -/
def reviseNext (pool : ConstantPool) (revise : String → δ → Reader δ) (decl : δ) : Reader δ := do
  let (name, body) ← readAttribute pool
  Reader.inside body (revise name decl)

theorem readAttributes_eq (decl : δ) :
    readAttributes pool revise decl =
      Reader.u2 >>= fun count => iterate count.toNat (reviseNext pool revise) decl := rfl

theorem reviseNext_eq (decl : δ) :
    reviseNext pool revise decl =
      operand pool.text >>= fun name => Reader.u4 >>= fun length =>
        Reader.take length.toNat >>= fun body => Reader.inside body (revise name decl) := by
  simp only [reviseNext, readAttribute, bind_assoc, pure_bind]

theorem yields_operand {α : Type} (select : UInt16 → Except ClassFileError α) (index : UInt16) :
    Yields (operand select) (word2 index.toNat) (select index) :=
  (reads_index index).yields.bind_nil fun index => yields_lift (select index)

/-- An attribute is read from its body alone, and the reader stands behind the body then. -/
theorem yields_attribute (decl : δ) (frame : AttributeFrame) :
    Yields (reviseNext pool revise decl) frame.bytes (frame.told pool revise decl) := by
  have length : (UInt32.ofNat frame.body.length).toNat = frame.body.length := by
    rw [UInt32.toNat_ofNat']
    exact Nat.mod_eq_of_lt frame.fits
  rw [reviseNext_eq]
  refine (yields_operand pool.text frame.nameIndex).bind fun name _ => ?_
  refine Yields.behind (reads_u4 _) ?_
  rw [length]
  exact (reads_take frame.body).yields.bind_nil fun body => yields_lift _

theorem yields_table {table : List AttributeFrame} (fits : table.length < 0x10000) (decl : δ) :
    Yields (readAttributes pool revise decl) (rowBytes AttributeFrame.bytes table)
      (tableTold pool revise decl table) := by
  rw [readAttributes_eq]
  exact yields_steps fits (fun decl frame _ => yields_attribute decl frame) decl

theorem leads_attribute {start state : δ} {front back : List AttributeFrame}
    {frame : AttributeFrame} (fits : (front ++ frame :: back).length < 0x10000)
    (told : tableTold pool revise start front = .ok state) :
    Leads (readAttributes pool revise start)
      (word2 (front ++ frame :: back).length ++ front.flatMap AttributeFrame.bytes)
      (reviseNext pool revise state) := by
  have inFront : Reads (iterate front.length (reviseNext pool revise) start)
      (front.flatMap AttributeFrame.bytes) state :=
    (yields_iterate (fun decl frame _ => yields_attribute decl frame) start).reads told
  have leads := leads_steps fits inFront (Leads.refl _)
  rwa [List.append_nil, ← readAttributes_eq] at leads

theorem operand_eq_ok {α : Type} {select : UInt16 → Except ClassFileError α} {bytes rest : Bytes}
    {a : α} (h : operand select bytes = .ok (a, rest)) :
    ∃ index, select index = .ok a ∧ bytes = word2 index.toNat ++ rest := by
  obtain ⟨index, left, read, selected⟩ := bind_eq_ok h
  obtain ⟨value, rfl⟩ := lift_eq_ok selected
  exact ⟨index, value, u2_eq_ok read⟩

theorem shaped_attribute (decl : δ) :
    Shaped (reviseNext pool revise decl) (fun _ => True) AttributeFrame.bytes := by
  intro all rest after read
  rw [reviseNext_eq] at read
  obtain ⟨name, left, readName, read⟩ := bind_eq_ok read
  obtain ⟨length, left', readLength, read⟩ := bind_eq_ok read
  obtain ⟨body, left'', readBody, read⟩ := bind_eq_ok read
  obtain ⟨_, rfl⟩ := lift_eq_ok read
  obtain ⟨rfl, whole⟩ := take_eq_ok readBody
  obtain rfl := u4_eq_ok readLength
  obtain ⟨index, _, rfl⟩ := operand_eq_ok readName
  have fits : body.length < 0x100000000 := by
    rw [whole]
    exact length.toNat_lt
  refine ⟨⟨index, body, fits⟩, trivial, ?_⟩
  rw [AttributeFrame.bytes, whole, List.append_assoc, List.append_assoc]

theorem shaped_table (decl : δ) :
    Shaped (readAttributes pool revise decl) (fun table => table.length < 0x10000)
      (rowBytes AttributeFrame.bytes) := by
  intro all rest after read
  rw [readAttributes_eq] at read
  obtain ⟨table, ⟨fits, _⟩, split⟩ := shaped_steps shaped_attribute decl read
  exact ⟨table, fits, split⟩

end Tables

/-! ## Members -/

section Members

variable {τ δ : Type} {pool : ConstantPool} {parse : String → Except ClassFileError τ}
  {bare : UInt16 → String → τ → δ} {revise : String → δ → Reader δ}

/-- A field or a method in front of the bytes. -/
def readMember (pool : ConstantPool) (parse : String → Except ClassFileError τ)
    (bare : UInt16 → String → τ → δ) (revise : String → δ → Reader δ) : Reader δ := do
  let access ← Reader.u2
  let name ← operand pool.text
  let descriptor ← operand pool.text
  let type ← Reader.lift (parse descriptor)
  readAttributes pool revise (bare access name type)

theorem readField_eq (pool : ConstantPool) :
    readField pool = readMember pool JavaType.parse bareField (reviseField pool) := rfl

theorem readMethod_eq (pool : ConstantPool) :
    readMethod pool = readMember pool MethodType.parse bareMethod (reviseMethod pool) := rfl

theorem yields_member {member : MemberFrame} (fits : member.attributes.length < 0x10000) :
    Yields (readMember pool parse bare revise) member.bytes
      (member.told pool parse bare revise) := by
  rw [MemberFrame.told, MemberHead.told, MemberFrame.bytes, MemberHead.bytes]
  simp only [bind_assoc, pure_bind, List.append_assoc]
  refine Yields.behind (reads_index _) ?_
  refine (yields_operand pool.text _).bind fun name _ => ?_
  refine (yields_operand pool.text _).bind fun descriptor _ => ?_
  exact (yields_lift (parse descriptor)).bind fun type _ => yields_table fits _

theorem leads_member {member : MemberHead} {start : δ}
    (told : member.told pool parse bare = .ok start) :
    Leads (readMember pool parse bare revise) member.bytes
      (readAttributes pool revise start) := by
  obtain ⟨name, hn, told⟩ := ok_of_bind told
  obtain ⟨descriptor, hd, told⟩ := ok_of_bind told
  obtain ⟨type, parsed, told⟩ := ok_of_bind told
  obtain rfl := Except.ok.inj told
  rw [MemberHead.bytes, ← List.append_nil (word2 member.descriptorIndex.toNat)]
  refine Leads.behind (reads_index _) ?_
  refine Leads.behind ((yields_operand pool.text _).reads hn) ?_
  refine Leads.behind ((yields_operand pool.text _).reads hd) ?_
  exact Leads.behind_nothing (reads_lift parsed) (Leads.refl _)

theorem shaped_member :
    Shaped (readMember pool parse bare revise)
      (fun member => member.attributes.length < 0x10000) MemberFrame.bytes := by
  intro all rest after read
  obtain ⟨access, left, readAccess, read⟩ := bind_eq_ok read
  obtain ⟨name, left', readName, read⟩ := bind_eq_ok read
  obtain ⟨descriptor, left'', readDescriptor, read⟩ := bind_eq_ok read
  obtain ⟨type, left''', readType, read⟩ := bind_eq_ok read
  obtain ⟨table, fits, rfl⟩ := shaped_table _ read
  obtain ⟨_, rfl⟩ := lift_eq_ok readType
  obtain ⟨descriptorIndex, _, rfl⟩ := operand_eq_ok readDescriptor
  obtain ⟨nameIndex, _, rfl⟩ := operand_eq_ok readName
  obtain rfl := u2_eq_ok readAccess
  refine ⟨⟨⟨access, nameIndex, descriptorIndex⟩, table⟩, fits, ?_⟩
  simp only [MemberFrame.bytes, MemberHead.bytes, List.append_assoc]

section Rows

variable {front back : List MemberFrame} {member : MemberFrame}

/-- Of a row of members that tell something, those in front do, and so does the head of any. -/
theorem told_of_mapM {decls : List δ}
    (h : (front ++ member :: back).mapM (MemberFrame.told pool parse bare revise) = .ok decls) :
    (∃ inFront, front.mapM (MemberFrame.told pool parse bare revise) = .ok inFront) ∧
      ∃ start, member.head.told pool parse bare = .ok start := by
  rw [List.mapM_append, List.mapM_cons] at h
  obtain ⟨inFront, hf, h⟩ := ok_of_bind h
  obtain ⟨others, ho, _⟩ := ok_of_bind h
  obtain ⟨decl, hm, _⟩ := ok_of_bind ho
  obtain ⟨start, hs, _⟩ := ok_of_bind hm
  exact ⟨⟨inFront, hf⟩, start, hs⟩

/-- A row of members leads to the table of any of them. -/
theorem leads_members {inFront : List δ} {start : δ}
    (fits : (front ++ member :: back).length < 0x10000)
    (each : ∀ other ∈ front ++ member :: back, other.attributes.length < 0x10000)
    (hf : front.mapM (MemberFrame.told pool parse bare revise) = .ok inFront)
    (hs : member.head.told pool parse bare = .ok start) :
    Leads (Reader.u2 >>= fun count => times count.toNat (readMember pool parse bare revise))
      (word2 (front.length + (back.length + 1)) ++
        (front.flatMap MemberFrame.bytes ++ member.head.bytes))
      (readAttributes pool revise start) := by
  have read : Reads (times front.length (readMember pool parse bare revise))
      (front.flatMap MemberFrame.bytes) inFront :=
    (yields_times fun other h => yields_member (each other (List.mem_append_left _ h))).reads hf
  have leads := leads_row fits read (leads_member hs)
  rwa [List.length_append, List.length_cons] at leads

end Rows

end Members

/-! ## Class files -/

/-- A class file is its head, two rows of members and a table. -/
theorem readClass_eq_rows :
    readClass = readHead >>= fun head =>
      (Reader.u2 >>= fun count => times count.toNat
        (readMember head.pool JavaType.parse bareField (reviseField head.pool))) >>= fun fields =>
      (Reader.u2 >>= fun count => times count.toNat
        (readMember head.pool MethodType.parse bareMethod (reviseMethod head.pool))) >>=
          fun methods =>
      readAttributes head.pool (reviseClass head.pool head.thisIndex)
        (head.decl fields methods) := by
  simp only [readClass_eq, readField_eq, readMethod_eq]

theorem yields_class {file : ClassFrame} (fits : file.Fits) :
    Yields readClass file.bytes file.decl := by
  rw [readClass_eq_rows]
  refine Yields.behind file.head.reads ?_
  refine (yields_row fits.fields fun field h => yields_member (fits.eachField field h)).bind
    fun fields _ => ?_
  refine (yields_row fits.methods fun method h => yields_member (fits.eachMethod method h)).bind
    fun methods _ => ?_
  exact yields_table fits.attributes _

theorem shaped_class : Shaped readClass ClassFrame.Fits ClassFrame.bytes := by
  intro all rest decl read
  rw [readClass_eq_rows] at read
  obtain ⟨head, left, readHead, read⟩ := bind_eq_ok read
  obtain ⟨fieldDecls, left', readFields, read⟩ := bind_eq_ok read
  obtain ⟨methodDecls, left'', readMethods, read⟩ := bind_eq_ok read
  obtain ⟨attributes, fitsAttributes, rfl⟩ := shaped_table _ read
  obtain ⟨methods, ⟨fitsMethods, eachMethod⟩, rfl⟩ := shaped_row shaped_member readMethods
  obtain ⟨fields, ⟨fitsFields, eachField⟩, rfl⟩ := shaped_row shaped_member readFields
  obtain ⟨front, rfl, reads⟩ := incremental_head.takes readHead
  refine ⟨⟨⟨front, head, reads⟩, fields, methods, attributes⟩,
    ⟨fitsFields, eachField, fitsMethods, eachMethod, fitsAttributes⟩, ?_⟩
  simp only [ClassFrame.bytes, List.append_assoc]

/-- A file that is read leads to each of its tables. -/
theorem leads_table {kind : TableKind} {hole : TableHole kind} {head : HeadFrame}
    {table : List AttributeFrame} {decl : ClassDecl} (fits : (hole.fill head table).Fits)
    (told : (hole.fill head table).decl = .ok decl) :
    ∃ start, hole.start head.head = .ok start ∧
      Leads readClass (hole.before head)
        (readAttributes head.head.pool (kind.revise head.head) start) := by
  rw [readClass_eq_rows]
  cases hole with
  | ofField front member back methods attributes =>
    obtain ⟨fields, hf, _⟩ := ok_of_bind told
    obtain ⟨⟨inFront, hi⟩, start, hs⟩ := told_of_mapM hf
    have leads := leads_members fits.fields fits.eachField hi hs
    exact ⟨start, hs, Leads.behind head.reads (leads.bind _)⟩
  | ofMethod fields front member back attributes =>
    obtain ⟨fieldDecls, hf, told⟩ := ok_of_bind told
    obtain ⟨methods, hm, _⟩ := ok_of_bind told
    obtain ⟨⟨inFront, hi⟩, start, hs⟩ := told_of_mapM hm
    have readFields :=
      (yields_row fits.fields fun field h => yields_member (fits.eachField field h)).reads hf
    have leads := leads_members fits.methods fits.eachMethod hi hs
    exact ⟨start, hs, Leads.behind head.reads (Leads.behind readFields (leads.bind _))⟩
  | ofClass fields methods =>
    obtain ⟨fieldDecls, hf, told⟩ := ok_of_bind told
    obtain ⟨methodDecls, hm, _⟩ := ok_of_bind told
    have start : (TableHole.ofClass fields methods).start head.head =
        .ok (head.head.decl fieldDecls methodDecls) :=
      (bind_of_eq_ok hf _).trans (bind_of_eq_ok hm _)
    refine ⟨_, start, ?_⟩
    have readFields :=
      (yields_row fits.fields fun field h => yields_member (fits.eachField field h)).reads hf
    have readMethods :=
      (yields_row fits.methods fun method h => yields_member (fits.eachMethod method h)).reads hm
    refine Leads.behind head.reads (Leads.behind readFields ?_)
    rw [← List.append_nil (rowBytes MemberFrame.bytes methods)]
    exact Leads.behind readMethods (Leads.refl _)

end ClassAtlas.ClassFile
