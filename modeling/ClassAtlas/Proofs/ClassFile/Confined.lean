import ClassAtlas.Proofs.ClassFile.Attributes
import ClassAtlas.Proofs.ClassFile.Framing

/-!
# Attributes stay within their frames

* `tableTold_of_edit`: an edit of a table does not change what the table tells;
* `eq_unexpectedEnd_of_overruns`: a content that would be read on behind its body is refused;
* `decode_edited`, `leads_frame`: so it is in each table of a file that is read;
* `decode_framed`: all this of the class files that are decoded.
-/

namespace ClassAtlas

namespace ClassFile

open Reader

/-! ## Edits -/

section Edits

variable {δ : Type} {pool : ConstantPool} {revise : String → δ → Reader δ}

theorem tableTold_append (front back : List AttributeFrame) (decl : δ) :
    tableTold pool revise decl (front ++ back) =
      tableTold pool revise decl front >>= fun decl => tableTold pool revise decl back :=
  List.foldlM_append

theorem tableTold_cons (frame : AttributeFrame) (back : List AttributeFrame) (decl : δ) :
    tableTold pool revise decl (frame :: back) =
      frame.told pool revise decl >>= fun decl => tableTold pool revise decl back :=
  List.foldlM_cons

theorem told_of_unrecognised {names : List String}
    (skips : ∀ name ∉ names, ∀ decl, revise name decl = pure decl) (frame : AttributeFrame)
    (h : Unrecognised pool names frame.nameIndex) (decl : δ) :
    frame.told pool revise decl = .ok decl := by
  obtain ⟨name, text, unknown⟩ := h
  rw [AttributeFrame.told, text]
  show ((revise name decl).run frame.body).map Prod.fst = _
  rw [skips name unknown decl]
  rfl

/-- A reader that is content with a body is content with a longer one. -/
theorem told_of_extended {frame : AttributeFrame} {more : Bytes}
    (fits : (frame.body ++ more).length < 0x100000000) {decl after : δ}
    (incremental : ∀ name decl, Incremental (revise name decl))
    (told : frame.told pool revise decl = .ok after) :
    ({ frame with body := frame.body ++ more, fits } : AttributeFrame).told pool revise decl =
      .ok after := by
  obtain ⟨name, text, read⟩ := ok_of_bind told
  refine (bind_of_eq_ok text _).trans ?_
  show ((revise name decl) (frame.body ++ more)).map Prod.fst = _
  obtain ⟨⟨other, left⟩, result, rfl⟩ := ok_of_map read
  obtain ⟨front, split, reads⟩ := (incremental name decl).takes result
  rw [split, List.append_assoc, reads]
  rfl

theorem tableTold_of_edit {names : List String} {table table' : List AttributeFrame}
    (skips : ∀ name ∉ names, ∀ decl, revise name decl = pure decl)
    (incremental : ∀ name decl, Incremental (revise name decl)) {start decl : δ}
    (edit : Edit pool names table table') (told : tableTold pool revise start table = .ok decl) :
    tableTold pool revise start table' = .ok decl := by
  cases edit with
  | insert front back frame unrecognised =>
    rw [tableTold_append] at told ⊢
    obtain ⟨state, hf, others⟩ := ok_of_bind told
    rw [hf, bind_of_eq_ok rfl, tableTold_cons, told_of_unrecognised skips frame unrecognised]
    exact others
  | replace front back frame body fits unrecognised =>
    rw [tableTold_append] at told ⊢
    obtain ⟨state, hf, others⟩ := ok_of_bind told
    rw [tableTold_cons, told_of_unrecognised skips frame unrecognised] at others
    rw [hf, bind_of_eq_ok rfl, tableTold_cons,
      told_of_unrecognised skips { frame with body, fits } unrecognised]
    exact others
  | extend front back frame more fits =>
    rw [tableTold_append] at told ⊢
    obtain ⟨state, hf, others⟩ := ok_of_bind told
    rw [tableTold_cons] at others
    obtain ⟨next, hn, others⟩ := ok_of_bind others
    rw [hf, bind_of_eq_ok rfl, tableTold_cons, told_of_extended fits incremental hn]
    exact others

end Edits

/-- A content that would be read on behind its body lacks bytes when it is confined to it. -/
theorem eq_unexpectedEnd_of_overruns {α : Type} {content : Reader α} {body : Bytes}
    (incremental : Incremental content) (h : Overruns content body) :
    content body = .error .unexpectedEnd := by
  obtain ⟨more, differs⟩ := h
  cases result : content body with
  | ok p =>
    obtain ⟨a, left⟩ := p
    obtain ⟨front, split, reads⟩ := incremental.takes result
    rw [result, split, List.append_assoc, reads] at differs
    exact absurd rfl differs
  | error e =>
    by_cases he : e = .unexpectedEnd
    · rw [he]
    · rw [result, incremental.refuses result he more] at differs
      exact absurd rfl differs

theorem TableKind.revise_eq_pure (kind : TableKind) (head : ClassHead) {name : String}
    (h : name ∉ kind.names) (decl : kind.Decl) : kind.revise head name decl = pure decl := by
  cases kind with
  | ofField => exact reviseField_unknown h _ _
  | ofMethod => exact reviseMethod_unknown h _ _
  | ofClass => exact reviseClass_unknown h _ _ _

theorem TableKind.incremental_revise (kind : TableKind) (head : ClassHead) (name : String)
    (decl : kind.Decl) : Incremental (kind.revise head name decl) := by
  cases kind with
  | ofField => exact incremental_reviseField _ _ _
  | ofMethod => exact incremental_reviseMethod _ _ _
  | ofClass => exact incremental_reviseClass _ _ _ _

/-! ## Decoding -/

/-- What the attributes of a table tell stays within their bodies: `decl` is what the file with
this table in its place declares. -/
structure TableFramed {kind : TableKind} (hole : TableHole kind) (head : HeadFrame)
    (table : List AttributeFrame) (decl : ClassDecl) : Prop where
  /-- No edit of the table changes the class, whatever stands behind the file. -/
  unchanged : ∀ edited : List AttributeFrame, Edit head.head.pool kind.names table edited →
    edited.length < 0x10000 →
    ∀ rest, ClassDecl.decode ((hole.fill head edited).bytes ++ rest) = .ok decl
  /-- Each attribute is read by its name from what the attributes in front of it left. With any
  other body the reading of the file goes on right behind that body, from what the body tells; and
  a content that does not stop at the end of the body ends the reading. -/
  confined : ∀ (front back : List AttributeFrame) (frame : AttributeFrame),
    table = front ++ frame :: back → ∃ name state,
      head.head.pool.text frame.nameIndex = .ok name ∧
      (hole.start head.head >>= fun start =>
        tableTold head.head.pool (kind.revise head.head) start front) = .ok state ∧
      (∃ next : kind.Decl → Reader ClassDecl, ∀ body fits rest,
        readClass (hole.beforeAttribute head table.length front ++
            (({ frame with body, fits } : AttributeFrame).bytes ++ rest)) =
          ((kind.revise head.head name state).run body).map Prod.fst >>= fun told =>
            next told rest) ∧
      ∀ body fits, Overruns (kind.revise head.head name state) body →
        ∀ rest, ClassDecl.decode (hole.beforeAttribute head table.length front ++
            (({ frame with body, fits } : AttributeFrame).bytes ++ rest)) =
          .error .unexpectedEnd

theorem decl_of_decode {file : ClassFrame} (fits : file.Fits) {rest : Bytes} {decl : ClassDecl}
    (h : ClassDecl.decode (file.bytes ++ rest) = .ok decl) : file.decl = .ok decl := by
  obtain ⟨left, read⟩ := ClassDecl.decode_eq_ok h
  rw [yields_class fits rest] at read
  obtain ⟨other, told, same⟩ := ok_of_map read
  cases same
  exact told

theorem length_lt_of_fits {kind : TableKind} {hole : TableHole kind} {head : HeadFrame}
    {table : List AttributeFrame} (fits : (hole.fill head table).Fits) :
    table.length < 0x10000 := by
  cases hole with
  | ofField front member back methods attributes =>
    exact fits.eachField ⟨member, table⟩ (List.mem_append_right _ List.mem_cons_self)
  | ofMethod fields front member back attributes =>
    exact fits.eachMethod ⟨member, table⟩ (List.mem_append_right _ List.mem_cons_self)
  | ofClass => exact fits.attributes

section Framed

variable {kind : TableKind} {hole : TableHole kind} {head : HeadFrame}
  {table : List AttributeFrame} {decl : ClassDecl}

/-- Behind the bytes in front of a table the file goes on with what the table tells, and ends as the
class it declares. -/
theorem leads_table_told (fits : (hole.fill head table).Fits)
    (h : (hole.fill head table).decl = .ok decl) :
    ∃ start, ∃ next : kind.Decl → Reader ClassDecl, hole.start head.head = .ok start ∧
      (∀ rest, readClass (hole.before head ++ rest) =
        (readAttributes head.head.pool (kind.revise head.head) start >>= next) rest) ∧
      ∀ rest, (tableTold head.head.pool (kind.revise head.head) start table >>= fun told =>
        next told (hole.after ++ rest)) = .ok (decl, rest) := by
  obtain ⟨start, starts, next, goesOn⟩ := leads_table fits h
  refine ⟨start, next, starts, goesOn, fun rest => ?_⟩
  have read := (yields_class fits).reads h rest
  rw [hole.bytes_fill, List.append_assoc, List.append_assoc, goesOn,
    (yields_table (length_lt_of_fits fits) start).bind_apply] at read
  exact read

theorem decode_edited (fits : (hole.fill head table).Fits)
    (h : (hole.fill head table).decl = .ok decl) {edited : List AttributeFrame}
    (edit : Edit head.head.pool kind.names table edited) (short : edited.length < 0x10000)
    (rest : Bytes) : ClassDecl.decode ((hole.fill head edited).bytes ++ rest) = .ok decl := by
  obtain ⟨start, next, _, goesOn, whole⟩ := leads_table_told fits h
  obtain ⟨last, told, _⟩ := ok_of_bind (whole [])
  have same := tableTold_of_edit (fun name unknown => kind.revise_eq_pure head.head unknown)
    (kind.incremental_revise head.head) edit told
  suffices read : readClass ((hole.fill head edited).bytes ++ rest) = .ok (decl, rest) from
    ClassDecl.decode_of_ok read
  rw [hole.bytes_fill, List.append_assoc, List.append_assoc, goesOn,
    (yields_table short start).bind_apply, same, ← told]
  exact whole rest

/-- A file that is read leads to each attribute, with what those in front of it left. -/
theorem leads_frame {front back : List AttributeFrame} {frame : AttributeFrame}
    (fits : (hole.fill head (front ++ frame :: back)).Fits)
    (h : (hole.fill head (front ++ frame :: back)).decl = .ok decl) :
    ∃ name state, head.head.pool.text frame.nameIndex = .ok name ∧
      (hole.start head.head >>= fun start =>
        tableTold head.head.pool (kind.revise head.head) start front) = .ok state ∧
      Leads readClass (hole.beforeAttribute head (front ++ frame :: back).length front)
        (reviseNext head.head.pool (kind.revise head.head) state) := by
  obtain ⟨start, next, starts, goesOn, whole⟩ := leads_table_told fits h
  obtain ⟨last, told, _⟩ := ok_of_bind (whole [])
  rw [tableTold_append] at told
  obtain ⟨state, inFront, told⟩ := ok_of_bind told
  rw [tableTold_cons] at told
  obtain ⟨after, read, _⟩ := ok_of_bind told
  obtain ⟨name, text, _⟩ := ok_of_bind read
  have leads := leads_attribute (length_lt_of_fits fits) inFront
  exact ⟨name, state, text, (bind_of_eq_ok starts _).trans inFront,
    Leads.trans ⟨next, goesOn⟩ leads⟩

theorem tableFramed (fits : (hole.fill head table).Fits)
    (h : (hole.fill head table).decl = .ok decl) : TableFramed hole head table decl where
  unchanged edited edit short rest := decode_edited fits h edit short rest
  confined := by
    rintro front back frame rfl
    obtain ⟨name, state, text, inFront, next, goesOn⟩ := leads_frame fits h
    have confined : ∀ body fits rest,
        readClass (hole.beforeAttribute head (front ++ frame :: back).length front ++
            (({ frame with body, fits } : AttributeFrame).bytes ++ rest)) =
          ((kind.revise head.head name state).run body).map Prod.fst >>= fun told =>
            next told rest := by
      intro body fits rest
      have told : AttributeFrame.told head.head.pool (kind.revise head.head) state
          { frame with body, fits } = ((kind.revise head.head name state).run body).map Prod.fst :=
        bind_of_eq_ok text _
      rw [goesOn, (yields_attribute state _).bind_apply, told]
    refine ⟨name, state, text, inFront, ⟨next, confined⟩, ?_⟩
    intro body fits overruns rest
    have lacks := eq_unexpectedEnd_of_overruns
      (kind.incremental_revise head.head name state) overruns
    rw [ClassDecl.decode_eq_error_iff, confined]
    show ((kind.revise head.head name state) body).map Prod.fst >>= _ = _
    rw [lacks]
    rfl

end Framed

end ClassFile

open ClassFile in
/-- A class file that is decoded is a file in frames, and every attribute table of it stays within
its frames. -/
theorem ClassDecl.decode_framed {bytes : Bytes} {decl : ClassDecl} (h : decode bytes = .ok decl) :
    (∃ (file : ClassFrame) (rest : Bytes), file.Fits ∧ bytes = file.bytes ++ rest ∧
      file.decl = .ok decl) ∧
    ∀ {kind : TableKind} (hole : TableHole kind) (head : HeadFrame) (table : List AttributeFrame)
      (rest : Bytes), (hole.fill head table).Fits →
      bytes = (hole.fill head table).bytes ++ rest → TableFramed hole head table decl := by
  constructor
  · obtain ⟨rest, read⟩ := decode_eq_ok h
    obtain ⟨file, fits, rfl⟩ := shaped_class read
    exact ⟨file, rest, fits, rfl, decl_of_decode fits h⟩
  · rintro kind hole head table rest fits rfl
    exact tableFramed fits (decl_of_decode fits h)

namespace ClassFile

open Reader

/-! ## The small class in frames -/

/-- The head of a class form. -/
def ClassForm.headFrame (form : ClassForm) (fits : form.Fits) : HeadFrame where
  bytes := (word4 0xCAFEBABE ++ (word2 form.minorVersion.toNat ++ word2 form.majorVersion.toNat)) ++
    (poolBytes form.constants ++ (word2 form.access.toNat ++ (form.name.bytes ++
      (word2 (optionalIndex form.superclass).toNat ++
        (word2 form.interfaces.length ++ form.interfaces.flatMap Operand.bytes)))))
  head :=
    { majorVersion := form.majorVersion, minorVersion := form.minorVersion,
      pool := poolOf form.constants, access := form.access, thisIndex := form.name.index,
      name := form.name.value, superclass := form.superclass.map Operand.value,
      interfaces := form.interfaces.map Operand.value }
  reads := by
    refine (reads_version fits.version).bind ((reads_pool fits.constants).bind ?_)
    refine (reads_index form.access).bind ((reads_index form.name.index).bind ?_)
    refine reads_lift_bind (className_of_names form.name.designates) ?_
    refine (reads_superclass form.superclass).bind ?_
    rw [← List.append_nil (_ ++ _)]
    refine reads_counted_bind fits.interfaces (fun name _ => reads_className name) ?_
    exact Reads.pure _

def counterHead : HeadFrame := counterForm.headFrame counterForm_fits

/-- The small class without its own attributes. -/
def counterHole : TableHole .ofClass :=
  .ofClass [⟨⟨0x18, 10, 11⟩, [⟨12, word2 3, by decide⟩]⟩] [⟨⟨1, 10, 14⟩, [⟨13, [1], by decide⟩]⟩]

/-- The attribute `Stamp`, which nobody knows. -/
def stampFrame : AttributeFrame := ⟨13, [1, 2, 3], by decide⟩

def sourceFileFrame : AttributeFrame := ⟨8, word2 9, by decide⟩

theorem bytes_counterHole :
    (counterHole.fill counterHead [stampFrame, sourceFileFrame]).bytes = counterForm.bytes := by
  rfl

theorem fits_counterHole : (counterHole.fill counterHead [stampFrame, sourceFileFrame]).Fits where
  fields := by decide
  eachField := by decide
  methods := by decide
  eachMethod := by decide
  attributes := by decide

/-- The name of the source file is told by an index; half an index leaves it open. -/
theorem overruns_sourceFile {pool : ConstantPool} {text : String} {index : UInt16}
    {high low : UInt8} (bytes : word2 index.toNat = [high, low])
    (named : pool.text index = .ok text) (thisIndex : UInt16) (decl : ClassDecl) :
    Overruns (reviseClass pool thisIndex "SourceFile" decl) [high] := by
  refine ⟨[low], fun same => ?_⟩
  have whole : Reads (reviseClass pool thisIndex "SourceFile" decl) [high, low]
      { decl with sourceFile := some text } := by
    rw [← bytes]
    exact ((yields_operand pool.text index).reads named).map fun text =>
      { decl with sourceFile := some text }
  have half : reviseClass pool thisIndex "SourceFile" decl [high] = .error .unexpectedEnd := rfl
  rw [half, List.singleton_append, ← List.append_nil [high, low], whole] at same
  cases same

/-- With another `Stamp` in front the class is the same; with half an index for its source file it
is no class file, whatever follows. -/
theorem decode_framed_counterForm :
    ClassDecl.decode counterForm.bytes = .ok counterForm.decl ∧
    (∀ rest, ClassDecl.decode ((counterHole.fill counterHead
      [⟨13, [7], by decide⟩, stampFrame, sourceFileFrame]).bytes ++ rest) =
        .ok counterForm.decl) ∧
    (∀ rest, ClassDecl.decode (counterHole.beforeAttribute counterHead 2 [stampFrame] ++
      ((⟨8, [0], by decide⟩ : AttributeFrame).bytes ++ rest)) = .error .unexpectedEnd) := by
  have decoded : ClassDecl.decode counterForm.bytes = .ok counterForm.decl := by
    have all := reads_class counterForm_fits []
    rw [List.append_nil] at all
    exact ClassDecl.decode_of_ok all
  have whole : counterForm.bytes =
      (counterHole.fill counterHead [stampFrame, sourceFileFrame]).bytes ++ [] := by
    rw [bytes_counterHole, List.append_nil]
  have framed := (ClassDecl.decode_framed decoded).2 counterHole counterHead
    [stampFrame, sourceFileFrame] [] fits_counterHole whole
  refine ⟨decoded, ?_, ?_⟩
  · have stamp : Unrecognised (poolOf counterConstants) classNames 13 :=
      ⟨"Stamp", text_of_names (counterConstants_names 11 rfl rfl (by decide)), by decide⟩
    exact framed.unchanged _ (.insert [] [stampFrame, sourceFileFrame] ⟨13, [7], by decide⟩ stamp)
      (by decide)
  · obtain ⟨name, state, text, _, _, overrun⟩ :=
      framed.confined [stampFrame] [] sourceFileFrame rfl
    have sourceFile : (poolOf counterConstants).text 8 = .ok "SourceFile" :=
      text_of_names (counterConstants_names 6 rfl rfl (by decide))
    obtain rfl : "SourceFile" = name := Except.ok.inj (sourceFile.symm.trans text)
    have named : (poolOf counterConstants).text 9 = .ok "C.j" :=
      text_of_names (counterConstants_names 7 rfl rfl (by decide))
    exact overrun [0] (by decide) (overruns_sourceFile rfl named 2 state)

end ClassFile

end ClassAtlas
