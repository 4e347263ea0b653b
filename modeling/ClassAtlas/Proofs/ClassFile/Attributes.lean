import ClassAtlas.Proofs.ClassFile.Annotations
import ClassAtlas.Proofs.ClassFile.ClassForm
import Mathlib.Data.List.Induction

/-!
# Attributes read back

* `reads_table`: a table of attributes is read back when each attribute, confined to its body,
  takes what was told before it to what is told with it;
* `tells_field`, `tells_method`, `tells_class`: every attribute of the three tables does so.
-/

namespace ClassAtlas.ClassFile

open Reader

variable {constants : List ConstantForm}

/-! ## Tables -/

section Tables

variable {κ δ : Type} [AttributeContent κ]

theorem reads_attribute {form : AttributeForm constants κ} (fits : form.Fits) :
    Reads (readAttribute (poolOf constants)) form.bytes
      (AttributeContent.name form.content, AttributeContent.body form.content) := by
  have name : Reads (operand (poolOf constants).text) (word2 form.nameIndex.toNat)
      (AttributeContent.name form.content) :=
    (reads_index form.nameIndex).bind_nil (reads_lift (text_of_names form.named))
  have length : (UInt32.ofNat (AttributeContent.body form.content).length).toNat =
      (AttributeContent.body form.content).length := by
    rw [UInt32.toNat_ofNat']
    exact Nat.mod_eq_of_lt fits.1
  refine name.bind ((reads_u4 _).bind ?_)
  rw [length]
  exact (reads_take _).map _

/-- A table is read back when `state` tells what is known after each part of it. -/
theorem reads_table {revise : String → δ → Reader δ} {forms : List (AttributeForm constants κ)}
    {state : List (AttributeForm constants κ) → δ} (fits : TableFits forms)
    (h : ∀ front, ∀ form ∈ forms, Tells
      (revise (AttributeContent.name form.content) (state front))
      (AttributeContent.body form.content) (state (front ++ [form]))) :
    Reads (readAttributes (poolOf constants) revise (state [])) (tableBytes forms)
      (state forms) := by
  refine (reads_u2 _).bind ?_
  rw [toNat_ofNat_u2 fits.1]
  refine reads_iterate state fun front form hf => ?_
  exact (reads_attribute (fits.2 form hf)).bind_nil (h front form hf).inside

/-- An attribute of which only one text is read, as a value. -/
theorem tells_parsed {α : Type} {parse : String → Except ClassFileError α}
    (form : Operand (NamesParsed constants parse)) (f : α → δ) :
    Tells (operand (poolOf constants).text >>= fun text => lift (parse text) >>= fun value =>
      pure (f value)) form.bytes (f form.value) := by
  have read : Reads (operand (poolOf constants).text >>= fun text => lift (parse text) >>=
      fun value => pure (f value)) (form.bytes ++ []) (f form.value) :=
    reads_parsed form (Reads.pure _)
  rw [List.append_nil] at read
  exact read.tells_all

end Tables

theorem contents_append {κ : Type} [AttributeContent κ]
    (front : List (AttributeForm constants κ)) (form : AttributeForm constants κ) :
    contents (front ++ [form]) = contents front ++ [form.content] := by
  rw [contents, List.map_append]
  rfl

/-! ## Fields -/

theorem reviseField_unknown {name : String} (h : name ∉ fieldNames) (pool : ConstantPool)
    (field : FieldDecl) : reviseField pool name field = pure field := by
  unfold reviseField
  split <;> simp [fieldNames] at h ⊢

theorem tells_field (form : FieldForm constants)
    (front : List (AttributeForm constants (FieldContent constants form.type.value)))
    {next : AttributeForm constants (FieldContent constants form.type.value)}
    (fits : next.Fits) :
    Tells (reviseField (poolOf constants) (AttributeContent.name next.content)
        (form.declOf front))
      (AttributeContent.body next.content) (form.declOf (front ++ [next])) := by
  obtain ⟨content, nameIndex, named⟩ := next
  have fits := fits.2
  simp only [FieldForm.declOf, contents_append, List.filterMap_append, List.flatMap_append,
    List.getLast?_append, List.flatMap_singleton]
  cases content with
  | signature text =>
    simp only [FieldContent.annotationList, List.append_nil]
    exact tells_parsed text _
  | initial constant =>
    simp only [FieldContent.annotationList, List.append_nil]
    exact ((reads_operand constant (constantFor_of_names constant.designates)).map _).tells_all
  | annotations visible forms =>
    cases visible <;> exact ((reads_annotations _ fits).map _).tells_all
  | unknown name unknown body =>
    simp only [FieldContent.annotationList, List.append_nil]
    refine ⟨body, ?_⟩
    show reviseField _ name _ _ = _
    rw [reviseField_unknown unknown]
    rfl

/-! ## Methods -/

theorem reviseMethod_unknown {name : String} (h : name ∉ methodNames) (pool : ConstantPool)
    (method : MethodDecl) : reviseMethod pool name method = pure method := by
  unfold reviseMethod
  split <;> simp [methodNames] at h ⊢

theorem le_foldl_max {lengths : List Nat} {n : Nat} (start : Nat)
    (h : n ≤ start ∨ n ∈ lengths) : n ≤ lengths.foldl max start := by
  induction lengths generalizing start with
  | nil => simpa using h
  | cons first lengths ih =>
    apply ih
    rcases h with h | h
    · exact .inl (Nat.le_trans h (Nat.le_max_left _ _))
    · rcases List.mem_cons.mp h with rfl | h
      · exact .inl (Nat.le_max_right _ _)
      · exact .inr h

/-- Behind the end of every table the slots are empty, as far as one asks. -/
theorem flatMap_getD_of_length_le {α : Type} {tables : List (List (List α))} {slot : Nat}
    (h : (tables.map List.length).foldl max 0 ≤ slot) :
    (tables.flatMap fun table => table.getD slot []) = [] := by
  rw [List.flatMap_eq_nil_iff]
  intro table ht
  have short := le_foldl_max 0 (.inr (List.mem_map_of_mem (f := List.length) ht))
  rw [List.getD_eq_getElem?_getD, List.getElem?_eq_none (Nat.le_trans short h)]
  rfl

theorem getElem?_joinSlots {α : Type} (tables : List (List (List α))) (slot : Nat) :
    (joinSlots tables)[slot]? =
      if slot < (tables.map List.length).foldl max 0
      then some (tables.flatMap fun table => table.getD slot []) else none := by
  rw [joinSlots, List.getElem?_map]
  split
  next h => rw [List.getElem?_range h, Option.map_some]
  next h =>
    rw [List.getElem?_eq_none (by simpa using h), Option.map_none]

/-- Slots that are merged table by table are those of all the tables side by side. -/
theorem mergeSlots_joinSlots {α : Type} (tables : List (List (List α))) (table : List (List α)) :
    mergeSlots (joinSlots tables) table = joinSlots (tables ++ [table]) := by
  apply List.ext_getElem?
  intro slot
  have wide : ((tables ++ [table]).map List.length).foldl max 0 =
      max ((tables.map List.length).foldl max 0) table.length := by
    rw [List.map_append, List.foldl_append]
    rfl
  rw [mergeSlots, List.getElem?_zipWithAll, getElem?_joinSlots, getElem?_joinSlots, wide,
    List.flatMap_append, List.flatMap_singleton, List.getD_eq_getElem?_getD]
  by_cases inside : slot < (tables.map List.length).foldl max 0
  · rw [if_pos inside, if_pos (Nat.lt_of_lt_of_le inside (Nat.le_max_left _ _))]
    rfl
  · rw [if_neg inside, flatMap_getD_of_length_le (Nat.le_of_not_lt inside), List.nil_append]
    by_cases behind : slot < table.length
    · rw [List.getElem?_eq_getElem behind,
        if_pos (Nat.lt_of_lt_of_le behind (Nat.le_max_right _ _))]
      rfl
    · rw [List.getElem?_eq_none (Nat.le_of_not_lt behind), if_neg (by omega)]

theorem tells_method (form : MethodForm constants)
    (front : List (AttributeForm constants (MethodContent constants)))
    {next : AttributeForm constants (MethodContent constants)} (fits : next.Fits) :
    Tells (reviseMethod (poolOf constants) (AttributeContent.name next.content)
        (form.declOf front))
      (AttributeContent.body next.content) (form.declOf (front ++ [next])) := by
  obtain ⟨content, nameIndex, named⟩ := next
  have fits := fits.2
  simp only [MethodForm.declOf, contents_append, List.filterMap_append, List.flatMap_append,
    List.getLast?_append, List.flatMap_singleton]
  cases content with
  | signature text =>
    simp only [MethodContent.annotationList, MethodContent.exceptionNames, MethodContent.slots?,
      List.filterMap_cons, List.filterMap_nil, List.append_nil]
    exact tells_parsed text _
  | exceptions classes =>
    simp only [MethodContent.annotationList, MethodContent.slots?, List.filterMap_cons,
      List.filterMap_nil, List.append_nil]
    rw [← List.append_nil (AttributeContent.body _)]
    apply Reads.tells_all
    refine reads_counted_bind fits (fun form _ => reads_className form) ?_
    exact Reads.pure _
  | annotations visible forms =>
    simp only [MethodContent.exceptionNames, MethodContent.slots?, List.filterMap_cons,
      List.filterMap_nil, List.append_nil]
    cases visible <;> exact ((reads_annotations _ fits).map _).tells_all
  | parameterAnnotations visible slots =>
    simp only [MethodContent.annotationList, MethodContent.exceptionNames, MethodContent.slots?,
      List.filterMap_cons, List.filterMap_nil, List.append_nil]
    rw [← mergeSlots_joinSlots]
    cases visible <;> exact ((reads_parameterAnnotations _ fits.1 fits.2).map _).tells_all
  | unknown name unknown body =>
    simp only [MethodContent.annotationList, MethodContent.exceptionNames, MethodContent.slots?,
      List.filterMap_cons, List.filterMap_nil, List.append_nil]
    refine ⟨body, ?_⟩
    show reviseMethod _ name _ _ = _
    rw [reviseMethod_unknown unknown]
    rfl

/-! ## Classes -/

theorem reviseClass_unknown {name : String} (h : name ∉ classNames) (pool : ConstantPool)
    (thisIndex : UInt16) (decl : ClassDecl) : reviseClass pool thisIndex name decl = pure decl := by
  unfold reviseClass
  split <;> simp [classNames] at h ⊢

/-- A class, once an entry of inner classes is seen. -/
def InnerForm.revise (form : InnerForm constants) (decl : ClassDecl) : ClassDecl :=
  if form.inner.value = decl.name then
    { decl with
      access := ⟨form.flags⟩
      enclosingClass := (form.outer.map Operand.value).or decl.enclosingClass }
  else decl

theorem isOwnEntry_eq (form this : Operand (NamesClass constants)) :
    isOwnEntry (poolOf constants) this.index this.value form.index =
      .ok (form.value = this.value) := by
  have name := className_of_names form.designates
  rw [isOwnEntry]
  split
  next same =>
    rw [same, className_of_names this.designates] at name
    have value : this.value = form.value := Except.ok.inj name
    rw [value, decide_eq_true rfl]
  next => rw [name, Except.map]

theorem optionalClassName_eq (form : Option (Operand (NamesClass constants))) :
    optionalClassName (poolOf constants) (optionalIndex form) =
      .ok (form.map Operand.value) := by
  cases form with
  | none => rfl
  | some form =>
    obtain ⟨_, _, stands, _⟩ := form.designates
    show optionalClassName _ form.index = _
    rw [optionalClassName, if_neg (ne_zero_of_standsAt stands),
      className_of_names form.designates]
    rfl

theorem reads_innerClass (form : InnerForm constants) {this : Operand (NamesClass constants)}
    {decl : ClassDecl} (hn : decl.name = this.value) :
    Reads (readInnerClass (poolOf constants) this.index decl) form.bytes (form.revise decl) := by
  refine (reads_index _).bind ((reads_index _).bind ((reads_index _).bind
    ((reads_index _).bind_nil ?_)))
  rw [InnerForm.revise, hn]
  refine reads_lift_bind (isOwnEntry_eq form.inner this) ?_
  by_cases own : form.inner.value = this.value
  · rw [if_pos (decide_eq_true own), if_pos own]
    exact reads_lift_bind (optionalClassName_eq form.outer) (Reads.pure _)
  · rw [if_neg (by rwa [decide_eq_true_iff]), if_neg own]
    exact Reads.pure decl

/-- The class after a row of entries: of those about it the last gives the modifiers, and the last
with a declaring class gives that. -/
theorem foldl_revise (entries : List (InnerForm constants)) (decl : ClassDecl) :
    entries.foldl (fun d entry => entry.revise d) decl =
      let own := entries.filter (·.inner.value = decl.name)
      { decl with
        access := ⟨((own.map InnerForm.flags).getLast?).getD decl.access.bits⟩
        enclosingClass := (own.filterMap fun entry =>
          entry.outer.map Operand.value).getLast?.or decl.enclosingClass } := by
  induction entries using List.reverseRecOn with
  | nil => rfl
  | append_singleton entries entry ih =>
    rw [List.foldl_append, ih, List.foldl_cons, List.foldl_nil, InnerForm.revise]
    by_cases own : entry.inner.value = decl.name
    · have kept : [entry].filter (·.inner.value = decl.name) = [entry] := by simp [own]
      have declaring : ([entry].filterMap fun entry => entry.outer.map Operand.value).getLast? =
          entry.outer.map Operand.value := by
        rw [List.filterMap_cons]
        cases entry.outer.map Operand.value <;> rfl
      rw [if_pos own]
      simp only [List.filter_append, kept, List.map_append, List.filterMap_append,
        List.getLast?_append, declaring, Option.or_assoc]
      rfl
    · have dropped : [entry].filter (·.inner.value = decl.name) = [] := by simp [own]
      rw [if_neg own, List.filter_append, dropped, List.append_nil]

theorem tells_innerClasses {this : Operand (NamesClass constants)} {decl : ClassDecl}
    {entries : List (InnerForm constants)} (fits : entries.length < 0x10000)
    (hn : decl.name = this.value) :
    Tells (u2 >>= fun count =>
        iterate count.toNat (readInnerClass (poolOf constants) this.index) decl)
      (word2 entries.length ++ entries.flatMap InnerForm.bytes)
      (entries.foldl (fun d entry => entry.revise d) decl) := by
  have named : ∀ front : List (InnerForm constants),
      (front.foldl (fun d entry => entry.revise d) decl).name = this.value := fun front => by
    rw [foldl_revise]
    exact hn
  refine ((reads_u2 _).bind ?_).tells_all
  rw [toNat_ofNat_u2 fits]
  refine reads_iterate (fun front : List (InnerForm constants) =>
    front.foldl (fun d entry => entry.revise d) decl) fun front entry _ => ?_
  rw [List.foldl_append]
  exact reads_innerClass entry (named front)

theorem tells_class (form : ClassForm)
    (front : List (AttributeForm form.constants (ClassContent form.constants)))
    {next : AttributeForm form.constants (ClassContent form.constants)} (fits : next.Fits) :
    Tells (reviseClass (poolOf form.constants) form.name.index (AttributeContent.name next.content)
        (form.declOf front))
      (AttributeContent.body next.content) (form.declOf (front ++ [next])) := by
  obtain ⟨content, nameIndex, named⟩ := next
  have fits := fits.2
  simp only [ClassForm.declOf, contents_append, List.filterMap_append, List.flatMap_append,
    List.getLast?_append, List.flatMap_singleton, List.map_append]
  cases content with
  | signature text =>
    simp only [ClassContent.annotationList, ClassContent.ownEntries, ClassContent.enclosers,
      List.append_nil]
    exact tells_parsed text _
  | sourceFile text =>
    simp only [ClassContent.annotationList, ClassContent.ownEntries, ClassContent.enclosers,
      List.append_nil]
    exact ((reads_name text).map _).tells_all
  | innerClasses entries =>
    simp only [ClassContent.annotationList, ClassContent.ownEntries, ClassContent.enclosers,
      List.append_nil]
    have own : (form.declOf front).name = form.name.value := rfl
    have told := tells_innerClasses fits own
    rw [foldl_revise] at told
    simp only [Option.getD_or]
    exact told
  | enclosingMethod enclosing method =>
    simp only [ClassContent.annotationList, ClassContent.ownEntries, ClassContent.enclosers,
      List.append_nil]
    exact ((reads_className enclosing).map _).tells _
  | annotations visible forms =>
    simp only [ClassContent.ownEntries, ClassContent.enclosers, List.map_nil]
    cases visible <;> exact ((reads_annotations _ fits).map _).tells_all
  | unknown name unknown body =>
    simp only [ClassContent.annotationList, ClassContent.ownEntries, ClassContent.enclosers,
      List.append_nil]
    refine ⟨body, ?_⟩
    show reviseClass _ _ name _ _ = _
    rw [reviseClass_unknown unknown]
    rfl

end ClassAtlas.ClassFile
