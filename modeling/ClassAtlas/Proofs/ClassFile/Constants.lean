import ClassAtlas.Proofs.ClassFile.Form
import ClassAtlas.Proofs.Text.ModifiedUtf8

/-!
# Constants read back

* `reads_pool`: the pool that is read holds the constants of the form, in their slots;
* `find_of_standsAt`: looking up an index in it gives the constant that stands there, by counting
  the slots in front, so every accessor tells what the operand carries.
-/

namespace ClassAtlas.ClassFile

open Reader

/-! ## Text -/

/-- The text of code units is read back from their bytes. -/
theorem textOf_unitBytes (units : List UInt16) :
    Constant.textOf (unitBytes units) = .ok (unitText units) := by
  have small : ∀ unit ∈ units.map UInt16.toNat, unit < 0x10000 := by
    intro unit inside
    obtain ⟨word, -, rfl⟩ := List.mem_map.mp inside
    exact word.toNat_lt
  have splits := ModifiedUtf8.splits_encodeUnits small
  rw [List.flatMap_map] at splits
  rw [Constant.textOf_eq_ok_iff, ModifiedUtf8.decode_eq_some_iff]
  refine ⟨units.map UInt16.toNat, splits, ?_⟩
  rw [unitText, String.toList_ofList]
  exact Utf16.reads_decodeLossy small

/-! ## Reading the pool -/

/-- What the pool keeps of a constant. -/
def ConstantForm.constant : ConstantForm → Constant
  | text units => .text (unitText units)
  | integer value => .integer value
  | float bits => .float bits
  | long value => .long value
  | double bits => .double bits
  | classRef nameIndex => .classRef nameIndex
  | stringRef textIndex => .stringRef textIndex
  | pair _ _ _ | methodHandle _ _ | single _ _ => .other

theorem ConstantForm.isWide_constant (form : ConstantForm) :
    form.constant.isWide ↔ form.width = 2 := by
  cases form <;> simp [constant, Constant.isWide, width]

theorem ConstantForm.length_slots (form : ConstantForm) :
    form.constant.slots.length = form.width := by
  cases form <;> rfl

theorem reads_text {units : List UInt16} (fits : (unitBytes units).length < 0x10000) :
    Reads Constant.readText (word2 (unitBytes units).length ++ unitBytes units)
      (.text (unitText units)) := by
  refine (reads_u2 _).bind ?_
  rw [toNat_ofNat_u2 fits]
  exact (reads_take _).bind_nil ((reads_lift (textOf_unitBytes units)).map Constant.text)

theorem reads_skipped {bytes : Bytes} {size : Nat} (h : bytes.length = size) :
    Reads (skip size >>= fun _ => pure Constant.other) bytes .other :=
  (reads_skip h).map fun _ => Constant.other

/-- Every constant is read by its tag. Of those that only code refers to nothing is kept. -/
theorem reads_constant {form : ConstantForm} (fits : form.Fits) :
    Reads Constant.read form.bytes form.constant := by
  cases form with
  | text units => exact (reads_u1 1).bind (reads_text fits)
  | integer value =>
    have number := (reads_u4 value.toUInt32.toNat).map fun n => Constant.integer n.toInt32
    rw [UInt32.ofNat_toNat] at number
    exact (reads_u1 3).bind number
  | float bits =>
    have number := (reads_u4 bits.toNat).map Constant.float
    rw [UInt32.ofNat_toNat] at number
    exact (reads_u1 4).bind number
  | long value =>
    have number := (reads_u8 value.toUInt64.toNat).map fun n => Constant.long n.toInt64
    rw [UInt64.ofNat_toNat] at number
    exact (reads_u1 5).bind number
  | double bits =>
    have number := (reads_u8 bits.toNat).map Constant.double
    rw [UInt64.ofNat_toNat] at number
    exact (reads_u1 6).bind number
  | classRef nameIndex => exact (reads_u1 7).bind ((reads_index nameIndex).map Constant.classRef)
  | stringRef textIndex =>
    exact (reads_u1 8).bind ((reads_index textIndex).map Constant.stringRef)
  | pair kind first second => cases kind <;> exact (reads_u1 _).bind (reads_skipped rfl)
  | methodHandle kind reference => exact (reads_u1 15).bind (reads_skipped rfl)
  | single kind index => cases kind <;> exact (reads_u1 _).bind (reads_skipped rfl)

theorem width_eq (form : ConstantForm) : form.width = 1 ∨ form.width = 2 := by
  cases form <;> simp [ConstantForm.width]

theorem slotCount_cons (form : ConstantForm) (forms : List ConstantForm) :
    slotCount (form :: forms) = form.width + slotCount forms := rfl

/-- The constants of as many slots as they take. The last slot is never the second half of a
constant, so the reading stops right behind the last of them. -/
theorem reads_constants {forms : List ConstantForm} (fits : ∀ form ∈ forms, form.Fits) :
    Reads (Constant.readList (slotCount forms)) (forms.flatMap ConstantForm.bytes)
      (forms.map ConstantForm.constant) := by
  induction forms with
  | nil => exact Reads.pure []
  | cons form forms ih =>
    have first := reads_constant (fits form List.mem_cons_self)
    have others := ih fun other h => fits other (List.mem_cons_of_mem form h)
    have wide := form.isWide_constant
    rw [slotCount_cons]
    rcases width_eq form with h | h
    · cases forms with
      | nil =>
        rw [h, List.flatMap_singleton]
        exact first.map fun constant => [constant]
      | cons next forms =>
        obtain ⟨slots, hs⟩ : ∃ slots, slotCount (next :: forms) = slots + 1 := by
          rcases width_eq next with hn | hn
          · exact ⟨slotCount forms, by rw [slotCount_cons, hn, Nat.add_comm]⟩
          · exact ⟨1 + slotCount forms, by rw [slotCount_cons, hn]; omega⟩
        rw [hs] at others
        rw [h, hs, Nat.add_comm 1, Constant.readList]
        refine first.bind ?_
        rw [if_neg (by rw [wide, h]; decide)]
        exact others.map (form.constant :: ·)
    · rw [h, Nat.add_comm 2, Constant.readList]
      refine first.bind ?_
      rw [if_pos (wide.mpr h)]
      exact others.map (form.constant :: ·)

/-- The pool of the constants. -/
def poolOf (constants : List ConstantForm) : ConstantPool :=
  .ofConstants (constants.map ConstantForm.constant)

theorem reads_pool {constants : List ConstantForm} (fits : PoolFits constants) :
    Reads ConstantPool.read (poolBytes constants) (poolOf constants) := by
  refine (reads_u2 _).bind ?_
  rw [toNat_ofNat_u2 fits.1, Nat.add_sub_cancel]
  exact (reads_constants fits.2).map ConstantPool.ofConstants

/-! ## Looking up -/

section Lookup

variable {constants : List ConstantForm} {index : UInt16}

/-- The slots in front of a constant are those of the constants in front of it. -/
theorem length_slots_flatMap (forms : List ConstantForm) :
    ((forms.map ConstantForm.constant).flatMap Constant.slots).length = slotCount forms := by
  induction forms with
  | nil => rfl
  | cons form forms ih =>
    rw [List.map_cons, List.flatMap_cons, List.length_append, ih, form.length_slots,
      slotCount_cons]

theorem head?_slots (constant : Constant) : constant.slots[0]? = some (some constant) := by
  unfold Constant.slots
  split <;> rfl

theorem slots_of_standsAt {form : ConstantForm} (h : StandsAt constants index form) :
    (poolOf constants).slots[index.toNat]? = some (some form.constant) := by
  obtain ⟨front, rest, rfl, hi⟩ := h
  have split : (none :: ((front ++ form :: rest).map ConstantForm.constant).flatMap
      Constant.slots) = (none :: (front.map ConstantForm.constant).flatMap Constant.slots) ++
        (form.constant.slots ++ (rest.map ConstantForm.constant).flatMap Constant.slots) := by
    simp
  have place : index.toNat =
      (none :: (front.map ConstantForm.constant).flatMap Constant.slots).length := by
    rw [List.length_cons, length_slots_flatMap, hi, Nat.add_comm]
  rw [poolOf, ConstantPool.ofConstants, List.getElem?_toArray, split, place,
    List.getElem?_append_right (Nat.le_refl _), Nat.sub_self, List.getElem?_append_left]
  · exact head?_slots form.constant
  · rw [form.length_slots]
    rcases width_eq form with h | h <;> omega

theorem find_of_standsAt {α : Type} {select : Constant → Option α} {form : ConstantForm} {a : α}
    (h : StandsAt constants index form) (hs : select form.constant = some a) :
    (poolOf constants).find select index = .ok a := by
  rw [ConstantPool.find, slots_of_standsAt h, Option.join_some, Option.bind_some, hs]

/-- Slot zero holds nothing, so an index that designates a constant is none of the missing ones. -/
theorem ne_zero_of_standsAt {form : ConstantForm} (h : StandsAt constants index form) :
    index ≠ 0 := by
  obtain ⟨front, rest, _, hi⟩ := h
  rintro rfl
  rw [UInt16.toNat_zero] at hi
  omega

theorem text_of_names {text : String} (h : NamesText constants index text) :
    (poolOf constants).text index = .ok text := by
  obtain ⟨units, stands, rfl⟩ := h
  exact find_of_standsAt stands rfl

theorem className_of_names {name : String} (h : NamesClass constants index name) :
    (poolOf constants).className index = .ok name := by
  obtain ⟨nameIndex, internal, stands, text, rfl⟩ := h
  simp only [ConstantPool.className, ConstantPool.find, slots_of_standsAt stands,
    Option.join_some, Option.bind_some, ConstantForm.constant]
  show ((poolOf constants).text nameIndex >>= _) = _
  rw [text_of_names text]
  rfl

theorem integer_of_standsAt {v : Int32} (h : StandsAt constants index (.integer v)) :
    (poolOf constants).integer index = .ok v := find_of_standsAt h rfl

theorem long_of_standsAt {v : Int64} (h : StandsAt constants index (.long v)) :
    (poolOf constants).long index = .ok v := find_of_standsAt h rfl

theorem float_of_standsAt {bits : UInt32} (h : StandsAt constants index (.float bits)) :
    (poolOf constants).float index = .ok bits := find_of_standsAt h rfl

theorem double_of_standsAt {bits : UInt64} (h : StandsAt constants index (.double bits)) :
    (poolOf constants).double index = .ok bits := find_of_standsAt h rfl

theorem integerFor_other {type : JavaType} (v : Int32)
    (h : type ∉ [JavaType.primitive .boolean, .primitive .byte, .primitive .char,
      .primitive .short]) : ConstantPool.integerFor type v = .int v := by
  unfold ConstantPool.integerFor
  split <;> simp at h ⊢

/-- An integer is taken for what the type of the field says, every other constant for itself. -/
theorem constantFor_of_names {type : JavaType} {value : ElementValue}
    (h : NamesInitial constants type index value) :
    (poolOf constants).constantFor type index = .ok value := by
  cases h with
  | boolean stands ht | byte stands ht | char stands ht | short stands ht =>
    rw [ConstantPool.constantFor, find_of_standsAt stands rfl, ht]
    rfl
  | int stands ht =>
    rw [ConstantPool.constantFor, find_of_standsAt stands rfl]
    exact congrArg Except.ok (integerFor_other _ ht)
  | long stands | float stands | double stands =>
    rw [ConstantPool.constantFor, find_of_standsAt stands rfl]
    rfl
  | string stands names =>
    rw [ConstantPool.constantFor, find_of_standsAt stands rfl]
    show ((poolOf constants).text _ >>= _) = _
    rw [text_of_names names]
    rfl

end Lookup

end ClassAtlas.ClassFile
