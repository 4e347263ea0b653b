import ClassAtlas.Proofs.ClassFile.Constants
import ClassAtlas.Proofs.ClassFile.Incremental
import Mathlib.Data.List.Basic

/-!
# The slots of constants

`Numbered` counts the slots of the constants that stand one behind the other in a class file, and
`Accessor` is any of the ways to look one up. A look-up gives what stands in its slot or names the
slot that does not hold what it should (`slots_exact`); no slot outside the declared count is ever
taken for one, whatever the last constant is.
-/

namespace ClassAtlas.ClassFile

open Reader

/-! ## Numbering -/

/-- How many slots the constant takes. -/
def slotsTaken (constant : Constant) : Nat := if constant.isWide then 2 else 1

/-- The constants that stand one behind the other from the given slot on, each with its slot, and
the bytes behind the last of them. There is one as long as its slot is below the count. -/
inductive Numbered (count : Nat) : Nat → Bytes → List (Nat × Constant) → Bytes → Prop
  | full {slot : Nat} {bytes : Bytes} (done : count ≤ slot) : Numbered count slot bytes [] bytes
  | next {slot : Nat} {bytes more rest : Bytes} {constant : Constant}
      {others : List (Nat × Constant)} (room : slot < count)
      (read : Constant.read bytes = .ok (constant, more))
      (behind : Numbered count (slot + slotsTaken constant) more others rest) :
      Numbered count slot bytes ((slot, constant) :: others) rest

theorem slotsTaken_pos (constant : Constant) : 0 < slotsTaken constant := by
  unfold slotsTaken
  split <;> decide

theorem length_slots (constant : Constant) : constant.slots.length = slotsTaken constant := by
  unfold Constant.slots slotsTaken
  split <;> rfl

/-- Only the first of its slots holds the constant. -/
theorem join_getElem?_slots_iff {constant held : Constant} {place : Nat} :
    constant.slots[place]?.join = some held ↔ place = 0 ∧ held = constant := by
  unfold Constant.slots
  split <;> rcases place with _ | _ | place <;> simp [eq_comm]

/-- A constant takes its slots off those that are left, but no more than there are. -/
theorem readList_succ (slots : Nat) :
    Constant.readList (slots + 1) = do
      let first ← Constant.read
      let others ← Constant.readList (slots + 1 - slotsTaken first)
      return first :: others := by
  cases slots with
  | zero =>
    have used : ∀ first, 0 + 1 - slotsTaken first = 0 := fun first => by
      have := slotsTaken_pos first
      omega
    simp only [used]
    rfl
  | succ slots =>
    rw [Constant.readList]
    congr 1
    funext first
    unfold slotsTaken
    cases first.isWide <;> rfl

theorem exists_numbered {count slot : Nat} {bytes rest : Bytes} {constants : List Constant}
    (h : Constant.readList (count - slot) bytes = .ok (constants, rest)) :
    ∃ numbered, Numbered count slot bytes numbered rest ∧ numbered.map Prod.snd = constants := by
  by_cases room : slot < count
  · obtain ⟨left, more⟩ := Nat.exists_eq_add_of_lt room
    have slots : count - slot = left + 1 := by omega
    rw [slots, readList_succ] at h
    obtain ⟨first, behind, read, h⟩ := bind_eq_ok h
    obtain ⟨others, after, row, h⟩ := bind_eq_ok h
    cases h
    have taken := slotsTaken_pos first
    rw [show left + 1 - slotsTaken first = count - (slot + slotsTaken first) by omega] at row
    obtain ⟨numbered, follows, rfl⟩ := exists_numbered row
    exact ⟨_, .next room read follows, rfl⟩
  · have full := Nat.le_of_not_lt room
    rw [Nat.sub_eq_zero_of_le full] at h
    cases h
    exact ⟨[], .full full, rfl⟩
termination_by count - slot

section Table

variable {count slot : Nat} {bytes rest : Bytes} {table : List (Nat × Constant)}

theorem Numbered.bounds (h : Numbered count slot bytes table rest) :
    ∀ place ∈ table, slot ≤ place.1 ∧ place.1 < count := by
  induction h with
  | full => nofun
  | @next slot _ _ _ constant others room _ _ ih =>
    intro place inside
    rcases List.mem_cons.mp inside with rfl | later
    · exact ⟨Nat.le_refl _, room⟩
    · have own := ih place later
      exact ⟨Nat.le_trans (Nat.le_add_right _ _) own.1, own.2⟩

/-- No constant stands in the second slot of another. -/
theorem Numbered.not_mem_succ (h : Numbered count slot bytes table rest) {place : Nat}
    {wide : Constant} (taken : slotsTaken wide = 2) (inside : (place, wide) ∈ table)
    (constant : Constant) : (place + 1, constant) ∉ table := by
  induction h with
  | full => nofun
  | @next slot _ _ _ first others _ _ behind ih =>
    intro second
    have later := behind.bounds
    have least := slotsTaken_pos first
    rcases List.mem_cons.mp inside with same | inside
    · obtain ⟨rfl, rfl⟩ := Prod.mk.inj same
      rcases List.mem_cons.mp second with same | second
      · have := (Prod.mk.inj same).1
        omega
      · have := (later _ second).1
        omega
    · rcases List.mem_cons.mp second with same | second
      · have place := (Prod.mk.inj same).1
        have := (later _ inside).1
        omega
      · exact ih inside second

/-- The slots of the constants hold just what is numbered so. -/
theorem Numbered.join_getElem?_eq_some_iff (h : Numbered count slot bytes table rest) (place : Nat)
    (constant : Constant) :
    ((table.map Prod.snd).flatMap Constant.slots)[place]?.join = some constant ↔
      (slot + place, constant) ∈ table := by
  induction h generalizing place with
  | full => simp
  | @next slot _ _ _ first others _ _ behind ih =>
    have later := behind.bounds
    rw [List.map_cons, List.flatMap_cons, List.mem_cons, Prod.mk.injEq, Nat.add_eq_left]
    by_cases own : place < slotsTaken first
    · rw [List.getElem?_append_left (by rwa [length_slots]), join_getElem?_slots_iff]
      have early : (slot + place, constant) ∉ others := by
        intro inside
        have := (later _ inside).1
        omega
      exact (or_iff_left early).symm
    · obtain ⟨more, rfl⟩ := Nat.exists_eq_add_of_le (Nat.le_of_not_lt own)
      have taken := slotsTaken_pos first
      have behind : first.slots.length ≤ slotsTaken first + more := by
        rw [length_slots]
        exact Nat.le_add_right _ _
      have further : ¬ (slotsTaken first + more = 0 ∧ constant = first) := by omega
      rw [List.getElem?_append_right behind, length_slots, Nat.add_sub_cancel_left, ih,
        ← Nat.add_assoc]
      exact (or_iff_right further).symm

end Table

/-! ## Looking up -/

/-- The constant stands in the slot of this index. -/
def Holds (table : List (Nat × Constant)) (index : UInt16) (constant : Constant) : Prop :=
  (index.toNat, constant) ∈ table

/-- The ways to look up a constant. -/
inductive Accessor where
  | text
  | className
  | integer
  | float
  | long
  | double
  /-- The initial value of a field of this type. -/
  | initial (type : JavaType)

namespace Accessor

/-- What the accessor gives. -/
def Value : Accessor → Type
  | text | className => String
  | integer => Int32
  | float => UInt32
  | long => Int64
  | double => UInt64
  | initial _ => ElementValue

def get (pool : ConstantPool) (index : UInt16) :
    (accessor : Accessor) → Except ClassFileError accessor.Value
  | text => pool.text index
  | className => pool.className index
  | integer => pool.integer index
  | float => pool.float index
  | long => pool.long index
  | double => pool.double index
  | initial type => pool.constantFor type index

/-- The constants that the accessor takes. -/
def Takes : Accessor → Constant → Prop
  | text, .text _ | className, .classRef _ | integer, .integer _ | float, .float _ | long, .long _
  | double, .double _ => True
  | initial _, .integer _ | initial _, .float _ | initial _, .long _ | initial _, .double _
  | initial _, .stringRef _ => True
  | _, _ => False

end Accessor

/-- The index that stands in a class or string constant. -/
def textIndex? : Constant → Option UInt16
  | .classRef index | .stringRef index => some index
  | _ => none

section Table

variable (table : List (Nat × Constant)) (index : UInt16)

/-- What a field of this type starts with, by the constant at the index. An integer is taken for
what the type says, every other constant for itself. -/
inductive StartsWith (type : JavaType) : ElementValue → Prop
  | boolean {v : Int32} (holds : Holds table index (.integer v))
      (ht : type = .primitive .boolean) : StartsWith type (.boolean (v ≠ 0))
  | byte {v : Int32} (holds : Holds table index (.integer v))
      (ht : type = .primitive .byte) : StartsWith type (.byte v.toInt8)
  | char {v : Int32} (holds : Holds table index (.integer v))
      (ht : type = .primitive .char) : StartsWith type (.char (ConstantPool.charOf v))
  | short {v : Int32} (holds : Holds table index (.integer v))
      (ht : type = .primitive .short) : StartsWith type (.short v.toInt16)
  | int {v : Int32} (holds : Holds table index (.integer v))
      (ht : type ∉ [JavaType.primitive .boolean, .primitive .byte, .primitive .char,
        .primitive .short]) : StartsWith type (.int v)
  | long {v : Int64} (holds : Holds table index (.long v)) : StartsWith type (.long v)
  | float {bits : UInt32} (holds : Holds table index (.float bits)) : StartsWith type (.float bits)
  | double {bits : UInt64} (holds : Holds table index (.double bits)) :
      StartsWith type (.double bits)
  | string {textIndex : UInt16} {text : String} (holds : Holds table index (.stringRef textIndex))
      (names : Holds table textIndex (.text text)) : StartsWith type (.string text)

namespace Accessor

/-- The value stands in the slot, or the slot names the slot of its text. -/
def Gives : (accessor : Accessor) → accessor.Value → Prop
  | text => fun (value : String) => Holds table index (.text value)
  | className => fun (name : String) => ∃ nameIndex internal,
    Holds table index (.classRef nameIndex) ∧ Holds table nameIndex (.text internal) ∧
      name = String.ofList (ClassName.dotted internal.toList)
  | integer => fun (value : Int32) => Holds table index (.integer value)
  | float => fun (bits : UInt32) => Holds table index (.float bits)
  | long => fun (value : Int64) => Holds table index (.long value)
  | double => fun (bits : UInt64) => Holds table index (.double bits)
  | initial type => StartsWith table index type

/-- The index that does not resolve: the one that is asked for, if no fitting constant stands there,
or the one that is named there, if it is not that of a text. -/
def Misses (accessor : Accessor) (missing : UInt16) : Prop :=
  (missing = index ∧ ∀ constant, Holds table index constant → ¬ accessor.Takes constant) ∨
    ∃ constant, Holds table index constant ∧ accessor.Takes constant ∧
      textIndex? constant = some missing ∧ ∀ value, ¬ Holds table missing (.text value)

end Accessor

end Table

/-! ## What is found -/

/-- A pool with these constants in its slots. -/
def Tabulates (table : List (Nat × Constant)) (pool : ConstantPool) : Prop :=
  ∀ index constant,
    Holds table index constant ↔ pool.slots[index.toNat]?.join = some constant

theorem Numbered.tabulates {count : Nat} {bytes rest : Bytes} {table : List (Nat × Constant)}
    (h : Numbered count 1 bytes table rest) :
    Tabulates table (.ofConstants (table.map Prod.snd)) := by
  intro index constant
  rw [ConstantPool.ofConstants, List.getElem?_toArray, Holds]
  cases place : index.toNat with
  | zero =>
    have outside : (0, constant) ∉ table := fun inside =>
      Nat.not_succ_le_zero 0 (h.bounds _ inside).1
    simp [outside]
  | succ place =>
    rw [List.getElem?_cons_succ, h.join_getElem?_eq_some_iff, Nat.add_comm 1]

/-- The initial value of a field by an integer constant. -/
theorem startsWith_integerFor {table : List (Nat × Constant)} {index : UInt16}
    {type : JavaType} {v : Int32} (holds : Holds table index (.integer v)) :
    StartsWith table index type (ConstantPool.integerFor type v) := by
  unfold ConstantPool.integerFor
  split
  next => exact .boolean holds rfl
  next => exact .byte holds rfl
  next => exact .char holds rfl
  next => exact .short holds rfl
  next boolean byte char short =>
    refine .int holds ?_
    simp only [List.mem_cons, List.not_mem_nil, or_false, not_or]
    exact ⟨boolean, byte, char, short⟩

section Find

variable {table : List (Nat × Constant)} {pool : ConstantPool} (tabulates : Tabulates table pool)
variable {α : Type} {select : Constant → Option α} {index : UInt16} {error : ClassFileError}

include tabulates

theorem find_eq_ok_iff {a : α} : pool.find select index = .ok a ↔
    ∃ constant, Holds table index constant ∧ select constant = some a := by
  have holds := tabulates index
  simp only [holds]
  unfold ConstantPool.find
  cases pool.slots[index.toNat]?.join with
  | none => simp
  | some constant => cases selected : select constant <;> simp [selected]

theorem find_eq_error_iff : pool.find select index = .error error ↔
    (∀ constant, Holds table index constant → select constant = none) ∧
      error = .badConstantIndex index := by
  have holds := tabulates index
  simp only [holds]
  unfold ConstantPool.find
  cases pool.slots[index.toNat]?.join with
  | none => simp [eq_comm]
  | some constant => cases selected : select constant <;> simp [selected, eq_comm]

theorem text_eq_ok_iff {value : String} :
    pool.text index = .ok value ↔ Holds table index (.text value) := by
  refine (find_eq_ok_iff tabulates).trans ⟨?_, fun holds => ⟨_, holds, rfl⟩⟩
  rintro ⟨constant, holds, selected⟩
  cases constant <;> cases selected
  exact holds

theorem text_eq_error_iff : pool.text index = .error error ↔
    (∀ value, ¬ Holds table index (.text value)) ∧ error = .badConstantIndex index := by
  refine (find_eq_error_iff tabulates).trans (and_congr_left fun _ => ?_)
  constructor
  · intro missing value holds
    cases missing _ holds
  · intro missing constant holds
    cases constant with
    | text value => exact (missing value holds).elim
    | integer | float | long | double | classRef | stringRef | other => rfl

theorem className_eq_ok_iff {name : String} : pool.className index = .ok name ↔
    ∃ nameIndex internal, Holds table index (.classRef nameIndex) ∧
      Holds table nameIndex (.text internal) ∧
      name = String.ofList (ClassName.dotted internal.toList) := by
  rw [ConstantPool.className]
  constructor
  · intro given
    obtain ⟨nameIndex, found, given⟩ := ok_of_bind given
    obtain ⟨internal, named, given⟩ := ok_of_bind given
    obtain ⟨constant, holds, selected⟩ := (find_eq_ok_iff tabulates).mp found
    cases given
    cases constant <;> cases selected
    exact ⟨nameIndex, internal, holds, (text_eq_ok_iff tabulates).mp named, rfl⟩
  · rintro ⟨nameIndex, internal, holds, named, rfl⟩
    refine (bind_of_eq_ok (a := nameIndex) ?_ _).trans ?_
    · exact (find_eq_ok_iff tabulates).mpr ⟨_, holds, rfl⟩
    · rw [bind_of_eq_ok ((text_eq_ok_iff tabulates).mpr named)]
      rfl

theorem constantFor_eq_ok_iff {type : JavaType} {value : ElementValue} :
    pool.constantFor type index = .ok value ↔ StartsWith table index type value := by
  rw [ConstantPool.constantFor]
  constructor
  · intro given
    obtain ⟨constant, found, given⟩ := ok_of_bind given
    obtain ⟨_, holds, ⟨⟩⟩ := (find_eq_ok_iff tabulates).mp found
    cases constant with
    | integer v =>
      cases given
      exact startsWith_integerFor holds
    | long v =>
      cases given
      exact .long holds
    | float bits =>
      cases given
      exact .float holds
    | double bits =>
      cases given
      exact .double holds
    | stringRef textIndex =>
      obtain ⟨text, named, ⟨⟩⟩ := ok_of_bind given
      exact .string holds ((text_eq_ok_iff tabulates).mp named)
    | text | classRef | other => cases given
  · have found : ∀ {constant}, Holds table index constant →
        pool.find some index = .ok constant := fun holds =>
      (find_eq_ok_iff tabulates).mpr ⟨_, holds, rfl⟩
    intro starts
    cases starts with
    | boolean holds ht | byte holds ht | char holds ht | short holds ht =>
      rw [bind_of_eq_ok (found holds), ht]
      rfl
    | int holds ht =>
      rw [bind_of_eq_ok (found holds)]
      exact congrArg Except.ok (integerFor_other _ ht)
    | long holds | float holds | double holds =>
      rw [bind_of_eq_ok (found holds)]
      rfl
    | string holds names =>
      rw [bind_of_eq_ok (found holds)]
      dsimp only
      rw [bind_of_eq_ok ((text_eq_ok_iff tabulates).mpr names)]
      rfl

/-- No two constants stand in one slot. -/
theorem Holds.unique {constant constant' : Constant} (holds : Holds table index constant)
    (holds' : Holds table index constant') : constant = constant' :=
  Option.some_inj.mp (((tabulates _ _).mp holds).symm.trans ((tabulates _ _).mp holds'))

/-- An accessor that gives what stands in the slot misses only the slot itself. -/
theorem find_eq_error_iff_misses {accessor : Accessor}
    (refuses : ∀ constant, select constant = none ↔ ¬ accessor.Takes constant)
    (plain : ∀ constant, accessor.Takes constant → textIndex? constant = none) :
    pool.find select index = .error error ↔
      ∃ missing, accessor.Misses table index missing ∧ error = .badConstantIndex missing := by
  rw [find_eq_error_iff tabulates]
  constructor
  · rintro ⟨refused, rfl⟩
    exact ⟨index,
      .inl ⟨rfl, fun constant holds => (refuses constant).mp (refused constant holds)⟩, rfl⟩
  · rintro ⟨missing, ⟨rfl, untaken⟩ | ⟨constant, _, takes, names, _⟩, rfl⟩
    · exact ⟨fun constant holds => (refuses constant).mpr (untaken constant holds), rfl⟩
    · cases (plain constant takes).symm.trans names

theorem className_eq_error_iff : pool.className index = .error error ↔
    ∃ missing, Accessor.className.Misses table index missing ∧
      error = .badConstantIndex missing := by
  rw [ConstantPool.className, bind_eq_error_iff, find_eq_error_iff tabulates]
  constructor
  · rintro (⟨unfit, rfl⟩ | ⟨nameIndex, found, refused⟩)
    · refine ⟨index, .inl ⟨rfl, fun constant holds takes => ?_⟩, rfl⟩
      cases constant with
      | classRef nameIndex => cases unfit _ holds
      | text | integer | float | long | double | stringRef | other => exact takes
    · obtain ⟨constant, holds, selected⟩ := (find_eq_ok_iff tabulates).mp found
      cases constant <;> cases selected
      rcases bind_eq_error_iff.mp refused with lost | ⟨_, _, ⟨⟩⟩
      obtain ⟨textless, rfl⟩ := (text_eq_error_iff tabulates).mp lost
      exact ⟨nameIndex, .inr ⟨_, holds, trivial, rfl, textless⟩, rfl⟩
  · rintro ⟨missing, ⟨rfl, untaken⟩ | ⟨constant, holds, takes, names, textless⟩, rfl⟩
    · refine .inl ⟨fun constant holds => ?_, rfl⟩
      cases constant with
      | classRef nameIndex => exact (untaken _ holds trivial).elim
      | text | integer | float | long | double | stringRef | other => rfl
    · cases constant with
      | classRef nameIndex =>
        cases names
        refine .inr ⟨missing, (find_eq_ok_iff tabulates).mpr ⟨_, holds, rfl⟩, ?_⟩
        exact bind_eq_error_iff.mpr (.inl ((text_eq_error_iff tabulates).mpr ⟨textless, rfl⟩))
      | text | integer | float | long | double | stringRef | other => exact takes.elim

theorem constantFor_eq_error_iff {type : JavaType} : pool.constantFor type index = .error error ↔
    ∃ missing, (Accessor.initial type).Misses table index missing ∧
      error = .badConstantIndex missing := by
  rw [ConstantPool.constantFor, bind_eq_error_iff, find_eq_error_iff tabulates]
  constructor
  · rintro (⟨unfit, rfl⟩ | ⟨constant, found, refused⟩)
    · exact ⟨index, .inl ⟨rfl, fun constant holds =>
        (Option.some_ne_none constant (unfit constant holds)).elim⟩, rfl⟩
    · obtain ⟨_, holds, ⟨⟩⟩ := (find_eq_ok_iff tabulates).mp found
      cases constant with
      | integer | float | long | double => cases refused
      | stringRef textIndex =>
        rcases bind_eq_error_iff.mp refused with lost | ⟨_, _, ⟨⟩⟩
        obtain ⟨textless, rfl⟩ := (text_eq_error_iff tabulates).mp lost
        exact ⟨textIndex, .inr ⟨_, holds, trivial, rfl, textless⟩, rfl⟩
      | text | classRef | other =>
        cases refused
        refine ⟨index, .inl ⟨rfl, fun constant holds' takes => ?_⟩, rfl⟩
        cases Holds.unique tabulates holds holds'
        exact takes
  · rintro ⟨missing, ⟨rfl, untaken⟩ | ⟨constant, holds, takes, names, textless⟩, rfl⟩
    · by_cases filled : ∃ constant, Holds table missing constant
      · obtain ⟨constant, holds⟩ := filled
        refine .inr ⟨constant, (find_eq_ok_iff tabulates).mpr ⟨_, holds, rfl⟩, ?_⟩
        have refused := untaken constant holds
        cases constant with
        | integer | float | long | double | stringRef => exact (refused trivial).elim
        | text | classRef | other => rfl
      · exact .inl ⟨fun constant holds => (filled ⟨constant, holds⟩).elim, rfl⟩
    · cases constant with
      | stringRef textIndex =>
        cases names
        refine .inr ⟨.stringRef missing, (find_eq_ok_iff tabulates).mpr ⟨_, holds, rfl⟩, ?_⟩
        exact bind_eq_error_iff.mpr (.inl ((text_eq_error_iff tabulates).mpr ⟨textless, rfl⟩))
      | integer | float | long | double => cases names
      | text | classRef | other => exact takes.elim

end Find

namespace Accessor

variable {table : List (Nat × Constant)} {pool : ConstantPool} (tabulates : Tabulates table pool)

include tabulates

theorem get_eq_ok_iff (accessor : Accessor) (index : UInt16) (value : accessor.Value) :
    accessor.get pool index = .ok value ↔ accessor.Gives table index value := by
  cases accessor with
  | text => exact text_eq_ok_iff tabulates
  | className => exact className_eq_ok_iff tabulates
  | integer | float | long | double =>
    refine (find_eq_ok_iff tabulates).trans ⟨?_, fun holds => ⟨_, holds, rfl⟩⟩
    rintro ⟨constant, holds, selected⟩
    cases constant <;> cases selected
    exact holds
  | initial type => exact constantFor_eq_ok_iff tabulates

theorem get_eq_error_iff (accessor : Accessor) (index : UInt16) (error : ClassFileError) :
    accessor.get pool index = .error error ↔
      ∃ missing, accessor.Misses table index missing ∧ error = .badConstantIndex missing := by
  cases accessor with
  | className => exact className_eq_error_iff tabulates
  | initial type => exact constantFor_eq_error_iff tabulates
  | text | integer | float | long | double =>
    refine find_eq_error_iff_misses tabulates (fun constant => ?_) fun constant takes => ?_
    · cases constant <;> simp [Takes]
    · cases constant <;> first | rfl | exact takes.elim

/-- Where nothing stands, no accessor resolves. -/
theorem get_eq_error_of_empty (accessor : Accessor) {index : UInt16}
    (empty : ∀ constant, ¬ Holds table index constant) :
    accessor.get pool index = .error (.badConstantIndex index) :=
  (accessor.get_eq_error_iff tabulates index _).mpr
    ⟨index, .inl ⟨rfl, fun constant holds => (empty constant holds).elim⟩, rfl⟩

end Accessor

/-! ## The pool -/

/-- The slots that never hold a constant: slot zero, those from the count on, and the second one of
an eight-byte constant. -/
def Unusable (count : UInt16) (table : List (Nat × Constant)) (index : UInt16) : Prop :=
  index = 0 ∨ count ≤ index ∨
    ∃ place wide, index.toNat = place + 1 ∧ (place, wide) ∈ table ∧ wide.isWide = true

theorem Numbered.not_holds {count : UInt16} {bytes rest : Bytes} {table : List (Nat × Constant)}
    (h : Numbered count.toNat 1 bytes table rest) {index : UInt16}
    (unusable : Unusable count table index) (constant : Constant) :
    ¬ Holds table index constant := by
  intro holds
  have bounds := h.bounds _ holds
  rcases unusable with rfl | beyond | ⟨place, wide, next, inside, eight⟩
  · exact Nat.not_succ_le_zero 0 bounds.1
  · exact Nat.not_lt_of_le (UInt16.le_iff_toNat_le.mp beyond) bounds.2
  · rw [Holds, next] at holds
    exact h.not_mem_succ (if_pos eight) inside constant holds

/-- The bytes of a pool that is read are a count and constants, and every look-up in it is told by
the slots of these constants. -/
theorem slots_exact {bytes rest : Bytes} {pool : ConstantPool}
    (h : ConstantPool.read bytes = .ok (pool, rest)) :
    ∃ count more table, u2 bytes = .ok (count, more) ∧ Numbered count.toNat 1 more table rest ∧
      (∀ (accessor : Accessor) (index : UInt16),
        (∀ value, accessor.get pool index = .ok value ↔ accessor.Gives table index value) ∧
        ∀ error, accessor.get pool index = .error error ↔
          ∃ missing, accessor.Misses table index missing ∧ error = .badConstantIndex missing) ∧
      ∀ index, Unusable count table index → ∀ accessor : Accessor,
        accessor.get pool index = .error (.badConstantIndex index) := by
  obtain ⟨count, more, counted, h⟩ := bind_eq_ok h
  obtain ⟨constants, behind, row, h⟩ := bind_eq_ok h
  cases h
  obtain ⟨table, numbered, rfl⟩ := exists_numbered row
  have tabulates := numbered.tabulates
  refine ⟨count, more, table, counted, numbered, fun accessor index => ?_, fun index unusable => ?_⟩
  · exact ⟨accessor.get_eq_ok_iff tabulates index, accessor.get_eq_error_iff tabulates index⟩
  · intro accessor
    exact accessor.get_eq_error_of_empty tabulates (numbered.not_holds unusable)

/-- A class constant, its name and an eight-byte constant, in slots one to three. -/
def overhangingForms : List ConstantForm := [.classRef 2, .text [0x41], .long 9]

/-- The constants behind a count of four, so that the last of them reaches beyond. -/
def overhangingBytes : Bytes := word2 4 ++ overhangingForms.flatMap ConstantForm.bytes

theorem read_overhanging :
    ConstantPool.read overhangingBytes = .ok (poolOf overhangingForms, []) := by
  have fits : (unitBytes [0x41]).length < 0x10000 := by decide
  have name : Reads Constant.read (ConstantForm.classRef 2).bytes _ := reads_constant trivial
  have text : Reads Constant.read (ConstantForm.text [0x41]).bytes _ := reads_constant fits
  have number : Reads Constant.read (ConstantForm.long 9).bytes _ := reads_constant trivial
  have row : Reads (Constant.readList 3) (overhangingForms.flatMap ConstantForm.bytes)
      (overhangingForms.map ConstantForm.constant) :=
    name.bind ((text.bind ((number.map fun last => [last]).map _)).map _)
  have whole : Reads ConstantPool.read overhangingBytes (poolOf overhangingForms) :=
    (reads_u2 4).bind (row.map ConstantPool.ofConstants)
  have read := whole []
  rwa [List.append_nil] at read

/-- The eight-byte constant is found in slot three. Slot four, the second one that it takes, is no
slot of the pool. -/
theorem slots_exact_overhanging :
    let pool := poolOf overhangingForms
    ConstantPool.read overhangingBytes = .ok (pool, []) ∧
    Accessor.className.get pool 1 = .ok "A" ∧ Accessor.long.get pool 3 = .ok (9 : Int64) ∧
      ∀ accessor : Accessor, accessor.get pool 4 = .error (.badConstantIndex 4) := by
  intro pool
  obtain ⟨count, more, table, counted, numbered, exact, unusable⟩ := slots_exact read_overhanging
  have four : count = 4 := by
    have declared := reads_u2 4 (overhangingForms.flatMap ConstantForm.bytes)
    exact (Prod.mk.inj (Except.ok.inj (counted.symm.trans declared))).1
  have beyond : Unusable count table 4 := .inr (.inl (Nat.le_of_eq (congrArg UInt16.toNat four)))
  refine ⟨read_overhanging, ?_, ?_, unusable 4 beyond⟩
  · have text : "A" = unitText [0x41] := by decide +kernel
    have name : NamesText overhangingForms 2 "A" := ⟨_, ⟨[.classRef 2], _, rfl, rfl⟩, text⟩
    have dotted : "A" = String.ofList (ClassName.dotted "A".toList) := by decide +kernel
    have names : NamesClass overhangingForms 1 "A" := ⟨2, "A", ⟨[], _, rfl, rfl⟩, name, dotted⟩
    exact className_of_names names
  · have stands : StandsAt overhangingForms 3 (.long 9) :=
      ⟨[.classRef 2, .text [0x41]], [], rfl, rfl⟩
    exact long_of_standsAt stands

end ClassAtlas.ClassFile
