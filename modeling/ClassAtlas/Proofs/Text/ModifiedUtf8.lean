import ClassAtlas.ClassFile.ConstantPool
import ClassAtlas.Proofs.Text.Utf16
import Mathlib.Algebra.Group.Nat.Defs

/-!
# Modified UTF-8 read back

`Splits bytes units` is the grammar of modified UTF-8: each code unit has one, two or three bytes,
and its value is made of their low bits.

* `units?_eq_some_iff`: bytes are read to the units that they split into;
* `decode_eq`: the short cut for plain bytes gives what the units give;
* `textOf_exact`: what is read of the bytes of a text constant, and when they are refused.
-/

namespace ClassAtlas

namespace ModifiedUtf8

/-! ## The grammar -/

/-- A byte behind the first one of a unit. -/
def Continues (byte : UInt8) : Prop := 0x80 ≤ byte ∧ byte ≤ 0xBF

/-- The bytes stand for the unit. The first one tells how many there are. Nothing keeps a small
value from being written with more bytes than it needs. -/
inductive Spelled : Bytes → Nat → Prop
  | one {a : UInt8} (lead : 0x01 ≤ a ∧ a ≤ 0x7F) : Spelled [a] a.toNat
  | two {a b : UInt8} (lead : 0xC0 ≤ a ∧ a ≤ 0xDF) (second : Continues b) :
    Spelled [a, b] ((a.toNat &&& 0x1F) <<< 6 ||| (b.toNat &&& 0x3F))
  | three {a b c : UInt8} (lead : 0xE0 ≤ a ∧ a ≤ 0xEF) (second : Continues b)
    (third : Continues c) :
    Spelled [a, b, c]
      ((a.toNat &&& 0x0F) <<< 12 ||| ((b.toNat &&& 0x3F) <<< 6 ||| (c.toNat &&& 0x3F)))

/-- The bytes are those of the units, one after another. -/
inductive Splits : Bytes → List Nat → Prop
  | nil : Splits [] []
  | cons {front back : Bytes} {unit : Nat} {units : List Nat} (first : Spelled front unit)
    (rest : Splits back units) : Splits (front ++ back) (unit :: units)

/-! ## Values in bits -/

/-- The low bits of a byte are what it has above the mark that stands in its high bits. -/
theorem and_mask {n : Nat} (mark mask width : Nat) (ones : mask = 2 ^ width - 1)
    (marked : mark % 2 ^ width = 0) (above : mark ≤ n) (below : n < mark + 2 ^ width) :
    n &&& mask = n - mark := by
  rw [ones, Nat.and_two_pow_sub_one_eq_mod]
  obtain ⟨k, rfl⟩ := Nat.dvd_of_mod_eq_zero marked
  have parts : n = (n - 2 ^ width * k) + 2 ^ width * k := by omega
  rw [parts, Nat.add_mul_mod_self_left, Nat.mod_eq_of_lt (by omega)]
  omega

/-- Bits side by side are a sum. -/
theorem shiftLeft_or {high low width : Nat} (size : Nat) (whole : size = 2 ^ width)
    (small : low < size) : high <<< width ||| low = high * size + low := by
  rw [whole] at small
  rw [← Nat.shiftLeft_add_eq_or_of_lt small, Nat.shiftLeft_eq, whole]

theorem between_iff {byte first last : UInt8} :
    first ≤ byte ∧ byte ≤ last ↔ first.toNat ≤ byte.toNat ∧ byte.toNat < last.toNat + 1 := by
  rw [UInt8.le_iff_toNat_le, UInt8.le_iff_toNat_le]
  omega

theorem continues_iff {b : UInt8} : Continues b ↔ 0x80 ≤ b.toNat ∧ b.toNat < 0xC0 := between_iff

theorem continuation?_eq_some_iff {b : UInt8} {low : Nat} :
    continuation? b = some low ↔ Continues b ∧ low = b.toNat &&& 0x3F := by
  rw [continues_iff, continuation?]
  constructor
  · intro h
    split at h
    next range =>
      obtain rfl := Option.some.inj h
      exact ⟨range, (and_mask 0x80 0x3F 6 (by decide) (by decide) range.1 (by omega)).symm⟩
    next => cases h
  · rintro ⟨range, rfl⟩
    rw [if_pos range, and_mask 0x80 0x3F 6 (by decide) (by decide) range.1 (by omega)]

theorem and_lt {b : UInt8} : b.toNat &&& 0x3F < 0x40 :=
  Nat.lt_of_le_of_lt Nat.and_le_right (by decide)

theorem value_two {a b : UInt8} (lead : 0xC0 ≤ a.toNat ∧ a.toNat < 0xE0) :
    (a.toNat &&& 0x1F) <<< 6 ||| (b.toNat &&& 0x3F) =
      (a.toNat - 0xC0) * 0x40 + (b.toNat &&& 0x3F) := by
  rw [and_mask 0xC0 0x1F 5 (by decide) (by decide) lead.1 (by omega),
    shiftLeft_or 0x40 (by decide) and_lt]

theorem value_three {a b c : UInt8} (lead : 0xE0 ≤ a.toNat ∧ a.toNat < 0xF0) :
    (a.toNat &&& 0x0F) <<< 12 ||| ((b.toNat &&& 0x3F) <<< 6 ||| (c.toNat &&& 0x3F)) =
      (a.toNat - 0xE0) * 0x1000 + (b.toNat &&& 0x3F) * 0x40 + (c.toNat &&& 0x3F) := by
  have middle := and_lt (b := b)
  have low := and_lt (b := c)
  rw [and_mask 0xE0 0x0F 4 (by decide) (by decide) lead.1 (by omega),
    shiftLeft_or 0x40 (by decide) low, shiftLeft_or 0x1000 (by decide) (by omega), Nat.add_assoc]

/-! ## Units -/

/-- In front of anything, the bytes of a unit are read as that unit. -/
theorem Spelled.units? {front : Bytes} {unit : Nat} (h : Spelled front unit) (back : Bytes) :
    units? (front ++ back) = (units? back).map (unit :: ·) := by
  cases h with
  | @one a lead =>
    have range : 0x01 ≤ a.toNat ∧ a.toNat ≤ 0x7F := lead
    rw [List.singleton_append, ModifiedUtf8.units?.eq_def]
    dsimp only
    rw [if_pos (by omega)]
  | @two a b lead second =>
    have range : 0xC0 ≤ a.toNat ∧ a.toNat ≤ 0xDF := lead
    have low := continuation?_eq_some_iff.mpr ⟨second, rfl⟩
    rw [List.cons_append, List.singleton_append, ModifiedUtf8.units?.eq_def]
    simp only [low]
    rw [if_neg (by omega), if_pos (by omega), value_two (by omega)]
    cases ModifiedUtf8.units? back <;> rfl
  | @three a b c lead second third =>
    have range : 0xE0 ≤ a.toNat ∧ a.toNat ≤ 0xEF := lead
    have middle := continuation?_eq_some_iff.mpr ⟨second, rfl⟩
    have low := continuation?_eq_some_iff.mpr ⟨third, rfl⟩
    rw [List.cons_append, List.cons_append, List.singleton_append, ModifiedUtf8.units?.eq_def]
    simp only [middle, low]
    rw [if_neg (by omega), if_neg (by omega), if_pos (by omega), value_three (by omega)]
    cases ModifiedUtf8.units? back <;> rfl

theorem Splits.units? {bytes : Bytes} {units : List Nat} (h : Splits bytes units) :
    units? bytes = some units := by
  induction h with
  | nil => rfl
  | cons first _ ih => rw [first.units?, ih, Option.map_some]

/-- The cases are those of the reading: by the first byte, and by how many stand behind it. -/
theorem splits_of_units? {bytes : Bytes} {units : List Nat} (h : units? bytes = some units) :
    Splits bytes units := by
  fun_induction ModifiedUtf8.units? bytes generalizing units
  case case1 =>
    cases h
    exact .nil
  case case2 first rest lead range ih =>
    obtain ⟨others, behind, rfl⟩ := Option.map_eq_some_iff.mp h
    exact .cons (.one (between_iff.mpr range)) (ih behind)
  case case3 first lead _ range second rest ih =>
    obtain ⟨low, continued, h⟩ := Option.bind_eq_some_iff.mp h
    obtain ⟨others, behind, h⟩ := Option.bind_eq_some_iff.mp h
    obtain ⟨continues, rfl⟩ := continuation?_eq_some_iff.mp continued
    cases h
    have split := Splits.cons (.two (between_iff.mpr range) continues) (ih behind)
    rwa [value_two range] at split
  case case4 => cases h
  case case5 first lead _ _ range second third rest ih =>
    obtain ⟨middle, continued, h⟩ := Option.bind_eq_some_iff.mp h
    obtain ⟨low, continued', h⟩ := Option.bind_eq_some_iff.mp h
    obtain ⟨others, behind, h⟩ := Option.bind_eq_some_iff.mp h
    obtain ⟨continues, rfl⟩ := continuation?_eq_some_iff.mp continued
    obtain ⟨continues', rfl⟩ := continuation?_eq_some_iff.mp continued'
    cases h
    have split := Splits.cons (.three (between_iff.mpr range) continues continues') (ih behind)
    rwa [value_three range] at split
  case case6 => cases h
  case case7 => cases h

theorem units?_eq_some_iff {bytes : Bytes} {units : List Nat} :
    units? bytes = some units ↔ Splits bytes units :=
  ⟨splits_of_units?, Splits.units?⟩

/-- A unit has 16 bits. -/
theorem Spelled.lt {bytes : Bytes} {unit : Nat} (h : Spelled bytes unit) : unit < 0x10000 := by
  cases h with
  | @one a lead =>
    have bound := a.toNat_lt
    omega
  | @two a b lead second =>
    have range : 0xC0 ≤ a.toNat ∧ a.toNat ≤ 0xDF := lead
    have low := and_lt (b := b)
    rw [value_two (by omega)]
    omega
  | @three a b c lead second third =>
    have range : 0xE0 ≤ a.toNat ∧ a.toNat ≤ 0xEF := lead
    have middle := and_lt (b := b)
    have low := and_lt (b := c)
    rw [value_three (by omega)]
    omega

theorem Splits.lt {bytes : Bytes} {units : List Nat} (h : Splits bytes units) :
    ∀ unit ∈ units, unit < 0x10000 := by
  induction h with
  | nil => exact fun _ inside => nomatch inside
  | cons first _ ih => exact List.forall_mem_cons.mpr ⟨first.lt, ih⟩

/-! ## Writing -/

theorem toNat_ofNat_byte {n : Nat} (small : n < 0x100) : (UInt8.ofNat n).toNat = n := by
  rw [UInt8.toNat_ofNat']
  omega

theorem continues_ofNat {n : Nat} (small : n < 0x40) : Continues (UInt8.ofNat (0x80 + n)) := by
  rw [continues_iff, toNat_ofNat_byte (by omega)]
  omega

theorem and_ofNat {n : Nat} (small : n < 0x40) :
    (UInt8.ofNat (0x80 + n)).toNat &&& 0x3F = n := by
  rw [toNat_ofNat_byte (by omega),
    and_mask 0x80 0x3F 6 (by decide) (by decide) (by omega) (by omega)]
  omega

theorem spelled_encodeUnit {unit : Nat} (h : unit < 0x10000) :
    Spelled (encodeUnit unit) unit := by
  unfold encodeUnit
  split
  next plain =>
    have number : (UInt8.ofNat unit).toNat = unit := toNat_ofNat_byte (by omega)
    rw [← number] at plain
    have spelled := Spelled.one (between_iff.mpr plain)
    rwa [number] at spelled
  split
  next short =>
    have number : (UInt8.ofNat (0xC0 + unit / 0x40)).toNat = 0xC0 + unit / 0x40 :=
      toNat_ofNat_byte (by omega)
    have range : 0xC0 ≤ (UInt8.ofNat (0xC0 + unit / 0x40)).toNat ∧
        (UInt8.ofNat (0xC0 + unit / 0x40)).toNat < 0xE0 := by omega
    have low : unit % 0x40 < 0x40 := Nat.mod_lt _ (by decide)
    have spelled := Spelled.two (between_iff.mpr range) (continues_ofNat low)
    have whole : (0xC0 + unit / 0x40 - 0xC0) * 0x40 + unit % 0x40 = unit := by omega
    rwa [value_two (by omega), and_ofNat low, number, whole] at spelled
  next =>
    have number : (UInt8.ofNat (0xE0 + unit / 0x1000)).toNat = 0xE0 + unit / 0x1000 :=
      toNat_ofNat_byte (by omega)
    have range : 0xE0 ≤ (UInt8.ofNat (0xE0 + unit / 0x1000)).toNat ∧
        (UInt8.ofNat (0xE0 + unit / 0x1000)).toNat < 0xF0 := by omega
    have middle : unit / 0x40 % 0x40 < 0x40 := Nat.mod_lt _ (by decide)
    have low : unit % 0x40 < 0x40 := Nat.mod_lt _ (by decide)
    have spelled :=
      Spelled.three (between_iff.mpr range) (continues_ofNat middle) (continues_ofNat low)
    have whole : (0xE0 + unit / 0x1000 - 0xE0) * 0x1000 + unit / 0x40 % 0x40 * 0x40 +
        unit % 0x40 = unit := by omega
    rwa [value_three (by omega), and_ofNat middle, and_ofNat low, number, whole] at spelled

theorem splits_encodeUnits {units : List Nat} (small : ∀ unit ∈ units, unit < 0x10000) :
    Splits (units.flatMap encodeUnit) units := by
  induction units with
  | nil => exact .nil
  | cons unit units ih =>
    obtain ⟨own, others⟩ := List.forall_mem_cons.mp small
    exact .cons (spelled_encodeUnit own) (ih others)

/-- A text is written with the bytes of its units. -/
theorem splits_encode (text : List Char) :
    Splits (encode text) (text.flatMap Utf16.encodeChar) := by
  have small : ∀ unit ∈ text.flatMap Utf16.encodeChar, unit < 0x10000 := by
    intro unit inside
    obtain ⟨c, -, own⟩ := List.mem_flatMap.mp inside
    exact Utf16.encodeChar_lt own
  have splits := splits_encodeUnits small
  rwa [List.flatMap_assoc] at splits

/-- NUL takes two bytes, and a character above U+FFFF two surrogates of three. -/
example : encode [Char.ofNat 0, Char.ofNat 0x1F600] =
    [0xC0, 0x80, 0xED, 0xA0, 0xBD, 0xED, 0xB8, 0x80] := by decide

/-! ## Plain bytes -/

theorem isPlain_iff {byte : UInt8} : isPlain byte ↔ 0x01 ≤ byte.toNat ∧ byte.toNat < 0x80 := by
  have nonzero : byte ≠ 0 ↔ byte.toNat ≠ 0 := not_congr UInt8.toNat_inj.symm
  have small : byte < 0x80 ↔ byte.toNat < 0x80 := UInt8.lt_iff_toNat_lt
  simp only [isPlain, Bool.and_eq_true, bne_iff_ne, decide_eq_true_eq, nonzero, small]
  omega

/-- Plain bytes are units by themselves. -/
theorem splits_plain {bytes : Bytes} (plain : ∀ byte ∈ bytes, isPlain byte) :
    Splits bytes (bytes.map UInt8.toNat) := by
  induction bytes with
  | nil => exact .nil
  | cons byte bytes ih =>
    obtain ⟨own, others⟩ := List.forall_mem_cons.mp plain
    exact .cons (.one (between_iff.mpr (isPlain_iff.mp own))) (ih others)

/-- The units of plain bytes are read one by one: none is a surrogate. -/
theorem decodeLossy_plain {bytes : Bytes} (plain : ∀ byte ∈ bytes, isPlain byte) :
    Utf16.decodeLossy (bytes.map UInt8.toNat) = bytes.map fun byte => Char.ofNat byte.toNat := by
  induction bytes with
  | nil => rfl
  | cons byte bytes ih =>
    obtain ⟨own, others⟩ := List.forall_mem_cons.mp plain
    have range := isPlain_iff.mp own
    have character : ¬ Utf16.IsSurrogate byte.toNat := by
      unfold Utf16.IsSurrogate Utf16.IsHighSurrogate Utf16.IsLowSurrogate
      omega
    rw [List.map_cons, Utf16.decodeLossy_plain character, ih others, List.map_cons]

/-- UTF-8 writes a plain byte for the character with its number. -/
theorem utf8EncodeChar_plain {byte : UInt8} (plain : isPlain byte) :
    String.utf8EncodeChar (Char.ofNat byte.toNat) = [byte] := by
  have range := isPlain_iff.mp plain
  have number : (Char.ofNat byte.toNat).toNat = byte.toNat := by
    apply Utf16.toNat_ofNat (by omega)
    unfold Utf16.IsSurrogate Utf16.IsHighSurrogate Utf16.IsLowSurrogate
    omega
  have single : (Char.ofNat byte.toNat).utf8Size = 1 := by
    rw [Char.utf8Size_eq_one_iff, UInt32.le_iff_toNat_le]
    show (Char.ofNat byte.toNat).toNat ≤ 127
    omega
  have same : (Char.ofNat byte.toNat).val.toUInt8 = byte := by
    apply UInt8.toNat_inj.mp
    rw [UInt32.toNat_toUInt8]
    show (Char.ofNat byte.toNat).toNat % 2 ^ 8 = byte.toNat
    omega
  rw [String.utf8EncodeChar_eq_singleton single, same]

/-- Plain bytes are UTF-8. -/
theorem utf8?_plain {bytes : Bytes} (plain : ∀ byte ∈ bytes, isPlain byte) :
    bytes.utf8? = some (String.ofList (bytes.map fun byte => Char.ofNat byte.toNat)) := by
  have written : (bytes.map fun byte => Char.ofNat byte.toNat).flatMap String.utf8EncodeChar =
      bytes := by
    induction bytes with
    | nil => rfl
    | cons byte bytes ih =>
      obtain ⟨own, others⟩ := List.forall_mem_cons.mp plain
      rw [List.map_cons, List.flatMap_cons, utf8EncodeChar_plain own, ih others,
        List.singleton_append]
  have encoded : (bytes.map fun byte => Char.ofNat byte.toNat).utf8Encode = ⟨bytes.toArray⟩ := by
    apply ByteArray.ext
    rw [List.utf8Encode, written, List.data_toByteArray]
  have valid : ByteArray.IsValidUTF8 ⟨bytes.toArray⟩ := .intro _ encoded.symm
  rw [Bytes.utf8?, String.fromUTF8?, dif_pos valid]
  refine congrArg some (String.toByteArray_inj.mp ?_)
  rw [String.toByteArray_ofList, encoded]
  rfl

/-- The short cut for plain bytes gives what their units give. -/
theorem decode_eq (bytes : Bytes) : decode bytes = decodeUnits bytes := by
  unfold decode
  split
  next plain =>
    have each := List.all_eq_true.mp plain
    rw [utf8?_plain each, decodeUnits, (splits_plain each).units?, Option.map_some,
      Option.map_some, decodeLossy_plain each, String.toList_ofList]
  next => rfl

theorem decode_eq_some_iff {bytes : Bytes} {text : List Char} :
    decode bytes = some text ↔ ∃ units, Splits bytes units ∧ Utf16.Reads units text := by
  rw [decode_eq, decodeUnits, Option.map_eq_some_iff]
  constructor
  · rintro ⟨units, found, rfl⟩
    have splits := splits_of_units? found
    exact ⟨units, splits, Utf16.reads_decodeLossy splits.lt⟩
  · rintro ⟨units, splits, reads⟩
    exact ⟨units, splits.units?, reads.eq⟩

theorem decode_eq_none_iff {bytes : Bytes} :
    decode bytes = none ↔ ¬ ∃ units, Splits bytes units := by
  rw [decode_eq, decodeUnits, Option.map_eq_none_iff, Option.eq_none_iff_forall_ne_some, not_exists]
  exact forall_congr' fun units => not_congr units?_eq_some_iff

end ModifiedUtf8

namespace Constant

open ModifiedUtf8

theorem textOf_eq_ok_iff {bytes : Bytes} {text : String} :
    textOf bytes = .ok text ↔ decode bytes = some text.toList := by
  unfold textOf
  split
  next characters found =>
    rw [found, Except.ok.injEq, Option.some.injEq]
    exact ⟨fun h => h ▸ String.toList_ofList.symm, fun h => by rw [h, String.ofList_toList]⟩
  next refused =>
    rw [refused]
    exact ⟨fun h => (nomatch h), fun h => (nomatch h)⟩

theorem textOf_eq_error_iff {bytes : Bytes} {error : ClassFileError} :
    textOf bytes = .error error ↔ decode bytes = none ∧ error = .badText := by
  unfold textOf
  split
  next characters found =>
    rw [found]
    exact ⟨fun h => (nomatch h), fun h => (nomatch h.1)⟩
  next refused =>
    rw [refused, Except.error.injEq]
    exact ⟨fun h => ⟨rfl, h.symm⟩, fun h => h.2.symm⟩

/-- What the bytes of a text constant are read as. Every text is read back from its own bytes. Any
bytes are read as the text of the units they split into, a surrogate without its partner as U+FFFD,
and they are refused exactly if they do not split into units. The short cut for plain bytes makes no
difference. -/
theorem textOf_exact :
    (∀ text : String, textOf (encode text.toList) = .ok text) ∧
    (∀ bytes text, textOf bytes = .ok text ↔
      ∃ units, Splits bytes units ∧ Utf16.Reads units text.toList) ∧
    (∀ bytes, (∃ text, textOf bytes = .ok text) ↔ ∃ units, Splits bytes units) ∧
    (∀ bytes error, textOf bytes = .error error ↔
      (¬ ∃ units, Splits bytes units) ∧ error = .badText) ∧
    ∀ bytes, decode bytes = decodeUnits bytes := by
  refine ⟨?_, ?_, ?_, ?_, decode_eq⟩
  · intro text
    rw [textOf_eq_ok_iff, decode_eq_some_iff]
    exact ⟨_, splits_encode text.toList, Utf16.reads_encode text.toList⟩
  · intro bytes text
    rw [textOf_eq_ok_iff, decode_eq_some_iff]
  · intro bytes
    constructor
    · rintro ⟨text, read⟩
      obtain ⟨units, splits, -⟩ := decode_eq_some_iff.mp (textOf_eq_ok_iff.mp read)
      exact ⟨units, splits⟩
    · rintro ⟨units, splits⟩
      have reads := Utf16.reads_decodeLossy splits.lt
      refine ⟨String.ofList (Utf16.decodeLossy units), ?_⟩
      rw [textOf_eq_ok_iff, String.toList_ofList, decode_eq_some_iff]
      exact ⟨units, splits, reads⟩
  · intro bytes error
    rw [textOf_eq_error_iff, decode_eq_none_iff]

end Constant

end ClassAtlas
