import ClassAtlas.ClassFile.Reader
import Mathlib.Data.Nat.Basic
import Mathlib.Tactic.Basic

/-!
# Readers and the bytes they take

`Reads reader bytes a`: in front of anything, the reader takes exactly `bytes` and gives `a`.
Readers in sequence take bytes in sequence (`Reads.bind`), so what a composed reader takes is put
together from its parts, and no proof above this module opens a reader's state.

* `word1` to `word8` write numbers big-endian, and `reads_u1` to `reads_u8` read them back;
* `reads_times` and `reads_iterate` read what stands in a row;
* `Tells` is the weaker law of a reader that is confined to a body and may leave a rest of it.
-/

namespace ClassAtlas

namespace Reader

variable {α β σ ι : Type}

/-- In front of any rest, the reader takes exactly these bytes and gives this value. -/
def Reads (reader : Reader α) (bytes : Bytes) (a : α) : Prop :=
  ∀ rest, reader (bytes ++ rest) = .ok (a, rest)

theorem Reads.pure (a : α) : Reads (Pure.pure a) [] a := fun _ => rfl

theorem Reads.bind {reader : Reader α} {next : α → Reader β} {bytes more : Bytes} {a : α} {b : β}
    (first : Reads reader bytes a) (second : Reads (next a) more b) :
    Reads (reader >>= next) (bytes ++ more) b := by
  intro rest
  show (reader (bytes ++ more ++ rest) >>= fun p => next p.1 p.2) = _
  rw [List.append_assoc, first]
  exact second rest

/-- What comes after a reader may need no bytes at all. -/
theorem Reads.bind_nil {reader : Reader α} {next : α → Reader β} {bytes : Bytes} {a : α} {b : β}
    (first : Reads reader bytes a) (second : Reads (next a) [] b) :
    Reads (reader >>= next) bytes b := by
  have both : Reads (reader >>= next) (bytes ++ []) b := first.bind second
  rwa [List.append_nil] at both

theorem Reads.map {reader : Reader α} {bytes : Bytes} {a : α} (h : Reads reader bytes a)
    (f : α → β) : Reads (reader >>= fun x => Pure.pure (f x)) bytes (f a) :=
  h.bind_nil (Reads.pure (f a))

theorem reads_lift {result : Except ClassFileError α} {a : α} (h : result = .ok a) :
    Reads (lift result) [] a := by
  intro rest
  rw [h]
  rfl

theorem reads_lift_bind {result : Except ClassFileError α} {next : α → Reader β} {bytes : Bytes}
    {a : α} {b : β} (ha : result = .ok a) (h : Reads (next a) bytes b) :
    Reads (lift result >>= next) bytes b := by
  intro rest
  subst ha
  exact h rest

/-! ## Words -/

/-- A number in one byte; what does not fit is cut off. -/
def word1 (n : Nat) : Bytes := [UInt8.ofNat n]

def word2 (n : Nat) : Bytes := word1 (n / 0x100) ++ word1 n

def word4 (n : Nat) : Bytes := word2 (n / 0x10000) ++ word2 n

def word8 (n : Nat) : Bytes := word4 (n / 0x100000000) ++ word4 n

@[simp] theorem length_word1 (n : Nat) : (word1 n).length = 1 := rfl

@[simp] theorem length_word2 (n : Nat) : (word2 n).length = 2 := rfl

@[simp] theorem length_word4 (n : Nat) : (word4 n).length = 4 := rfl

@[simp] theorem length_word8 (n : Nat) : (word8 n).length = 8 := rfl

theorem reads_u1 (n : Nat) : Reads u1 (word1 n) (UInt8.ofNat n) := fun _ => rfl

theorem reads_u2 (n : Nat) : Reads u2 (word2 n) (UInt16.ofNat n) := by
  intro rest
  have value : UInt16.ofNat ((UInt8.ofNat (n / 0x100)).toNat * 0x100 + (UInt8.ofNat n).toNat) =
      UInt16.ofNat n := by
    apply UInt16.toNat_inj.mp
    simp only [UInt16.toNat_ofNat', UInt8.toNat_ofNat']
    omega
  show Except.ok (UInt16.ofNat _, rest) = _
  rw [value]

theorem reads_u4 (n : Nat) : Reads u4 (word4 n) (UInt32.ofNat n) := by
  intro rest
  have value : UInt32.ofNat ((((UInt8.ofNat (n / 0x10000 / 0x100)).toNat * 0x100 +
      (UInt8.ofNat (n / 0x10000)).toNat) * 0x100 + (UInt8.ofNat (n / 0x100)).toNat) * 0x100 +
      (UInt8.ofNat n).toNat) = UInt32.ofNat n := by
    apply UInt32.toNat_inj.mp
    simp only [UInt32.toNat_ofNat', UInt8.toNat_ofNat']
    omega
  show Except.ok (UInt32.ofNat _, rest) = _
  rw [value]

theorem reads_u8 (n : Nat) : Reads u8 (word8 n) (UInt64.ofNat n) := by
  have value : UInt64.ofNat ((UInt32.ofNat (n / 0x100000000)).toNat * 0x100000000 +
      (UInt32.ofNat n).toNat) = UInt64.ofNat n := by
    apply UInt64.toNat_inj.mp
    simp only [UInt64.toNat_ofNat', UInt32.toNat_ofNat']
    omega
  rw [← value]
  exact (reads_u4 _).bind ((reads_u4 n).map _)

/-- An index or a flag word, as it stands. -/
theorem reads_index (n : UInt16) : Reads u2 (word2 n.toNat) n := by
  have h := reads_u2 n.toNat
  rwa [UInt16.ofNat_toNat] at h

/-- A count that fits its word is the number of readings that follow. -/
theorem toNat_ofNat_u2 {n : Nat} (h : n < 0x10000) : (UInt16.ofNat n).toNat = n := by
  simpa using h

/-! ## Bytes and rows -/

theorem reads_take (bytes : Bytes) : Reads (take bytes.length) bytes bytes := by
  intro rest
  simp [take]

theorem reads_skip {bytes : Bytes} {size : Nat} (h : bytes.length = size) :
    Reads (skip size) bytes () := by
  subst h
  exact (reads_take bytes).map fun _ => ()

/-- Items in a row are read by reading one after the other. -/
theorem reads_times {item : Reader α} {items : List ι} {bytes : ι → Bytes} {value : ι → α}
    (h : ∀ i ∈ items, Reads item (bytes i) (value i)) :
    Reads (times items.length item) (items.flatMap bytes) (items.map value) := by
  induction items with
  | nil => exact Reads.pure []
  | cons i items ih =>
    have first := h i List.mem_cons_self
    have others := ih fun j hj => h j (List.mem_cons_of_mem i hj)
    exact first.bind (others.map (value i :: ·))

/-- A counted row: two bytes of count, then the items. -/
theorem reads_counted {item : Reader α} {items : List ι} {bytes : ι → Bytes} {value : ι → α}
    (fits : items.length < 0x10000) (h : ∀ i ∈ items, Reads item (bytes i) (value i)) :
    Reads (u2 >>= fun count => times count.toNat item)
      (word2 items.length ++ items.flatMap bytes) (items.map value) := by
  refine (reads_u2 _).bind ?_
  rw [toNat_ofNat_u2 fits]
  exact reads_times h

/-- A counted row in front of more. -/
theorem reads_counted_bind {item : Reader α} {next : List α → Reader β} {items : List ι}
    {bytes : ι → Bytes} {value : ι → α} {more : Bytes} {b : β} (fits : items.length < 0x10000)
    (h : ∀ i ∈ items, Reads item (bytes i) (value i))
    (hn : Reads (next (items.map value)) more b) :
    Reads (u2 >>= fun count => times count.toNat item >>= next)
      ((word2 items.length ++ items.flatMap bytes) ++ more) b := by
  rw [List.append_assoc]
  refine (reads_u2 _).bind ?_
  rw [toNat_ofNat_u2 fits]
  exact (reads_times h).bind hn

/-- Steps over a row, when `state` tells what is known after each part of it. -/
theorem reads_iterate {step : σ → Reader σ} {items : List ι} {bytes : ι → Bytes}
    (state : List ι → σ)
    (h : ∀ front, ∀ i ∈ items, Reads (step (state front)) (bytes i) (state (front ++ [i]))) :
    Reads (iterate items.length step (state [])) (items.flatMap bytes) (state items) := by
  suffices general : ∀ front todo, (∀ i ∈ todo, i ∈ items) →
      Reads (iterate todo.length step (state front)) (todo.flatMap bytes) (state (front ++ todo)) by
    exact general [] items fun _ => id
  intro front todo
  induction todo generalizing front with
  | nil =>
    intro _
    rw [List.append_nil]
    exact Reads.pure _
  | cons i todo ih =>
    intro inside
    have first := h front i (inside i List.mem_cons_self)
    have others := ih (front ++ [i]) fun j hj => inside j (List.mem_cons_of_mem i hj)
    rw [List.append_assoc] at others
    exact first.bind others

/-! ## Confined readers -/

/-- Alone with these bytes the reader gives this value; it may leave some of them. -/
def Tells (reader : Reader α) (body : Bytes) (a : α) : Prop :=
  ∃ left, reader body = .ok (a, left)

theorem Reads.tells {reader : Reader α} {bytes : Bytes} {a : α} (h : Reads reader bytes a)
    (left : Bytes) : Tells reader (bytes ++ left) a := ⟨left, h left⟩

theorem Reads.tells_all {reader : Reader α} {bytes : Bytes} {a : α} (h : Reads reader bytes a) :
    Tells reader bytes a := by
  have told := h.tells []
  rwa [List.append_nil] at told

/-- A confined reader takes nothing from the bytes around its body. -/
theorem Tells.inside {reader : Reader α} {body : Bytes} {a : α} (h : Tells reader body a) :
    Reads (inside body reader) [] a := by
  obtain ⟨left, told⟩ := h
  intro rest
  show ((reader body).map Prod.fst).map (fun x => (x, rest)) = _
  rw [told]
  rfl

end Reader

end ClassAtlas
