import ClassAtlas.Proofs.ClassFile.Reads
import ClassAtlas.Proofs.Results

/-!
# Readers of bytes that are cut short or go on

`Incremental reader`: what the reader takes it takes in front of anything, and what it refuses for
any cause but the end of the bytes it refuses whatever comes. Readers that are put together from
incremental ones are incremental (`Incremental.bind`).

* `Incremental.cut`: no part of the bytes a reader takes is enough for it;
* `Agrees`: two readers do the same on bytes that are no longer than a limit;
* `Incremental.of_allowance`: a reader may allow for as much as there are bytes, if allowing for
  more makes no difference.
-/

namespace ClassAtlas

namespace Reader

variable {α β σ : Type}

theorem bind_eq_ok {reader : Reader α} {next : α → Reader β} {bytes rest : Bytes} {b : β}
    (h : (reader >>= next) bytes = .ok (b, rest)) :
    ∃ a left, reader bytes = .ok (a, left) ∧ next a left = .ok (b, rest) := by
  change (reader bytes >>= fun p => next p.1 p.2) = _ at h
  obtain ⟨⟨a, left⟩, first, second⟩ := ok_of_bind h
  exact ⟨a, left, first, second⟩

theorem bind_eq_error {reader : Reader α} {next : α → Reader β} {bytes : Bytes}
    {e : ClassFileError} (h : (reader >>= next) bytes = .error e) :
    reader bytes = .error e ∨
      ∃ a left, reader bytes = .ok (a, left) ∧ next a left = .error e := by
  change (reader bytes >>= fun p => next p.1 p.2) = _ at h
  rcases bind_eq_error_iff.mp h with first | ⟨⟨a, left⟩, first, second⟩
  · exact .inl first
  · exact .inr ⟨a, left, first, second⟩

theorem bind_of_ok {reader : Reader α} {next : α → Reader β} {bytes left : Bytes} {a : α}
    (h : reader bytes = .ok (a, left)) : (reader >>= next) bytes = next a left := by
  show (reader bytes >>= fun p => next p.1 p.2) = _
  rw [h]
  rfl

theorem bind_of_error {reader : Reader α} {next : α → Reader β} {bytes : Bytes}
    {e : ClassFileError} (h : reader bytes = .error e) : (reader >>= next) bytes = .error e := by
  show (reader bytes >>= fun p => next p.1 p.2) = _
  rw [h]
  rfl

theorem lift_eq_ok {result : Except ClassFileError α} {bytes rest : Bytes} {a : α}
    (h : lift result bytes = .ok (a, rest)) : result = .ok a ∧ rest = bytes := by
  cases result with
  | error e => cases h
  | ok a' =>
    cases h
    exact ⟨rfl, rfl⟩

/-! ## Incremental readers -/

/-- More bytes change neither what is read nor why it is refused, unless bytes were missing. -/
structure Incremental (reader : Reader α) : Prop where
  takes : ∀ {bytes rest : Bytes} {a : α}, reader bytes = .ok (a, rest) →
    ∃ front, bytes = front ++ rest ∧ Reads reader front a
  refuses : ∀ {bytes : Bytes} {e : ClassFileError}, reader bytes = .error e →
    e ≠ .unexpectedEnd → ∀ more, reader (bytes ++ more) = .error e

namespace Incremental

/-- A proper part of the bytes that a reader takes ends too early for it: neither a value nor
another refusal could be upheld in front of what was cut off. -/
theorem cut {reader : Reader α} (h : Incremental reader) {front more : Bytes} {a : α}
    (reads : Reads reader (front ++ more) a) (short : more ≠ []) :
    reader front = .error .unexpectedEnd := by
  have whole : reader (front ++ more) = .ok (a, []) := by
    have taken := reads []
    rwa [List.append_nil] at taken
  cases result : reader front with
  | ok p =>
    obtain ⟨a', rest⟩ := p
    obtain ⟨taken, rfl, reads'⟩ := h.takes result
    have again := reads' (rest ++ more)
    rw [← List.append_assoc, whole] at again
    have empty : rest ++ more = [] := (Prod.mk.inj (Except.ok.inj again)).2.symm
    exact absurd (List.append_eq_nil_iff.mp empty).2 short
  | error e =>
    by_cases he : e = .unexpectedEnd
    · rw [he]
    · have refused := h.refuses result he more
      rw [whole] at refused
      cases refused

theorem length_le {reader : Reader α} (h : Incremental reader) {bytes rest : Bytes} {a : α}
    (read : reader bytes = .ok (a, rest)) : rest.length ≤ bytes.length := by
  obtain ⟨front, rfl, _⟩ := h.takes read
  rw [List.length_append]
  omega

theorem lift (result : Except ClassFileError α) : Incremental (lift result) where
  takes h := by
    obtain ⟨value, rfl⟩ := lift_eq_ok h
    exact ⟨[], rfl, reads_lift value⟩
  refuses h _ more := by
    cases result with
    | ok a => cases h
    | error e => exact h

theorem pure (a : α) : Incremental (Pure.pure a : Reader α) := lift (.ok a)

theorem fail (e : ClassFileError) : Incremental (fail e : Reader α) := lift (.error e)

theorem bind {reader : Reader α} {next : α → Reader β} (first : Incremental reader)
    (second : ∀ a, Incremental (next a)) : Incremental (reader >>= next) where
  takes h := by
    obtain ⟨a, left, read, others⟩ := bind_eq_ok h
    obtain ⟨front, rfl, reads⟩ := first.takes read
    obtain ⟨more, rfl, readsMore⟩ := (second a).takes others
    exact ⟨front ++ more, (List.append_assoc _ _ _).symm, reads.bind readsMore⟩
  refuses h he more := by
    rcases bind_eq_error h with refused | ⟨a, left, read, refused⟩
    · exact bind_of_error (first.refuses refused he more)
    · obtain ⟨front, rfl, reads⟩ := first.takes read
      rw [List.append_assoc, bind_of_ok (reads _)]
      exact (second a).refuses refused he more

theorem map {reader : Reader α} (h : Incremental reader) (f : α → β) :
    Incremental (reader >>= fun a => Pure.pure (f a)) :=
  h.bind fun a => pure (f a)

/-- A reader that either reads the same of any bytes in front of more, or lacks bytes. -/
theorem of_takes {reader : Reader α}
    (takes : ∀ {bytes rest : Bytes} {a : α}, reader bytes = .ok (a, rest) →
      ∃ front, bytes = front ++ rest ∧ Reads reader front a)
    (lacks : ∀ {bytes : Bytes} {e : ClassFileError}, reader bytes = .error e →
      e = .unexpectedEnd) : Incremental reader where
  takes := takes
  refuses h he _ := absurd (lacks h) he

theorem u1 : Incremental u1 := by
  apply of_takes
  · intro bytes rest a h
    match bytes with
    | [] => cases h
    | b :: bytes =>
      cases h
      exact ⟨[a], rfl, fun _ => rfl⟩
  · intro bytes e h
    match bytes with
    | [] =>
      cases h
      rfl

theorem u2 : Incremental u2 := by
  apply of_takes
  · intro bytes rest a h
    match bytes with
    | [] | [_] => cases h
    | b :: c :: bytes =>
      cases h
      exact ⟨[b, c], rfl, fun _ => rfl⟩
  · intro bytes e h
    match bytes with
    | [] | [_] =>
      cases h
      rfl

theorem u4 : Incremental u4 := by
  apply of_takes
  · intro bytes rest a h
    match bytes with
    | [] | [_] | [_, _] | [_, _, _] => cases h
    | b :: c :: d :: f :: bytes =>
      cases h
      exact ⟨[b, c, d, f], rfl, fun _ => rfl⟩
  · intro bytes e h
    match bytes with
    | [] | [_] | [_, _] | [_, _, _] =>
      cases h
      rfl

theorem u8 : Incremental u8 := u4.bind fun high => u4.map fun low =>
  UInt64.ofNat (high.toNat * 0x100000000 + low.toNat)

end Incremental

theorem take_eq_ok {count : Nat} {bytes rest a : Bytes} (h : take count bytes = .ok (a, rest)) :
    bytes = a ++ rest ∧ a.length = count := by
  unfold take at h
  dsimp only at h
  split at h
  next whole =>
    cases h
    exact ⟨(List.take_append_drop count bytes).symm, whole⟩
  next => cases h

namespace Incremental

theorem take (count : Nat) : Incremental (take count) := by
  apply of_takes
  · intro bytes rest a h
    obtain ⟨split, rfl⟩ := take_eq_ok h
    exact ⟨a, split, reads_take a⟩
  · intro bytes e h
    unfold Reader.take at h
    dsimp only at h
    split at h
    next => cases h
    next =>
      cases h
      rfl

theorem skip (count : Nat) : Incremental (skip count) := (take count).map fun _ => ()

theorem times {item : Reader α} (h : Incremental item) (count : Nat) :
    Incremental (times count item) := by
  induction count with
  | zero => exact pure []
  | succ count ih => exact h.bind fun first => ih.map (first :: ·)

theorem iterate {step : σ → Reader σ} (h : ∀ state, Incremental (step state)) (count : Nat)
    (state : σ) : Incremental (iterate count step state) := by
  induction count generalizing state with
  | zero => exact pure state
  | succ count ih => exact (h state).bind ih

/-- A body that is cut off from what follows is read the same whatever follows. -/
theorem inside (body : Bytes) (item : Reader α) : Incremental (inside body item) := lift _

end Incremental

/-! ## Readers that agree on short bytes -/

/-- On no more bytes than these the two readers do the same. -/
def Agrees (limit : Nat) (reader other : Reader α) : Prop :=
  ∀ bytes : Bytes, bytes.length ≤ limit → reader bytes = other bytes

namespace Agrees

variable {limit : Nat}

theorem refl (reader : Reader α) : Agrees limit reader reader := fun _ _ => rfl

theorem bind {reader other : Reader α} {next after : α → Reader β}
    (first : Agrees limit reader other) (shrinks : Incremental reader)
    (second : ∀ a, Agrees limit (next a) (after a)) :
    Agrees limit (reader >>= next) (other >>= after) := by
  intro bytes short
  have same := first bytes short
  cases result : reader bytes with
  | error e =>
    rw [result] at same
    rw [bind_of_error result, bind_of_error same.symm]
  | ok p =>
    rw [result] at same
    rw [bind_of_ok result, bind_of_ok same.symm]
    exact second p.1 p.2 (Nat.le_trans (shrinks.length_le result) short)

/-- Behind a byte there is one byte less. -/
theorem behind_byte {next after : UInt8 → Reader β}
    (h : ∀ byte, Agrees limit (next byte) (after byte)) :
    Agrees (limit + 1) (u1 >>= next) (u1 >>= after) := by
  intro bytes short
  cases bytes with
  | nil => rfl
  | cons byte bytes => exact h byte bytes (Nat.le_of_succ_le_succ short)

theorem times {item other : Reader α} (h : Agrees limit item other) (shrinks : Incremental item)
    (count : Nat) : Agrees limit (times count item) (times count other) := by
  induction count with
  | zero => exact refl _
  | succ count ih => exact h.bind shrinks fun first => ih.bind (shrinks.times count) fun _ => refl _

end Agrees

/-- A reader that allows for as much as there are bytes is incremental, when it is at each allowance
and allowing for more than there are bytes makes no difference. -/
theorem Incremental.of_allowance {reader : Nat → Reader α}
    (each : ∀ allowance, Incremental (reader allowance))
    (enough : ∀ {limit allowance allowance' : Nat}, limit ≤ allowance → limit ≤ allowance' →
      Agrees limit (reader allowance) (reader allowance')) :
    Incremental fun bytes => reader bytes.length bytes where
  takes {bytes rest a} h := by
    change reader bytes.length bytes = _ at h
    obtain ⟨front, rfl, reads⟩ := (each _).takes h
    refine ⟨front, rfl, fun more => ?_⟩
    have short : front.length ≤ (front ++ more).length := by
      rw [List.length_append]
      omega
    have alone : reader (front ++ more).length front = .ok (a, []) := by
      have taken := reads []
      rw [List.append_nil] at taken
      rw [← taken]
      refine enough short ?_ front (Nat.le_refl _)
      rw [List.length_append]
      omega
    obtain ⟨front', same, reads'⟩ := (each _).takes alone
    rw [List.append_nil] at same
    rw [← same] at reads'
    exact reads' more
  refuses {bytes e} h he more := by
    change reader bytes.length bytes = _ at h
    have alone : reader (bytes ++ more).length bytes = .error e := by
      rw [← h]
      refine enough ?_ (Nat.le_refl _) bytes (Nat.le_refl _)
      rw [List.length_append]
      omega
    exact (each _).refuses alone he more

end Reader

end ClassAtlas
