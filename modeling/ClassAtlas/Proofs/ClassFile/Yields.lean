import ClassAtlas.Proofs.ClassFile.Incremental

/-!
# What readers make of given bytes

* `Yields reader bytes result`: in front of anything, the reader takes exactly these bytes or fails,
  as `result` tells. `Reads` is the case of a value.
* `Leads reader before inner`: behind these bytes the reader goes on with `inner`, and all it does
  afterwards depends on what `inner` gives and leaves.
* `Shaped reader Form bytes`: whatever the reader takes is the layout of some form.

Readers in sequence yield, lead and are shaped in sequence, and rows of items as their items do.
-/

namespace ClassAtlas.Reader

variable {α β γ σ ι : Type}

/-! ## Results -/

/-- In front of any rest, the reader has this result, and leaves the rest if it is a value. -/
def Yields (reader : Reader α) (bytes : Bytes) (result : Except ClassFileError α) : Prop :=
  ∀ rest, reader (bytes ++ rest) = result.map (·, rest)

theorem Reads.yields {reader : Reader α} {bytes : Bytes} {a : α} (h : Reads reader bytes a) :
    Yields reader bytes (.ok a) := h

theorem Yields.reads {reader : Reader α} {bytes : Bytes} {result : Except ClassFileError α}
    (h : Yields reader bytes result) {a : α} (value : result = .ok a) : Reads reader bytes a := by
  subst value
  exact h

theorem Yields.bind {reader : Reader α} {next : α → Reader β} {bytes more : Bytes}
    {result : Except ClassFileError α} {after : α → Except ClassFileError β}
    (first : Yields reader bytes result)
    (second : ∀ a, result = .ok a → Yields (next a) more (after a)) :
    Yields (reader >>= next) (bytes ++ more) (result >>= after) := by
  intro rest
  have read := first (more ++ rest)
  rw [List.append_assoc]
  cases result with
  | error e => exact bind_of_error read
  | ok a =>
    rw [bind_of_ok read]
    exact second a rfl rest

theorem Yields.behind {reader : Reader α} {next : α → Reader β} {bytes more : Bytes} {a : α}
    {result : Except ClassFileError β} (first : Reads reader bytes a)
    (second : Yields (next a) more result) : Yields (reader >>= next) (bytes ++ more) result := by
  intro rest
  rw [List.append_assoc, bind_of_ok (first _)]
  exact second rest

/-- What comes behind these bytes is up to what they are read as and to the rest. -/
theorem Yields.bind_apply {reader : Reader α} {bytes : Bytes}
    {result : Except ClassFileError α} (h : Yields reader bytes result) (next : α → Reader β)
    (rest : Bytes) : (reader >>= next) (bytes ++ rest) = result >>= fun a => next a rest := by
  have read := h rest
  cases result with
  | error e => exact bind_of_error read
  | ok a => exact bind_of_ok read

theorem yields_lift (result : Except ClassFileError α) : Yields (lift result) [] result :=
  fun _ => rfl

/-- What needs no more bytes may come behind a reader. -/
theorem Yields.bind_nil {reader : Reader α} {next : α → Reader β} {bytes : Bytes}
    {result : Except ClassFileError α} {after : α → Except ClassFileError β}
    (first : Yields reader bytes result) (second : ∀ a, Yields (next a) [] (after a)) :
    Yields (reader >>= next) bytes (result >>= after) := by
  have both : Yields (reader >>= next) (bytes ++ []) (result >>= after) :=
    first.bind fun a _ => second a
  rwa [List.append_nil] at both

/-- Items in a row yield what the items yield, up to the first that fails. -/
theorem yields_times {item : Reader α} {items : List ι} {bytes : ι → Bytes}
    {result : ι → Except ClassFileError α} (h : ∀ i ∈ items, Yields item (bytes i) (result i)) :
    Yields (times items.length item) (items.flatMap bytes) (items.mapM result) := by
  induction items with
  | nil => exact (Reads.pure []).yields
  | cons i items ih =>
    have first := h i List.mem_cons_self
    have others := ih fun j hj => h j (List.mem_cons_of_mem i hj)
    rw [List.mapM_cons]
    exact first.bind fun a _ => others.bind_nil fun as => (Reads.pure (a :: as)).yields

theorem yields_iterate {step : σ → Reader σ} {items : List ι} {bytes : ι → Bytes}
    {result : σ → ι → Except ClassFileError σ}
    (h : ∀ state, ∀ i ∈ items, Yields (step state) (bytes i) (result state i)) (state : σ) :
    Yields (iterate items.length step state) (items.flatMap bytes) (items.foldlM result state) := by
  induction items generalizing state with
  | nil => exact (Reads.pure state).yields
  | cons i items ih =>
    have others := ih fun state j hj => h state j (List.mem_cons_of_mem i hj)
    rw [List.foldlM_cons]
    exact (h state i List.mem_cons_self).bind fun next _ => others next

/-! ## Counted rows -/

/-- Items in a row behind their number. -/
def rowBytes (bytes : ι → Bytes) (items : List ι) : Bytes :=
  word2 items.length ++ items.flatMap bytes

theorem yields_row {item : Reader α} {items : List ι} {bytes : ι → Bytes}
    {result : ι → Except ClassFileError α} (fits : items.length < 0x10000)
    (h : ∀ i ∈ items, Yields item (bytes i) (result i)) :
    Yields (u2 >>= fun count => times count.toNat item) (rowBytes bytes items)
      (items.mapM result) := by
  refine Yields.behind (reads_u2 _) ?_
  rw [toNat_ofNat_u2 fits]
  exact yields_times h

theorem yields_steps {step : σ → Reader σ} {items : List ι} {bytes : ι → Bytes}
    {result : σ → ι → Except ClassFileError σ} (fits : items.length < 0x10000)
    (h : ∀ state, ∀ i ∈ items, Yields (step state) (bytes i) (result state i)) (state : σ) :
    Yields (u2 >>= fun count => iterate count.toNat step state) (rowBytes bytes items)
      (items.foldlM result state) := by
  refine Yields.behind (reads_u2 _) ?_
  rw [toNat_ofNat_u2 fits]
  exact yields_iterate h state

/-! ## The place that a reader has come to -/

/-- Behind these bytes, the reader is in front of what `inner` reads. -/
def Leads (reader : Reader β) (before : Bytes) (inner : Reader α) : Prop :=
  ∃ next : α → Reader β, ∀ rest, reader (before ++ rest) = (inner >>= next) rest

namespace Leads

theorem bind {reader : Reader β} {before : Bytes} {inner : Reader α}
    (h : Leads reader before inner) (next : β → Reader γ) :
    Leads (reader >>= next) before inner := by
  obtain ⟨after, leads⟩ := h
  refine ⟨fun a => after a >>= next, fun rest => ?_⟩
  show (reader (before ++ rest) >>= fun p => next p.1 p.2) = _
  rw [leads, ← bind_assoc]
  rfl

theorem refl (inner : Reader α) : Leads inner [] inner :=
  ⟨pure, fun _ => by rw [bind_pure, List.nil_append]⟩

theorem behind {reader : Reader α} {next : α → Reader β} {inner : Reader γ} {bytes before : Bytes}
    {a : α} (first : Reads reader bytes a) (second : Leads (next a) before inner) :
    Leads (reader >>= next) (bytes ++ before) inner := by
  obtain ⟨after, leads⟩ := second
  refine ⟨after, fun rest => ?_⟩
  rw [List.append_assoc, bind_of_ok (first _)]
  exact leads rest

theorem behind_nothing {reader : Reader α} {next : α → Reader β} {inner : Reader γ}
    {before : Bytes} {a : α} (first : Reads reader [] a) (second : Leads (next a) before inner) :
    Leads (reader >>= next) before inner := behind first second

theorem trans {reader : Reader β} {middle : Reader γ} {inner : Reader α} {before more : Bytes}
    (first : Leads reader before middle) (second : Leads middle more inner) :
    Leads reader (before ++ more) inner := by
  obtain ⟨after, leads⟩ := first
  obtain ⟨next, leads'⟩ := second.bind after
  refine ⟨next, fun rest => ?_⟩
  rw [List.append_assoc, leads, leads']

end Leads

theorem times_add (item : Reader α) (m n : Nat) :
    times (m + n) item =
      times m item >>= fun front => times n item >>= fun back => pure (front ++ back) := by
  induction m with
  | zero =>
    simp only [Nat.zero_add, times, pure_bind, List.nil_append, bind_pure]
  | succ m ih =>
    rw [Nat.succ_add]
    simp only [times, ih, bind_assoc, pure_bind, List.cons_append]

theorem iterate_add (step : σ → Reader σ) (m n : Nat) (state : σ) :
    iterate (m + n) step state = iterate m step state >>= iterate n step := by
  induction m generalizing state with
  | zero => simp only [Nat.zero_add, iterate, pure_bind]
  | succ m ih =>
    rw [Nat.succ_add]
    simp only [iterate, ih, bind_assoc]

/-- A row leads to any of its items, behind its number and the items in front. -/
theorem leads_row {item : Reader α} {inner : Reader γ} {front back : List ι} {i : ι}
    {bytes : ι → Bytes} {values : List α} {before : Bytes}
    (fits : (front ++ i :: back).length < 0x10000)
    (h : Reads (times front.length item) (front.flatMap bytes) values)
    (leads : Leads item before inner) :
    Leads (u2 >>= fun count => times count.toNat item)
      (word2 (front ++ i :: back).length ++ (front.flatMap bytes ++ before)) inner := by
  refine Leads.behind (reads_u2 _) ?_
  rw [toNat_ofNat_u2 fits, List.length_append, List.length_cons, times_add]
  exact Leads.behind h ((leads.bind _).bind _)

theorem leads_steps {step : σ → Reader σ} {inner : Reader γ} {front back : List ι} {i : ι}
    {bytes : ι → Bytes} {start state : σ} {before : Bytes}
    (fits : (front ++ i :: back).length < 0x10000)
    (h : Reads (iterate front.length step start) (front.flatMap bytes) state)
    (leads : Leads (step state) before inner) :
    Leads (u2 >>= fun count => iterate count.toNat step start)
      (word2 (front ++ i :: back).length ++ (front.flatMap bytes ++ before)) inner := by
  refine Leads.behind (reads_u2 _) ?_
  rw [toNat_ofNat_u2 fits, List.length_append, List.length_cons, iterate_add]
  exact Leads.behind h (leads.bind _)

/-! ## What was read -/

/-- A number that goes on behind a byte is cut off to that byte. -/
theorem ofNat_eq_byte {n : Nat} (byte : UInt8) (h : n % 0x100 = byte.toNat) :
    UInt8.ofNat n = byte := by
  apply UInt8.toNat_inj.mp
  rw [UInt8.toNat_ofNat']
  exact h

theorem u2_eq_ok {bytes rest : Bytes} {n : UInt16} (h : u2 bytes = .ok (n, rest)) :
    bytes = word2 n.toNat ++ rest := by
  match bytes with
  | [] | [_] => cases h
  | a :: b :: bytes =>
    cases h
    have ha := a.toNat_lt
    have hb := b.toNat_lt
    rw [toNat_ofNat_u2 (by omega), word2, word1, word1, ofNat_eq_byte a (by omega),
      ofNat_eq_byte b (by omega)]
    rfl

theorem u4_eq_ok {bytes rest : Bytes} {n : UInt32} (h : u4 bytes = .ok (n, rest)) :
    bytes = word4 n.toNat ++ rest := by
  match bytes with
  | [] | [_] | [_, _] | [_, _, _] => cases h
  | a :: b :: c :: d :: bytes =>
    cases h
    have ha := a.toNat_lt
    have hb := b.toNat_lt
    have hc := c.toNat_lt
    have hd := d.toNat_lt
    have number : (UInt32.ofNat
        (((a.toNat * 0x100 + b.toNat) * 0x100 + c.toNat) * 0x100 + d.toNat)).toNat =
        ((a.toNat * 0x100 + b.toNat) * 0x100 + c.toNat) * 0x100 + d.toNat := by
      rw [UInt32.toNat_ofNat']
      omega
    rw [number, word4, word2, word2, word1, word1, word1, word1,
      ofNat_eq_byte a (by omega), ofNat_eq_byte b (by omega),
      ofNat_eq_byte c (by omega), ofNat_eq_byte d (by omega)]
    rfl

/-- Whatever the reader takes is laid out as some form of this kind. -/
def Shaped (reader : Reader α) (Form : ι → Prop) (bytes : ι → Bytes) : Prop :=
  ∀ {all rest : Bytes} {a : α}, reader all = .ok (a, rest) →
    ∃ form, Form form ∧ all = bytes form ++ rest

theorem shaped_times {item : Reader α} {Form : ι → Prop} {bytes : ι → Bytes}
    (h : Shaped item Form bytes) {count : Nat} {all rest : Bytes} {values : List α}
    (read : times count item all = .ok (values, rest)) :
    ∃ forms : List ι, forms.length = count ∧ (∀ form ∈ forms, Form form) ∧
      all = forms.flatMap bytes ++ rest := by
  induction count generalizing all values with
  | zero =>
    cases read
    exact ⟨[], rfl, fun _ h => absurd h List.not_mem_nil, rfl⟩
  | succ count ih =>
    obtain ⟨first, left, readFirst, others⟩ := bind_eq_ok read
    obtain ⟨more, left', readMore, last⟩ := bind_eq_ok others
    cases last
    obtain ⟨form, good, rfl⟩ := h readFirst
    obtain ⟨forms, number, each, rfl⟩ := ih readMore
    refine ⟨form :: forms, by rw [List.length_cons, number], ?_, ?_⟩
    · exact List.forall_mem_cons.mpr ⟨good, each⟩
    · rw [List.flatMap_cons, List.append_assoc]

theorem shaped_iterate {step : σ → Reader σ} {Form : ι → Prop} {bytes : ι → Bytes}
    (h : ∀ state, Shaped (step state) Form bytes) {count : Nat} {all rest : Bytes}
    {state last : σ} (read : iterate count step state all = .ok (last, rest)) :
    ∃ forms : List ι, forms.length = count ∧ (∀ form ∈ forms, Form form) ∧
      all = forms.flatMap bytes ++ rest := by
  induction count generalizing all state with
  | zero =>
    cases read
    exact ⟨[], rfl, fun _ h => absurd h List.not_mem_nil, rfl⟩
  | succ count ih =>
    obtain ⟨next, left, readFirst, others⟩ := bind_eq_ok read
    obtain ⟨form, good, rfl⟩ := h state readFirst
    obtain ⟨forms, number, each, rfl⟩ := ih others
    refine ⟨form :: forms, by rw [List.length_cons, number], ?_, ?_⟩
    · exact List.forall_mem_cons.mpr ⟨good, each⟩
    · rw [List.flatMap_cons, List.append_assoc]

/-- A row whose number was read is laid out as a row, and its number fits the word. -/
theorem shaped_row {item : Reader α} {Form : ι → Prop} {bytes : ι → Bytes}
    (h : Shaped item Form bytes) :
    Shaped (u2 >>= fun count => times count.toNat item)
      (fun forms : List ι => forms.length < 0x10000 ∧ ∀ form ∈ forms, Form form)
      (rowBytes bytes) := by
  intro all rest values read
  obtain ⟨count, left, readCount, others⟩ := bind_eq_ok read
  obtain rfl := u2_eq_ok readCount
  obtain ⟨forms, number, each, rfl⟩ := shaped_times h others
  refine ⟨forms, ⟨?_, each⟩, ?_⟩
  · rw [number]
    exact count.toNat_lt
  · rw [rowBytes, number, List.append_assoc]

theorem shaped_steps {step : σ → Reader σ} {Form : ι → Prop} {bytes : ι → Bytes}
    (h : ∀ state, Shaped (step state) Form bytes) (state : σ) :
    Shaped (u2 >>= fun count => iterate count.toNat step state)
      (fun forms : List ι => forms.length < 0x10000 ∧ ∀ form ∈ forms, Form form)
      (rowBytes bytes) := by
  intro all rest last read
  obtain ⟨count, left, readCount, others⟩ := bind_eq_ok read
  obtain rfl := u2_eq_ok readCount
  obtain ⟨forms, number, each, rfl⟩ := shaped_iterate h others
  refine ⟨forms, ⟨?_, each⟩, ?_⟩
  · rw [number]
    exact count.toNat_lt
  · rw [rowBytes, number, List.append_assoc]

end ClassAtlas.Reader
