import ClassAtlas.Text.Scan
import Mathlib.Data.List.Forall2
import Mathlib.Data.List.TakeWhile

/-!
# Scanners and the text they take

* `Reads scan text a`: in front of anything, the scanner takes exactly this text and gives `a`.
  `ReadsBefore` asks this only in front of certain characters.
* `Shaped scan Form`: whatever the scanner takes has the form, with the value it gives.
* `Consumes scan`: whatever the scanner takes has characters.

Both hold of a composed scanner as they hold of its parts. Items up to a closing character are read
one after another (`upTo_flatten`, `shaped_upTo`), and so are items to the end of the text.
-/

namespace ClassAtlas.Scan

variable {α β : Type}

/-! ## In sequence -/

theorem bind_of_eq_some {scan : Scan α} {next : α → Scan β} {s rest : List Char} {a : α}
    (h : scan s = some (a, rest)) : (scan >>= next) s = next a rest := by
  show (scan s >>= fun p => next p.1 p.2) = _
  rw [h]
  rfl

theorem bind_eq_some {scan : Scan α} {next : α → Scan β} {s rest : List Char} {b : β}
    (h : (scan >>= next) s = some (b, rest)) :
    ∃ a middle, scan s = some (a, middle) ∧ next a middle = some (b, rest) := by
  obtain ⟨⟨a, middle⟩, first, second⟩ := Option.bind_eq_some_iff.mp h
  exact ⟨a, middle, first, second⟩

theorem bind_of_eq_none {scan : Scan α} {next : α → Scan β} {s : List Char} (h : scan s = none) :
    (scan >>= next) s = none := by
  show (scan s >>= fun p => next p.1 p.2) = _
  rw [h]
  rfl

theorem pure_eq_some {s rest : List Char} {a b : α}
    (h : (Pure.pure a : Scan α) s = some (b, rest)) : a = b ∧ s = rest := by
  cases h
  exact ⟨rfl, rfl⟩

/-- In front of any rest, the scanner takes exactly this text and gives this value. -/
def Reads (scan : Scan α) (text : List Char) (a : α) : Prop :=
  ∀ rest, scan (text ++ rest) = some (a, rest)

theorem Reads.pure (a : α) : Reads (Pure.pure a) [] a := fun _ => rfl

theorem Reads.bind {scan : Scan α} {next : α → Scan β} {text more : List Char} {a : α} {b : β}
    (first : Reads scan text a) (second : Reads (next a) more b) :
    Reads (scan >>= next) (text ++ more) b := by
  intro rest
  rw [List.append_assoc, bind_of_eq_some (first _)]
  exact second rest

theorem Reads.gives {scan : Scan α} {next : α → Scan β} {text : List Char} {a : α} {b : β}
    (h : Reads scan text a) (gives : next a = Pure.pure b) : Reads (scan >>= next) text b := by
  have last : Reads (next a) [] b := gives ▸ Reads.pure b
  have both := h.bind last
  rwa [List.append_nil] at both

theorem Reads.map {scan : Scan α} {text : List Char} {a : α} (h : Reads scan text a) (f : α → β) :
    Reads (scan >>= fun x => Pure.pure (f x)) text (f a) := h.gives rfl

/-- Whatever the scanner takes has the form, with the value that it gives. -/
def Shaped (scan : Scan α) (Form : List Char → α → Prop) : Prop :=
  ∀ {s rest a}, scan s = some (a, rest) → ∃ text, s = text ++ rest ∧ Form text a

/-! ## Characters and words -/

/-- A scanner that looks at the next character first has one to look at. -/
theorem peek_bind_eq_some {next : Char → Scan β} {s rest : List Char} {b : β}
    (h : (peek >>= next) s = some (b, rest)) :
    ∃ c more, s = c :: more ∧ next c (c :: more) = some (b, rest) := by
  cases s with
  | nil => cases h
  | cons c more => exact ⟨c, more, rfl, h⟩

theorem expect_eq_some {s rest : List Char} {c : Char} {u : Unit}
    (h : expect c s = some (u, rest)) : s = c :: rest := by
  cases s with
  | nil => cases h
  | cons d more =>
    by_cases same : d = c
    · rw [show expect c (d :: more) = some ((), more) from if_pos same] at h
      cases h
      rw [same]
    · rw [show expect c (d :: more) = none from if_neg same] at h
      cases h

theorem expect_cons (c : Char) (rest : List Char) : expect c (c :: rest) = some ((), rest) :=
  if_pos rfl

theorem expect_of_ne {c d : Char} (differs : d ≠ c) (rest : List Char) :
    expect c (d :: rest) = none := if_neg differs

theorem reads_expect (c : Char) : Reads (expect c) [c] () := fun _ => if_pos rfl

theorem Reads.peek {next : Char → Scan β} {c : Char} {text : List Char} {b : β}
    (h : Reads (next c) (c :: text) b) : Reads (peek >>= next) (c :: text) b := h

/-- A word is not empty and holds none of the stops. -/
structure IsWord (stops word : List Char) : Prop where
  nonempty : word ≠ []
  plain : ∀ c ∈ word, c ∉ stops

theorem IsWord.single {stop : Char} {word : List Char} (nonempty : word ≠ [])
    (unended : stop ∉ word) :
    IsWord [stop] word where
  nonempty
  plain _ inside ends := unended (List.mem_singleton.mp ends ▸ inside)

theorem IsWord.unended {stops word : List Char} (h : IsWord stops word) {stop : Char}
    (ends : stop ∈ stops) : stop ∉ word := fun inside => h.plain stop inside ends

theorem word_eq {stops word rest : List Char} {stop : Char} (h : IsWord stops word)
    (ends : stop ∈ stops) : Scan.word stops (word ++ stop :: rest) = some (word, stop :: rest) := by
  have other : ∀ c ∈ word, decide (c ∉ stops) = true := fun c inside =>
    decide_eq_true (h.plain c inside)
  have taken : (word ++ stop :: rest).takeWhile (· ∉ stops) = word := by
    rw [List.takeWhile_append_of_pos other, List.takeWhile_cons_of_neg (by simpa using ends),
      List.append_nil]
  have left : (word ++ stop :: rest).dropWhile (· ∉ stops) = stop :: rest := by
    rw [List.dropWhile_append_of_pos other, List.dropWhile_cons_of_neg (by simpa using ends)]
  unfold Scan.word
  rw [taken, left]
  obtain ⟨c, more, rfl⟩ := List.exists_cons_of_ne_nil h.nonempty
  rfl

/-- A word, in front of one of its stops. -/
theorem Reads.word {next : List Char → Scan β} {stops word more : List Char} {stop : Char} {b : β}
    (h : IsWord stops word) (ends : stop ∈ stops) (after : Reads (next word) (stop :: more) b) :
    Reads (Scan.word stops >>= next) (word ++ stop :: more) b := by
  intro rest
  rw [List.append_assoc, List.cons_append, bind_of_eq_some (word_eq h ends)]
  exact after rest

theorem word_eq_some {stops s word rest : List Char} (h : Scan.word stops s = some (word, rest)) :
    s = word ++ rest ∧ IsWord stops word ∧ ∃ stop more, rest = stop :: more ∧ stop ∈ stops := by
  unfold Scan.word at h
  cases taken : s.takeWhile (· ∉ stops) with
  | nil =>
    rw [taken] at h
    cases h
  | cons c front =>
    cases left : s.dropWhile (· ∉ stops) with
    | nil =>
      rw [taken, left] at h
      cases h
    | cons stop more =>
      rw [taken, left] at h
      cases h
      refine ⟨?_, ⟨List.cons_ne_nil c front, ?_⟩, stop, more, rfl, ?_⟩
      · rw [← taken, ← left]
        exact List.takeWhile_append_dropWhile.symm
      · intro d inside
        rw [← taken] at inside
        simpa using List.mem_takeWhile_imp inside
      · have ends := List.head?_dropWhile_not (fun c => decide (c ∉ stops)) s
        rw [left] at ends
        simpa using ends

section Parts

variable {stops s more others : List Char} {stop c : Char}

theorem word_of_takeWhile_nil (nonempty : s.takeWhile (· ∉ stops) = []) :
    Scan.word stops s = none := by
  unfold Scan.word
  rw [nonempty]

theorem word_of_dropWhile_nil (nonempty : s.dropWhile (· ∉ stops) = []) :
    Scan.word stops s = none := by
  unfold Scan.word
  rw [nonempty]
  cases s.takeWhile (· ∉ stops) <;> rfl

theorem word_of_parts (taken : s.takeWhile (· ∉ stops) = c :: others)
    (left : s.dropWhile (· ∉ stops) = stop :: more) :
    Scan.word stops s = some (c :: others, stop :: more) := by
  unfold Scan.word
  rw [taken, left]

end Parts

/-! ## Scanners that take something -/

/-- No value is read from no text. -/
def Consumes (scan : Scan α) : Prop :=
  ∀ {s rest a}, scan s = some (a, rest) → rest.length < s.length

theorem Shaped.consumes {scan : Scan α} {Form : List Char → α → Prop} (h : Shaped scan Form)
    (filled : ∀ {text a}, Form text a → text ≠ []) : Consumes scan := by
  intro s rest a read
  obtain ⟨text, rfl, form⟩ := h read
  have nonempty := List.length_pos_of_ne_nil (filled form)
  rw [List.length_append]
  omega

theorem consumes_expect (c : Char) : Consumes (expect c) := by
  intro s rest _ read
  rw [expect_eq_some read]
  exact Nat.lt_succ_self _

theorem consumes_word (stops : List Char) : Consumes (Scan.word stops) := by
  intro s rest name read
  obtain ⟨rfl, named, -⟩ := word_eq_some read
  have filled := List.length_pos_of_ne_nil named.nonempty
  rw [List.length_append]
  omega

theorem consumes_bind {scan : Scan α} {next : α → Scan β} (first : Consumes scan)
    (behind : ∀ {a s b rest}, next a s = some (b, rest) → rest.length ≤ s.length) :
    Consumes (scan >>= next) := by
  intro s rest b read
  obtain ⟨a, middle, read, last⟩ := bind_eq_some read
  exact Nat.lt_of_le_of_lt (behind last) (first read)

/-! ## Items up to a closing character -/

/-- As `Reads`, but only in front of a character of this kind. -/
def ReadsBefore (ahead : Char → Prop) (item : Scan α) (text : List Char) (a : α) : Prop :=
  ∀ c rest, ahead c → item (text ++ c :: rest) = some (a, c :: rest)

theorem Reads.before {item : Scan α} {text : List Char} {a : α} (h : Reads item text a)
    (ahead : Char → Prop) : ReadsBefore ahead item text a := fun _ _ _ => h _

/-- The text starts with a character of this kind, other than the closing one. -/
def Opens (ahead : Char → Prop) (close : Char) (text : List Char) : Prop :=
  ∃ c more, text = c :: more ∧ ahead c ∧ c ≠ close

theorem Opens.ne_nil {ahead : Char → Prop} {close : Char} {text : List Char}
    (h : Opens ahead close text) : text ≠ [] := by
  obtain ⟨c, more, rfl, -⟩ := h
  exact List.cons_ne_nil c more

/-- There are no more items than characters if none is empty. -/
theorem length_le_length_flatten {R : List Char → α → Prop}
    (nonempty : ∀ text a, R text a → text ≠ [])
    {texts : List (List Char)} {items : List α} (each : List.Forall₂ R texts items) :
    texts.length ≤ texts.flatten.length := by
  induction each with
  | nil => exact Nat.zero_le _
  | cons first _ ih =>
    have own := List.length_pos_of_ne_nil (nonempty _ _ first)
    rw [List.flatten_cons, List.length_append, List.length_cons]
    omega

section UpTo

variable {ahead : Char → Prop} {close : Char} {item : Scan α}

theorem upToWithin_close (bound : Nat) (rest : List Char) :
    upToWithin close item (bound + 1) (close :: rest) = some ([], rest) := by
  rw [upToWithin]
  show (if close = close then _ else _ : Scan (List α)) (close :: rest) = _
  rw [if_pos rfl]
  exact (reads_expect close).map (fun _ => []) rest

theorem upToWithin_item {c : Char} (other : c ≠ close) (bound : Nat) (more : List Char) :
    upToWithin close item (bound + 1) (c :: more) =
      (item >>= fun first => upToWithin close item bound >>= fun others =>
        Pure.pure (first :: others)) (c :: more) := by
  rw [upToWithin]
  show (if c = close then _ else _ : Scan (List α)) (c :: more) = _
  rw [if_neg other]

/-- The induction is on the items. Behind each one stands the next, or the closing character. -/
theorem upToWithin_flatten (closes : ahead close) {texts : List (List Char)} {items : List α}
    (each : List.Forall₂ (fun text a => Opens ahead close text ∧ ReadsBefore ahead item text a)
      texts items) {bound : Nat} (enough : texts.length < bound) (rest : List Char) :
    upToWithin close item bound (texts.flatten ++ close :: rest) = some (items, rest) := by
  induction each generalizing bound with
  | nil =>
    obtain ⟨fewer, rfl⟩ := Nat.exists_eq_succ_of_ne_zero (Nat.ne_of_gt enough)
    exact upToWithin_close fewer rest
  | @cons text a texts items first others ih =>
    obtain ⟨fewer, rfl⟩ := Nat.exists_eq_succ_of_ne_zero (Nat.ne_of_gt (Nat.zero_lt_of_lt enough))
    obtain ⟨⟨c, more, rfl, -, other⟩, reads⟩ := first
    have behind : ∃ d left, texts.flatten ++ close :: rest = d :: left ∧ ahead d := by
      cases others with
      | nil => exact ⟨close, rest, rfl, closes⟩
      | cons second _ =>
        obtain ⟨⟨d, left, rfl, fits, -⟩, -⟩ := second
        exact ⟨d, _, rfl, fits⟩
    obtain ⟨d, left, shape, fits⟩ := behind
    have read := reads d left fits
    rw [← shape] at read
    have enough' : texts.length < fewer := Nat.lt_of_succ_lt_succ enough
    rw [List.flatten_cons, List.append_assoc, List.cons_append, upToWithin_item other,
      ← List.cons_append, bind_of_eq_some read, bind_of_eq_some (ih enough')]
    rfl

/-- Items are read one after another, up to the closing character. -/
theorem upTo_flatten (closes : ahead close) {texts : List (List Char)} {items : List α}
    (each : List.Forall₂ (fun text a => Opens ahead close text ∧ ReadsBefore ahead item text a)
      texts items) : Reads (upTo close item) (texts.flatten ++ [close]) items := by
  intro rest
  have few := length_le_length_flatten (fun _ _ h => h.1.ne_nil) each
  have enough : texts.length < (texts.flatten ++ [close] ++ rest).length := by
    simp only [List.length_append, List.length_singleton]
    omega
  have read := upToWithin_flatten closes each enough rest
  rw [List.append_assoc] at read ⊢
  exact read

theorem shaped_upToWithin {Form : List Char → α → Prop} (h : Shaped item Form) (bound : Nat) :
    Shaped (upToWithin close item bound) fun text items =>
      ∃ texts, text = texts.flatten ++ [close] ∧ List.Forall₂ Form texts items := by
  induction bound with
  | zero => exact fun accepted => nomatch accepted
  | succ bound ih =>
    intro s rest items read
    cases s with
    | nil => cases read
    | cons c more =>
      by_cases closes : c = close
      · rw [closes, upToWithin_close] at read
        cases read
        exact ⟨[close], by rw [closes]; rfl, [], rfl, .nil⟩
      · rw [upToWithin_item closes] at read
        obtain ⟨first, left, one, read⟩ := bind_eq_some read
        obtain ⟨others, behind, row, read⟩ := bind_eq_some read
        obtain ⟨rfl, rfl⟩ := pure_eq_some read
        obtain ⟨front, split, form⟩ := h one
        obtain ⟨_, rfl, texts, rfl, forms⟩ := ih row
        refine ⟨_, ?_, front :: texts, rfl, .cons form forms⟩
        rw [split, List.flatten_cons, List.append_assoc, List.append_assoc, List.append_assoc]

theorem shaped_upTo {Form : List Char → α → Prop} (h : Shaped item Form) :
    Shaped (upTo close item) fun text items =>
      ∃ texts, text = texts.flatten ++ [close] ∧ List.Forall₂ Form texts items :=
  fun read => shaped_upToWithin h _ read

end UpTo

/-! ## Items to the end of the text -/

theorem toEndWithin_item {item : Scan α} {s : List Char} (nonempty : s ≠ []) (bound : Nat) :
    toEndWithin item (bound + 1) s =
      (item >>= fun first => toEndWithin item bound >>= fun others =>
        Pure.pure (first :: others)) s := by
  have filled : ¬ s.isEmpty = true := by simpa using nonempty
  exact if_neg filled

theorem toEndWithin_flatten {item : Scan α} {texts : List (List Char)} {items : List α}
    (each : List.Forall₂ (fun text a => text ≠ [] ∧ Reads item text a) texts items) {bound : Nat}
    (enough : texts.length ≤ bound) :
    toEndWithin item bound texts.flatten = some (items, []) := by
  induction each generalizing bound with
  | nil => cases bound <;> rfl
  | @cons text a texts items first others ih =>
    obtain ⟨fewer, rfl⟩ := Nat.exists_eq_add_of_le' (Nat.le_trans (Nat.le_add_left 1 _) enough)
    have filled : text ++ texts.flatten ≠ [] := List.append_ne_nil_of_left_ne_nil first.1 _
    have next := ih (Nat.le_of_succ_le_succ enough)
    rw [List.flatten_cons, toEndWithin_item filled, bind_of_eq_some (first.2 _),
      bind_of_eq_some next]
    rfl

/-- Items are read one after another, to the end of the text. -/
theorem toEnd_flatten {item : Scan α} {texts : List (List Char)} {items : List α}
    (each : List.Forall₂ (fun text a => text ≠ [] ∧ Reads item text a) texts items) :
    toEnd item texts.flatten = some (items, []) :=
  toEndWithin_flatten each (length_le_length_flatten (fun _ _ h => h.1) each)

theorem rest_of_toEndWithin {item : Scan α} {bound : Nat} {s rest : List Char} {items : List α}
    (h : toEndWithin item bound s = some (items, rest)) : rest = [] := by
  induction bound generalizing s items with
  | zero =>
    unfold toEndWithin at h
    split at h
    · cases h
      rfl
    · cases h
  | succ bound ih =>
    by_cases filled : s = []
    · subst filled
      cases h
      rfl
    · rw [toEndWithin_item filled] at h
      obtain ⟨first, middle, _, h⟩ := bind_eq_some h
      obtain ⟨others, left, behind, h⟩ := bind_eq_some h
      obtain ⟨-, rfl⟩ := pure_eq_some h
      exact ih behind

theorem rest_of_toEnd {item : Scan α} {s rest : List Char} {items : List α}
    (h : toEnd item s = some (items, rest)) : rest = [] := rest_of_toEndWithin h

/-! ## Whole texts -/

section Whole

variable {scan : Scan α} {text : String}

theorem whole_of_none (h : scan text.toList = none) : whole scan text = none := by
  unfold whole
  rw [h]

theorem whole_of_left {a : α} {c : Char} {rest : List Char}
    (h : scan text.toList = some (a, c :: rest)) : whole scan text = none := by
  unfold whole
  rw [h]

end Whole

theorem whole_eq_some_iff {scan : Scan α} {text : String} {a : α} :
    whole scan text = some a ↔ scan text.toList = some (a, []) := by
  unfold whole
  split
  next found => rw [found, Option.some.injEq, Option.some.injEq, Prod.mk.injEq, eq_self, and_true]
  next other =>
    exact ⟨fun h => (nomatch h), fun h => (other a h).elim⟩

/-- A text is read as a whole if it has the form of something. -/
theorem whole_iff {scan : Scan α} {Form : List Char → α → Prop}
    (reads : ∀ {text a}, Form text a → Reads scan text a) (shaped : Shaped scan Form)
    {text : String} {a : α} : whole scan text = some a ↔ Form text.toList a := by
  rw [whole_eq_some_iff]
  constructor
  · intro h
    obtain ⟨front, whole, form⟩ := shaped h
    rw [List.append_nil] at whole
    rwa [whole]
  · intro form
    have read := reads form []
    rwa [List.append_nil] at read

section Outcome

variable {ε : Type} {found : Option α} {error : ε}

theorem elim_eq_ok_iff {a : α} :
    found.elim (.error error) Except.ok = .ok a ↔ found = some a := by
  cases found with
  | none => exact ⟨fun h => (nomatch h), fun h => (nomatch h)⟩
  | some b => rw [Option.elim_some, Except.ok.injEq, Option.some.injEq]

theorem elim_eq_error_iff {e : ε} :
    found.elim (.error error) Except.ok = .error e ↔ (¬ ∃ a, found = some a) ∧ e = error := by
  cases found with
  | none =>
    rw [Option.elim_none, Except.error.injEq]
    exact ⟨fun h => ⟨fun ⟨_, value⟩ => (nomatch value), h.symm⟩, fun h => h.2.symm⟩
  | some b => exact ⟨fun h => (nomatch h), fun h => (h.1 ⟨b, rfl⟩).elim⟩

end Outcome

end ClassAtlas.Scan
