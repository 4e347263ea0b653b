import ClassAtlas.Proofs.Text.Cursors
import ClassAtlas.Proofs.Text.Scans

/-!
# Cursors that follow scanners

`Follows` says that a cursor does what a scanner does, which knows characters only: it stops,
refuses what the scanner refuses, and after a value stands between two characters again, in front of
what the scanner leaves. It holds of a composed cursor as it holds of its parts, and of a loop as it
holds of one turn.
-/

namespace ClassAtlas

namespace Cursor

variable {α β : Type} {source : Source} {s rest : List Char} {p : Nat} {c : Char}

/-- With this text ahead, the cursor does what the scanner does. -/
structure Follows (source : Source) (reading : Cursor α) (scan : Scan α) (s : List Char) :
    Prop where
  refuses : scan s = none → ∀ {p}, source.Stands s p →
    reading source p = some (.error (.refused source.refusal))
  reads : ∀ {a rest}, scan s = some (a, rest) → ∀ {p}, source.Stands s p →
    rest.length ≤ s.length ∧ ∃ q, source.Stands rest q ∧ reading source p = some (.ok (a, q))

section Rules

variable {reading other : Cursor α} {next : α → Cursor β} {scan : Scan α} {scanNext : α → Scan β}

theorem Follows.congr {scan' : Scan α} (h : Follows source reading scan s)
    (same : scan' s = scan s) : Follows source reading scan' s where
  refuses refused := h.refuses (same ▸ refused)
  reads accepted := h.reads (same ▸ accepted)

theorem follows_pure (a : α) (s : List Char) : Follows source (pure a) (pure a) s where
  refuses refused := nomatch refused
  reads accepted p stands := by
    cases accepted
    exact ⟨Nat.le_refl _, p, stands, rfl⟩

theorem follows_given {a : α} (given : scan s = some (a, s)) :
    Follows source (pure a) scan s := (follows_pure a s).congr given

theorem follows_refuse (refused : scan s = none) : Follows source refuse scan s where
  refuses _ _ _ := rfl
  reads accepted := nomatch refused.symm.trans accepted

theorem Follows.bind (h : Follows source reading scan s)
    (behind : ∀ {a rest}, scan s = some (a, rest) → rest.length ≤ s.length →
      Follows source (next a) (scanNext a) rest) :
    Follows source (reading >>= next) (scan >>= scanNext) s where
  refuses refused p stands := by
    cases read : scan s with
    | none => exact bind_of_error (h.refuses read stands)
    | some found =>
      obtain ⟨short, q, stands', moved⟩ := h.reads read stands
      rw [Scan.bind_of_eq_some read] at refused
      rw [bind_of_ok moved]
      exact (behind read short).refuses refused stands'
  reads accepted p stands := by
    obtain ⟨a, middle, read, accepted⟩ := Scan.bind_eq_some accepted
    obtain ⟨short, q, stands', moved⟩ := h.reads read stands
    obtain ⟨shorter, last⟩ := (behind read short).reads accepted stands'
    rw [bind_of_ok moved]
    exact ⟨Nat.le_trans shorter short, last⟩

/-- A step of the cursor that the scanner takes too, or that leaves the text as it is. -/
theorem Follows.of_step {later : Cursor α} {scanLater : Scan α}
    (step : ∀ {p}, source.Stands s p →
      ∃ q, source.Stands rest q ∧ reading source p = later source q)
    (same : scan s = scanLater rest) (shorter : rest.length ≤ s.length)
    (behind : Follows source later scanLater rest) : Follows source reading scan s where
  refuses refused p stands := by
    obtain ⟨q, stands', moved⟩ := step stands
    rw [moved]
    exact behind.refuses (same ▸ refused) stands'
  reads accepted p stands := by
    obtain ⟨q, stands', moved⟩ := step stands
    obtain ⟨short, last⟩ := behind.reads (same ▸ accepted) stands'
    rw [moved]
    exact ⟨Nat.le_trans short shorter, last⟩

end Rules

/-! ## Single steps -/

theorem atEnd_of_le (ends : source.bytes.length ≤ p) :
    atEnd source p = some (.ok (true, p)) := by rw [atEnd, decide_eq_true ends]

theorem atEnd_of_lt (inside : p < source.bytes.length) :
    atEnd source p = some (.ok (false, p)) := by
  rw [atEnd, decide_eq_false (Nat.not_le_of_lt inside)]

theorem letter_of_getElem? {byte : UInt8} (found : source.bytes[p]? = some byte) :
    letter source p = some (.ok (Char.ofUInt8 byte, p)) := by
  rw [letter, found]
  rfl

theorem advance_of_lt (inside : p < source.bytes.length) :
    advance source p = some (.ok ((), p + 1)) := by rw [advance, if_pos inside]

theorem atEnd_of_nil (h : source.Stands [] p) : atEnd source p = some (.ok (true, p)) :=
  atEnd_of_le (Nat.le_of_eq h.length_bytes)

theorem atEnd_of_cons (h : source.Stands (c :: rest) p) :
    atEnd source p = some (.ok (false, p)) := by
  have size := h.length_bytes
  have positive := c.utf8Size_pos
  rw [String.utf8Len_cons] at size
  exact atEnd_of_lt (by omega)

theorem letter_of_cons (h : source.Stands (c :: rest) p) :
    letter source p = some (.ok (letterOf c, p)) := by
  obtain ⟨byte, others, shape, same⟩ := exists_utf8EncodeChar c
  have first : source.bytes[p]? = some byte := by
    rw [← List.head?_drop, h.drop_bytes, List.flatMap_cons, shape]
    rfl
  rw [letter_of_getElem? first, same]

theorem peek_of_nil (h : source.Stands [] p) :
    peek source p = some (.error (.refused source.refusal)) := bind_of_ok (atEnd_of_nil h)

theorem peek_of_cons (h : source.Stands (c :: rest) p) :
    peek source p = some (.ok (letterOf c, p)) :=
  (bind_of_ok (atEnd_of_cons h)).trans (letter_of_cons h)

theorem advance_of_cons (ascii : c.toNat < 128) (h : source.Stands (c :: rest) p) :
    source.Stands rest (p + 1) ∧ advance source p = some (.ok ((), p + 1)) := by
  have size := h.length_bytes
  have single : String.utf8Len [c] = 1 := by
    rw [← length_flatMap_utf8EncodeChar, List.flatMap_singleton, utf8EncodeChar_ascii ascii]
    rfl
  have behind : source.Stands rest (p + String.utf8Len [c]) := Source.Stands.behind h
  rw [single] at behind
  rw [← List.singleton_append, String.utf8Len_append, single] at size
  exact ⟨behind, advance_of_lt (by omega)⟩

section Rules

variable {reading other : Cursor α} {scan : Scan α}

theorem follows_end (h : Follows source reading scan []) :
    Follows source (do if ← atEnd then reading else other) scan [] :=
  h.of_step (fun stands => ⟨_, stands, bind_of_ok (atEnd_of_nil stands)⟩) rfl (Nat.le_refl _)

theorem follows_inside (h : Follows source other scan (c :: rest)) :
    Follows source (do if ← atEnd then reading else other) scan (c :: rest) :=
  h.of_step (fun stands => ⟨_, stands, bind_of_ok (atEnd_of_cons stands)⟩) rfl (Nat.le_refl _)

theorem follows_letter {next : Char → Cursor α}
    (h : Tells (letterOf c) c → Follows source (next (letterOf c)) scan (c :: rest)) :
    Follows source (letter >>= next) scan (c :: rest) :=
  (h (tells_letterOf c)).of_step
    (fun stands => ⟨_, stands, bind_of_ok (letter_of_cons stands)⟩) rfl (Nat.le_refl _)

theorem follows_peek_nil {next : Char → Cursor α} (refused : scan [] = none) :
    Follows source (peek >>= next) scan [] where
  refuses _ _ stands := bind_of_error (peek_of_nil stands)
  reads accepted := nomatch refused.symm.trans accepted

theorem follows_peek {next : Char → Cursor α}
    (h : Tells (letterOf c) c → Follows source (next (letterOf c)) scan (c :: rest)) :
    Follows source (peek >>= next) scan (c :: rest) :=
  (h (tells_letterOf c)).of_step
    (fun stands => ⟨_, stands, bind_of_ok (peek_of_cons stands)⟩) rfl (Nat.le_refl _)

theorem follows_advance {later : Cursor α} {scanLater : Scan α} (ascii : c.toNat < 128)
    (same : scan (c :: rest) = scanLater rest) (h : Follows source later scanLater rest) :
    Follows source (advance >>= fun _ => later) scan (c :: rest) := by
  refine h.of_step (fun stands => ?_) same (Nat.le_succ _)
  obtain ⟨behind, moved⟩ := advance_of_cons ascii stands
  exact ⟨_, behind, bind_of_ok moved⟩

theorem follows_passes {later : Cursor α} {scanLater : Scan α} (ascii : c.toNat < 128)
    (h : Follows source later scanLater rest) :
    Follows source (advance >>= fun _ => later) (Scan.expect c >>= fun _ => scanLater)
      (c :: rest) :=
  follows_advance ascii (Scan.bind_of_eq_some (Scan.expect_cons c rest)) h

/-- Where a byte decides, the character decides in the same way. -/
theorem Tells.follows {letter d : Char} (tells : Tells letter c) (ascii : d.toNat < 128)
    (yes : c = d → Follows source reading scan s) (no : c ≠ d → Follows source other scan s) :
    Follows source (if letter = d then reading else other) scan s := by
  by_cases same : c = d
  · rw [if_pos ((tells d ascii).mpr same)]
    exact yes same
  · rw [if_neg (mt (tells d ascii).mp same)]
    exact no same

/-- Both look at what comes next. -/
theorem follows_peeks {next : Char → Cursor α} {scanNext : Char → Scan α}
    (h : ∀ {c rest}, s = c :: rest → Tells (letterOf c) c →
      Follows source (next (letterOf c)) (scanNext c) s) :
    Follows source (peek >>= next) (Scan.peek >>= scanNext) s := by
  cases s with
  | nil => exact follows_peek_nil rfl
  | cons c rest => exact follows_peek fun tells => (h rfl tells).congr rfl

theorem Tells.follows_ite {letter d : Char} {scanOther : Scan α} (tells : Tells letter c)
    (ascii : d.toNat < 128) (yes : c = d → Follows source reading scan s)
    (no : c ≠ d → Follows source other scanOther s) :
    Follows source (if letter = d then reading else other) (if c = d then scan else scanOther) s :=
  tells.follows ascii (fun same => if_pos same ▸ yes same) fun differs =>
    if_neg differs ▸ no differs

end Rules

theorem follows_expect (ascii : c.toNat < 128) (s : List Char) :
    Follows source (expect c) (Scan.expect c) s := by
  cases s with
  | nil => exact follows_peek_nil rfl
  | cons d rest =>
    refine follows_peek fun tells => tells.follows ascii (fun same => ?_) fun differs => ?_
    · subst same
      refine (follows_pure () rest).of_step (fun stands => ?_) (Scan.expect_cons d rest)
        (Nat.le_succ _)
      obtain ⟨behind, moved⟩ := advance_of_cons ascii stands
      exact ⟨_, behind, moved⟩
    · exact follows_refuse (if_neg differs)

/-! ## Words -/

/-- Each turn passes a byte, so that there are enough of them. -/
theorem nested_skipping {stops : List Char} {depth : Nat} {bytes : Bytes}
    (ahead : source.bytes.drop p = bytes) (few : bytes.length < depth) :
    nested (skipping stops) depth source p =
      some (.ok ((), p + (bytes.takeWhile (Char.ofUInt8 · ∉ stops)).length)) := by
  induction bytes generalizing p depth with
  | nil =>
    obtain ⟨fewer, rfl⟩ := Nat.exists_eq_succ_of_ne_zero (Nat.ne_of_gt few)
    have ends : source.bytes.length ≤ p := List.drop_eq_nil_iff.mp ahead
    rw [nested, skipping, bind_of_ok (atEnd_of_le ends)]
    rfl
  | cons byte more ih =>
    obtain ⟨fewer, rfl⟩ := Nat.exists_eq_succ_of_ne_zero (Nat.ne_of_gt (Nat.zero_lt_of_lt few))
    have found : source.bytes[p]? = some byte := by rw [← List.head?_drop, ahead, List.head?_cons]
    have inside : p < source.bytes.length := (List.getElem?_eq_some_iff.mp found).1
    have behind : source.bytes.drop (p + 1) = more := by
      rw [← List.tail_drop, ahead, List.tail_cons]
    rw [nested, skipping, bind_of_ok (atEnd_of_lt inside), if_neg Bool.false_ne_true,
      bind_of_ok (letter_of_getElem? found)]
    by_cases stop : Char.ofUInt8 byte ∈ stops
    · rw [if_pos stop, List.takeWhile_cons_of_neg (by simpa using stop)]
      rfl
    · rw [if_neg stop, bind_of_ok (advance_of_lt inside), ih behind (Nat.lt_of_succ_lt_succ few),
        List.takeWhile_cons_of_pos (by simpa using stop), List.length_cons, Nat.add_right_comm,
        Nat.add_assoc]

theorem skipTo_eq (stops : List Char) (source : Source) (p : Nat) :
    skipTo stops source p = some (.ok ((),
      p + ((source.bytes.drop p).takeWhile (Char.ofUInt8 · ∉ stops)).length)) := by
  have few : (source.bytes.drop p).length < source.turns :=
    Nat.lt_of_le_of_lt (List.length_drop ▸ Nat.sub_le _ _) source.length_bytes_lt
  exact nested_skipping rfl few

theorem cut_of_stands {word : List Char} (before : source.Stands (word ++ rest) p) :
    cut p source (p + String.utf8Len word) =
      some (.ok (word, p + String.utf8Len word)) := by
  have first := Source.stands_iff_isBoundary.mp ⟨_, before⟩
  have last := Source.stands_iff_isBoundary.mp ⟨_, before.behind⟩
  obtain ⟨front, whole, rfl⟩ := before
  have text : source.text = String.ofList (front ++ word ++ rest) := by
    rw [List.append_assoc, ← whole, String.ofList_toList]
  have taken : (String.Pos.Raw.extract source.text ⟨String.utf8Len front⟩
      ⟨String.utf8Len front + String.utf8Len word⟩).toList = word := by
    rw [text, String.extract_of_valid, String.toList_ofList]
  simp only [cut, if_pos (And.intro (Nat.le_add_right _ _) (And.intro first last)), taken]

/-- Up to the end, or up to a stop. -/
theorem skipTo_of_stands {stops : List Char} (ascii : ∀ stop ∈ stops, stop.toNat < 128)
    (stands : source.Stands s p) :
    skipTo stops source p = some (.ok ((), p + String.utf8Len (s.takeWhile (· ∉ stops)))) ∧
      source.Stands (s.dropWhile (· ∉ stops))
        (p + String.utf8Len (s.takeWhile (· ∉ stops))) := by
  constructor
  · rw [skipTo_eq, stands.drop_bytes, takeWhile_flatMap_utf8EncodeChar ascii,
      length_flatMap_utf8EncodeChar]
  · rw [← List.takeWhile_append_dropWhile (p := (· ∉ stops)) (l := s)] at stands
    exact stands.behind

section Word

variable {stops : List Char}

theorem position_eq (source : Source) (p : Nat) : position source p = some (.ok (p, p)) := rfl

theorem word_of_end (ascii : ∀ stop ∈ stops, stop.toNat < 128)
    (nonempty : s.dropWhile (· ∉ stops) = []) (stands : source.Stands s p) :
    ∃ q, source.Stands [] q ∧
      word stops source p = some (.error (.refused source.refusal)) := by
  obtain ⟨skipped, ends⟩ := skipTo_of_stands ascii stands
  rw [nonempty] at ends
  refine ⟨_, ends, ?_⟩
  rw [word, bind_of_ok (position_eq _ _), bind_of_ok skipped, bind_of_ok (atEnd_of_nil ends)]
  rfl

/-- In front of a stop it is seen whether there was anything before. -/
theorem word_of_stop {stop : Char} {more : List Char} (ascii : ∀ stop ∈ stops, stop.toNat < 128)
    (left : s.dropWhile (· ∉ stops) = stop :: more) (stands : source.Stands s p) :
    source.Stands (stop :: more) (p + String.utf8Len (s.takeWhile (· ∉ stops))) ∧
      word stops source p =
        (if p + String.utf8Len (s.takeWhile (· ∉ stops)) = p then refuse else cut p)
          source (p + String.utf8Len (s.takeWhile (· ∉ stops))) := by
  obtain ⟨skipped, inside⟩ := skipTo_of_stands ascii stands
  rw [left] at inside
  refine ⟨inside, ?_⟩
  rw [word, bind_of_ok (position_eq _ _), bind_of_ok skipped, bind_of_ok (atEnd_of_cons inside),
    if_neg Bool.false_ne_true, bind_of_ok (position_eq _ _)]

/-- A word is found although single bytes are looked at, because its stops are single bytes. -/
theorem follows_word (ascii : ∀ stop ∈ stops, stop.toNat < 128) (s : List Char) :
    Follows source (word stops) (Scan.word stops) s := by
  have shorter : (s.dropWhile (· ∉ stops)).length ≤ s.length :=
    (List.dropWhile_sublist _).length_le
  have refused (rest : List Char) : Follows source refuse (fun _ => none : Scan (List Char)) rest :=
    follows_refuse rfl
  cases left : s.dropWhile (· ∉ stops) with
  | nil =>
    exact (refused []).of_step (fun stands => word_of_end ascii left stands)
      (Scan.word_of_dropWhile_nil left) (Nat.zero_le _)
  | cons stop more =>
    rw [left] at shorter
    cases taken : s.takeWhile (· ∉ stops) with
    | nil =>
      refine (refused (stop :: more)).of_step (fun {p} stands => ?_)
        (Scan.word_of_takeWhile_nil taken) shorter
      have still : p + String.utf8Len [] = p := rfl
      have stopped := word_of_stop ascii left stands
      rw [taken, if_pos still] at stopped
      exact ⟨_, stopped⟩
    | cons d others =>
      refine (follows_pure (d :: others) (stop :: more)).of_step (fun {p} stands => ?_)
        (Scan.word_of_parts taken left) shorter
      have apart : ¬ p + String.utf8Len (d :: others) = p := by
        have positive := d.utf8Size_pos
        rw [String.utf8Len_cons]
        omega
      have parts : s = d :: others ++ stop :: more := by
        rw [← taken, ← left, List.takeWhile_append_dropWhile]
      obtain ⟨inside, stopped⟩ := word_of_stop ascii left stands
      rw [taken] at inside stopped
      rw [stopped, if_neg apart]
      exact ⟨_, inside, cut_of_stands (parts ▸ stands)⟩

end Word

/-- A word, and the byte that ends it. -/
theorem follows_wordEnd {stop : Char} (ascii : stop.toNat < 128) {next : List Char → Cursor α}
    {scanNext : List Char → Scan α}
    (behind : ∀ name rest, rest.length ≤ s.length →
      Follows source (next name) (scanNext name) rest) :
    Follows source (word [stop] >>= fun name => advance >>= fun _ => next name)
      (Scan.word [stop] >>= fun name => Scan.expect stop >>= fun _ => scanNext name) s := by
  have single : ∀ c ∈ [stop], c.toNat < 128 := List.forall_mem_singleton.mpr ascii
  refine (follows_word single s).bind fun read short => ?_
  obtain ⟨-, -, c, more, rfl, ends⟩ := Scan.word_eq_some read
  obtain rfl := List.mem_singleton.mp ends
  exact follows_passes ascii (behind _ more (Nat.le_of_succ_le short))

/-! ## Calls and loops -/

section Recursion

variable {body : Cursor α → Cursor α} {scan : Nat → Scan α}

/-- A scanner counts down from the length of its text, a cursor from a depth of its own. Each call
inside a call has less text ahead, so that neither runs out. -/
theorem follows_nested {most : Nat} (misses : ∀ again, Follows source (body again) (scan 0) [])
    (turn : ∀ {again bound s}, bound < most → s.length ≤ bound + 1 →
      (∀ t, t.length < s.length → Follows source again (scan bound) t) →
        Follows source (body again) (scan (bound + 1)) s)
    {depth bound : Nat} (enough : s.length < depth) (few : s.length ≤ bound)
    (within : bound ≤ most) : Follows source (nested body depth) (scan bound) s := by
  induction depth generalizing bound s with
  | zero => exact absurd enough (Nat.not_lt_zero _)
  | succ depth ih =>
    cases bound with
    | zero =>
      obtain rfl := List.eq_nil_of_length_eq_zero (Nat.le_zero.mp few)
      exact misses _
    | succ bound =>
      refine turn within few fun t shorter => ih ?_ ?_ (Nat.le_of_succ_le within)
      · exact Nat.lt_of_lt_of_le shorter (Nat.le_of_lt_succ enough)
      · exact Nat.le_of_lt_succ (Nat.lt_of_lt_of_le shorter few)

theorem follows_recursive (misses : ∀ again, Follows source (body again) (scan 0) [])
    (turn : ∀ {again bound t}, bound < s.length → t.length ≤ bound + 1 →
      (∀ u, u.length < t.length → Follows source again (scan bound) u) →
        Follows source (body again) (scan (bound + 1)) t) :
    Follows source (recursive body) (scan s.length) s where
  refuses refused _ stands := by
    have enough := stands.length_lt
    exact (follows_nested misses turn enough (Nat.le_refl _) (Nat.le_refl _)).refuses refused stands
  reads accepted _ stands := by
    have enough := stands.length_lt
    exact (follows_nested misses turn enough (Nat.le_refl _) (Nat.le_refl _)).reads accepted stands

/-- The same for a scanner that takes no bound. -/
theorem follows_calls {scan : Scan α}
    (turn : ∀ {again t}, (∀ u, u.length < t.length → Follows source again scan u) →
      Follows source (body again) scan t) (s : List Char) :
    Follows source (recursive body) scan s := by
  have constant : Follows source (recursive body) ((fun _ : Nat => scan) s.length) s :=
    follows_recursive (fun _ => turn fun _ short => absurd short (Nat.not_lt_zero _))
      fun _ _ inside => turn inside
  exact constant

end Recursion

section Loops

variable {item : Cursor α} {scanItem : Scan α}

theorem follows_close {close : Char} (ascii : close.toNat < 128) (bound : Nat)
    (rest : List Char) :
    Follows source (expect close >>= fun _ => pure [])
      (Scan.upToWithin close scanItem (bound + 1)) (close :: rest) := by
  have ended : Follows source (expect close >>= fun _ => pure [])
      (Scan.expect close >>= fun _ => pure ([] : List α)) (close :: rest) :=
    (follows_expect ascii _).bind fun _ _ => follows_pure [] _
  refine ended.congr ?_
  rw [Scan.upToWithin_close, Scan.bind_of_eq_some (Scan.expect_cons close rest)]
  rfl

theorem follows_upTo {close : Char} (ascii : close.toNat < 128)
    (consumes : Scan.Consumes scanItem)
    (each : ∀ t, t.length ≤ s.length → Follows source item scanItem t) :
    Follows source (upTo close item) (Scan.upTo close scanItem) s := by
  have rows : Follows source (upTo close item) (Scan.upToWithin close scanItem s.length) s := by
    refine follows_recursive (fun _ => follows_peek_nil rfl) ?_
    intro again bound t less few behind
    cases t with
    | nil => exact follows_peek_nil rfl
    | cons c rest =>
      refine follows_peek fun tells => tells.follows ascii ?_ fun differs => ?_
      · rintro rfl
        exact follows_close ascii bound rest
      · refine Follows.congr ?_ (Scan.upToWithin_item differs bound rest)
        refine (each _ (Nat.le_trans few less)).bind fun read _ => ?_
        exact (behind _ (consumes read)).bind fun _ _ => follows_pure _ _
  exact rows.congr rfl

theorem follows_toEnd (consumes : Scan.Consumes scanItem)
    (each : ∀ s, Follows source item scanItem s) (s : List Char) :
    Follows source (toEnd item) (Scan.toEnd scanItem) s := by
  have rows : Follows source (toEnd item) (Scan.toEndWithin scanItem s.length) s := by
    refine follows_recursive (fun _ => follows_end (follows_given rfl)) ?_
    intro again bound t _ _ behind
    cases t with
    | nil => exact follows_end (follows_given rfl)
    | cons c rest =>
      have turn : Scan.toEndWithin scanItem (bound + 1) (c :: rest) = _ :=
        Scan.toEndWithin_item (List.cons_ne_nil c rest) bound
      refine follows_inside (Follows.congr ?_ turn)
      exact (each _).bind fun read _ => (behind _ (consumes read)).bind fun _ _ =>
        follows_pure _ _
  exact rows.congr rfl

end Loops

/-! ## What following gives -/

section Outcome

variable {reading : Cursor α} {scan : Scan α}

/-- Where the scanner leaves nothing, the cursor gives what the scanner gives. -/
theorem run_eq (follows : Follows source reading scan source.text.toList)
    (ends : ∀ {a rest}, scan source.text.toList = some (a, rest) → rest = []) :
    run reading source = some (source.answer (Scan.whole scan source.text)) := by
  have start := source.stands_start
  unfold run
  cases read : scan source.text.toList with
  | none =>
    rw [follows.refuses read start, Scan.whole_of_none read]
    rfl
  | some found =>
    obtain ⟨a, rest⟩ := found
    obtain rfl := ends read
    obtain ⟨-, q, stands, moved⟩ := follows.reads read start
    rw [moved, Scan.whole_eq_some_iff.mpr read]
    rfl

/-- A cursor that asks for the end refuses what the scanner leaves. -/
theorem run_whole (follows : Follows source reading scan source.text.toList) :
    run (whole reading) source = some (source.answer (Scan.whole scan source.text)) := by
  have start := source.stands_start
  unfold run whole
  cases read : scan source.text.toList with
  | none =>
    rw [bind_of_error (follows.refuses read start), Scan.whole_of_none read]
    rfl
  | some found =>
    obtain ⟨a, rest⟩ := found
    obtain ⟨-, q, stands, moved⟩ := follows.reads read start
    rw [bind_of_ok moved]
    cases rest with
    | nil =>
      rw [bind_of_ok (atEnd_of_nil stands), Scan.whole_eq_some_iff.mpr read]
      rfl
    | cons c rest =>
      rw [bind_of_ok (atEnd_of_cons stands), Scan.whole_of_left read]
      rfl

/-- From every boundary the run ends. If it gives a value, then the cursor stands at a boundary
further on. -/
def MovesOn (source : Source) (reading : Cursor α) : Prop :=
  ∀ p, source.isBoundary p = true →
    reading source p = some (.error (.refused source.refusal)) ∨
      ∃ a q, reading source p = some (.ok (a, q)) ∧ p < q ∧ q ≤ source.bytes.length ∧
        source.isBoundary q = true

theorem movesOn_of_follows (follows : ∀ s, Follows source reading scan s)
    (consumes : Scan.Consumes scan) : MovesOn source reading := by
  intro p boundary
  obtain ⟨s, stands⟩ := Source.stands_iff_isBoundary.mpr boundary
  cases read : scan s with
  | none => exact .inl ((follows s).refuses read stands)
  | some found =>
    obtain ⟨a, rest⟩ := found
    obtain ⟨-, q, later, moved⟩ := (follows s).reads read stands
    have inside : q ≤ source.bytes.length := by
      rw [later.length_bytes]
      exact Nat.le_add_right _ _
    exact .inr ⟨a, q, moved, stands.lt later (consumes read), inside,
      Source.stands_iff_isBoundary.mp ⟨rest, later⟩⟩

end Outcome

end Cursor

end ClassAtlas
