/-!
# Cutting text

Texts are cut at marks, and the characters at their ends that do not count are dropped. Among them
are blanks: the characters with the property White_Space of Unicode.
-/

namespace ClassAtlas

/-- The parts before and after the last `c`. -/
def splitAtLast (c : Char) : List Char → Option (List Char × List Char)
  | [] => none
  | d :: rest =>
    match splitAtLast c rest with
    | some (before, after) => some (d :: before, after)
    | none => if d = c then some ([], rest) else none

theorem splitAtLast_eq_none_iff {c : Char} {text : List Char} :
    splitAtLast c text = none ↔ c ∉ text := by
  induction text with
  | nil => simp [splitAtLast]
  | cons d rest ih =>
    rw [splitAtLast, List.mem_cons, not_or, ← ih]
    cases splitAtLast c rest with
    | some parts => simp
    | none =>
      by_cases same : d = c
      · simp [same]
      · simp [same, Ne.symm same]

/-- The text around its last `c`. -/
theorem eq_append_of_splitAtLast {c : Char} {text before after : List Char}
    (h : splitAtLast c text = some (before, after)) : text = before ++ c :: after ∧ c ∉ after := by
  induction text generalizing before with
  | nil => cases h
  | cons d rest ih =>
    rw [splitAtLast] at h
    cases parts : splitAtLast c rest with
    | some found =>
      obtain ⟨front, back⟩ := found
      rw [parts] at h
      cases h
      obtain ⟨rfl, last⟩ := ih parts
      exact ⟨rfl, last⟩
    | none =>
      rw [parts] at h
      dsimp only at h
      split at h
      next same =>
        cases h
        exact ⟨by rw [same, List.nil_append], splitAtLast_eq_none_iff.mp parts⟩
      next => cases h

theorem decide_ne_of_not_mem {c : Char} {text : List Char} (clean : c ∉ text) :
    ∀ d ∈ text, decide (d ≠ c) = true :=
  fun _ inside => decide_eq_true fun same => clean (same ▸ inside)

/-- The text in front of its first `c`. -/
theorem takeWhile_ne_append {c : Char} {before : List Char} (after : List Char)
    (clean : c ∉ before) : (before ++ c :: after).takeWhile (· ≠ c) = before := by
  rw [List.takeWhile_append_of_pos (decide_ne_of_not_mem clean),
    List.takeWhile_cons_of_neg (by simp), List.append_nil]

/-- The text from its first `c` on. -/
theorem dropWhile_ne_append {c : Char} {before : List Char} (after : List Char)
    (clean : c ∉ before) : (before ++ c :: after).dropWhile (· ≠ c) = c :: after := by
  rw [List.dropWhile_append_of_pos (decide_ne_of_not_mem clean),
    List.dropWhile_cons_of_neg (by simp)]

theorem dropWhile_ne_eq_nil {c : Char} {text : List Char} (clean : c ∉ text) :
    text.dropWhile (· ≠ c) = [] := by
  have whole : (text ++ []).dropWhile (· ≠ c) = [] :=
    List.dropWhile_append_of_pos (decide_ne_of_not_mem clean)
  rwa [List.append_nil] at whole

/-- The text after the first occurrence of `part`. -/
def textAfter? (part : List Char) : List Char → Option (List Char)
  | [] => part.isPrefixOf? []
  | c :: rest =>
    match part.isPrefixOf? (c :: rest) with
    | some after => some after
    | none => textAfter? part rest

/-- Whether `part` occurs in `text` without a gap. -/
def occursIn (part text : List Char) : Bool := (textAfter? part text).isSome

def hasEnding (ending text : String) : Bool := ending.toList.isSuffixOf text.toList

/-- The text without the characters of one class at its ends. -/
def trimWhere (drops : Char → Bool) (text : List Char) : List Char :=
  ((text.dropWhile drops).reverse.dropWhile drops).reverse

/-- The first and the last character of each range with the property White_Space. -/
def blankRanges : List (Char × Char) :=
  [('\t', '\r'), (' ', ' '), ('\u0085', '\u0085'), ('\u00a0', '\u00a0'), ('\u1680', '\u1680'),
    ('\u2000', '\u200a'), ('\u2028', '\u2029'), ('\u202f', '\u202f'), ('\u205f', '\u205f'),
    ('\u3000', '\u3000')]

def isBlank (c : Char) : Bool :=
  blankRanges.any fun (first, last) => first.val ≤ c.val && c.val ≤ last.val

/-- The text without blanks at its ends. -/
def trimBlanks (text : List Char) : List Char := trimWhere isBlank text

end ClassAtlas
