import ClassAtlas.Filter
import Mathlib.Data.List.Infix
import Mathlib.Data.List.TakeWhile

/-!
# Test output

Which URIs count as test output. A text is searched for `/build/classes/` from the front, each time
behind the last one, so that of occurrences that share a slash every other one is passed over.
`TestRow uri n`: in the URI, `n` `/build/classes` in a row lead to tests.

* `hasTestClasses_iff`: the search meets the rows of odd length, and no others;
* `isTestLocation_iff`: which URIs are told to be test output, and which ones are.
-/

namespace ClassAtlas

/-! ## Searching text -/

/-- The first occurrence of `part` in the text, with what stands in front of it and behind it. -/
structure FirstIn (part text front after : List Char) : Prop where
  whole : text = front ++ (part ++ after)
  first : ∀ other more, text = other ++ (part ++ more) → front.length ≤ other.length

theorem firstIn_nil {part text after : List Char} (h : part.isPrefixOf? text = some after) :
    FirstIn part text [] after :=
  ⟨(List.isPrefixOf?_eq_some_iff_append_eq.mp h).symm, fun _ _ _ => Nat.zero_le _⟩

theorem not_prefix_of_isPrefixOf? {part text : List Char} (h : part.isPrefixOf? text = none) :
    ¬ part <+: text := by
  rintro ⟨after, whole⟩
  rw [List.isPrefixOf?_eq_some_iff_append_eq.mpr whole] at h
  cases h

theorem exists_firstIn {part text after : List Char} (h : textAfter? part text = some after) :
    ∃ front, FirstIn part text front after := by
  induction text with
  | nil => exact ⟨[], firstIn_nil h⟩
  | cons c rest ih =>
    rw [textAfter?] at h
    cases start : part.isPrefixOf? (c :: rest) with
    | some found =>
      rw [start] at h
      cases h
      exact ⟨[], firstIn_nil start⟩
    | none =>
      rw [start] at h
      obtain ⟨front, whole, first⟩ := ih h
      refine ⟨c :: front, congrArg (c :: ·) whole, ?_⟩
      intro other more split
      cases other with
      | nil => exact absurd ⟨more, split.symm⟩ (not_prefix_of_isPrefixOf? start)
      | cons d other =>
        have behind := first other more (List.cons.inj split).2
        exact Nat.succ_le_succ behind

theorem textAfter?_eq_none_iff {part text : List Char} :
    textAfter? part text = none ↔ ¬ part <:+: text := by
  constructor
  · intro h
    induction text with
    | nil =>
      rw [List.infix_nil]
      rintro rfl
      cases h
    | cons c rest ih =>
      rw [textAfter?] at h
      rw [List.infix_cons_iff, not_or]
      cases start : part.isPrefixOf? (c :: rest) with
      | some found =>
        rw [start] at h
        cases h
      | none =>
        rw [start] at h
        exact ⟨not_prefix_of_isPrefixOf? start, ih h⟩
  · intro nowhere
    cases found : textAfter? part text with
    | none => rfl
    | some after =>
      obtain ⟨front, whole, _⟩ := exists_firstIn found
      exact absurd ⟨front, after, by rw [whole, List.append_assoc]⟩ nowhere

theorem occursIn_iff {part text : List Char} : occursIn part text = true ↔ part <:+: text := by
  rw [occursIn, Option.isSome_iff_ne_none, ne_eq, textAfter?_eq_none_iff, not_not]

/-! ## Test classes -/

/-- The text goes on with `test/`, or with a language and `test/`. -/
def LeadsToTests (after : List Char) : Prop :=
  "test/".toList <+: after ∨
    ∃ language : List Char, '/' ∉ language ∧ language ++ "/test/".toList <+: after

theorem startsTestClasses_iff {after : List Char} :
    startsTestClasses after = true ↔ LeadsToTests after := by
  rw [startsTestClasses, Bool.or_eq_true, List.isPrefixOf_iff_prefix, LeadsToTests]
  refine or_congr_right ?_
  constructor
  · intro h
    by_cases slash : '/' ∈ after
    · obtain ⟨language, rest, rfl, clean⟩ := List.eq_append_cons_of_mem slash
      rw [dropWhile_ne_append rest clean] at h
      obtain ⟨more, goesOn⟩ := List.isPrefixOf_iff_prefix.mp h
      refine ⟨language, clean, more, ?_⟩
      rw [← goesOn, List.append_assoc]
      rfl
    · rw [dropWhile_ne_eq_nil slash] at h
      cases h
  · rintro ⟨language, clean, more, rfl⟩
    have behind : (language ++ "/test/".toList ++ more).dropWhile (· ≠ '/') =
        '/' :: ("test/".toList ++ more) := by
      rw [List.append_assoc]
      exact dropWhile_ne_append _ clean
    rw [behind]
    exact List.isPrefixOf_iff_prefix.mpr (List.prefix_append _ _)

/-! ## Rows -/

/-- What is searched for, without the slash at its end. -/
def buildClasses : List Char := "/build/classes".toList

theorem marker_eq : "/build/classes/".toList = buildClasses ++ ['/'] := rfl

/-- `/build/classes`, so many times in a row. -/
def buildRow (times : Nat) : List Char := (List.replicate times buildClasses).flatten

theorem buildRow_succ (times : Nat) : buildRow (times + 1) = buildClasses ++ buildRow times := by
  rw [buildRow, List.replicate_succ, List.flatten_cons, buildRow]

theorem buildRow_succ' (times : Nat) : buildRow (times + 1) = buildRow times ++ buildClasses := by
  rw [buildRow, List.replicate_succ', List.flatten_append, List.flatten_singleton, buildRow]

/-- A row with a slash behind it starts with a slash. -/
theorem exists_slash (times : Nat) (after : List Char) :
    ∃ more, buildRow times ++ '/' :: after = '/' :: more := by
  cases times with
  | zero => exact ⟨after, rfl⟩
  | succ times => exact ⟨_, by rw [buildRow_succ]; rfl⟩

/-- So many `/build/classes` in a row, with none in front of them, lead to tests. -/
def TestRow (uri : List Char) (times : Nat) : Prop :=
  ∃ front after, uri = front ++ (buildRow times ++ '/' :: after) ∧ ¬ buildClasses <:+ front ∧
    LeadsToTests after

/-- Two occurrences of what is searched for share a slash at most. -/
theorem length_le_of_markers {front front' after after' : List Char}
    (same : front ++ (buildClasses ++ '/' :: after) = front' ++ (buildClasses ++ '/' :: after'))
    (before : front.length < front'.length) :
    front.length + buildClasses.length ≤ front'.length := by
  -- The marker has no border but the slash: cut off from the front, it starts no marker again.
  have border : ∀ k < buildClasses.length,
      (buildClasses ++ ['/']).drop k <+: buildClasses ++ ['/'] → k = 0 := by decide
  obtain ⟨between, rfl⟩ : front <+: front' :=
    List.prefix_of_prefix_length_le ⟨_, same⟩ (List.prefix_append _ _) (Nat.le_of_lt before)
  rw [List.append_assoc, List.append_cancel_left_eq] at same
  by_contra! short
  rw [List.length_append] at short before
  have cut := congrArg (List.drop between.length) same
  rw [List.drop_left, List.append_cons, List.append_cons _ _ after',
    List.drop_append_of_le_length (by rw [List.length_append]; omega)] at cut
  have within : (buildClasses ++ ['/']).drop between.length <+: buildClasses ++ ['/'] :=
    List.prefix_of_prefix_length_le ⟨_, cut⟩ (List.prefix_append _ _) (by
      rw [List.length_drop]
      omega)
  have zero := border between.length (by omega) within
  omega

section Step

variable {uri front after : List Char} (found : FirstIn "/build/classes/".toList uri front after)
include found

theorem FirstIn.marker : uri = front ++ (buildClasses ++ '/' :: after) := by
  rw [found.whole, marker_eq, List.append_assoc]
  rfl

/-- There is none in front of the first one. -/
theorem FirstIn.not_suffix : ¬ buildClasses <:+ front := by
  rintro ⟨other, rfl⟩
  obtain ⟨more, slash⟩ := exists_slash 1 after
  have split : uri = other ++ ("/build/classes/".toList ++ more) := by
    rw [marker_eq, List.append_assoc buildClasses, List.singleton_append, ← slash, found.marker,
      List.append_assoc]
    rfl
  have length := found.first _ _ split
  rw [List.length_append] at length
  have nonempty : 0 < buildClasses.length := by decide
  omega

/-- What is found later is a row of its own, or it makes the row of the first one longer by two. -/
theorem FirstIn.testRow_of_after {n : Nat} (h : TestRow after (2 * n + 1)) :
    ∃ m, TestRow uri (2 * m + 1) := by
  obtain ⟨front', after', rfl, alone, leads⟩ := h
  by_cases shared : '/' :: front' = buildClasses
  · refine ⟨n + 1, front, after', ?_, found.not_suffix, leads⟩
    rw [found.marker, ← List.cons_append, shared, Nat.mul_succ, buildRow_succ (2 * n + 2),
      buildRow_succ (2 * n + 1)]
    simp only [List.append_assoc]
  · refine ⟨n, front ++ (buildClasses ++ '/' :: front'), after', ?_, ?_, leads⟩
    · rw [found.marker]
      simp only [List.append_assoc, List.cons_append]
    · rintro ⟨other, split⟩
      -- The one that ends in front of the row starts behind the first one, and shares a slash with
      -- it at most.
      obtain ⟨more, slash⟩ := exists_slash (2 * n + 1) after'
      have same : front ++ (buildClasses ++
            '/' :: (front' ++ (buildRow (2 * n + 1) ++ '/' :: after'))) =
          other ++ (buildClasses ++ '/' :: more) := by
        rw [← slash, ← List.append_assoc other, split]
        simp only [List.append_assoc, List.cons_append]
      have lengths := congrArg List.length split
      simp only [List.length_append, List.length_cons] at lengths
      have apart := length_le_of_markers same (by omega)
      have within : buildClasses <:+ '/' :: front' := by
        refine List.suffix_of_suffix_length_le ⟨other, split⟩ ?_ ?_
        · exact ⟨front ++ buildClasses, List.append_assoc _ _ _⟩
        · rw [List.length_cons]
          omega
      rcases List.suffix_cons_iff.mp within with same | inside
      · exact shared same.symm
      · exact alone inside

/-- A row starts where the first one is, or behind it. -/
theorem FirstIn.leads_of_testRow {n : Nat} (h : TestRow uri (2 * n + 1)) :
    LeadsToTests after ∨ ∃ m, TestRow after (2 * m + 1) := by
  obtain ⟨front', after', split, alone, leads⟩ := h
  obtain ⟨more, slash⟩ := exists_slash (2 * n) after'
  rw [buildRow_succ, List.append_assoc, slash] at split
  have marker : uri = front' ++ ("/build/classes/".toList ++ more) := split
  have same := found.marker.symm.trans split
  rcases Nat.lt_or_eq_of_le (found.first _ _ marker) with before | here
  · have apart := length_le_of_markers same before
    obtain ⟨between, rfl⟩ : front <+: front' :=
      List.prefix_of_prefix_length_le ⟨_, same⟩ (List.prefix_append _ _) (Nat.le_of_lt before)
    rw [List.append_assoc, List.append_cancel_left_eq] at same
    rw [List.length_append] at apart
    obtain ⟨gap, rfl⟩ : buildClasses <+: between :=
      List.prefix_of_prefix_length_le ⟨_, same⟩ (List.prefix_append _ _) (by omega)
    rw [List.append_assoc, List.append_cancel_left_eq] at same
    cases gap with
    | nil => exact absurd ⟨front, by rw [List.append_nil]⟩ alone
    | cons c gap =>
      obtain ⟨rfl, rest⟩ := List.cons.inj same
      refine .inr ⟨n, gap, after', ?_, ?_, leads⟩
      · rw [rest, buildRow_succ, List.append_assoc, slash]
        rfl
      · refine fun inside => alone (inside.trans ?_)
        exact ⟨front ++ (buildClasses ++ ['/']), by simp⟩
  · obtain ⟨rfl, rest⟩ := List.append_inj same here
    obtain rfl : after = more := by simpa using rest
    cases n with
    | zero => exact .inl ((List.cons.inj slash).2 ▸ leads)
    | succ n =>
      rw [Nat.mul_succ, buildRow_succ] at slash
      refine .inr ⟨n, buildClasses.tail, after', ?_, by decide, leads⟩
      exact (List.cons.inj slash).2.symm

theorem FirstIn.testRow_iff :
    (∃ n, TestRow uri (2 * n + 1)) ↔ LeadsToTests after ∨ ∃ n, TestRow after (2 * n + 1) := by
  constructor
  · rintro ⟨n, row⟩
    exact found.leads_of_testRow row
  · rintro (leads | ⟨n, row⟩)
    · refine ⟨0, front, after, ?_, found.not_suffix, leads⟩
      rw [found.marker, buildRow_succ, List.append_assoc]
      rfl
    · exact found.testRow_of_after row

end Step

theorem infix_of_testRow {uri : List Char} {n : Nat} (h : TestRow uri (n + 1)) :
    "/build/classes/".toList <:+: uri := by
  obtain ⟨front, after, rfl, _, _⟩ := h
  obtain ⟨more, slash⟩ := exists_slash n after
  refine ⟨front, more, ?_⟩
  rw [buildRow_succ, List.append_assoc buildClasses, slash, marker_eq]
  simp

/-- The search meets the rows of odd length: the markers of a row share their slashes, and each time
the search goes on behind the slash of the last one. -/
theorem hasTestClasses_iff {fuel : Nat} {uri : List Char} (enough : uri.length ≤ fuel) :
    hasTestClasses fuel uri = true ↔ ∃ n, TestRow uri (2 * n + 1) := by
  induction fuel generalizing uri with
  | zero =>
    obtain rfl := List.length_eq_zero_iff.mp (Nat.le_zero.mp enough)
    rw [hasTestClasses.eq_def]
    constructor
    · exact fun h => nomatch h
    · rintro ⟨n, row⟩
      exact absurd (infix_of_testRow row) (by decide)
  | succ fuel ih =>
    rw [hasTestClasses.eq_def]
    cases found : textAfter? "/build/classes/".toList uri with
    | none =>
      constructor
      · exact fun h => nomatch h
      · rintro ⟨n, row⟩
        exact absurd (infix_of_testRow row) (textAfter?_eq_none_iff.mp found)
    | some after =>
      obtain ⟨front, first⟩ := exists_firstIn found
      have shorter := congrArg List.length first.marker
      rw [List.length_append, List.length_append, List.length_cons] at shorter
      dsimp only
      rw [Bool.or_eq_true, startsTestClasses_iff, first.testRow_iff, ih (by omega)]

/-! ## Test output -/

/-- The text stands in the layout of a build for the output of tests: that of Maven, of IntelliJ, or
of Gradle without or with a directory for each language. -/
def InTestOutput (uri : List Char) : Prop :=
  "/target/test-classes/".toList <:+: uri ∨ "/out/test/".toList <:+: uri ∨
    "/build/classes/test/".toList <:+: uri ∨
    ∃ language : List Char, '/' ∉ language ∧
      "/build/classes/".toList ++ language ++ "/test/".toList <:+: uri

/-- In front of a marker there is the start of its row. -/
theorem exists_buildRow (front : List Char) :
    ∃ start n, front = start ++ buildRow n ∧ ¬ buildClasses <:+ start := by
  by_cases ends : buildClasses <:+ front
  · obtain ⟨shorter, whole⟩ := ends
    have less : shorter.length < front.length := by
      rw [← whole, List.length_append]
      exact Nat.lt_add_of_pos_right (by decide)
    obtain ⟨start, n, rfl, alone⟩ := exists_buildRow shorter
    exact ⟨start, n + 1, by rw [buildRow_succ', ← List.append_assoc, whole], alone⟩
  · exact ⟨front, 0, (List.append_nil _).symm, ends⟩
termination_by front.length

/-- Every marker that leads to tests is the last one of a row. -/
theorem exists_testRow_iff {uri : List Char} :
    (∃ n, TestRow uri (n + 1)) ↔
      ∃ front after, uri = front ++ ("/build/classes/".toList ++ after) ∧ LeadsToTests after := by
  constructor
  · rintro ⟨n, front, after, rfl, _, leads⟩
    refine ⟨front ++ buildRow n, after, ?_, leads⟩
    rw [buildRow_succ', marker_eq]
    simp
  · rintro ⟨front, after, rfl, leads⟩
    obtain ⟨start, n, rfl, alone⟩ := exists_buildRow front
    refine ⟨n, start, after, ?_, alone, leads⟩
    rw [buildRow_succ', marker_eq]
    simp

theorem inTestOutput_iff {uri : List Char} : InTestOutput uri ↔
    "/target/test-classes/".toList <:+: uri ∨ "/out/test/".toList <:+: uri ∨
      ∃ n, TestRow uri (n + 1) := by
  rw [InTestOutput, exists_testRow_iff]
  refine or_congr_right (or_congr_right ?_)
  constructor
  · rintro (⟨front, more, whole⟩ | ⟨language, single, front, more, whole⟩)
    · refine ⟨front, "test/".toList ++ more, ?_, .inl (List.prefix_append _ _)⟩
      rw [← whole, List.append_assoc]
      rfl
    · refine ⟨front, language ++ "/test/".toList ++ more, ?_,
        .inr ⟨language, single, List.prefix_append _ _⟩⟩
      rw [← whole]
      simp only [List.append_assoc]
  · rintro ⟨front, after, rfl, ⟨more, rfl⟩ | ⟨language, single, more, rfl⟩⟩
    · exact .inl ⟨front, more, by rw [List.append_assoc]; rfl⟩
    · exact .inr ⟨language, single, front, more, by simp only [List.append_assoc]⟩

/-- What is told to be test output is test output. Of the Gradle layout only rows of an odd number
of `/build/classes` are noticed, where any number leads to tests. -/
theorem isTestLocation_iff (uri : String) :
    (isTestLocation uri = true ↔ "/target/test-classes/".toList <:+: uri.toList ∨
      "/out/test/".toList <:+: uri.toList ∨ ∃ n, TestRow uri.toList (2 * n + 1)) ∧
    (InTestOutput uri.toList ↔ "/target/test-classes/".toList <:+: uri.toList ∨
      "/out/test/".toList <:+: uri.toList ∨ ∃ n, TestRow uri.toList (n + 1)) := by
  constructor
  · have enough : uri.toList.length ≤ uri.length := Nat.le_of_eq String.length_toList
    rw [isTestLocation, Bool.or_eq_true, Bool.or_eq_true, occursIn_iff, occursIn_iff,
      hasTestClasses_iff enough, or_assoc]
  · exact inTestOutput_iff

/-- The second marker of a row is passed over. -/
example : isTestLocation "file:///x/build/classes/build/classes/test/A.class" = false ∧
    isTestLocation "file:///x/build/classes/java/build/classes/test/A.class" = true := by decide

end ClassAtlas
