import ClassAtlas.Glob.Search
import ClassAtlas.Proofs.Disk.Joined
import ClassAtlas.Proofs.Results
import Mathlib.Data.List.Basic
import Mathlib.Data.List.TakeDrop
import Mathlib.Data.List.TakeWhile

/-!
# How patterns are spelled

`Glob.Spells text tokens`: the text is a pattern with these tokens, `**` not being one of them. A
text without slashes, other than `**`, compiles exactly if it spells a pattern
(`Glob.compile_eq_ok_iff`), and texts that spell patterns do so one behind the other
(`Glob.Spells.append`).
-/

namespace ClassAtlas.Glob

/-- The tokens of a text. A star is followed by none, and the first character of a set closes
nothing. -/
inductive Spells : List Char → List Token → Prop
  | nil : Spells [] []
  | anyChar {text : List Char} {tokens : List Token} (rest : Spells text tokens) :
    Spells ('?' :: text) (.anyChar :: tokens)
  | anyText {text : List Char} {tokens : List Token} (alone : text.head? ≠ some '*')
    (rest : Spells text tokens) : Spells ('*' :: text) (.anyText :: tokens)
  | within {first : Char} {more text : List Char} {tokens : List Token} (positive : first ≠ '!')
    (open' : ']' ∉ more) (rest : Spells text tokens) :
    Spells ('[' :: first :: (more ++ ']' :: text)) (.within (charSets (first :: more)) :: tokens)
  | except {first : Char} {more text : List Char} {tokens : List Token} (open' : ']' ∉ more)
    (rest : Spells text tokens) :
    Spells ('[' :: '!' :: first :: (more ++ ']' :: text))
      (.except (charSets (first :: more)) :: tokens)
  | literal {c : Char} {text : List Char} {tokens : List Token}
    (plain : c ≠ '?' ∧ c ≠ '*' ∧ c ≠ '[') (rest : Spells text tokens) :
    Spells (c :: text) (.literal c :: tokens)

namespace Spells

variable {text other : List Char} {tokens more : List Token}

/-- Patterns are spelled one behind the other, unless two stars meet. -/
theorem append (h : Spells text tokens) (h' : Spells other more) (apart : other.head? ≠ some '*') :
    Spells (text ++ other) (tokens ++ more) := by
  induction h with
  | nil => exact h'
  | anyChar _ ih => exact .anyChar ih
  | @anyText text tokens alone rest ih =>
    refine .anyText ?_ ih
    cases text with
    | nil => exact apart
    | cons c text => exact alone
  | within positive open' _ ih =>
    rw [List.cons_append, List.cons_append, List.append_assoc]
    exact .within positive open' ih
  | except open' _ ih =>
    rw [List.cons_append, List.cons_append, List.cons_append, List.append_assoc]
    exact .except open' ih
  | literal plain _ ih => exact .literal plain ih

/-- None of the tokens is `**`. -/
theorem once (h : Spells text tokens) : (Pattern.mk tokens).isRecursive = false := by
  rw [Pattern.isRecursive, Bool.eq_false_iff]
  intro inside
  have inside : Token.anyComponents ∈ tokens := List.contains_iff_mem.mp inside
  induction h with
  | nil => cases inside
  | anyChar _ ih | anyText _ _ ih | within _ _ _ ih | except _ _ ih | literal _ _ ih =>
    rcases List.mem_cons.mp inside with same | inside
    · cases same
    · exact ih (List.contains_iff_mem.mpr inside) inside

end Spells

/-- Where each part between slashes spells a pattern, so does the whole. -/
theorem exists_spells_of_parts {text : List Char}
    (each : ∀ part ∈ Path.partsOf (String.ofList text), ∃ tokens, Spells part tokens) :
    ∃ tokens, Spells text tokens := by
  by_cases slash : '/' ∈ text
  · obtain ⟨part, more, split, clean⟩ := List.eq_append_cons_of_mem slash
    rw [split, Path.partsOf_append_slash] at each
    obtain ⟨front, behind⟩ := List.forall_mem_append.mp each
    obtain ⟨first, spelled⟩ := exists_spells_of_parts front
    obtain ⟨others, spelled'⟩ := exists_spells_of_parts behind
    rw [split]
    exact ⟨_, spelled.append (.literal (by decide) spelled') (by simp)⟩
  · by_cases empty : text = []
    · exact ⟨[], empty ▸ .nil⟩
    · refine each text ?_
      rw [Path.partsOf, String.toList_ofList, List.splitOn_eq_singleton slash]
      simpa using empty
termination_by text.length
decreasing_by all_goals simp only [split, List.length_append, List.length_cons]; omega

/-! ## Compiling -/

theorem closeSet?_eq_some_iff {text content after : List Char} :
    closeSet? text = some (content, after) ↔
      ∃ first more, text = first :: (more ++ ']' :: after) ∧ content = first :: more ∧
        ']' ∉ more := by
  constructor
  · intro closed
    unfold closeSet? at closed
    split at closed
    · cases closed
    next first rest =>
      rw [List.span_eq_takeWhile_dropWhile] at closed
      by_cases there : ']' ∈ rest
      · obtain ⟨more, behind, rfl, inside⟩ := List.eq_append_cons_of_mem there
        rw [takeWhile_ne_append behind inside, dropWhile_ne_append behind inside] at closed
        cases closed
        exact ⟨first, more, rfl, rfl, inside⟩
      · rw [dropWhile_ne_eq_nil there] at closed
        cases closed
  · rintro ⟨first, more, rfl, rfl, inside⟩
    rw [closeSet?, List.span_eq_takeWhile_dropWhile, takeWhile_ne_append after inside,
      dropWhile_ne_append after inside]

section Steps

variable {fuel position : Nat} {previous? : Option Char} {reversed : List Token} {text : List Char}

attribute [local simp] compileFrom

theorem compileFrom_anyText (alone : text.head? ≠ some '*') :
    compileFrom (fuel + 1) position previous? reversed ('*' :: text) =
      compileFrom fuel (position + 1) (some '*') (.anyText :: reversed) text := by
  have stars : ('*' :: text).takeWhile (· = '*') = ['*'] := by
    cases text with
    | nil => rfl
    | cons c text =>
      have other : c ≠ '*' := fun same => alone (same ▸ rfl)
      simp [other]
  conv_lhs => unfold compileFrom
  rw [stars]
  rfl

theorem compileFrom_within {content after : List Char} (positive : text.head? ≠ some '!')
    (closed : closeSet? text = some (content, after)) :
    compileFrom (fuel + 1) position previous? reversed ('[' :: text) =
      compileFrom fuel (position + content.length + 2) (some ']')
        (.within (charSets content) :: reversed) after := by
  have notExcept : ∀ rest, text ≠ '!' :: rest := fun rest same => positive (same ▸ rfl)
  simp [closed]

theorem compileFrom_except {content after : List Char}
    (closed : closeSet? text = some (content, after)) :
    compileFrom (fuel + 1) position previous? reversed ('[' :: '!' :: text) =
      compileFrom fuel (position + content.length + 3) (some ']')
        (.except (charSets content) :: reversed) after := by
  simp [closed]

theorem compileFrom_literal {c : Char} (plain : c ≠ '?' ∧ c ≠ '*' ∧ c ≠ '[') :
    compileFrom (fuel + 1) position previous? reversed (c :: text) =
      compileFrom fuel (position + 1) (some c) (.literal c :: reversed) text := by
  conv_lhs => unfold compileFrom
  split <;> simp_all

/-- Two stars mean `**` or nothing. -/
theorem compileFrom_stars (inside : previous? ≠ some '/') (clean : '/' ∉ text)
    (other : previous? = none → text ≠ []) {tokens : List Token} :
    compileFrom (fuel + 1) position previous? reversed ('*' :: '*' :: text) ≠ .ok tokens := by
  rw [compileFrom]
  by_cases third : text.head? = some '*'
  · obtain ⟨rest, rfl⟩ := List.head?_eq_some_iff.mp third
    have many : 2 < (('*' :: '*' :: '*' :: rest).takeWhile (· = '*')).length := by simp
    rw [if_pos many]
    exact fun same => nomatch same
  · have two : ('*' :: '*' :: text).takeWhile (· = '*') = ['*', '*'] := by
      cases text with
      | nil => rfl
      | cons c text =>
        have plain : c ≠ '*' := fun same => third (same ▸ rfl)
        simp [plain]
    rw [two]
    by_cases first : previous? = none
    · cases text with
      | nil => exact absurd rfl (other first)
      | cons c text =>
        have slash : c ≠ '/' := fun same => clean (same ▸ List.mem_cons_self)
        simp [first, slash]
    · simp [first, inside]

end Steps

/-- A text that spells a pattern compiles to it. -/
theorem compileFrom_of_spells {text : List Char} {tokens : List Token} (h : Spells text tokens)
    {fuel : Nat} (enough : text.length ≤ fuel) (position : Nat) (previous? : Option Char)
    (reversed : List Token) :
    compileFrom fuel position previous? reversed text = .ok (reversed.reverse ++ tokens) := by
  induction h generalizing fuel position previous? reversed with
  | nil =>
    rw [List.append_nil]
    unfold compileFrom
    rfl
  | anyChar _ ih =>
    obtain _ | fuel := fuel
    · cases enough
    rw [List.append_cons, ← List.reverse_cons]
    exact ih (Nat.le_of_succ_le_succ enough) _ _ _
  | anyText alone _ ih =>
    obtain _ | fuel := fuel
    · cases enough
    rw [compileFrom_anyText alone, ih (Nat.le_of_succ_le_succ enough), List.reverse_cons,
      List.append_assoc, List.singleton_append]
  | @within first more text tokens positive open' _ ih =>
    obtain _ | fuel := fuel
    · cases enough
    have enough : text.length ≤ fuel := by
      simp only [List.length_cons, List.length_append] at enough
      omega
    have positive : (first :: (more ++ ']' :: text)).head? ≠ some '!' :=
      fun same => positive (Option.some.inj same)
    rw [compileFrom_within positive (closeSet?_eq_some_iff.mpr ⟨first, more, rfl, rfl, open'⟩),
      ih enough, List.reverse_cons, List.append_assoc, List.singleton_append]
  | @except first more text tokens open' _ ih =>
    obtain _ | fuel := fuel
    · cases enough
    have enough : text.length ≤ fuel := by
      simp only [List.length_cons, List.length_append] at enough
      omega
    rw [compileFrom_except (closeSet?_eq_some_iff.mpr ⟨first, more, rfl, rfl, open'⟩), ih enough,
      List.reverse_cons, List.append_assoc, List.singleton_append]
  | literal plain _ ih =>
    obtain _ | fuel := fuel
    · cases enough
    rw [compileFrom_literal plain, ih (Nat.le_of_succ_le_succ enough), List.reverse_cons,
      List.append_assoc, List.singleton_append]

/-- What compiles starts with a token, and the rest compiles behind it. -/
theorem exists_of_compileFrom_cons {fuel position : Nat} {previous? : Option Char}
    {reversed tokens : List Token} {c : Char} {text : List Char} (clean : '/' ∉ c :: text)
    (inside : previous? ≠ some '/') (other : previous? = none → c :: text ≠ ['*', '*'])
    (h : compileFrom (fuel + 1) position previous? reversed (c :: text) = .ok tokens) :
    ∃ token after position' last, after <:+ text ∧ last ≠ '/' ∧
      compileFrom fuel position' (some last) (token :: reversed) after = .ok tokens ∧
      ∀ more, Spells after more → Spells (c :: text) (token :: more) := by
  by_cases any : c = '?'
  · subst any
    exact ⟨_, text, _, '?', List.suffix_refl _, by decide, h, fun _ => .anyChar⟩
  by_cases star : c = '*'
  · subst star
    by_cases alone : text.head? = some '*'
    · obtain ⟨rest, rfl⟩ := List.head?_eq_some_iff.mp alone
      have behind : '/' ∉ rest := fun there => clean (by simp [there])
      have more : previous? = none → rest ≠ [] := fun first empty => other first (empty ▸ rfl)
      exact absurd h (compileFrom_stars inside behind more)
    · rw [compileFrom_anyText alone] at h
      exact ⟨_, text, _, '*', List.suffix_refl _, by decide, h, fun _ => .anyText alone⟩
  by_cases set : c = '['
  · subst set
    by_cases negative : text.head? = some '!'
    · obtain ⟨rest, rfl⟩ := List.head?_eq_some_iff.mp negative
      cases closed : closeSet? rest with
      | none => simp [compileFrom, closed] at h
      | some set =>
        rw [compileFrom_except closed] at h
        obtain ⟨first, more, rfl, content, open'⟩ := closeSet?_eq_some_iff.mp closed
        refine ⟨_, set.2, _, ']', ⟨'!' :: first :: (more ++ [']']), by simp⟩, by decide, h, ?_⟩
        rw [content]
        exact fun _ => .except open'
    · cases closed : closeSet? text with
      | none =>
        have positive : ∀ rest, text ≠ '!' :: rest := fun rest same => negative (same ▸ rfl)
        simp [compileFrom, closed] at h
      | some set =>
        rw [compileFrom_within negative closed] at h
        obtain ⟨first, more, rfl, content, open'⟩ := closeSet?_eq_some_iff.mp closed
        refine ⟨_, set.2, _, ']', ⟨first :: (more ++ [']']), by simp⟩, by decide, h, ?_⟩
        rw [content]
        exact fun _ => .within (fun same => negative (same ▸ rfl)) open'
  · rw [compileFrom_literal ⟨any, star, set⟩] at h
    have notSlash : c ≠ '/' := fun same => clean (same ▸ List.mem_cons_self)
    exact ⟨_, text, _, c, List.suffix_refl _, notSlash, h, fun _ => .literal ⟨any, star, set⟩⟩

/-- Without slashes, and not being `**`, only what spells a pattern compiles. -/
theorem spells_of_compileFrom {fuel position : Nat} {previous? : Option Char}
    {reversed tokens : List Token} {text : List Char} (enough : text.length ≤ fuel)
    (clean : '/' ∉ text) (inside : previous? ≠ some '/')
    (other : previous? = none → text ≠ ['*', '*'])
    (h : compileFrom fuel position previous? reversed text = .ok tokens) :
    ∃ more, Spells text more ∧ tokens = reversed.reverse ++ more := by
  induction fuel generalizing position previous? reversed text with
  | zero =>
    obtain rfl := List.eq_nil_of_length_eq_zero (Nat.le_zero.mp enough)
    cases h
    exact ⟨[], .nil, (List.append_nil _).symm⟩
  | succ fuel ih =>
    cases text with
    | nil =>
      cases h
      exact ⟨[], .nil, (List.append_nil _).symm⟩
    | cons c text =>
      obtain ⟨token, after, _, last, behind, notSlash, rest, spells⟩ :=
        exists_of_compileFrom_cons clean inside other h
      have short : after.length ≤ fuel :=
        Nat.le_trans behind.length_le (Nat.le_of_succ_le_succ enough)
      have clean' : '/' ∉ after := fun there =>
        clean (List.mem_cons_of_mem _ (behind.subset there))
      obtain ⟨more, spelled, rfl⟩ := ih short clean' (fun same => notSlash (Option.some.inj same))
        (fun no => nomatch no) rest
      refine ⟨token :: more, spells more spelled, ?_⟩
      rw [List.reverse_cons, List.append_assoc, List.singleton_append]

theorem compile_of_spells {text : String} {tokens : List Token} (h : Spells text.toList tokens) :
    Pattern.compile text = .ok ⟨tokens⟩ := by
  rw [Pattern.compile, ← String.length_toList, compileFrom_of_spells h (Nat.le_refl _)]
  rfl

/-- A text without slashes that is not `**` compiles to the pattern that it spells, if any. -/
theorem compile_eq_ok_iff {text : String} {pattern : Pattern} (clean : '/' ∉ text.toList)
    (other : text ≠ "**") :
    Pattern.compile text = .ok pattern ↔ Spells text.toList pattern.tokens := by
  constructor
  · intro compiled
    rw [Pattern.compile, ← String.length_toList] at compiled
    obtain ⟨found, tokens, rfl⟩ := ok_of_map compiled
    obtain ⟨more, spelled, rfl⟩ := spells_of_compileFrom (Nat.le_refl _) clean (by decide)
      (fun _ same => other (String.toList_injective same)) tokens
    exact spelled
  · exact compile_of_spells

/-! ## Matching -/

/-- A star is met by any text with a rest that meets what follows. -/
theorem someRest_iff {passes : List Char → Bool} {text : List Char} :
    someRest passes text = true ↔ ∃ rest, rest <:+ text ∧ passes rest = true := by
  induction text with
  | nil => simp [someRest]
  | cons c text ih =>
    rw [someRest, Bool.or_eq_true, ih]
    constructor
    · rintro (whole | ⟨rest, below, passed⟩)
      · exact ⟨_, List.suffix_refl _, whole⟩
      · exact ⟨rest, below.trans (List.suffix_cons c text), passed⟩
    · rintro ⟨rest, below, passed⟩
      rcases List.suffix_cons_iff.mp below with rfl | below
      · exact .inl passed
      · exact .inr ⟨rest, below, passed⟩

/-! ## Literal texts -/

/-- The text has no character that means another in a pattern. -/
def Literal (text : List Char) : Prop := ∀ c ∈ text, c ≠ '?' ∧ c ≠ '*' ∧ c ≠ '['

instance : DecidablePred Literal := fun text =>
  List.decidableBAll (fun c => c ≠ '?' ∧ c ≠ '*' ∧ c ≠ '[') text

/-- The pattern that has no wildcards. -/
def Pattern.literal (text : String) : Pattern := ⟨text.toList.map .literal⟩

theorem spells_literal {text : List Char} (literal : Literal text) :
    Spells text (text.map .literal) := by
  induction text with
  | nil => exact .nil
  | cons c text ih =>
    obtain ⟨first, others⟩ := List.forall_mem_cons.mp literal
    exact .literal first (ih others)

theorem compile_literal {text : String} (literal : Literal text.toList) :
    Pattern.compile text = .ok (.literal text) :=
  compile_of_spells (spells_literal literal)

/-- It stands for the text itself. -/
theorem plain?_literal (text : String) : (Pattern.literal text).plain? = some text := by
  have chars : ∀ chars : List Char, (chars.map Token.literal).mapM Token.plain? = some chars := by
    intro chars
    induction chars with
    | nil => rfl
    | cons c chars ih =>
      rw [List.map_cons, List.mapM_cons, ih]
      rfl
  rw [Pattern.plain?, Pattern.literal, chars, Option.map_some, String.ofList_toList]

end ClassAtlas.Glob
