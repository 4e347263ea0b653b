import ClassAtlas.Proofs.Classpath.Roots
import ClassAtlas.Proofs.Disk.Ordered
import ClassAtlas.Proofs.Disk.Reduced
import ClassAtlas.Proofs.Glob.Spelled

/-!
# Jars by a wildcard

The entry `d/*` stands for the jars of the directory `d`, if no component of `d` has a character
that means another in a pattern. Such characters are not escaped: the entry stands for the jars of
the directories that the components describe, whether or not `d` is one of them (`roots_wildcard`).
-/

namespace ClassAtlas

namespace Classpath

/-! ## Names of jars -/

/-- What jars are called, in any case. -/
def IsJarName (name : String) : Prop := ".jar".toList <:+ name.toList.map Char.toLower

instance : DecidablePred IsJarName := fun name =>
  inferInstanceAs (Decidable (".jar".toList <:+ name.toList.map Char.toLower))

theorem isUpper_iff {c : Char} : c.isUpper = true ↔ 'A'.val ≤ c.val ∧ c.val ≤ 'Z'.val :=
  decide_eq_true_iff

theorem toLower_of_isUpper {c : Char} (up : c.isUpper = true) : c.toLower.val = c.val + 32 := by
  have lowered : c.toLower = ⟨c.val + 32, _⟩ := dif_pos (isUpper_iff.mp up)
  rw [lowered]

theorem toLower_of_not_isUpper {c : Char} (other : ¬ c.isUpper = true) : c.toLower = c :=
  dif_neg (mt isUpper_iff.mpr other)

/-- A lower case letter is the lower case of itself and of its upper case. -/
theorem toLower_eq_letter_iff {c upper lower : Char} (isUpper : upper.isUpper = true)
    (down : upper.toLower = lower) (own : lower.toLower = lower) :
    c.toLower = lower ↔ c = lower ∨ c = upper := by
  constructor
  · intro same
    by_cases up : c.isUpper = true
    · have shifted := congrArg Char.val (same.trans down.symm)
      rw [toLower_of_isUpper up, toLower_of_isUpper isUpper] at shifted
      exact .inr (Char.ext ((UInt32.add_left_inj 32).mp shifted))
    · exact .inl ((toLower_of_not_isUpper up).symm.trans same)
  · rintro (rfl | rfl)
    · exact own
    · exact down

/-- A dot is the lower case of itself alone. -/
theorem toLower_eq_dot_iff {c : Char} : c.toLower = '.' ↔ c = '.' := by
  constructor
  · intro same
    by_cases up : c.isUpper = true
    · have shifted : c.val + 32 = '.'.val := by
        rw [← toLower_of_isUpper up, same]
      have sum := congrArg UInt32.toNat shifted
      have low : 65 ≤ c.val.toNat := (isUpper_iff.mp up).1
      have high : c.val.toNat ≤ 90 := (isUpper_iff.mp up).2
      have dot : '.'.val.toNat = 46 := rfl
      have step : (32 : UInt32).toNat = 32 := rfl
      rw [UInt32.toNat_add, dot, step] at sum
      omega
    · exact (toLower_of_not_isUpper up).symm.trans same
  · rintro rfl
    rfl

/-- What follows the star stands for the ending. -/
theorem matchTokens_ending (rest : List Char) :
    Glob.matchTokens jarNames.tokens.tail rest = true ↔
      rest.map Char.toLower = ".jar".toList := by
  have j : ∀ c : Char, c.toLower = 'j' ↔ c = 'j' ∨ c = 'J' :=
    fun c => toLower_eq_letter_iff rfl rfl rfl
  have a : ∀ c : Char, c.toLower = 'a' ↔ c = 'a' ∨ c = 'A' :=
    fun c => toLower_eq_letter_iff rfl rfl rfl
  have r : ∀ c : Char, c.toLower = 'r' ↔ c = 'r' ∨ c = 'R' :=
    fun c => toLower_eq_letter_iff rfl rfl rfl
  have ending : ".jar".toList = ['.', 'j', 'a', 'r'] := rfl
  rw [ending]
  rcases rest with _ | ⟨c₁, _ | ⟨c₂, _ | ⟨c₃, _ | ⟨c₄, _ | ⟨c₅, rest⟩⟩⟩⟩⟩
  all_goals simp [jarNames, Glob.matchTokens, Glob.Token.accepts, Glob.CharSet.has,
    toLower_eq_dot_iff, j, a, r]

theorem accepts_jarNames {name : String} : jarNames.accepts name = true ↔ IsJarName name := by
  have whole : Glob.matchTokens jarNames.tokens name.toList =
      Glob.someRest (Glob.matchTokens jarNames.tokens.tail) name.toList := rfl
  rw [Glob.Pattern.accepts_eq, whole, Glob.someRest_iff]
  constructor
  · rintro ⟨rest, ⟨front, split⟩, ends⟩
    refine ⟨front.map Char.toLower, ?_⟩
    rw [← (matchTokens_ending rest).mp ends, ← List.map_append, split]
  · rintro ⟨front, split⟩
    obtain ⟨front, rest, split, _, ends⟩ := List.map_eq_append_iff.mp split.symm
    exact ⟨rest, ⟨front, split.symm⟩, (matchTokens_ending rest).mpr ends⟩

/-! ## Jars of a directory -/

variable {disk : Disk} {directory path : Path}

/-- The path is that of a jar in the directory. -/
structure JarOf (disk : Disk) (directory path : Path) : Prop where
  child : ∃ children, disk.children directory = .ok children ∧ path ∈ children
  named : ∃ name, path.fileName? = some name ∧ IsJarName name

theorem finds_jarNames : Glob.Finds disk [jarNames] directory path ↔ JarOf disk directory path := by
  constructor
  · intro finds
    cases finds with
    | lookup plain => cases plain.symm.trans wild_jarNames.wildcard
    | child _ listed inside called accepted rest =>
      cases rest
      exact ⟨⟨_, listed, inside⟩, _, called, accepts_jarNames.mp accepted⟩
    | dots _ _ dotted =>
      rw [wild_jarNames.dotless] at dotted
      cases dotted
  · rintro ⟨⟨children, listed, inside⟩, name, called, jar⟩
    exact .child wild_jarNames.wildcard listed inside called (accepts_jarNames.mpr jar) (.here path)

/-- Two spellings of a directory have the same jars. -/
theorem JarOf.same {other : Path} {entries : List (String × FileTree)} (named : disk.root.Named)
    (there : disk.find directory = .ok (.directory entries))
    (there' : disk.find other = .ok (.directory entries))
    (same : directory.components = other.components) (jar : JarOf disk directory path) :
    ∃ jar', JarOf disk other jar' ∧ jar'.components = path.components := by
  obtain ⟨⟨children, listed, inside⟩, name, called, ending⟩ := jar
  obtain ⟨found, directory', member⟩ := Disk.children_eq_ok listed
  obtain rfl : entries = found := by
    rw [there] at directory'
    cases directory'
    rfl
  obtain ⟨entry, own, rfl⟩ := (member path).mp inside
  have fileName := (FileTree.named_of_mem (Disk.named_of_find named there) own).1
  obtain ⟨children', listed', inside'⟩ := Disk.child_of_entry there' own
  have equal : (other.join ⟨entry.1⟩).components = (directory.join ⟨entry.1⟩).components := by
    rw [Path.components_join_name (Disk.isEmpty_of_find there) fileName,
      Path.components_join_name (Disk.isEmpty_of_find there') fileName, same]
  refine ⟨other.join ⟨entry.1⟩, ⟨⟨children', listed', inside'⟩, name, ?_, ending⟩, equal⟩
  rw [Path.fileName_eq_of_components equal, called]

/-! ## The entry -/

/-- The entry for the jars of a directory. -/
def jarsEntry (directory : Path) : Path := directory.join ⟨wildcard⟩

theorem isAbsolute_jarsEntry (workingDirectory : Path) (absolute : directory.isAbsolute = true) :
    (Path.absolute workingDirectory (jarsEntry directory)).isAbsolute = true := by
  have joined : (jarsEntry directory).isAbsolute = true := Path.isAbsolute_join absolute _
  refine Path.isAbsolute_of_head_components ?_
  rw [Path.components_absolute _ joined, Path.components_of_isAbsolute joined]
  rfl

theorem fileName_wildcard : Path.FileName wildcard := by decide

/-- Made absolute, the entry has the components of the directory in its parent. -/
theorem partsOf_parent (workingDirectory : Path) (absolute : directory.isAbsolute = true) :
    (Path.absolute workingDirectory (jarsEntry directory)).fileName? = some wildcard ∧
      ∀ parent, (Path.absolute workingDirectory (jarsEntry directory)).parent? = some parent →
        Path.partsOf parent.text =
          (Path.partComponents directory.text.toList).map fun step => step.text.toList := by
  have nonempty := Path.isEmpty_of_isAbsolute absolute
  have absolute' : (jarsEntry directory).isAbsolute = true := Path.isAbsolute_join absolute _
  have steps : Path.partComponents (jarsEntry directory).text.toList =
      Path.partComponents directory.text.toList ++ [.name wildcard] := by
    have joined : (jarsEntry directory).components = directory.components ++ [.name wildcard] :=
      Path.components_join_name nonempty fileName_wildcard
    rw [Path.components_of_isAbsolute absolute, Path.components_of_isAbsolute absolute'] at joined
    exact (List.cons.inj joined).2
  have plain : (jarsEntry directory).text.toList.getLast? ≠ .some '/' := by
    rw [jarsEntry, Path.getLast?_text_join nonempty fileName_wildcard.relative
      fileName_wildcard.isEmpty]
    decide
  have stand : ∀ step ∈ Path.partComponents directory.text.toList, step.Stands :=
    fun step => Path.stands_of_mem_partComponents
  obtain ⟨start, root, same⟩ := Path.absolute_eq workingDirectory absolute'
  have own : start.isEmpty = false := by
    rcases root with rfl | rfl <;> rfl
  rw [if_neg plain, steps, Path.joinSteps_append_singleton] at same
  have around := Path.isEmpty_joinSteps own stand
  constructor
  · exact same ▸ Path.fileName?_join_name around fileName_wildcard
  · intro parent given
    have above := Path.parent_join_step around fileName_wildcard.stands
    rw [← same, given] at above
    rw [Option.some.inj above]
    exact Path.partsOf_trimEnd root stand

/-! ## What the entry stands for -/

/-- What the components of a directory say when they are read as patterns. -/
def patternsOf (directory : Path) : Except Glob.PatternError (List Glob.Pattern) :=
  (Path.partComponents directory.text.toList).mapM fun step => Glob.Pattern.compile step.text

/-- What the entry stands for is found by the components read as patterns. -/
theorem exists_mem_jars_iff (disk : Disk) (absolute : directory.isAbsolute = true) :
    ∃ parent : Path, parent.isEmpty = false ∧ Path.partsOf parent.text =
        (Path.partComponents directory.text.toList).map (fun step => step.text.toList) ∧
      ∀ path,
        path ∈ expand disk (Path.absolute disk.workingDirectory (jarsEntry directory)) ↔
        ∃ whole patterns, Glob.Pattern.compile (parent.join jarPattern).text = .ok whole ∧
          patternsOf directory = .ok patterns ∧
          path ∈ Glob.search disk (disk.searchBound (parent.join jarPattern).text)
            (patterns ++ [jarNames]) ⟨"/"⟩ := by
  obtain ⟨wild, parts⟩ := partsOf_parent disk.workingDirectory absolute
  obtain ⟨parent, given, above, searched⟩ :=
    exists_mem_expand_iff disk (isAbsolute_jarsEntry _ absolute) wild
  have patterns : (Path.partsOf parent.text).mapM
      (fun part => Glob.Pattern.compile (String.ofList part)) = patternsOf directory := by
    rw [parts parent given, patternsOf, List.mapM_map, Function.comp_def]
    simp only [String.ofList_toList]
  refine ⟨parent, Path.isEmpty_of_isAbsolute above, parts parent given, fun path => ?_⟩
  rw [searched path, patterns]

/-- There are levels enough for all patterns. -/
theorem length_le_searchBound (disk : Disk) {parent : Path} {patterns : List Glob.Pattern}
    (nonempty : parent.isEmpty = false)
    (own : (Path.partsOf parent.text).length = patterns.length) :
    (patterns ++ [jarNames]).length ≤ disk.searchBound (parent.join jarPattern).text := by
  have parts := Path.length_partsOf_le (parent.join jarPattern).text
  rw [Path.partsOf_join nonempty rfl, partsOf_jarPattern, List.length_append, own] at parts
  have room : 1 ≤ (Disk.maxLinks + 2) * (disk.root.size + 1) := Nat.mul_pos (by decide) (by omega)
  rw [Disk.searchBound, List.length_append]
  rw [List.length_singleton] at parts ⊢
  omega

/-- Behind parts that spell patterns, the pattern for jars is spelled. -/
theorem exists_compile_join {parent : Path} (nonempty : parent.isEmpty = false)
    (spelled : ∀ part ∈ Path.partsOf parent.text, ∃ tokens, Glob.Spells part tokens) :
    ∃ whole, Glob.Pattern.compile (parent.join jarPattern).text = .ok whole := by
  have jars : Glob.Spells jarPattern.text.toList jarNames.tokens :=
    (Glob.compile_eq_ok_iff (by decide) (by decide)).mp compile_jarPattern
  have each : ∀ part ∈ Path.partsOf (parent.join jarPattern).text,
      ∃ tokens, Glob.Spells part tokens := by
    rw [Path.partsOf_join nonempty rfl, partsOf_jarPattern]
    exact List.forall_mem_append.mpr ⟨spelled, List.forall_mem_singleton.mpr ⟨_, jars⟩⟩
  rw [← String.ofList_toList (s := (parent.join jarPattern).text)] at each
  obtain ⟨tokens, whole⟩ := Glob.exists_spells_of_parts each
  exact ⟨_, Glob.compile_of_spells whole⟩

/-- The components of the directory below the root spell the patterns, each its own. -/
def Patterned (directory : Path) (patterns : List Glob.Pattern) : Prop :=
  List.Forall₂ (fun step pattern => Glob.Spells (Path.Component.text step).toList pattern.tokens)
    (Path.partComponents directory.text.toList) patterns

theorem patternsOf_eq_ok_iff (absolute : directory.isAbsolute = true)
    (other : ∀ step ∈ directory.components, step.text ≠ "**") {patterns : List Glob.Pattern} :
    patternsOf directory = .ok patterns ↔ Patterned directory patterns := by
  rw [Path.components_of_isAbsolute absolute] at other
  have compiles : ∀ step ∈ Path.partComponents directory.text.toList, ∀ pattern,
      Glob.Pattern.compile step.text = .ok pattern ↔
        Glob.Spells step.text.toList pattern.tokens := fun step inside pattern =>
    Glob.compile_eq_ok_iff (Path.stands_of_mem_partComponents inside).clean
      (other step (List.mem_cons_of_mem _ inside))
  rw [patternsOf, mapM_eq_ok_iff, Patterned]
  constructor
  · intro each
    refine ((List.forall₂_and_left _ _).mpr ⟨compiles, each⟩).imp ?_
    exact fun _ pattern ⟨compiles, compiled⟩ => (compiles pattern).mp compiled
  · intro each
    refine ((List.forall₂_and_left _ _).mpr ⟨compiles, each⟩).imp ?_
    exact fun _ pattern ⟨compiles, spells⟩ => (compiles pattern).mpr spells

/-- The search finds the jars of the directories where the patterns lead. -/
theorem mem_search_jars {patterns : List Glob.Pattern} {levels : Nat}
    (once : ∀ pattern ∈ patterns, pattern.isRecursive = false)
    (enough : (patterns ++ [jarNames]).length ≤ levels) :
    path ∈ Glob.search disk levels (patterns ++ [jarNames]) ⟨"/"⟩ ↔
      ∃ around, Glob.Finds disk patterns ⟨"/"⟩ around ∧ JarOf disk around path := by
  have once' : ∀ pattern ∈ patterns ++ [jarNames], pattern.isRecursive = false :=
    List.forall_mem_append.mpr ⟨once, List.forall_mem_singleton.mpr wild_jarNames.once⟩
  rw [Glob.mem_search_iff (by simp) once' enough]
  constructor
  · intro finds
    obtain ⟨around, first, second⟩ := finds.exists_of_append
    exact ⟨around, first, finds_jarNames.mp second⟩
  · rintro ⟨around, first, jar⟩
    exact first.append (finds_jarNames.mpr jar)

/-- Where `**` is no component, the entry stands for the jars of the directories that the components
describe. -/
theorem mem_jars_iff (absolute : directory.isAbsolute = true)
    (other : ∀ step ∈ directory.components, step.text ≠ "**") :
    path ∈ expand disk (Path.absolute disk.workingDirectory (jarsEntry directory)) ↔
      ∃ patterns around, Patterned directory patterns ∧
        Glob.Finds disk patterns ⟨"/"⟩ around ∧ JarOf disk around path := by
  obtain ⟨parent, nonempty, parts, searched⟩ := exists_mem_jars_iff disk absolute
  rw [searched path]
  have found : ∀ patterns, Patterned directory patterns →
      (path ∈ Glob.search disk (disk.searchBound (parent.join jarPattern).text)
        (patterns ++ [jarNames]) ⟨"/"⟩ ↔
      ∃ around, Glob.Finds disk patterns ⟨"/"⟩ around ∧ JarOf disk around path) := by
    intro patterns spelled
    have once : ∀ pattern ∈ patterns, pattern.isRecursive = false := by
      intro pattern inside
      obtain ⟨step, _, spells⟩ := exists_of_mem_forall₂ spelled.flip inside
      exact spells.once
    have length : (Path.partsOf parent.text).length = patterns.length := by
      rw [parts, List.length_map, spelled.length_eq]
    exact mem_search_jars once (length_le_searchBound disk nonempty length)
  constructor
  · rintro ⟨_, patterns, _, given, inside⟩
    have spelled := (patternsOf_eq_ok_iff absolute other).mp given
    obtain ⟨around, finds, jar⟩ := (found patterns spelled).mp inside
    exact ⟨patterns, around, spelled, finds, jar⟩
  · rintro ⟨patterns, around, spelled, finds, jar⟩
    -- The whole text has to be a pattern too; it is one as its parts are.
    have each : ∀ part ∈ Path.partsOf parent.text, ∃ tokens, Glob.Spells part tokens := by
      rw [parts]
      refine List.forall_mem_map.mpr fun step inside => ?_
      obtain ⟨pattern, _, spells⟩ := exists_of_mem_forall₂ spelled inside
      exact ⟨_, spells⟩
    obtain ⟨whole, compiled⟩ := exists_compile_join nonempty each
    exact ⟨whole, patterns, compiled, (patternsOf_eq_ok_iff absolute other).mpr spelled,
      (found patterns spelled).mpr ⟨around, finds, jar⟩⟩

/-! ## Literal directories -/

/-- No component of the directory has a character that means another in a pattern. -/
def Literal (directory : Path) : Prop :=
  ∀ step ∈ directory.components, Glob.Literal step.text.toList

instance : DecidablePred Literal := fun directory =>
  inferInstanceAs (Decidable (∀ step ∈ directory.components, Glob.Literal step.text.toList))

theorem Literal.other (literal : Literal directory) :
    ∀ step ∈ directory.components, step.text ≠ "**" := by
  intro step inside stars
  have star : '*' ∈ step.text.toList := by
    rw [stars]
    decide
  exact (literal step inside _ star).2.1 rfl

theorem Literal.patterned_iff (literal : Literal directory) (absolute : directory.isAbsolute = true)
    {patterns : List Glob.Pattern} : Patterned directory patterns ↔
      patterns =
        (Path.partComponents directory.text.toList).map fun step => .literal step.text := by
  have own : patternsOf directory = .ok
      ((Path.partComponents directory.text.toList).map fun step => .literal step.text) := by
    rw [patternsOf, mapM_eq_ok_iff, List.forall₂_map_right_iff, List.forall₂_same]
    intro step inside
    refine Glob.compile_literal (literal step ?_)
    rw [Path.components_of_isAbsolute absolute]
    exact List.mem_cons_of_mem _ inside
  rw [← patternsOf_eq_ok_iff absolute literal.other, own, Except.ok.injEq, eq_comm]

/-- Components that are literal lead where they say. -/
theorem finds_literal {steps : List Path.Component} {base found : Path}
    {children : List (String × FileTree)} (nonempty : base.isEmpty = false)
    (stand : ∀ step ∈ steps, step.Stands)
    (there : disk.find (base.joinSteps steps) = .ok (.directory children)) :
    Glob.Finds disk (steps.map fun step => .literal step.text) base found ↔
      found = base.joinSteps steps := by
  induction steps generalizing base with
  | nil =>
    constructor
    · rintro ⟨⟩
      rfl
    · rintro rfl
      exact .here _
  | cons step steps ih =>
    obtain ⟨first, others⟩ := List.forall_mem_cons.mp stand
    have nonempty' : (base.join ⟨step.text⟩).isEmpty = false :=
      Path.isEmpty_join nonempty first.relative
    have onward := ih nonempty' others there
    rw [List.map_cons]
    constructor
    · intro finds
      cases finds with
      | lookup plain _ rest =>
        obtain rfl := Option.some.inj ((Glob.plain?_literal step.text).symm.trans plain)
        exact onward.mp rest
      | child wild | dots wild => cases (Glob.plain?_literal step.text).symm.trans wild
    · intro same
      obtain ⟨_, next⟩ := Disk.exists_directory_of_joinSteps nonempty' others there
      obtain ⟨_, here⟩ := Disk.exists_directory_of_join nonempty first next
      have leads : Glob.Leads disk base step.text := by
        unfold Glob.Leads
        split
        · exact Disk.isDirectory_eq_true_iff.mpr ⟨_, here⟩
        · rw [next]
          exact .inl rfl
      exact .lookup (Glob.plain?_literal step.text) leads (onward.mpr same)

/-- The entry for a literal directory stands for its jars, in its shortest spelling. -/
theorem Literal.mem_jars_iff (literal : Literal directory) (absolute : directory.isAbsolute = true)
    (there : disk.isDirectory directory = true) :
    path ∈ expand disk (Path.absolute disk.workingDirectory (jarsEntry directory)) ↔
      JarOf disk directory.reduced path := by
  obtain ⟨children, found⟩ := Disk.isDirectory_eq_true_iff.mp there
  have reduced := Disk.find_reduced absolute found
  have stand : ∀ step ∈ Path.partComponents directory.text.toList, step.Stands :=
    fun step => Path.stands_of_mem_partComponents
  rw [Classpath.mem_jars_iff absolute literal.other]
  constructor
  · rintro ⟨patterns, around, spelled, finds, jar⟩
    rw [(literal.patterned_iff absolute).mp spelled, finds_literal rfl stand reduced] at finds
    subst finds
    exact jar
  · intro jar
    exact ⟨_, _, (literal.patterned_iff absolute).mpr rfl,
      (finds_literal rfl stand reduced).mpr rfl, jar⟩

/-! ## Roots -/

/-- What the entry for the jars of a directory stands for. -/
structure StandsForJars (disk : Disk) (directory : Path) (roots : List Path) : Prop where
  ordered : roots.Pairwise fun first second => first.le second = true
  /-- No jar is there twice, however it is written. -/
  distinct : (roots.map Path.components).Nodup
  jars : ∀ root ∈ roots, ∃ name, root.fileName? = some name ∧ IsJarName name
  /-- All jars of the directory and no others, if it is literal. -/
  own : Literal directory → ∀ components, components ∈ roots.map Path.components ↔
    ∃ jar, JarOf disk directory jar ∧ jar.components = components
  /-- The jars of the directories that its components describe, whatever they are. -/
  described : (∀ step ∈ directory.components, step.text ≠ "**") →
    ∀ components, components ∈ roots.map Path.components ↔
      ∃ patterns around jar, Patterned directory patterns ∧
        Glob.Finds disk patterns ⟨"/"⟩ around ∧ JarOf disk around jar ∧
        jar.components = components

theorem pairwise_expand (disk : Disk) (entry : Path) :
    (expand disk entry).Pairwise fun first second => first.le second = true := by
  rw [expand]
  split
  · split
    · exact Path.pairwise_mergeSort _
    · exact .nil
  · exact List.pairwise_singleton _ _

theorem expanded_jarsEntry (absolute : directory.isAbsolute = true) :
    expanded disk [jarsEntry directory] =
      expand disk (Path.absolute disk.workingDirectory (jarsEntry directory)) := by
  have nonempty : (jarsEntry directory).isEmpty = false :=
    Path.isEmpty_of_isAbsolute (Path.isAbsolute_join absolute _)
  simp [expanded, nonempty]

theorem mem_roots_iff {entries : List Path} {components : List Path.Component} :
    components ∈ (ofEntries disk entries).roots.map Path.components ↔
      ∃ path ∈ expanded disk entries, path.components = components := by
  rw [roots_ofEntries, List.mem_map]
  constructor
  · rintro ⟨root, inside, same⟩
    exact ⟨root, mem_of_mem_firsts _ inside, same⟩
  · rintro ⟨path, inside, same⟩
    obtain ⟨root, kept, same'⟩ := exists_mem_firsts Path.components inside
    exact ⟨root, kept, same'.trans same⟩

/-- The entry stands for the jars of a literal directory, and else for the jars of the directories
that its components describe. -/
theorem roots_wildcard (named : disk.root.Named) (absolute : directory.isAbsolute = true)
    (there : disk.isDirectory directory = true) :
    StandsForJars disk directory (ofEntries disk [jarsEntry directory]).roots := by
  have all : expanded disk [jarsEntry directory] = _ := expanded_jarsEntry absolute
  have kept : (ofEntries disk [jarsEntry directory]).roots.Sublist
      (expand disk (Path.absolute disk.workingDirectory (jarsEntry directory))) := by
    rw [roots_ofEntries, all]
    exact firsts_sublist _ _
  have wild := (partsOf_parent disk.workingDirectory absolute).1
  refine ⟨(pairwise_expand disk _).sublist kept, ?_, ?_, ?_, ?_⟩
  · rw [roots_ofEntries]
    exact nodup_map_firsts _ _
  · intro root inside
    obtain ⟨name, called, accepted⟩ :=
      allNamed_expand disk (isAbsolute_jarsEntry _ absolute) wild root (kept.subset inside)
    exact ⟨name, called, accepts_jarNames.mp accepted⟩
  · intro literal components
    -- The jars are found under the shortest spelling, which has the same components.
    obtain ⟨children, found⟩ := Disk.isDirectory_eq_true_iff.mp there
    have reduced := Disk.find_reduced absolute found
    have same := Path.components_reduced absolute
    simp only [mem_roots_iff, all, literal.mem_jars_iff absolute there]
    constructor
    · rintro ⟨path, jar, rfl⟩
      exact jar.same named reduced found same
    · rintro ⟨jar, inside, rfl⟩
      exact inside.same named found reduced same.symm
  · intro other components
    simp only [mem_roots_iff, all, mem_jars_iff absolute other]
    constructor
    · rintro ⟨jar, ⟨patterns, around, spelled, finds, inside⟩, same⟩
      exact ⟨patterns, around, jar, spelled, finds, inside, same⟩
    · rintro ⟨patterns, around, jar, spelled, finds, inside, same⟩
      exact ⟨jar, ⟨patterns, around, spelled, finds, inside⟩, same⟩

/-- Read as a pattern, the name of the second directory describes the first. -/
def bracketedDisk : Disk where
  root := .directory [("l1", .directory [("q2.jar", .file [])]),
    ("l[1]", .directory [("q.jar", .file [])])]
  workingDirectory := ⟨"/"⟩

theorem plain_bracketedDisk : bracketedDisk.root.Plain := by
  simp only [bracketedDisk, FileTree.Plain, FileTree.PlainAll, and_true]
  decide

theorem find_bracketedDisk :
    bracketedDisk.find ⟨"/"⟩ = .ok bracketedDisk.root ∧
    bracketedDisk.find ⟨"/l1"⟩ = .ok (.directory [("q2.jar", .file [])]) ∧
    bracketedDisk.find ⟨"/l[1]"⟩ = .ok (.directory [("q.jar", .file [])]) := by
  simp only [Disk.find_eq plain_bracketedDisk]
  exact ⟨rfl, rfl, rfl⟩

theorem children_bracketedDisk :
    bracketedDisk.children ⟨"/"⟩ = .ok [⟨"/l1"⟩, ⟨"/l[1]"⟩] ∧
    bracketedDisk.children ⟨"/l1"⟩ = .ok [⟨"/l1/q2.jar"⟩] ∧
    bracketedDisk.children ⟨"/l[1]"⟩ = .ok [⟨"/l[1]/q.jar"⟩] := by
  obtain ⟨root, plain, bracketed⟩ := find_bracketedDisk
  refine ⟨?_, Disk.children_of_single plain, Disk.children_of_single bracketed⟩
  rw [Disk.children, root]
  show Except.ok ((["l1", "l[1]"].mergeSort _).map _) = _
  rw [List.mergeSort_of_pairwise (by decide)]
  rfl

/-- Two patterns that the search goes by lead to the one jar. -/
theorem search_bracketedDisk (levels : Nat) :
    Glob.search bracketedDisk (levels + 2) [.literal "l1", jarNames] ⟨"/"⟩ = [⟨"/l1/q2.jar"⟩] ∧
    Glob.search bracketedDisk (levels + 2)
      [⟨[.literal 'l', .within [.single '1']]⟩, jarNames] ⟨"/"⟩ = [⟨"/l1/q2.jar"⟩] := by
  obtain ⟨_, plain, _⟩ := find_bracketedDisk
  obtain ⟨listed, inner, _⟩ := children_bracketedDisk
  have jars : Glob.search bracketedDisk (levels + 1) [jarNames] ⟨"/l1"⟩ = [⟨"/l1/q2.jar"⟩] :=
    Glob.search_wild wild_jarNames inner
  constructor
  · have leads : Glob.Leads bracketedDisk ⟨"/"⟩ "l1" := by
      refine (if_neg (by decide)).mpr (.inl ?_)
      show (bracketedDisk.find ⟨"/l1"⟩).isOk = true
      rw [plain]
      rfl
    exact (Glob.search_of_plain (Glob.plain?_literal "l1") leads).trans jars
  · show Glob.level bracketedDisk (Glob.search bracketedDisk (levels + 1)) _ _ = _
    rw [Glob.level_of_wild (by decide) listed]
    show Glob.search bracketedDisk (levels + 1) [jarNames] ⟨"/l1"⟩ ++ [] ++ [] = _
    rw [jars]
    rfl

/-- An entry that finds one jar stands for it. -/
theorem roots_of_glob {jar : Path} {pattern : Path} (absolute : directory.isAbsolute = true)
    (own : ((Path.absolute disk.workingDirectory (jarsEntry directory)).parent?.getD ⟨"."⟩).join
      jarPattern = pattern) (globbed : disk.glob pattern.text = .ok [jar]) :
    (ofEntries disk [jarsEntry directory]).roots = [jar] := by
  rw [roots_ofEntries, expanded_jarsEntry absolute,
    expand_of_glob (partsOf_parent _ absolute).1 own globbed, List.mergeSort_singleton]
  rfl

/-- Both entries stand for the jar of the first directory. -/
theorem roots_bracketedDisk :
    (ofEntries bracketedDisk [jarsEntry ⟨"/l1"⟩]).roots = [⟨"/l1/q2.jar"⟩] ∧
    (ofEntries bracketedDisk [jarsEntry ⟨"/l[1]"⟩]).roots = [⟨"/l1/q2.jar"⟩] := by
  constructor
  · obtain ⟨levels, enough⟩ := bracketedDisk.exists_searchBound "/l1/*.[jJ][aA][rR]"
    have globbed : bracketedDisk.glob "/l1/*.[jJ][aA][rR]" = .ok (Glob.search bracketedDisk
        (bracketedDisk.searchBound "/l1/*.[jJ][aA][rR]") [.literal "l1", jarNames] ⟨"/"⟩) := rfl
    rw [enough, (search_bracketedDisk levels).1] at globbed
    exact roots_of_glob (by decide) (by decide) globbed
  · obtain ⟨levels, enough⟩ := bracketedDisk.exists_searchBound "/l[1]/*.[jJ][aA][rR]"
    have globbed : bracketedDisk.glob "/l[1]/*.[jJ][aA][rR]" = .ok (Glob.search bracketedDisk
        (bracketedDisk.searchBound "/l[1]/*.[jJ][aA][rR]")
        [⟨[.literal 'l', .within [.single '1']]⟩, jarNames] ⟨"/"⟩) := rfl
    rw [enough, (search_bracketedDisk levels).2] at globbed
    exact roots_of_glob (by decide) (by decide) globbed

/-- The first entry stands for the jar of its directory, the second for that one too and not for its
own. -/
theorem roots_wildcard_bracketedDisk :
    bracketedDisk.root.Named ∧
    bracketedDisk.isDirectory ⟨"/l1"⟩ = true ∧ bracketedDisk.isDirectory ⟨"/l[1]"⟩ = true ∧
    Literal ⟨"/l1"⟩ ∧ ¬ Literal ⟨"/l[1]"⟩ ∧
    JarOf bracketedDisk ⟨"/l1"⟩ ⟨"/l1/q2.jar"⟩ ∧ JarOf bracketedDisk ⟨"/l[1]"⟩ ⟨"/l[1]/q.jar"⟩ ∧
    StandsForJars bracketedDisk ⟨"/l1"⟩ [⟨"/l1/q2.jar"⟩] ∧
    StandsForJars bracketedDisk ⟨"/l[1]"⟩ [⟨"/l1/q2.jar"⟩] ∧
    (ofEntries bracketedDisk [jarsEntry ⟨"/l1"⟩]).roots = [⟨"/l1/q2.jar"⟩] ∧
    (ofEntries bracketedDisk [jarsEntry ⟨"/l[1]"⟩]).roots = [⟨"/l1/q2.jar"⟩] := by
  have named : bracketedDisk.root.Named := by
    simp only [bracketedDisk, FileTree.Named, FileTree.NamedAll, and_true]
    decide
  obtain ⟨_, plain, bracketed⟩ := find_bracketedDisk
  obtain ⟨_, plainJar, bracketedJar⟩ := children_bracketedDisk
  obtain ⟨plainRoots, bracketedRoots⟩ := roots_bracketedDisk
  have plainThere := Disk.isDirectory_eq_true_iff.mpr ⟨_, plain⟩
  have bracketedThere := Disk.isDirectory_eq_true_iff.mpr ⟨_, bracketed⟩
  have plainStands := roots_wildcard named (by decide) plainThere
  have bracketedStands := roots_wildcard named (by decide) bracketedThere
  rw [plainRoots] at plainStands
  rw [bracketedRoots] at bracketedStands
  exact ⟨named, plainThere, bracketedThere, by decide, by decide,
    ⟨⟨_, plainJar, List.mem_singleton_self _⟩, "q2.jar", by decide, by decide⟩,
    ⟨⟨_, bracketedJar, List.mem_singleton_self _⟩, "q.jar", by decide, by decide⟩,
    plainStands, bracketedStands, plainRoots, bracketedRoots⟩

end Classpath

end ClassAtlas
