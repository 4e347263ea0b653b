import ClassAtlas.Glob.Search
import ClassAtlas.Proofs.Disk.Joined

/-!
# What a search by patterns finds

All that a level of a search does is to go on with fewer patterns, or below a child with the same
(`Glob.GoesOn`), and what is found is where this arrives (`Glob.arrives_of_mem_search`). So whatever
is found has a name that the last pattern describes (`Glob.allNamed_search`), if that pattern has a
wildcard and is not `**`. Patterns none of which is `**` lead down one level each, and where they
lead is all that is found (`Glob.mem_search_iff`).
-/

namespace ClassAtlas

namespace Glob

/-- The pattern is compared with names: it has a wildcard, is not `**`, and does not start with a
dot. -/
structure Pattern.Wild (pattern : Pattern) : Prop where
  wildcard : pattern.plain? = none
  once : pattern.isRecursive = false
  dotless : pattern.dots = []

/-- The name of each path is described by the pattern. -/
def AllNamed (pattern : Pattern) (paths : List Path) : Prop :=
  ∀ path ∈ paths, ∃ name, path.fileName? = some name ∧ pattern.accepts name = true

/-- Whether a name without wildcards leads on from a path. -/
def Leads (disk : Disk) (path : Path) (name : String) : Prop :=
  if name = "." ∨ name = ".." then disk.isDirectory path = true
  else (disk.find (path.join ⟨name⟩)).isOk = true ∨ (disk.findItself (path.join ⟨name⟩)).isOk = true

instance (disk : Disk) (path : Path) (name : String) : Decidable (Leads disk path name) :=
  if dots : name = "." ∨ name = ".." then
    decidable_of_iff (disk.isDirectory path = true) (by rw [Leads, if_pos dots])
  else
    decidable_of_iff ((disk.find (path.join ⟨name⟩)).isOk = true ∨
      (disk.findItself (path.join ⟨name⟩)).isOk = true) (by rw [Leads, if_neg dots])

/-! ## One level -/

/-- How a level goes on from a path: with the patterns that are left, at the next path. -/
inductive GoesOn (disk : Disk) : List Pattern → Path → List Pattern → Path → Prop
  /-- A pattern without wildcards is looked up, whatever the directory lists. -/
  | lookup {pattern : Pattern} {others : List Pattern} {path : Path} {name : String}
    (plain : pattern.plain? = some name) (leads : Leads disk path name) :
    GoesOn disk (pattern :: others) path others (path.join ⟨name⟩)
  | child {pattern : Pattern} {others : List Pattern} {path entry : Path} {children : List Path}
    {name : String} (wild : pattern.plain? = none) (once : pattern.isRecursive = false)
    (listed : disk.children path = .ok children) (inside : entry ∈ children)
    (called : entry.fileName? = some name) (accepted : pattern.accepts name = true) :
    GoesOn disk (pattern :: others) path others entry
  /-- A pattern with a dot in front may also stand for `.` or `..`. -/
  | dots {pattern : Pattern} {others : List Pattern} {path : Path} {children : List Path}
    {name : String} (wild : pattern.plain? = none) (listed : disk.children path = .ok children)
    (dotted : name ∈ pattern.dots) : GoesOn disk (pattern :: others) path others (path.join ⟨name⟩)
  /-- `**` goes through the directories below. -/
  | deeper {pattern : Pattern} {others : List Pattern} {path entry : Path} {children : List Path}
    (many : pattern.isRecursive = true) (listed : disk.children path = .ok children)
    (inside : entry ∈ children) :
    GoesOn disk (pattern :: others) path (pattern :: others.dropWhile (·.isRecursive)) entry
  /-- With nothing behind it `**` stands for each of them. -/
  | each {pattern : Pattern} {others : List Pattern} {path entry : Path} {children : List Path}
    (many : pattern.isRecursive = true) (listed : disk.children path = .ok children)
    (inside : entry ∈ children) (nothing : others.dropWhile (·.isRecursive) = []) :
    GoesOn disk (pattern :: others) path [] entry
  /-- What stands behind `**` is compared with their names. -/
  | behind {pattern next : Pattern} {others rest : List Pattern} {path entry : Path}
    {children : List Path} {name : String} (many : pattern.isRecursive = true)
    (listed : disk.children path = .ok children) (inside : entry ∈ children)
    (left : others.dropWhile (·.isRecursive) = next :: rest)
    (called : entry.fileName? = some name) (accepted : next.accepts name = true) :
    GoesOn disk (pattern :: others) path rest entry

/-- A pattern is met by the name at a path, and the others below it. -/
theorem mem_named_iff {below : List Pattern → Path → List Path} {pattern : Pattern}
    {others : List Pattern} {path found : Path} :
    found ∈ named below (pattern :: others) path ↔ ∃ name, path.fileName? = some name ∧
      pattern.accepts name = true ∧ found ∈ onwards below others path := by
  unfold named
  cases path.fileName? with
  | none => simp
  | some name => simp

section Levels

variable {disk : Disk} {below : List Pattern → Path → List Path} {patterns others : List Pattern}
variable {pattern : Pattern} {path found : Path} {children : List Path}

theorem onwards_cons : onwards below (pattern :: others) path = below (pattern :: others) path :=
  rfl

theorem level_of_plain {name : String} (plain : pattern.plain? = some name) :
    level disk below (pattern :: others) path =
      if Leads disk path name then onwards below others (path.join ⟨name⟩) else [] := by
  unfold level
  dsimp only
  rw [plain]
  refine if_congr ?_ rfl rfl
  unfold Leads
  split
  · rfl
  · exact Bool.or_eq_true_iff

theorem level_of_wild (wild : pattern.plain? = none) (listed : disk.children path = .ok children) :
    level disk below (pattern :: others) path =
      children.flatMap (child disk below (pattern :: others)) ++
        pattern.dots.flatMap fun name => onwards below others (path.join ⟨name⟩) := by
  unfold level
  dsimp only
  rw [wild]
  dsimp only
  rw [listed]

/-- A name leads to what the other patterns find there. -/
theorem search_of_plain {levels : Nat} {next : Pattern} {name : String}
    (plain : pattern.plain? = some name) (leads : Leads disk path name) :
    search disk (levels + 1) (pattern :: next :: others) path =
      search disk levels (next :: others) (path.join ⟨name⟩) := by
  show level disk (search disk levels) _ path = _
  rw [level_of_plain plain, if_pos leads, onwards_cons]

/-- The last pattern finds the children that are called as it says. -/
theorem search_wild {levels : Nat} {last : Pattern} (wild : last.Wild)
    (listed : disk.children path = .ok children) :
    search disk (levels + 1) [last] path =
      children.filter fun entry => entry.fileName?.any last.accepts := by
  have found (entry : Path) : child disk (search disk levels) [last] entry =
      if entry.fileName?.any last.accepts = true then [entry] else [] := by
    unfold child named
    dsimp only
    rw [wild.once, if_neg Bool.false_ne_true]
    cases entry.fileName? <;> rfl
  show level disk (search disk levels) [last] path = _
  rw [level_of_wild wild.wildcard listed, wild.dotless, List.flatMap_nil, List.append_nil]
  clear listed
  induction children with
  | nil => rfl
  | cons entry children ih =>
    rw [List.flatMap_cons, List.filter_cons, ih, found]
    split <;> rfl
theorem exists_goesOn_of_mem_child {entry : Path} (wild : pattern.plain? = none)
    (listed : disk.children path = .ok children) (inside : entry ∈ children)
    (h : found ∈ child disk below (pattern :: others) entry) :
    ∃ rest next, GoesOn disk (pattern :: others) path rest next ∧
      found ∈ onwards below rest next := by
  unfold child at h
  dsimp only at h
  split at h
  next many =>
    rcases List.mem_append.mp h with h | h
    · split at h
      · exact ⟨_, _, .deeper many listed inside, h⟩
      · cases h
    · split at h
      next nothing =>
        split at h
        · exact ⟨_, _, .each many listed inside (List.isEmpty_iff.mp nothing), h⟩
        · cases h
      next =>
        cases left : others.dropWhile (·.isRecursive) with
        | nil =>
          rw [left] at h
          cases h
        | cons next rest =>
          rw [left] at h
          obtain ⟨name, called, accepted, h⟩ := mem_named_iff.mp h
          exact ⟨_, _, .behind many listed inside left called accepted, h⟩
  next once =>
    obtain ⟨name, called, accepted, h⟩ := mem_named_iff.mp h
    exact ⟨_, _, .child wild (Bool.eq_false_iff.mpr once) listed inside called accepted, h⟩

/-- A level finds nothing but what it goes on to. -/
theorem exists_goesOn (h : found ∈ level disk below patterns path) :
    ∃ rest next, GoesOn disk patterns path rest next ∧ found ∈ onwards below rest next := by
  cases patterns with
  | nil => cases h
  | cons pattern others =>
    cases kind : pattern.plain? with
    | some name =>
      rw [level_of_plain kind] at h
      split at h
      next leads => exact ⟨_, _, .lookup kind leads, h⟩
      next => cases h
    | none =>
      cases listed : disk.children path with
      | error fault =>
        unfold level at h
        dsimp only at h
        rw [kind] at h
        dsimp only at h
        rw [listed] at h
        cases h
      | ok children =>
        rw [level_of_wild kind listed] at h
        rcases List.mem_append.mp h with h | h
        · obtain ⟨entry, inside, h⟩ := List.mem_flatMap.mp h
          exact exists_goesOn_of_mem_child kind listed inside h
        · obtain ⟨name, dotted, h⟩ := List.mem_flatMap.mp h
          exact ⟨_, _, .dots kind listed dotted, h⟩

end Levels

/-! ## All levels -/

/-- Where a search arrives, when no patterns are left. -/
inductive Arrives (disk : Disk) : List Pattern → Path → Path → Prop
  | here (path : Path) : Arrives disk [] path path
  | goesOn {patterns rest : List Pattern} {path next found : Path}
    (goes : GoesOn disk patterns path rest next) (further : Arrives disk rest next found) :
    Arrives disk patterns path found

theorem arrives_of_mem_search {disk : Disk} {levels : Nat} {patterns : List Pattern}
    {path found : Path} (h : found ∈ search disk levels patterns path) :
    Arrives disk patterns path found := by
  induction levels generalizing patterns path with
  | zero => cases h
  | succ levels ih =>
    obtain ⟨rest, next, goes, h⟩ := exists_goesOn h
    refine .goesOn goes ?_
    cases rest with
    | nil =>
      obtain rfl := List.mem_singleton.mp h
      exact .here _
    | cons => exact ih h

/-! ## The last pattern -/

section Last

variable {disk : Disk} {front rest : List Pattern} {last : Pattern} {path next found : Path}
variable (wild : last.Wild)
include wild

/-- What is left behind several `**` still ends in the last pattern. -/
theorem exists_dropWhile (front : List Pattern) :
    ∃ left, (front ++ [last]).dropWhile (·.isRecursive) = left ++ [last] := by
  rw [List.dropWhile_append]
  split
  · refine ⟨[], ?_⟩
    rw [List.dropWhile_cons_of_neg (by rw [wild.once]; exact Bool.false_ne_true)]
    rfl
  · exact ⟨_, rfl⟩

/-- The last pattern is left to the end, where a name is compared with it. -/
theorem GoesOn.ends (h : GoesOn disk (front ++ [last]) path rest next) :
    (∃ left, rest = left ++ [last]) ∨
      rest = [] ∧ ∃ name, next.fileName? = some name ∧ last.accepts name = true := by
  cases front with
  | nil =>
    cases h with
    | lookup plain => cases plain.symm.trans wild.wildcard
    | child _ _ _ _ called accepted => exact .inr ⟨rfl, _, called, accepted⟩
    | dots _ _ dotted =>
      rw [wild.dotless] at dotted
      cases dotted
    | deeper many | each many | behind many => cases many.symm.trans wild.once
  | cons first front =>
    obtain ⟨left, whole⟩ := exists_dropWhile wild front
    rw [List.cons_append] at h
    cases h with
    | lookup | child | dots => exact .inl ⟨front, rfl⟩
    | deeper => exact .inl ⟨first :: left, congrArg (first :: ·) whole⟩
    | each _ _ _ nothing =>
      rw [nothing] at whole
      cases List.append_ne_nil_of_right_ne_nil left (List.cons_ne_nil _ _) whole.symm
    | behind _ _ _ split called accepted =>
      rw [split] at whole
      cases left with
      | nil =>
        obtain ⟨rfl, rfl⟩ := List.cons.inj whole
        exact .inr ⟨rfl, _, called, accepted⟩
      | cons second left => exact .inl ⟨left, (List.cons.inj whole).2⟩

theorem Arrives.named (h : Arrives disk (front ++ [last]) path found) :
    ∃ name, found.fileName? = some name ∧ last.accepts name = true := by
  generalize whole : front ++ [last] = patterns at h
  induction h generalizing front with
  | here => exact absurd whole (by simp)
  | goesOn goes further ih =>
    subst whole
    rcases goes.ends wild with ⟨left, rfl⟩ | ⟨rfl, named⟩
    · exact ih rfl
    · cases further with
      | here => exact named
      | goesOn stuck => cases stuck

end Last

/-- What is found is called as the last pattern says. -/
theorem allNamed_search {last : Pattern} (wild : last.Wild) (disk : Disk) (levels : Nat)
    (front : List Pattern) (path : Path) :
    AllNamed last (search disk levels (front ++ [last]) path) :=
  fun _ inside => (arrives_of_mem_search inside).named wild

/-! ## Patterns without `**` -/

/-- Where patterns lead from a path, none of them being `**`. -/
inductive Finds (disk : Disk) : List Pattern → Path → Path → Prop
  | here (path : Path) : Finds disk [] path path
  /-- A pattern without wildcards is looked up, whatever the directory lists. -/
  | lookup {pattern : Pattern} {others : List Pattern} {path found : Path} {name : String}
    (plain : pattern.plain? = some name) (leads : Leads disk path name)
    (rest : Finds disk others (path.join ⟨name⟩) found) : Finds disk (pattern :: others) path found
  | child {pattern : Pattern} {others : List Pattern} {path entry found : Path}
    {children : List Path} {name : String} (wild : pattern.plain? = none)
    (listed : disk.children path = .ok children) (inside : entry ∈ children)
    (called : entry.fileName? = some name) (accepted : pattern.accepts name = true)
    (rest : Finds disk others entry found) : Finds disk (pattern :: others) path found
  /-- A pattern with a dot in front may also stand for `.` or `..`. -/
  | dots {pattern : Pattern} {others : List Pattern} {path found : Path} {children : List Path}
    {name : String} (wild : pattern.plain? = none) (listed : disk.children path = .ok children)
    (dotted : name ∈ pattern.dots) (rest : Finds disk others (path.join ⟨name⟩) found) :
    Finds disk (pattern :: others) path found

/-- Without `**` a level goes on in no other way. -/
theorem Arrives.finds {disk : Disk} {patterns : List Pattern} {path found : Path}
    (h : Arrives disk patterns path found)
    (once : ∀ pattern ∈ patterns, pattern.isRecursive = false) :
    Finds disk patterns path found := by
  induction h with
  | here path => exact .here path
  | goesOn goes _ ih =>
    cases goes with
    | lookup plain leads => exact .lookup plain leads (ih (List.forall_mem_cons.mp once).2)
    | child wild _ listed inside called accepted =>
      exact .child wild listed inside called accepted (ih (List.forall_mem_cons.mp once).2)
    | dots wild listed dotted =>
      exact .dots wild listed dotted (ih (List.forall_mem_cons.mp once).2)
    | deeper many | each many | behind many =>
      cases many.symm.trans (once _ List.mem_cons_self)

/-- With as many levels as patterns a search gets to where they lead. -/
theorem mem_onwards_of_finds {disk : Disk} {patterns : List Pattern} {levels : Nat}
    {path found : Path} (h : Finds disk patterns path found)
    (once : ∀ pattern ∈ patterns, pattern.isRecursive = false)
    (enough : patterns.length ≤ levels) : found ∈ onwards (search disk levels) patterns path := by
  induction h generalizing levels with
  | here => exact List.mem_singleton_self _
  | lookup plain leads _ ih =>
    obtain ⟨first, rest⟩ := List.forall_mem_cons.mp once
    cases levels with
    | zero => cases enough
    | succ levels =>
      rw [onwards_cons, search, level_of_plain plain, if_pos leads]
      exact ih rest (Nat.le_of_succ_le_succ enough)
  | child wild listed inside called accepted _ ih =>
    obtain ⟨first, rest⟩ := List.forall_mem_cons.mp once
    cases levels with
    | zero => cases enough
    | succ levels =>
      rw [onwards_cons, search, level_of_wild wild listed]
      refine List.mem_append_left _ (List.mem_flatMap.mpr ⟨_, inside, ?_⟩)
      unfold Glob.child
      dsimp only
      rw [first, if_neg Bool.false_ne_true]
      exact mem_named_iff.mpr ⟨_, called, accepted, ih rest (Nat.le_of_succ_le_succ enough)⟩
  | dots wild listed dotted _ ih =>
    obtain ⟨first, rest⟩ := List.forall_mem_cons.mp once
    cases levels with
    | zero => cases enough
    | succ levels =>
      rw [onwards_cons, search, level_of_wild wild listed]
      refine List.mem_append_right _ (List.mem_flatMap.mpr ⟨_, dotted, ?_⟩)
      exact ih rest (Nat.le_of_succ_le_succ enough)

/-- A search with as many levels as patterns finds where they lead. -/
theorem mem_search_iff {disk : Disk} {patterns : List Pattern} {levels : Nat} {path found : Path}
    (nonempty : patterns ≠ []) (once : ∀ pattern ∈ patterns, pattern.isRecursive = false)
    (enough : patterns.length ≤ levels) :
    found ∈ search disk levels patterns path ↔ Finds disk patterns path found := by
  constructor
  · exact fun inside => (arrives_of_mem_search inside).finds once
  · intro finds
    have inside := mem_onwards_of_finds finds once enough
    rwa [onwards, if_neg (mt List.isEmpty_iff.mp nonempty)] at inside

theorem Finds.append {disk : Disk} {front others : List Pattern} {path middle found : Path}
    (first : Finds disk front path middle) (second : Finds disk others middle found) :
    Finds disk (front ++ others) path found := by
  induction first with
  | here => exact second
  | lookup plain leads _ ih => exact .lookup plain leads (ih second)
  | child wild listed inside called accepted _ ih =>
    exact .child wild listed inside called accepted (ih second)
  | dots wild listed dotted _ ih => exact .dots wild listed dotted (ih second)

theorem Finds.exists_of_append {disk : Disk} {front others : List Pattern} {path found : Path}
    (h : Finds disk (front ++ others) path found) :
    ∃ middle, Finds disk front path middle ∧ Finds disk others middle found := by
  induction front generalizing path with
  | nil => exact ⟨path, .here path, h⟩
  | cons pattern front ih =>
    cases h with
    | lookup plain leads rest =>
      obtain ⟨middle, first, second⟩ := ih rest
      exact ⟨middle, .lookup plain leads first, second⟩
    | child wild listed inside called accepted rest =>
      obtain ⟨middle, first, second⟩ := ih rest
      exact ⟨middle, .child wild listed inside called accepted first, second⟩
    | dots wild listed dotted rest =>
      obtain ⟨middle, first, second⟩ := ih rest
      exact ⟨middle, .dots wild listed dotted first, second⟩

end Glob

/-! ## Patterns that are joined -/

/-- A search has room for two levels. -/
theorem Disk.exists_searchBound (disk : Disk) (pattern : String) :
    ∃ levels, disk.searchBound pattern = levels + 2 := by
  have room : 2 ≤ (Disk.maxLinks + 2) * (disk.root.size + 1) :=
    Nat.le_trans (by decide) (Nat.le_mul_of_pos_right _ (Nat.succ_pos _))
  exact Nat.exists_eq_add_of_le' (Nat.le_add_right_of_le room)

/-- A pattern for names behind a directory is the last one that is searched for. -/
theorem Disk.glob_join_eq_ok_iff {disk : Disk} {base rest : Path} {last : Glob.Pattern}
    {paths : List Path} (nonempty : base.isEmpty = false) (relative : rest.isAbsolute = false)
    (single : Path.partsOf rest.text = [rest.text.toList])
    (compiled : Glob.Pattern.compile rest.text = .ok last) :
    disk.glob (base.join rest).text = .ok paths ↔
      ∃ whole front, Glob.Pattern.compile (base.join rest).text = .ok whole ∧
        (Path.partsOf base.text).mapM (fun part => Glob.Pattern.compile (String.ofList part)) =
          .ok front ∧
        Glob.search disk (disk.searchBound (base.join rest).text) (front ++ [last]) ⟨"/"⟩ =
          paths := by
  have parts : ((base.join rest).text.toList.splitOn '/').filter (· ≠ []) =
      Path.partsOf base.text ++ [rest.text.toList] := by
    rw [← single]
    exact Path.partsOf_join nonempty relative
  have lastly : [rest.text.toList].mapM (fun part => Glob.Pattern.compile (String.ofList part)) =
      Except.ok [last] := by
    rw [List.mapM_cons, String.ofList_toList, compiled]
    rfl
  rw [Disk.glob, parts]
  simp only [List.mapM_append, lastly, bind_assoc, pure_bind]
  cases Glob.Pattern.compile (base.join rest).text with
  | error fault => simp [bind, Except.bind]
  | ok whole =>
    cases (Path.partsOf base.text).mapM fun part => Glob.Pattern.compile (String.ofList part) with
    | error fault => simp [bind, Except.bind]
    | ok front => simp [bind, Except.bind, pure, Except.pure]

end ClassAtlas
