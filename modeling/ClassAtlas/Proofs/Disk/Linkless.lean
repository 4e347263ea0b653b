import ClassAtlas.Proofs.Disk.Joined
import ClassAtlas.Proofs.Disk.Visited

/-!
# Disks without links

Without links the steps of a path are taken one by one (`locate_eq`), so that a path leads somewhere
only if what it starts with does (`find_of_find_join_name`). What is so many levels below a start
is then below it by its text too.

* `mem_walk_iff`: a walk visits exactly what is below its start, as deep as it may go;
* `Reaches.components`: what is so many levels below has as many components more.
-/

namespace ClassAtlas

/-! ## Trees -/

namespace FileTree

mutual

/-- There are no links in the tree, and the children in it have names that can stand in a path. -/
def Plain : FileTree → Prop
  | file _ => True
  | link _ => False
  | directory children => PlainAll children

def PlainAll : List (String × FileTree) → Prop
  | [] => True
  | (name, child) :: others => Path.FileName name ∧ child.Plain ∧ PlainAll others

end

variable {children : List (String × FileTree)} {entry : String × FileTree}

theorem plain_of_mem (plain : PlainAll children) (h : entry ∈ children) :
    Path.FileName entry.1 ∧ entry.2.Plain := by
  induction children with
  | nil => cases h
  | cons first others ih =>
    obtain ⟨named, own, rest⟩ := plain
    rcases List.mem_cons.mp h with rfl | inside
    · exact ⟨named, own⟩
    · exact ih rest inside

theorem size_le_sizeAll (h : entry ∈ children) : entry.2.size ≤ sizeAll children := by
  induction children with
  | nil => cases h
  | cons first others ih =>
    rw [sizeAll]
    rcases List.mem_cons.mp h with rfl | inside
    · omega
    · have rest := ih inside
      omega

theorem mem_of_lookup {name : String} {tree : FileTree} (h : children.lookup name = some tree) :
    (name, tree) ∈ children := by
  induction children with
  | nil => cases h
  | cons first others ih =>
    rw [List.lookup_cons] at h
    split at h
    next same =>
      obtain rfl := eq_of_beq same
      obtain rfl := Option.some.inj h
      exact List.mem_cons_self
    next => exact List.mem_cons_of_mem _ (ih h)

end FileTree

namespace Disk

/-! ## Steps -/

/-- Where one step leads if there are no links. -/
def advance (root : FileTree) (trail : Trail) (step : Step) : Except DiskFault Trail :=
  match trail.tree root, step with
  | .directory _, .stay => .ok trail
  | .directory _, .up => .ok trail.tail
  | .directory children, .into name =>
    if maxNameSize < name.utf8ByteSize then .error .nameTooLong
    else
      match children.lookup name with
      | none => .error .notFound
      | some tree => .ok ((name, tree) :: trail)
  | _, _ => .error .notDirectory

/-- What is on the trail is a part of the root. -/
def Trail.Inside (root : FileTree) (trail : Trail) : Prop :=
  ∀ entry ∈ trail, entry.2.Plain ∧ entry.2.size ≤ root.size

section Steps

variable {root : FileTree} {trail next : Trail}

theorem Trail.Inside.tree (inside : trail.Inside root) (plain : root.Plain) :
    (trail.tree root).Plain ∧ (trail.tree root).size ≤ root.size := by
  cases trail with
  | nil => exact ⟨plain, Nat.le_refl _⟩
  | cons entry rest => exact inside entry List.mem_cons_self

theorem Trail.Inside.child (inside : trail.Inside root) (plain : root.Plain)
    {children : List (String × FileTree)} (here : trail.tree root = .directory children)
    {name : String} {tree : FileTree} (h : children.lookup name = some tree) :
    Trail.Inside root ((name, tree) :: trail) := by
  have around := inside.tree plain
  rw [here] at around
  obtain ⟨plainAll, size⟩ := around
  have member := FileTree.mem_of_lookup h
  obtain ⟨_, own⟩ := FileTree.plain_of_mem plainAll member
  have small : tree.size ≤ root.size := by
    have part := FileTree.size_le_sizeAll member
    rw [FileTree.size] at size
    dsimp only at part
    omega
  exact List.forall_mem_cons.mpr ⟨⟨own, small⟩, inside⟩

/-- Links are never met, so that neither their number nor the last one matters. -/
theorem follow_eq (plain : root.Plain) (followLast : Bool) (links : Nat) (steps : List Step)
    (inside : trail.Inside root) :
    follow root followLast links trail steps = steps.foldlM (advance root) trail := by
  -- What is entered is a part of the root, so it is no link: the invariant is `inside`.
  induction steps generalizing trail with
  | nil =>
    rw [follow]
    rfl
  | cons step steps ih =>
    rw [follow.eq_def, List.foldlM_cons]
    unfold advance
    cases here : trail.tree root with
    | file bytes => rfl
    | link target => rfl
    | directory children =>
      cases step with
      | stay => exact ih inside
      | up => exact ih fun entry there => inside entry (List.mem_of_mem_tail there)
      | into name =>
        dsimp only
        split
        · rfl
        · cases found : children.lookup name with
          | none => rfl
          | some tree =>
            have further := inside.child plain here found
            cases tree with
            | file bytes => exact ih further
            | directory children => exact ih further
            | link target => exact (further _ List.mem_cons_self).1.elim

theorem advance_into_eq_ok {name : String} (h : advance root trail (.into name) = .ok next) :
    ∃ children tree, trail.tree root = .directory children ∧ children.lookup name = some tree ∧
      next = (name, tree) :: trail := by
  unfold advance at h
  split at h
  next stays => cases stays
  next up => cases up
  next children _ here into =>
    cases into
    split at h
    · cases h
    · split at h
      · cases h
      next tree found =>
        cases h
        exact ⟨children, tree, here, found, rfl⟩
  next => cases h

theorem advance_stay_eq_ok (h : advance root trail .stay = .ok next) :
    ∃ children, trail.tree root = .directory children ∧ next = trail := by
  unfold advance at h
  split at h
  next children here _ =>
    cases h
    exact ⟨children, here, rfl⟩
  next up => cases up
  next into => cases into
  next => cases h

theorem inside_of_advance (plain : root.Plain) (inside : trail.Inside root) {step : Step}
    (h : advance root trail step = .ok next) : next.Inside root := by
  unfold advance at h
  split at h
  next =>
    cases h
    exact inside
  next =>
    cases h
    exact fun entry there => inside entry (List.mem_of_mem_tail there)
  next children name here =>
    split at h
    · cases h
    · split at h
      · cases h
      next tree found =>
        cases h
        exact inside.child plain here found
  next => cases h

theorem inside_of_foldlM (plain : root.Plain) (inside : trail.Inside root) {steps : List Step}
    (h : steps.foldlM (advance root) trail = .ok next) : next.Inside root := by
  induction steps generalizing trail with
  | nil =>
    cases h
    exact inside
  | cons step steps ih =>
    rw [List.foldlM_cons] at h
    obtain ⟨middle, first, h⟩ := ok_of_bind h
    exact ih (inside_of_advance plain inside first) h

/-- A slash at the end of a path does not matter where the path leads to a directory. -/
theorem foldlM_steps {children : List (String × FileTree)} {text : String}
    (led : (plainSteps text).foldlM (advance root) [] = .ok trail)
    (here : trail.tree root = .directory children) :
    (steps text).foldlM (advance root) [] = .ok trail := by
  rw [steps]
  split
  · have stays : advance root trail .stay = .ok trail := by
      unfold advance
      rw [here]
    rw [List.foldlM_append, led]
    show (do [Step.stay].foldlM (advance root) trail) = _
    rw [List.foldlM_cons, stays]
    rfl
  · exact led

end Steps

/-! ## Steps of joined paths -/

section Joined

variable {base : Path}

theorem plainSteps_name {name : String} (named : Path.FileName name) :
    plainSteps name = [.into name] := by
  have nonempty : name.toList ≠ [] := fun empty =>
    named.nonempty (String.toList_eq_nil_iff.mp empty)
  have notDot : name.toList ≠ ['.'] := fun dot => named.notDot (String.toList_injective dot)
  have notDots : name.toList ≠ ['.', '.'] := fun dots =>
    named.notDots (String.toList_injective dots)
  have counts : [name.toList].filter (· ≠ []) = [name.toList] := by simpa using nonempty
  rw [plainSteps, List.splitOn_eq_singleton named.clean, counts]
  simp [notDot, notDots]

/-- Joining adds the steps of what is joined. -/
theorem plainSteps_join {rest : Path} (nonempty : base.isEmpty = false)
    (relative : rest.isAbsolute = false) :
    plainSteps (base.join rest).text = plainSteps base.text ++ plainSteps rest.text := by
  have steps : ∀ text, plainSteps text = (Path.partsOf text).map fun part =>
      if part = ['.'] then .stay else if part = ['.', '.'] then .up
      else .into (String.ofList part) := fun text => rfl
  rw [steps, Path.partsOf_join nonempty relative, List.map_append, steps, steps]

theorem steps_join_name {name : String} (nonempty : base.isEmpty = false)
    (named : Path.FileName name) :
    steps (base.join ⟨name⟩).text = plainSteps base.text ++ [.into name] := by
  have plain : endsWithSlash (base.join ⟨name⟩).text = false := by
    rw [endsWithSlash, Path.getLast?_text_join nonempty named.relative named.isEmpty]
    apply decide_eq_false
    intro slash
    exact named.clean (List.mem_of_getLast? slash)
  rw [steps, plain, if_neg Bool.false_ne_true, plainSteps_join nonempty named.relative,
    plainSteps_name named]

theorem steps_join_nothing (nonempty : base.isEmpty = false) :
    steps (base.join ⟨""⟩).text = plainSteps base.text ++ [.stay] := by
  have slash : endsWithSlash (base.join ⟨""⟩).text = true := by
    have relative : Path.isAbsolute ⟨""⟩ = false := rfl
    obtain ⟨front, written, _⟩ := Path.text_join nonempty relative
    rw [endsWithSlash, written, List.getLast?_append_of_ne_nil _ (List.cons_ne_nil _ _)]
    rfl
  have nothing : plainSteps "" = [] := rfl
  rw [steps, slash, if_pos rfl, plainSteps_join nonempty rfl, nothing, List.append_nil]

end Joined

/-! ## Finding -/

section Finding

variable {disk : Disk} {base path asked : Path} {tree : FileTree}

theorem asked_eq_ok_iff :
    disk.asked path = .ok asked ↔ '\x00' ∉ path.text.toList ∧ path.isEmpty = false ∧
      path.text.utf8ByteSize < pathSizeLimit ∧ disk.workingDirectory.join path = asked := by
  unfold Disk.asked
  by_cases nul : '\x00' ∈ path.text.toList
  · simp [nul]
  · by_cases empty : path.isEmpty = true
    · simp [nul, empty]
    · by_cases long : pathSizeLimit ≤ path.text.utf8ByteSize
      · simp [nul, empty, long, Nat.not_lt.mpr long]
      · simp [nul, empty, long, Nat.not_le.mp long]

theorem isDirectory_eq_true_iff :
    disk.isDirectory path = true ↔ ∃ children, disk.find path = .ok (.directory children) := by
  unfold isDirectory
  cases disk.find path with
  | error fault => simp [Except.toOption]
  | ok tree => cases tree <;> simp [Except.toOption, FileTree.isDirectory]

theorem isEmpty_of_find (h : disk.find path = .ok tree) : path.isEmpty = false := by
  obtain ⟨asked, _, given, _⟩ := exists_of_find h
  exact (asked_eq_ok_iff.mp given).2.1

/-- What a joined path starts with is asked for as a part of it. -/
theorem asked_of_asked_join {rest : Path} (nonempty : base.isEmpty = false)
    (relative : rest.isAbsolute = false) (h : disk.asked (base.join rest) = .ok asked) :
    disk.asked base = .ok (disk.workingDirectory.join base) ∧
      asked = (disk.workingDirectory.join base).join rest := by
  obtain ⟨clean, _, short, rfl⟩ := asked_eq_ok_iff.mp h
  obtain ⟨more, written⟩ : ∃ more, (base.join rest).text = base.text ++ more := by
    rw [Path.join_eq nonempty relative]
    split
    · exact ⟨_, rfl⟩
    · exact ⟨_, String.append_assoc⟩
  rw [written, String.toList_append, List.mem_append, not_or] at clean
  rw [written, String.utf8ByteSize_append] at short
  have start : disk.asked base = .ok (disk.workingDirectory.join base) :=
    asked_eq_ok_iff.mpr ⟨clean.1, nonempty, by omega, rfl⟩
  exact ⟨start, (Path.join_assoc _ nonempty relative).symm⟩

theorem isEmpty_workingDirectory_join (nonempty : path.isEmpty = false) :
    (disk.workingDirectory.join path).isEmpty = false := by
  by_cases absolute : path.isAbsolute = true
  · rw [Path.join_of_isAbsolute absolute]
    exact nonempty
  · by_cases empty : disk.workingDirectory.isEmpty = true
    · rw [Path.join_of_isEmpty empty]
      exact nonempty
    · exact Path.isEmpty_join (Bool.eq_false_iff.mpr empty) (Bool.eq_false_iff.mpr absolute)

variable (plain : disk.root.Plain)
include plain

theorem locate_eq (path : Path) (followLast : Bool) :
    disk.locate path followLast = (do
      (steps (← disk.asked path).text).foldlM (advance disk.root) []) := by
  unfold locate
  cases disk.asked path with
  | error fault => rfl
  | ok asked => exact follow_eq plain followLast maxLinks _ (List.forall_mem_nil _)

theorem find_eq (path : Path) : disk.find path =
    (disk.asked path >>= fun asked => (steps asked.text).foldlM (advance disk.root) []).map
      (Trail.tree disk.root) := by
  rw [find, locate_eq plain]

theorem findItself_eq (path : Path) : disk.findItself path = disk.find path := by
  rw [findItself, find_eq plain, locate_eq plain]

/-- Where a path leads that can be asked for. -/
theorem find_of_asked (given : disk.asked path = .ok asked) :
    disk.find path = ((steps asked.text).foldlM (advance disk.root) []).map
      (Trail.tree disk.root) := by
  rw [find_eq plain, given]
  rfl

theorem find_eq_ok_iff :
    disk.find path = .ok tree ↔ ∃ asked trail, disk.asked path = .ok asked ∧
      (steps asked.text).foldlM (advance disk.root) [] = .ok trail ∧
      trail.tree disk.root = tree := by
  cases start : disk.asked path with
  | error fault =>
    have refused : disk.find path = .error fault := by
      rw [find_eq plain, start]
      rfl
    simp [refused]
  | ok asked =>
    rw [find_of_asked plain start]
    cases led : (steps asked.text).foldlM (advance disk.root) [] with
    | error fault => simp [Except.map, led]
    | ok trail => simp [Except.map, led]

theorem plain_of_find (h : disk.find path = .ok tree) :
    tree.Plain ∧ tree.size ≤ disk.root.size := by
  obtain ⟨asked, trail, _, led, rfl⟩ := (find_eq_ok_iff plain).mp h
  exact (inside_of_foldlM plain (List.forall_mem_nil _) led).tree plain

/-- What is joined to a path leads on from where that path leads. -/
theorem exists_of_find_join {rest : Path} {last : Step} (nonempty : base.isEmpty = false)
    (relative : rest.isAbsolute = false)
    (split : steps ((disk.workingDirectory.join base).join rest).text =
      plainSteps (disk.workingDirectory.join base).text ++ [last])
    (h : disk.find (base.join rest) = .ok tree) :
    ∃ asked middle trail, disk.asked base = .ok asked ∧
      (plainSteps asked.text).foldlM (advance disk.root) [] = .ok middle ∧
      advance disk.root middle last = .ok trail ∧ trail.tree disk.root = tree := by
  obtain ⟨_, trail, given, led, here⟩ := (find_eq_ok_iff plain).mp h
  obtain ⟨given', rfl⟩ := asked_of_asked_join nonempty relative given
  rw [split, List.foldlM_append] at led
  obtain ⟨middle, front, last⟩ := ok_of_bind led
  rw [List.foldlM_cons] at last
  obtain ⟨_, last, ⟨⟩⟩ := ok_of_bind last
  exact ⟨_, middle, trail, given', front, last, here⟩

/-- A name leads somewhere only from the directory that has it. -/
theorem find_of_find_join_name {name : String} (nonempty : base.isEmpty = false)
    (named : Path.FileName name) (h : disk.find (base.join ⟨name⟩) = .ok tree) :
    ∃ children, disk.find base = .ok (.directory children) ∧
      children.lookup name = .some tree := by
  have whole : (disk.workingDirectory.join base).isEmpty = false :=
    isEmpty_workingDirectory_join nonempty
  obtain ⟨asked, middle, trail, given, front, last, rfl⟩ :=
    exists_of_find_join plain nonempty named.relative (steps_join_name whole named) h
  obtain ⟨children, tree, here, listed, rfl⟩ := advance_into_eq_ok last
  have directory : disk.find base = .ok (.directory children) :=
    (find_eq_ok_iff plain).mpr ⟨asked, middle, given, foldlM_steps front here, here⟩
  exact ⟨children, directory, listed⟩

/-- A slash at the end leads nowhere else. -/
theorem find_of_find_join_nothing (nonempty : base.isEmpty = false)
    (h : disk.find (base.join ⟨""⟩) = .ok tree) : disk.find base = .ok tree := by
  have whole : (disk.workingDirectory.join base).isEmpty = false :=
    isEmpty_workingDirectory_join nonempty
  obtain ⟨asked, middle, trail, given, front, last, same⟩ :=
    exists_of_find_join plain nonempty rfl (steps_join_nothing whole) h
  obtain ⟨children, here, rfl⟩ := advance_stay_eq_ok last
  exact (find_eq_ok_iff plain).mpr ⟨asked, _, given, foldlM_steps front here, same⟩

end Finding

/-! ## Descending -/

/-- Children have names that can stand in a path. -/
theorem entry_of_child {disk : Disk} (plain : disk.root.Plain) {path child : Path}
    {children : List Path} (listed : disk.children path = .ok children) (there : child ∈ children) :
    ∃ entries, disk.find path = .ok (.directory entries) ∧
      ∃ entry ∈ entries, Path.FileName entry.1 ∧ child = path.join ⟨entry.1⟩ := by
  obtain ⟨entries, directory, member⟩ := children_eq_ok listed
  obtain ⟨entry, inside, same⟩ := (member child).mp there
  obtain ⟨plainAll, _⟩ := plain_of_find plain directory
  obtain ⟨named, _⟩ := FileTree.plain_of_mem plainAll inside
  exact ⟨entries, directory, entry, inside, named, same⟩

namespace Reaches

variable {disk : Disk} {levels more : Nat} {start middle path : Path} {tree : FileTree}

theorem trans (h : Reaches disk levels start middle) (h' : Reaches disk more middle path) :
    Reaches disk (levels + more) start path := by
  induction h with
  | here => rwa [Nat.zero_add]
  | down listed there _ ih =>
    rw [Nat.add_right_comm]
    exact .down listed there (ih h')

/-- What is on the way to something is there. -/
theorem exists_find (h : Reaches disk levels start path) (found : disk.find path = .ok tree) :
    ∃ tree, disk.find start = .ok tree := by
  cases h with
  | here => exact ⟨tree, found⟩
  | down listed =>
    obtain ⟨entries, there, _⟩ := children_eq_ok listed
    exact ⟨_, there⟩

/-- Where there is one way down, it is taken or nothing is. -/
theorem of_single {child : Path} (only : disk.children start = .ok [child])
    (h : Reaches disk levels start path) :
    levels = 0 ∧ path = start ∨ ∃ fewer, levels = fewer + 1 ∧ Reaches disk fewer child path := by
  cases h with
  | here => exact .inl ⟨rfl, rfl⟩
  | down listed there rest =>
    rw [only] at listed
    cases listed
    cases List.mem_singleton.mp there
    exact .inr ⟨_, rfl, rest⟩

variable (plain : disk.root.Plain)
include plain

/-- What is below has a name for each level more. -/
theorem components (h : Reaches disk levels start path) :
    ∃ names : List String, names.length = levels ∧
      path.components = start.components ++ names.map Path.Component.name := by
  induction h with
  | here path => exact ⟨[], rfl, (List.append_nil _).symm⟩
  | @down levels start child path children listed there _ ih =>
    obtain ⟨entries, found, entry, _, named, rfl⟩ := entry_of_child plain listed there
    obtain ⟨names, count, whole⟩ := ih
    have below : path.components =
        start.components ++ (entry.1 :: names).map Path.Component.name := by
      rw [whole, Path.components_join_name (isEmpty_of_find found) named]
      simp
    exact ⟨entry.1 :: names, congrArg Nat.succ count, below⟩

/-- What is below has a name for each level. -/
theorem exists_joinAll (h : Reaches disk levels start path) :
    ∃ names : List String, names.length = levels ∧ (∀ name ∈ names, Path.FileName name) ∧
      path = start.joinAll names := by
  induction h with
  | here path => exact ⟨[], rfl, List.forall_mem_nil _, rfl⟩
  | @down levels start child path children listed there _ ih =>
    obtain ⟨_, _, entry, _, named, rfl⟩ := entry_of_child plain listed there
    obtain ⟨names, count, others, rfl⟩ := ih
    exact ⟨entry.1 :: names, congrArg Nat.succ count, List.forall_mem_cons.mpr ⟨named, others⟩, rfl⟩

/-- Each level leads to a smaller tree. -/
theorem levels_le (h : Reaches disk levels start path) {around : FileTree}
    (whole : disk.find start = .ok around) (found : disk.find path = .ok tree) :
    levels + tree.size ≤ around.size := by
  induction h generalizing around with
  | here =>
    rw [whole] at found
    cases found
    omega
  | @down levels start child path children listed there rest ih =>
    obtain ⟨entries, directory, entry, _, named, rfl⟩ := entry_of_child plain listed there
    obtain ⟨next, there⟩ := rest.exists_find found
    obtain ⟨entries', directory', listed'⟩ :=
      find_of_find_join_name plain (isEmpty_of_find directory) named there
    have below := ih there found
    have small := FileTree.size_le_sizeAll (FileTree.mem_of_lookup listed')
    rw [whole] at directory'
    cases directory'
    rw [FileTree.size]
    dsimp only at small
    omega

/-- Names lead down as many levels as there are, if they lead anywhere. -/
theorem joinAll {names : List String} (named : ∀ name ∈ names, Path.FileName name)
    (nonempty : start.isEmpty = false) (found : disk.find (start.joinAll names) = .ok tree) :
    Reaches disk names.length start (start.joinAll names) := by
  induction names generalizing start with
  | nil => exact .here start
  | cons name names ih =>
    obtain ⟨first, others⟩ := List.forall_mem_cons.mp named
    have rest := ih others (Path.isEmpty_join nonempty first.relative) found
    obtain ⟨next, there⟩ := rest.exists_find found
    obtain ⟨entries, directory, listed⟩ := find_of_find_join_name plain nonempty first there
    obtain ⟨children, contents, inside⟩ :=
      child_of_entry directory (FileTree.mem_of_lookup listed)
    exact .down contents inside rest

/-- With a slash behind it a directory has the same children. -/
theorem of_join_nothing (nonempty : start.isEmpty = false)
    (h : Reaches disk (levels + 1) (start.join ⟨""⟩) path) :
    Reaches disk (levels + 1) start path := by
  cases h with
  | @down _ _ child _ children listed there rest =>
    obtain ⟨entries, directory, entry, inside, named, rfl⟩ := entry_of_child plain listed there
    have directory' := find_of_find_join_nothing plain nonempty directory
    obtain ⟨children', contents, there'⟩ := child_of_entry directory' inside
    rw [Path.join_nothing_join nonempty named.relative] at rest
    exact .down contents there' rest

end Reaches

/-! ## Walking -/

section Walking

variable {disk : Disk} {options : WalkOptions} {start path : Path} {isFile : Bool}
variable (plain : disk.root.Plain)
include plain

theorem visit_of_find {tree : FileTree} (found : disk.find path = .ok tree)
    (ancestors : List Ancestor) : disk.visit options ancestors path = .ok tree := by
  unfold visit
  rw [findItself_eq plain, found]
  cases tree with
  | file | directory => rfl
  | link => exact (plain_of_find plain found).1.elim

theorem find_of_visit {tree : FileTree} {ancestors : List Ancestor}
    (seen : disk.visit options ancestors path = .ok tree) : disk.find path = .ok tree := by
  cases found : disk.find path with
  | error fault =>
    unfold visit at seen
    rw [findItself_eq plain, found] at seen
    cases seen
  | ok other =>
    rw [visit_of_find plain found] at seen
    cases seen
    rfl

theorem mem_walkFrom_of_reaches {n levels : Nat} (h : Reaches disk n start path)
    (few : n ≤ levels) {tree : FileTree} (found : disk.find path = .ok tree)
    (ancestors : List Ancestor) :
    .visited path tree.isFile ∈ disk.walkFrom options levels ancestors start := by
  induction h generalizing levels ancestors with
  | here path =>
    rw [walkFrom.eq_def, visit_of_find plain found]
    cases levels with
    | zero => exact List.mem_singleton_self _
    | succ levels => exact List.mem_cons_self
  | @down n start child path children listed there rest ih =>
    obtain ⟨entries, directory, _⟩ := children_eq_ok listed
    obtain ⟨levels, rfl⟩ : ∃ fewer, levels = fewer + 1 := ⟨levels - 1, by omega⟩
    rw [walkFrom.eq_def, visit_of_find plain directory]
    dsimp only
    rw [FileTree.isDirectory, Bool.true_or, if_pos rfl, listed]
    apply List.mem_cons_of_mem
    rw [List.mem_flatMap]
    exact ⟨child, there, ih (Nat.le_of_succ_le_succ few) found _⟩

/-- A walk visits what is below its start, as deep as it is let. -/
theorem mem_walk_iff : .visited path isFile ∈ disk.walk options start ↔
    ∃ n, Reaches disk n start path ∧ (∀ limit, options.maxDepth = some limit → n ≤ limit) ∧
      ∃ tree, disk.find path = .ok tree ∧ tree.isFile = isFile := by
  constructor
  · intro visited
    obtain ⟨n, reached, few, _, tree, seen, file⟩ := reaches_of_mem_walk visited
    exact ⟨n, reached, few, tree, find_of_visit plain seen, file⟩
  · rintro ⟨n, reached, few, tree, found, rfl⟩
    obtain ⟨around, whole⟩ := reached.exists_find found
    have levels := reached.levels_le plain whole found
    have size := (plain_of_find plain whole).2
    -- There are no more levels than nodes, so the bound on a walk without a limit cuts nothing off.
    have bound : disk.root.size ≤ disk.levelBound :=
      Nat.le_trans (Nat.le_succ _) (Nat.le_mul_of_pos_right _ (Nat.succ_pos _))
    have depth : n ≤ options.maxDepth.getD disk.levelBound := by
      cases given : options.maxDepth with
      | none => exact Nat.le_trans (by omega) bound
      | some limit => exact few limit given
    have within : n ≤ disk.levelBound := by omega
    exact mem_walkFrom_of_reaches plain reached (Nat.le_min.mpr ⟨depth, within⟩) found []

end Walking

end Disk

end ClassAtlas
