import ClassAtlas.Disk.Walk
import ClassAtlas.Proofs.Results

/-!
# What is found, listed and visited

A path leads along the steps of what is asked for (`Disk.exists_of_find`). A directory lists the
names of its entries in order (`Disk.children_eq_ok_iff`). `Disk.Reaches disk levels start path`
says that the path is so many levels below the start, each a child of the one before. Links or not,
a walk visits nothing else (`Disk.reaches_of_mem_walkFrom`), so what is handed down to children
holds of all that is visited (`Disk.Reaches.of_down`).
-/

namespace ClassAtlas.Disk

variable {disk : Disk} {path : Path}

/-! ## Finding -/

theorem exists_of_find {tree : FileTree} (h : disk.find path = .ok tree) :
    ∃ asked trail, disk.asked path = .ok asked ∧
      follow disk.root true maxLinks [] (steps asked.text) = .ok trail ∧
      trail.tree disk.root = tree := by
  obtain ⟨trail, located, here⟩ := ok_of_map h
  obtain ⟨asked, given, led⟩ := ok_of_bind located
  exact ⟨asked, trail, given, led, here⟩

/-! ## Directories -/

/-- Only a directory has children, one for each name in it. -/
theorem children_eq_ok_iff {children : List Path} :
    disk.children path = .ok children ↔ ∃ entries, disk.find path = .ok (.directory entries) ∧
      children = ((entries.map Prod.fst).mergeSort (· ≤ ·)).map fun name => path.join ⟨name⟩ := by
  constructor
  · intro h
    rw [Disk.children] at h
    obtain ⟨tree, found, h⟩ := ok_of_bind h
    cases tree with
    | file | link => cases h
    | directory entries =>
      cases h
      exact ⟨entries, found, rfl⟩
  · rintro ⟨entries, found, rfl⟩
    rw [Disk.children, found]
    rfl

theorem children_eq_ok {children : List Path} (h : disk.children path = .ok children) :
    ∃ entries, disk.find path = .ok (.directory entries) ∧
      ∀ child, child ∈ children ↔ ∃ entry ∈ entries, child = path.join ⟨entry.1⟩ := by
  obtain ⟨entries, found, rfl⟩ := children_eq_ok_iff.mp h
  refine ⟨entries, found, fun child => ?_⟩
  simp [eq_comm]

/-- What a directory has in it is a child. -/
theorem child_of_entry {entries : List (String × FileTree)} {entry : String × FileTree}
    (directory : disk.find path = .ok (.directory entries)) (inside : entry ∈ entries) :
    ∃ children, disk.children path = .ok children ∧ path.join ⟨entry.1⟩ ∈ children := by
  refine ⟨_, children_eq_ok_iff.mpr ⟨entries, directory, rfl⟩, ?_⟩
  have name : entry.1 ∈ (entries.map Prod.fst).mergeSort (· ≤ ·) :=
    List.mem_mergeSort.mpr (List.mem_map_of_mem inside)
  exact List.mem_map_of_mem name

theorem children_of_single {name : String} {tree : FileTree}
    (h : disk.find path = .ok (.directory [(name, tree)])) :
    disk.children path = .ok [path.join ⟨name⟩] := by
  refine children_eq_ok_iff.mpr ⟨_, h, ?_⟩
  show _ = (List.mergeSort [name] _).map _
  rw [List.mergeSort_singleton]
  rfl

/-! ## Levels -/

/-- The path is so many levels below the start, each a child of the one before. -/
inductive Reaches (disk : Disk) : Nat → Path → Path → Prop
  | here (path : Path) : Reaches disk 0 path path
  | down {levels : Nat} {start child path : Path} {children : List Path}
    (listed : disk.children start = .ok children) (there : child ∈ children)
    (rest : Reaches disk levels child path) : Reaches disk (levels + 1) start path

/-- What holds of the start and is handed down to children holds of all that is below. -/
theorem Reaches.of_down {P : Path → Prop} {levels : Nat} {start : Path}
    (h : Reaches disk levels start path)
    (down : ∀ path children, P path → disk.children path = .ok children →
      ∀ child ∈ children, P child) (own : P start) : P path := by
  induction h with
  | here => exact own
  | down listed there _ ih => exact ih (down _ _ own listed _ there)

/-! ## Walks -/

variable {options : WalkOptions} {start : Path} {isFile : Bool}

/-- The path is one at which there was something to visit. -/
def Visited (disk : Disk) (options : WalkOptions) (path : Path) (isFile : Bool) : Prop :=
  ∃ ancestors tree, disk.visit options ancestors path = .ok tree ∧ tree.isFile = isFile

/-- A walk visits its start, or else what the walk from a child does. -/
theorem mem_walkFrom_cases {levels : Nat} {ancestors : List Ancestor}
    (h : .visited path isFile ∈ disk.walkFrom options levels ancestors start) :
    path = start ∧ disk.Visited options path isFile ∨
      ∃ fewer around children, levels = fewer + 1 ∧ disk.children start = .ok children ∧
        ∃ child ∈ children, .visited path isFile ∈ disk.walkFrom options fewer around child := by
  rw [walkFrom.eq_def] at h
  cases seen : disk.visit options ancestors start with
  | error fault =>
    rw [seen] at h
    cases List.mem_singleton.mp h
  | ok tree =>
    rw [seen] at h
    cases levels with
    | zero =>
      cases List.mem_singleton.mp h
      exact .inl ⟨rfl, ancestors, tree, seen, rfl⟩
    | succ fewer =>
      rcases List.mem_cons.mp h with own | below
      · cases own
        exact .inl ⟨rfl, ancestors, tree, seen, rfl⟩
      · split at below
        · cases listed : disk.children start with
          | error cause =>
            rw [listed] at below
            cases List.mem_singleton.mp below
          | ok children =>
            rw [listed] at below
            exact .inr ⟨fewer, _, children, rfl, rfl, List.mem_flatMap.mp below⟩
        · cases below

theorem reaches_of_mem_walkFrom {levels : Nat} {ancestors : List Ancestor}
    (h : .visited path isFile ∈ disk.walkFrom options levels ancestors start) :
    ∃ n ≤ levels, Reaches disk n start path ∧ disk.Visited options path isFile := by
  induction levels generalizing ancestors start with
  | zero =>
    obtain ⟨rfl, visited⟩ | ⟨fewer, _, _, deeper, _⟩ := mem_walkFrom_cases h
    · exact ⟨0, Nat.le_refl _, .here _, visited⟩
    · cases deeper
  | succ levels ih =>
    obtain ⟨rfl, visited⟩ | ⟨_, _, _, ⟨⟩, listed, child, there, inside⟩ := mem_walkFrom_cases h
    · exact ⟨0, Nat.zero_le _, .here _, visited⟩
    · obtain ⟨n, few, rest, visited⟩ := ih inside
      exact ⟨n + 1, Nat.succ_le_succ few, .down listed there rest, visited⟩

/-- A walk visits nothing but what is below its start, as deep as it may go. -/
theorem reaches_of_mem_walk (h : .visited path isFile ∈ disk.walk options start) :
    ∃ n, Reaches disk n start path ∧ (∀ limit, options.maxDepth = some limit → n ≤ limit) ∧
      disk.Visited options path isFile := by
  obtain ⟨n, few, reached, visited⟩ := reaches_of_mem_walkFrom h
  have allowed : ∀ limit, options.maxDepth = some limit → n ≤ limit := by
    intro limit given
    rw [given, Option.getD_some] at few
    omega
  exact ⟨n, reached, allowed, visited⟩

end ClassAtlas.Disk
