import ClassAtlas.Proofs.Disk.Named

/-!
# Following steps through links

`Disk.Follows root links trail steps left last`: from the end of the trail the steps lead to the end
of another one, through links of which no more than `links` are followed; so many as `left` could be
followed still. What comes first is followed first (`Follows.exists_of_append`), so that on any disk
a path leads somewhere only if what it starts with leads to a directory.
-/

namespace ClassAtlas

namespace Disk

/-- Where steps lead, with the number of links that may still be followed before and after. -/
inductive Follows (root : FileTree) : Nat → Trail → List Step → Nat → Trail → Prop
  | done (links : Nat) (trail : Trail) : Follows root links trail [] links trail
  | stay {links left : Nat} {trail last : Trail} {steps : List Step}
    {children : List (String × FileTree)} (here : trail.tree root = .directory children)
    (rest : Follows root links trail steps left last) :
    Follows root links trail (.stay :: steps) left last
  | up {links left : Nat} {trail last : Trail} {steps : List Step}
    {children : List (String × FileTree)} (here : trail.tree root = .directory children)
    (rest : Follows root links trail.tail steps left last) :
    Follows root links trail (.up :: steps) left last
  | into {links left : Nat} {trail last : Trail} {steps : List Step} {name : String}
    {tree : FileTree} {children : List (String × FileTree)}
    (here : trail.tree root = .directory children) (short : name.utf8ByteSize ≤ maxNameSize)
    (there : children.lookup name = some tree) (own : ∀ target, tree ≠ .link target)
    (rest : Follows root links ((name, tree) :: trail) steps left last) :
    Follows root links trail (.into name :: steps) left last
  | link {links left : Nat} {trail last : Trail} {steps : List Step} {name target : String}
    {children : List (String × FileTree)} (here : trail.tree root = .directory children)
    (short : name.utf8ByteSize ≤ maxNameSize) (there : children.lookup name = some (.link target))
    (nonempty : target.isEmpty = false)
    (rest : Follows root links (if (Path.mk target).isAbsolute then [] else trail)
      (Disk.steps target ++ steps) left last) :
    Follows root (links + 1) trail (.into name :: steps) left last

variable {root : FileTree} {links left : Nat} {trail last : Trail} {steps front back : List Step}

theorem follow_of_follows (h : Follows root links trail steps left last) :
    follow root true links trail steps = .ok last := by
  induction h with
  | done => rw [follow]
  | stay here _ ih | up here _ ih =>
    rw [follow.eq_def, here]
    exact ih
  | @into _ _ _ _ _ name tree _ here short there own _ ih =>
    rw [follow.eq_def, here]
    dsimp only
    rw [if_neg (Nat.not_lt.mpr short), there]
    cases tree with
    | file | directory => exact ih
    | link target => exact absurd rfl (own target)
  | link here short there nonempty _ ih =>
    rw [follow.eq_def, here]
    dsimp only
    rw [if_neg (Nat.not_lt.mpr short), there]
    dsimp only
    rw [if_neg (by simp), nonempty, if_neg Bool.false_ne_true]
    exact ih

theorem exists_follows (h : follow root true links trail steps = .ok last) :
    ∃ left, Follows root links trail steps left last := by
  fun_induction follow root true links trail steps with
  | case1 =>
    cases h
    exact ⟨_, .done _ _⟩
  | case2 _ _ _ _ here ih =>
    obtain ⟨left, rest⟩ := ih h
    exact ⟨left, .stay here rest⟩
  | case3 _ _ _ _ here ih =>
    obtain ⟨left, rest⟩ := ih h
    exact ⟨left, .up here rest⟩
  | case4 | case5 | case7 | case8 | case11 => cases h
  | case6 _ _ _ _ _ _ _ _ _ stops => simp at stops
  | case9 _ _ _ _ here short _ there _ _ nonempty _ ih =>
    obtain ⟨left, rest⟩ := ih h
    exact ⟨left, .link here (Nat.not_lt.mp short) there (Bool.eq_false_iff.mpr nonempty) rest⟩
  | case10 _ _ _ _ _ here short _ own there ih =>
    obtain ⟨left, rest⟩ := ih h
    exact ⟨left, .into here (Nat.not_lt.mp short) there own rest⟩

namespace Follows

theorem append {fewer : Nat} {middle : Trail} (first : Follows root links trail front fewer middle)
    (second : Follows root fewer middle back left last) :
    Follows root links trail (front ++ back) left last := by
  induction first with
  | done => exact second
  | stay here _ ih => exact .stay here (ih second)
  | up here _ ih => exact .up here (ih second)
  | into here short there own _ ih => exact .into here short there own (ih second)
  | link here short there nonempty _ ih =>
    have rest := ih second
    rw [List.append_assoc] at rest
    exact .link here short there nonempty rest

/-- What stands in front is followed first. -/
theorem exists_of_append (h : Follows root links trail (front ++ back) left last) :
    ∃ fewer middle, Follows root links trail front fewer middle ∧
      Follows root fewer middle back left last := by
  generalize whole : front ++ back = steps at h
  induction h generalizing front with
  | done links trail =>
    obtain ⟨rfl, rfl⟩ := List.append_eq_nil_iff.mp whole
    exact ⟨_, _, .done _ _, .done _ _⟩
  | stay here rest ih =>
    rcases List.append_eq_cons_iff.mp whole with ⟨rfl, rfl⟩ | ⟨front, rfl, rfl⟩
    · exact ⟨_, _, .done _ _, .stay here rest⟩
    · obtain ⟨fewer, middle, first, second⟩ := ih rfl
      exact ⟨fewer, middle, .stay here first, second⟩
  | up here rest ih =>
    rcases List.append_eq_cons_iff.mp whole with ⟨rfl, rfl⟩ | ⟨front, rfl, rfl⟩
    · exact ⟨_, _, .done _ _, .up here rest⟩
    · obtain ⟨fewer, middle, first, second⟩ := ih rfl
      exact ⟨fewer, middle, .up here first, second⟩
  | into here short there own rest ih =>
    rcases List.append_eq_cons_iff.mp whole with ⟨rfl, rfl⟩ | ⟨front, rfl, rfl⟩
    · exact ⟨_, _, .done _ _, .into here short there own rest⟩
    · obtain ⟨fewer, middle, first, second⟩ := ih rfl
      exact ⟨fewer, middle, .into here short there own first, second⟩
  | link here short there nonempty rest ih =>
    rcases List.append_eq_cons_iff.mp whole with ⟨rfl, rfl⟩ | ⟨front, rfl, rfl⟩
    · exact ⟨_, _, .done _ _, .link here short there nonempty rest⟩
    · obtain ⟨fewer, middle, first, second⟩ := ih (List.append_assoc _ _ _)
      exact ⟨fewer, middle, .link here short there nonempty first, second⟩

/-- A first step is taken from a directory. -/
theorem exists_directory {step : Step} (h : Follows root links trail (step :: steps) left last) :
    ∃ children, trail.tree root = .directory children := by
  cases h with
  | stay here | up here | into here | link here => exact ⟨_, here⟩

theorem exists_lookup {name : String}
    (h : Follows root links trail (.into name :: steps) left last) :
    ∃ children tree, trail.tree root = .directory children ∧ children.lookup name = some tree := by
  cases h with
  | into here _ there | link here _ there => exact ⟨_, _, here, there⟩

end Follows

section Finding

variable {disk : Disk} {path base asked : Path} {tree : FileTree}

theorem find_eq_ok_iff_follows : disk.find path = .ok tree ↔ ∃ asked left last,
    disk.asked path = .ok asked ∧ Follows disk.root maxLinks [] (Disk.steps asked.text) left last ∧
      last.tree disk.root = tree := by
  constructor
  · intro found
    obtain ⟨asked, last, given, led, here⟩ := exists_of_find found
    obtain ⟨left, follows⟩ := exists_follows led
    exact ⟨asked, left, last, given, follows, here⟩
  · rintro ⟨asked, left, last, given, follows, rfl⟩
    rw [find, locate, given]
    show (follow disk.root true maxLinks [] (Disk.steps asked.text)).map _ = _
    rw [follow_of_follows follows]
    rfl

/-- A slash at the end does not matter where a directory is. -/
theorem find_of_follows {children : List (String × FileTree)} (given : disk.asked path = .ok asked)
    (follows : Follows disk.root maxLinks [] (plainSteps asked.text) left last)
    (here : last.tree disk.root = .directory children) :
    disk.find path = .ok (.directory children) := by
  refine find_eq_ok_iff_follows.mpr ⟨asked, left, last, given, ?_, here⟩
  unfold Disk.steps
  split
  · exact follows.append (.stay here (.done _ _))
  · exact follows

/-- A name leads somewhere only from a directory that has it, links or not. -/
theorem exists_entry_of_find_join {name : String} (nonempty : base.isEmpty = false)
    (named : Path.FileName name) (h : disk.find (base.join ⟨name⟩) = .ok tree) :
    ∃ children child, disk.find base = .ok (.directory children) ∧
      children.lookup name = .some child := by
  obtain ⟨_, left, last, given, follows, _⟩ := find_eq_ok_iff_follows.mp h
  obtain ⟨given', rfl⟩ := asked_of_asked_join nonempty named.relative given
  rw [steps_join_name (isEmpty_workingDirectory_join nonempty) named] at follows
  obtain ⟨fewer, middle, first, second⟩ := follows.exists_of_append
  obtain ⟨children, child, here, there⟩ := second.exists_lookup
  exact ⟨children, child, find_of_follows given' first here, there⟩

end Finding

end Disk

end ClassAtlas
