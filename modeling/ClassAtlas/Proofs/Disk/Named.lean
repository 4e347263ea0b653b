import ClassAtlas.Proofs.Disk.Linkless
import ClassAtlas.Proofs.Explore.Findings

/-!
# Names on a disk

A file has a name that can stand in a path as one component. So whatever a walk visits is below its
start, also on a disk with links (`Disk.components_of_mem_walk`): a link leads elsewhere, but what
is behind it is visited under the name of the link.
-/

namespace ClassAtlas

namespace FileTree

mutual

/-- The children in the tree have names that can stand in a path. There may be links. -/
def Named : FileTree → Prop
  | file _ | link _ => True
  | directory children => NamedAll children

def NamedAll : List (String × FileTree) → Prop
  | [] => True
  | (name, child) :: others => Path.FileName name ∧ child.Named ∧ NamedAll others

end

theorem named_of_mem {children : List (String × FileTree)} {entry : String × FileTree}
    (named : NamedAll children) (h : entry ∈ children) :
    Path.FileName entry.1 ∧ entry.2.Named := by
  induction children with
  | nil => cases h
  | cons first others ih =>
    obtain ⟨name, own, rest⟩ := named
    rcases List.mem_cons.mp h with rfl | inside
    · exact ⟨name, own⟩
    · exact ih rest inside

end FileTree

namespace Disk

/-- The children in all that is on the trail have names. -/
def Trail.Named (trail : Trail) : Prop := ∀ entry ∈ trail, entry.2.Named

theorem Trail.Named.tree {root : FileTree} {trail : Trail} (around : trail.Named)
    (named : root.Named) : (trail.tree root).Named := by
  cases trail with
  | nil => exact named
  | cons entry rest => exact around entry List.mem_cons_self

theorem named_of_follow {root : FileTree} (named : root.Named) {followLast : Bool} {links : Nat}
    {trail led : Trail} {steps : List Step} (around : trail.Named)
    (h : follow root followLast links trail steps = .ok led) : led.Named := by
  fun_induction follow root followLast links trail steps with
  | case1 =>
    cases h
    exact around
  | case2 _ _ _ _ _ ih => exact ih around h
  | case3 _ _ _ _ _ ih => exact ih (fun entry there => around entry (List.mem_of_mem_tail there)) h
  | case4 | case5 | case7 | case8 | case11 => cases h
  | case6 =>
    cases h
    exact List.forall_mem_cons.mpr ⟨trivial, around⟩
  | case9 _ _ _ _ _ _ _ _ _ _ _ start ih =>
    refine ih ?_ h
    dsimp only [start]
    split
    · exact List.forall_mem_nil _
    · exact around
  | case10 _ trail _ children _ here _ tree _ there ih =>
    have own : (FileTree.directory children).Named := here ▸ around.tree named
    exact ih (List.forall_mem_cons.mpr
      ⟨(FileTree.named_of_mem own (FileTree.mem_of_lookup there)).2, around⟩) h

section Named

variable {disk : Disk} (named : disk.root.Named) {path : Path}
include named

theorem named_of_find {tree : FileTree} (h : disk.find path = .ok tree) : tree.Named := by
  obtain ⟨_, trail, _, led, rfl⟩ := exists_of_find h
  exact (named_of_follow named (List.forall_mem_nil _) led).tree named

/-- A child has one component more. -/
theorem components_of_mem_children {children : List Path} {child : Path}
    (listed : disk.children path = .ok children) (there : child ∈ children) :
    ∃ name, child.components = path.components ++ [.name name] := by
  obtain ⟨entries, found, member⟩ := children_eq_ok listed
  obtain ⟨entry, inside, rfl⟩ := (member child).mp there
  exact ⟨_, Path.components_join_name (isEmpty_of_find found)
    (FileTree.named_of_mem (named_of_find named found) inside).1⟩

/-- A walk stays below its start, links or not. -/
theorem components_of_mem_walk {options : WalkOptions} {start : Path} {isFile : Bool}
    (h : .visited path isFile ∈ disk.walk options start) :
    ∃ below, path.components = start.components ++ below := by
  obtain ⟨_, reached, _, _⟩ := reaches_of_mem_walk h
  refine reached.of_down (P := fun path => ∃ below, path.components = _ ++ below) ?_
    ⟨[], (List.append_nil _).symm⟩
  rintro path children ⟨below, whole⟩ listed child there
  obtain ⟨name, one⟩ := components_of_mem_children named listed there
  exact ⟨below ++ [.name name], by rw [one, whole, List.append_assoc]⟩

end Named

end Disk

end ClassAtlas
