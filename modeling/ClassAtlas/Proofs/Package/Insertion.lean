import ClassAtlas.Package
import Mathlib.Data.List.Perm.Basic
import Mathlib.Data.String.Basic

/-!
# Insertion into package trees

Insertions into an ascending list commute, and so do revisions of subpackages with different
segments; revisions with one segment fuse. So the tree of some classes does not depend on their
order: `ofClasses_perm`.
-/

namespace ClassAtlas

/-! ## Ascending lists -/

section Ascending

variable {text other : String} {others : List String}

theorem insertAscending_cons_self : insertAscending text (text :: others) = text :: others := by
  rw [insertAscending, if_pos rfl]

theorem insertAscending_cons_of_lt (h : text < other) :
    insertAscending text (other :: others) = text :: other :: others := by
  rw [insertAscending, if_neg (ne_of_lt h), if_pos h]

theorem insertAscending_cons_of_gt (h : other < text) :
    insertAscending text (other :: others) = other :: insertAscending text others := by
  rw [insertAscending, if_neg (ne_of_gt h), if_neg (lt_asymm h)]

theorem insertAscending_comm_of_lt {first second : String} (h : first < second)
    (texts : List String) :
    insertAscending first (insertAscending second texts) =
      insertAscending second (insertAscending first texts) := by
  induction texts with
  | nil =>
    show insertAscending first [second] = insertAscending second [first]
    rw [insertAscending_cons_of_lt h, insertAscending_cons_of_gt h]
    rfl
  | cons other others ih =>
    rcases lt_trichotomy first other with less | rfl | greater
    · -- The first text comes in front, wherever the second goes.
      rw [insertAscending_cons_of_lt less, insertAscending_cons_of_gt h]
      rcases lt_trichotomy second other with less' | rfl | greater'
      · rw [insertAscending_cons_of_lt less', insertAscending_cons_of_lt h]
      · rw [insertAscending_cons_self, insertAscending_cons_of_lt less]
      · rw [insertAscending_cons_of_gt greater', insertAscending_cons_of_lt less]
    · rw [insertAscending_cons_self, insertAscending_cons_of_gt h, insertAscending_cons_self]
    · have greater' := lt_trans greater h
      rw [insertAscending_cons_of_gt greater, insertAscending_cons_of_gt greater',
        insertAscending_cons_of_gt greater, insertAscending_cons_of_gt greater', ih]

theorem insertAscending_comm (first second : String) (texts : List String) :
    insertAscending first (insertAscending second texts) =
      insertAscending second (insertAscending first texts) := by
  rcases lt_trichotomy first second with less | rfl | greater
  · exact insertAscending_comm_of_lt less texts
  · rfl
  · exact (insertAscending_comm_of_lt greater texts).symm

end Ascending

namespace Package

/-! ## Subpackages -/

section Revise

variable {step : String} {revision : Package → Package} {fresh package : Package}
  {others : List Package}

theorem revise_cons_of_eq (h : package.segment = step) :
    revise step revision fresh (package :: others) = revision package :: others := by
  rw [revise, if_pos h]

theorem revise_cons_of_lt (h : step < package.segment) :
    revise step revision fresh (package :: others) = revision fresh :: package :: others := by
  rw [revise, if_neg (ne_of_gt h), if_pos h]

theorem revise_cons_of_gt (h : package.segment < step) :
    revise step revision fresh (package :: others) =
      package :: revise step revision fresh others := by
  rw [revise, if_neg (ne_of_lt h), if_neg (lt_asymm h)]

/-- Revisions under one segment are one revision. -/
theorem revise_revise {more : Package → Package} (kept : ∀ package, (revision package).segment =
    package.segment) (named : fresh.segment = step) (packages : List Package) :
    revise step more fresh (revise step revision fresh packages) =
      revise step (fun package => more (revision package)) fresh packages := by
  induction packages with
  | nil => exact revise_cons_of_eq ((kept fresh).trans named)
  | cons package packages ih =>
    rcases lt_trichotomy step package.segment with less | same | greater
    · rw [revise_cons_of_lt less, revise_cons_of_lt less,
        revise_cons_of_eq ((kept fresh).trans named)]
    · rw [revise_cons_of_eq same.symm, revise_cons_of_eq same.symm,
        revise_cons_of_eq ((kept package).trans same.symm)]
    · rw [revise_cons_of_gt greater, revise_cons_of_gt greater, revise_cons_of_gt greater, ih]

/-- Revisions under different segments do not meet. -/
theorem revise_comm_of_lt {first second : String} {revision other : Package → Package}
    {fresh fresh' : Package} (h : first < second)
    (kept : ∀ package, (revision package).segment = package.segment)
    (kept' : ∀ package, (other package).segment = package.segment)
    (named : fresh.segment = first) (named' : fresh'.segment = second)
    (packages : List Package) :
    revise first revision fresh (revise second other fresh' packages) =
      revise second other fresh' (revise first revision fresh packages) := by
  have here : (revision fresh).segment < second := by rwa [kept, named]
  have there : first < (other fresh').segment := by rwa [kept', named']
  induction packages with
  | nil =>
    show revise first revision fresh [other fresh'] = revise second other fresh' [revision fresh]
    rw [revise_cons_of_lt there, revise_cons_of_gt here]
    rfl
  | cons package packages ih =>
    rcases lt_trichotomy first package.segment with less | same | greater
    · rw [revise_cons_of_lt less, revise_cons_of_gt here]
      rcases lt_trichotomy second package.segment with less' | same' | greater'
      · rw [revise_cons_of_lt less', revise_cons_of_lt there]
      · rw [revise_cons_of_eq same'.symm, revise_cons_of_lt (by rwa [kept'])]
      · rw [revise_cons_of_gt greater', revise_cons_of_lt less]
    · have less' : package.segment < second := same ▸ h
      rw [revise_cons_of_gt less', revise_cons_of_eq same.symm, revise_cons_of_eq same.symm,
        revise_cons_of_gt (by rwa [kept])]
    · have greater' := lt_trans greater h
      rw [revise_cons_of_gt greater, revise_cons_of_gt greater', revise_cons_of_gt greater,
        revise_cons_of_gt greater', ih]

end Revise

/-! ## Trees -/

theorem segment_insertAt (path : List String) (name : String) (package : Package) :
    (package.insertAt path name).segment = package.segment := by
  obtain ⟨segment, fullName, classes, subpackages⟩ := package
  cases path <;> rfl

/-- Where two classes go does not depend on which goes first. -/
theorem insertAt_comm (path other : List String) (name second : String) (package : Package) :
    (package.insertAt path name).insertAt other second =
      (package.insertAt other second).insertAt path name := by
  induction path generalizing other package with
  | nil =>
    obtain ⟨segment, fullName, classes, subpackages⟩ := package
    cases other with
    | nil => simp only [insertAt, insertAscending_comm name second classes]
    | cons step other => rfl
  | cons step path ih =>
    obtain ⟨segment, fullName, classes, subpackages⟩ := package
    cases other with
    | nil => rfl
    | cons step' other =>
      simp only [insertAt, mk.injEq, true_and]
      have kept := segment_insertAt path name
      have kept' := segment_insertAt other second
      rcases lt_trichotomy step step' with less | rfl | greater
      · exact (revise_comm_of_lt less kept kept' rfl rfl subpackages).symm
      · have named : (childOf fullName step).segment = step := rfl
        rw [revise_revise kept named, revise_revise kept' named]
        congr 1
        funext package
        exact ih other package
      · exact revise_comm_of_lt greater kept' kept rfl rfl subpackages

/-- The tree of some classes does not depend on their order. -/
theorem ofClasses_perm {names others : List String} (h : names.Perm others) :
    ofClasses names = ofClasses others :=
  h.foldl_eq' (fun _ _ _ _ root => insertAt_comm _ _ _ _ root) empty

end Package

end ClassAtlas
