import ClassAtlas.Proofs.Parse.Batches
import Mathlib.Data.List.Chain

/-!
# How locations are split into batches

`SplitInto` says what batches are for, without saying how they are found: nothing is lost, each
batch is small enough and opens at most one archive, and a run is only split where a batch is full.
Every list has exactly one such splitting, and `batchesOf` finds it (`splitInto_iff`).
-/

namespace ClassAtlas

/-- The archive of a location, if it has one. Paths with the same components are one archive. -/
def Location.archive? (location : Location) : Option (List Path.Component) :=
  location.storage.archive?.map Path.components

theorem sharesArchive_iff {first second : Location} :
    sharesArchive first second = true ↔ first.archive? = second.archive? := by
  unfold sharesArchive Location.archive?
  cases first.storage.archive? <;> cases second.storage.archive? <;> simp [Path.same]

/-- All are loose files, or all are entries of one archive. -/
def OneArchive (batch : List Location) : Prop :=
  (∀ location ∈ batch, location.archive? = none) ∨
    ∃ archive, ∀ location ∈ batch, location.archive? = some archive

/-- The batches are the locations in order, cut at changes of the archive and where a batch is
full, and nowhere else. -/
structure SplitInto (locations : List Location) (batches : List (List Location)) : Prop where
  whole : batches.flatten = locations
  filled : ∀ batch ∈ batches, batch ≠ []
  small : ∀ batch ∈ batches, batch.length ≤ 256
  alike : ∀ batch ∈ batches, OneArchive batch
  needed : batches.IsChain fun batch next =>
    batch.length = 256 ∨ ∀ before ∈ batch, ∀ after ∈ next, before.archive? ≠ after.archive?

section First

variable {first : Location} {others after : List Location} {batches : List (List Location)}

/-- All have the archive of the first, or none if it has none. -/
theorem oneArchive_cons_iff :
    OneArchive (first :: others) ↔ ∀ location ∈ others, sharesArchive first location = true := by
  simp only [OneArchive, List.forall_mem_cons, sharesArchive_iff]
  cases archive : first.archive? with
  | none => simp [eq_comm]
  | some own => simp [eq_comm]

/-- Locations that share the archive of the first are the rest of its batch, if the batch is then
full or the archive changes. -/
theorem take_takeWhile_eq (alike : ∀ location ∈ others, sharesArchive first location = true)
    (few : others.length ≤ batchSize - 1)
    (ends : others.length = batchSize - 1 ∨
      ∀ next ∈ after.head?, sharesArchive first next = false) :
    ((others ++ after).takeWhile (sharesArchive first)).take (batchSize - 1) = others := by
  rw [List.takeWhile_append_of_pos alike]
  rcases ends with full | changes
  · rw [← full, List.take_left]
  · have stops : after.takeWhile (sharesArchive first) = [] := by
      cases after with
      | nil => rfl
      | cons next rest => exact List.takeWhile_cons_of_neg (by simp [changes next rfl])
    rw [stops, List.append_nil, List.take_of_length_le few]

/-- The rest of a batch either fills it or goes as far as the archive does. -/
theorem length_eq_or_changes {rest : List Location}
    (taken : (rest.takeWhile (sharesArchive first)).take (batchSize - 1) = others) :
    others.length = batchSize - 1 ∨
      ∀ next ∈ (rest.drop others.length).head?, sharesArchive first next = false := by
  by_cases full : batchSize - 1 ≤ (rest.takeWhile (sharesArchive first)).length
  · left
    rw [← taken, List.length_take_of_le full]
  · right
    have all : rest.takeWhile (sharesArchive first) = others := by
      rw [← taken, List.take_of_length_le (Nat.le_of_not_le full)]
    have behind : rest.drop others.length = rest.dropWhile (sharesArchive first) := by
      have whole := List.takeWhile_append_dropWhile (p := sharesArchive first) (l := rest)
      rw [all] at whole
      calc rest.drop others.length
        _ = (others ++ rest.dropWhile (sharesArchive first)).drop others.length := by rw [whole]
        _ = rest.dropWhile (sharesArchive first) := List.drop_left
    intro next ahead
    rw [behind] at ahead
    have stops := List.head?_dropWhile_not (sharesArchive first) rest
    rw [ahead] at stops
    exact stops

end First

/-! ## The only splitting -/

/-- The first location behind batches that are not empty is the first of the next batch. -/
theorem head?_flatten {batches : List (List Location)} (filled : ∀ batch ∈ batches, batch ≠ [])
    {next : Location} (ahead : next ∈ batches.flatten.head?) :
    ∃ batch ∈ batches.head?, next ∈ batch := by
  cases batches with
  | nil => cases ahead
  | cons batch others =>
    obtain ⟨head, more, rfl⟩ := List.exists_cons_of_ne_nil (filled batch List.mem_cons_self)
    obtain rfl := Option.some_inj.mp ahead
    exact ⟨_, rfl, List.mem_cons_self⟩

/-- The induction is on the batches: the first one is told by what it must not leave out. -/
theorem SplitInto.eq_batchesOf {locations : List Location} {batches : List (List Location)}
    (h : SplitInto locations batches) : batches = batchesOf locations := by
  obtain ⟨rfl, filled, small, alike, needed⟩ := h
  induction batches with
  | nil => rw [List.flatten_nil, batchesOf]
  | cons batch batches ih =>
    obtain ⟨needs, neededBehind⟩ := List.isChain_cons.mp needed
    obtain ⟨own, alikeBehind⟩ := List.forall_mem_cons.mp alike
    obtain ⟨few, smallBehind⟩ := List.forall_mem_cons.mp small
    obtain ⟨nonempty, filledBehind⟩ := List.forall_mem_cons.mp filled
    obtain ⟨first, others, rfl⟩ := List.exists_cons_of_ne_nil nonempty
    have shares := oneArchive_cons_iff.mp own
    have ends : others.length = batchSize - 1 ∨
        ∀ next ∈ batches.flatten.head?, sharesArchive first next = false := by
      by_cases full : (first :: others).length = 256
      · exact .inl (Nat.succ.inj full)
      · right
        intro next ahead
        obtain ⟨batch, there, inside⟩ := head?_flatten filledBehind ahead
        have apart := (needs batch there).resolve_left full first List.mem_cons_self next inside
        exact Bool.eq_false_iff.mpr (mt sharesArchive_iff.mp apart)
    have taken := take_takeWhile_eq shares (Nat.le_of_succ_le_succ few) ends
    rw [List.flatten_cons, List.cons_append, batchesOf, taken, List.drop_left,
      ← ih filledBehind smallBehind alikeBehind neededBehind]

/-- What is put into a batch has the archive of the first. -/
theorem archive?_of_taken {first location : Location} {rest : List Location} {count : Nat}
    (h : location ∈ first :: (rest.takeWhile (sharesArchive first)).take count) :
    first.archive? = location.archive? := by
  rcases List.mem_cons.mp h with rfl | inside
  · rfl
  · exact sharesArchive_iff.mp (List.mem_takeWhile_imp (List.mem_of_mem_take inside))

/-- The first batch starts with the first location. -/
theorem exists_of_head?_batchesOf {locations batch : List Location}
    (h : batch ∈ (batchesOf locations).head?) :
    ∃ first ∈ locations.head?, ∀ location ∈ batch, first.archive? = location.archive? := by
  cases locations with
  | nil =>
    rw [batchesOf] at h
    cases h
  | cons first rest =>
    rw [batchesOf] at h
    obtain rfl := Option.some_inj.mp h
    exact ⟨first, rfl, fun _ => archive?_of_taken⟩

/-- A batch is followed by another where it is full or the archive changes. -/
theorem needed_batchesOf (locations : List Location) :
    (batchesOf locations).IsChain fun batch next =>
      batch.length = 256 ∨ ∀ before ∈ batch, ∀ after ∈ next, before.archive? ≠ after.archive? := by
  fun_induction batchesOf locations with
  | case1 => exact .nil
  | case2 first rest others ih =>
    rw [List.isChain_cons]
    refine ⟨fun batch there => ?_, ih⟩
    have taken : (rest.takeWhile (sharesArchive first)).take (batchSize - 1) = others := rfl
    rcases length_eq_or_changes taken with full | changes
    · exact .inl (congrArg Nat.succ full)
    · right
      intro before inside after later same
      obtain ⟨next, ahead, shares⟩ := exists_of_head?_batchesOf there
      have together := (archive?_of_taken inside).trans (same.trans (shares after later).symm)
      exact Bool.eq_false_iff.mp (changes next ahead) (sharesArchive_iff.mpr together)

theorem length_le_of_mem {locations batch : List Location} (h : batch ∈ batchesOf locations) :
    batch.length ≤ 256 := by
  obtain ⟨first, rest, rfl⟩ := exists_of_mem_batchesOf batch h
  exact Nat.succ_le_succ (List.length_take_le _ _)

theorem splitInto_batchesOf (locations : List Location) :
    SplitInto locations (batchesOf locations) where
  whole := flatten_batchesOf locations
  filled batch inside := by
    obtain ⟨_⟩ := isBatch_of_mem inside
    exact List.cons_ne_nil _ _
  small _ inside := length_le_of_mem inside
  alike batch inside := by
    obtain ⟨shares⟩ := isBatch_of_mem inside
    exact oneArchive_cons_iff.mpr shares
  needed := needed_batchesOf locations

/-- The batches are what they should be, and nothing else is. -/
theorem splitInto_iff (locations : List Location) (batches : List (List Location)) :
    SplitInto locations batches ↔ batches = batchesOf locations := by
  constructor
  · exact SplitInto.eq_batchesOf
  · rintro rfl
    exact splitInto_batchesOf locations

end ClassAtlas
