import ClassAtlas.ParseOutcome
import Mathlib.Data.List.Forall2
import Mathlib.Data.List.TakeWhile

/-!
# Batches and their locations

The batches of a list put together are the list, and all locations of a batch are loose or all are
in one archive. So a batch that nobody cancels gives for each location what reading it gives, except
that an archive is opened under the name that the first location has for it. `headed` puts each
location beside the one whose name counts.
-/

namespace ClassAtlas

/-! ## What a batch is made of -/

theorem flatten_batchesOf (locations : List Location) :
    (batchesOf locations).flatten = locations := by
  fun_induction batchesOf locations with
  | case1 => rfl
  | case2 first rest others ih =>
    have start : others <+: rest := (List.take_prefix _ _).trans (List.takeWhile_prefix _)
    rw [List.flatten_cons, ih, List.cons_append, List.prefix_iff_eq_append.mp start]

/-- A batch is a location and as much of what follows as shares its archive and fits. -/
theorem exists_of_mem_batchesOf {locations : List Location} : ∀ batch ∈ batchesOf locations,
    ∃ (first : Location) (rest : List Location),
      batch = first :: (rest.takeWhile (sharesArchive first)).take (batchSize - 1) := by
  fun_induction batchesOf locations with
  | case1 => exact fun _ h => absurd h List.not_mem_nil
  | case2 first rest others ih => exact List.forall_mem_cons.mpr ⟨⟨first, rest, rfl⟩, ih⟩

/-- A run of loose files, or of entries of one archive. -/
inductive IsBatch : List Location → Prop where
  | mk {first : Location} {others : List Location}
    (shares : ∀ location ∈ others, sharesArchive first location = true) : IsBatch (first :: others)

theorem isBatch_of_mem {locations batch : List Location} (h : batch ∈ batchesOf locations) :
    IsBatch batch := by
  obtain ⟨first, rest, rfl⟩ := exists_of_mem_batchesOf batch h
  exact .mk fun location inside => List.mem_takeWhile_imp (List.mem_of_mem_take inside)

/-- The locations of a batch, each behind the first. -/
def behindFirst (batch : List Location) : List (Location × Location) :=
  match batch.head? with
  | none => []
  | some first => batch.map fun location => (first, location)

theorem map_snd_behindFirst (batch : List Location) :
    (behindFirst batch).map Prod.snd = batch := by
  cases batch with
  | nil => rfl
  | cons first others => simp [behindFirst, List.map_map, Function.comp_def]

/-- The locations in order, each behind the first location of its batch. -/
def headed (locations : List Location) : List (Location × Location) :=
  (batchesOf locations).flatMap behindFirst

theorem map_snd_headed (locations : List Location) :
    (headed locations).map Prod.snd = locations := by
  rw [headed, List.map_flatMap, List.flatMap_congr fun batch _ => map_snd_behindFirst batch,
    List.flatMap_id', flatten_batchesOf]

/-! ## Reading a batch -/

/-- Reading a location, but from the archive of another location if there are two. -/
def readBeside (disk : Disk) (first location : Location) : Except ImportError SourcedClass :=
  match first.storage.archive?, location.storage with
  | some path, .archived _ name =>
    (atLocation location.uri
      (((Archive.openAt disk path).bind (·.read name)).mapError ImportError.message)).bind
        (decodeAt location)
  | _, _ => readClass disk location

/-- Under one name an archive is the same for both. -/
theorem readBeside_of_archive?_eq {disk : Disk} {first location : Location}
    (h : first.storage.archive? = location.storage.archive?) :
    readBeside disk first location = readClass disk location := by
  rw [readBeside, readClass, Location.read, h]
  cases location.storage <;> rfl

section Beside

variable {disk : Disk} {first location : Location} {path own : Path} {name : String}

theorem readBeside_loose (loose : first.storage.archive? = none) :
    readBeside disk first location = readClass disk location := by
  rw [readBeside, loose]

section Archived

variable (archive : first.storage.archive? = some path)
variable (storage : location.storage = .archived own name)

include archive storage

theorem readBeside_archived : readBeside disk first location =
    (atLocation location.uri
      (((Archive.openAt disk path).bind (·.read name)).mapError ImportError.message)).bind
        (decodeAt location) := by
  rw [readBeside, archive, storage]

theorem readBeside_unopened {cause : ImportError}
    (refused : Archive.openAt disk path = .error cause) :
    readBeside disk first location = .error (.unreadable location.uri cause.message) := by
  rw [readBeside_archived archive storage, refused]
  rfl

/-- Beside another location the archive need not be opened again. -/
theorem readBeside_opened {reader : Archive} (opened : Archive.openAt disk path = .ok reader) :
    readBeside disk first location = readOpened disk reader location := by
  rw [readBeside_archived archive storage, opened, readOpened, storage]
  rfl

end Archived

end Beside

theorem isArchived_of_shares {first location : Location} {path : Path}
    (archive : first.storage.archive? = some path) (shares : sharesArchive first location = true) :
    ∃ own name, location.storage = .archived own name := by
  rw [sharesArchive, archive] at shares
  cases storage : location.storage with
  | loose _ =>
    rw [storage] at shares
    cases shares
  | archived own name => exact ⟨own, name, rfl⟩

/-- With the first of a batch all of it is in an archive. -/
theorem isArchived_of_mem {first location : Location} {others : List Location} {path : Path}
    (shares : ∀ location ∈ others, sharesArchive first location = true)
    (archive : first.storage.archive? = some path) (inside : location ∈ first :: others) :
    ∃ own name, location.storage = .archived own name := by
  rcases List.mem_cons.mp inside with rfl | later
  · cases storage : location.storage with
    | loose _ =>
      rw [storage] at archive
      cases archive
    | archived own name => exact ⟨own, name, rfl⟩
  · exact isArchived_of_shares archive (shares location later)

/-- What becomes of a location for which reading gives this result: the same, or nothing once
somebody was told to stop. -/
def Curtailed (told : Prop) (outcome : Outcome) (result : Except ImportError SourcedClass) : Prop :=
  outcome = some result ∨ outcome = none ∧ told

theorem Curtailed.mono {told more : Prop} (h : told → more) {outcome : Outcome}
    {result : Except ImportError SourcedClass} (curtailed : Curtailed told outcome result) :
    Curtailed more outcome result :=
  curtailed.imp_right fun ⟨left, told⟩ => ⟨left, h told⟩

theorem curtailed_ite {told : Prop} {stop : Bool} (h : stop = true → told)
    (result : Except ImportError SourcedClass) :
    Curtailed told (if stop then none else some result) result := by
  split
  next stops => exact .inr ⟨rfl, h stops⟩
  next => exact .inl rfl

/-- As long as nobody is told to stop, nothing is left out. -/
theorem eq_map_some_of_forall₂ {ι : Type} {told : Prop} {outcomes : List Outcome} {items : List ι}
    {result : ι → Except ImportError SourcedClass}
    (h : List.Forall₂ (fun outcome i => Curtailed told outcome (result i)) outcomes items)
    (quiet : ¬ told) : outcomes = items.map fun i => some (result i) := by
  induction h with
  | nil => rfl
  | cons curtailed _ ih =>
    rcases curtailed with rfl | ⟨_, told⟩
    · rw [ih, List.map_cons]
    · exact absurd told quiet

/-- What is done with every location and its number, against what is done with it alone. -/
theorem forall₂_zipIdx_map {α β γ : Type} {R : β → γ → Prop} {f : α × Nat → β} {g : α → γ}
    {items : List α} (h : ∀ item ∈ items, ∀ n, R (f (item, n)) (g item)) :
    List.Forall₂ R (items.zipIdx.map f) (items.map g) := by
  rw [List.forall₂_map_left_iff, List.forall₂_map_right_iff]
  conv => arg 3; rw [← List.zipIdx_map_fst 0 items]
  rw [List.forall₂_map_right_iff, List.forall₂_same]
  exact fun p inside => h p.1 (List.fst_mem_of_mem_zipIdx inside) p.2

/-- A batch reads every location beside the first, or leaves it out. It leaves out none unless some
question is answered with yes. -/
theorem forall₂_readBatch (disk : Disk) (cancelled : Nat → Bool) {batch : List Location}
    (h : IsBatch batch) :
    List.Forall₂ (fun outcome p => Curtailed (∃ k, cancelled k = true) outcome
      (readBeside disk p.1 p.2)) (readBatch disk cancelled batch) (behindFirst batch) := by
  obtain @⟨first, others, shares⟩ := h
  show List.Forall₂ _ _ ((first :: others).map fun location => (first, location))
  rw [readBatch, List.head?_cons, Option.bind_some]
  cases archive : first.storage.archive? with
  | none =>
    refine forall₂_zipIdx_map fun location _ n => ?_
    rw [readBeside_loose archive]
    exact curtailed_ite (fun told => ⟨n, told⟩) _
  | some path =>
    dsimp only
    split
    next told =>
      rw [List.forall₂_map_left_iff, List.forall₂_map_right_iff, List.forall₂_same]
      exact fun _ _ => .inr ⟨rfl, 0, told⟩
    next =>
      cases opened : Archive.openAt disk path with
      | error cause =>
        dsimp only
        rw [List.forall₂_map_left_iff, List.forall₂_map_right_iff, List.forall₂_same]
        intro location inside
        obtain ⟨own, name, storage⟩ := isArchived_of_mem shares archive inside
        rw [readBeside_unopened archive storage opened]
        exact .inl rfl
      | ok reader =>
        refine forall₂_zipIdx_map fun location inside n => ?_
        obtain ⟨own, name, storage⟩ := isArchived_of_mem shares archive inside
        rw [readBeside_opened archive storage opened]
        exact curtailed_ite (fun told => ⟨n + 1, told⟩) _

/-! ## All batches -/

/-- What becomes of each location, in order. -/
def outcomesOf (disk : Disk) (cancelled : Cancellation) (locations : List Location) :
    List Outcome :=
  (batchesOf locations).zipIdx.flatMap fun (batch, n) => readBatch disk (cancelled n) batch

theorem parse_eq_ofOutcomes (disk : Disk) (cancelled : Cancellation) (locations : List Location) :
    ParseOutcome.parse disk cancelled locations =
      .ofOutcomes (outcomesOf disk cancelled locations) := rfl

/-- Every location becomes what it is read as beside the first of its batch, or is left out. -/
theorem forall₂_outcomesOf (disk : Disk) (cancelled : Cancellation) (locations : List Location) :
    List.Forall₂ (fun outcome p => Curtailed (∃ n k, cancelled n k = true) outcome
      (readBeside disk p.1 p.2)) (outcomesOf disk cancelled locations) (headed locations) := by
  rw [outcomesOf, headed, List.flatMap_def, List.flatMap_def]
  refine List.rel_flatten (forall₂_zipIdx_map fun batch inside n => ?_)
  exact (forall₂_readBatch disk (cancelled n) (isBatch_of_mem inside)).imp fun _ _ =>
    Curtailed.mono fun ⟨k, told⟩ => ⟨n, k, told⟩

theorem outcomesOf_never (disk : Disk) (locations : List Location) :
    outcomesOf disk .never locations =
      (headed locations).map fun p => some (readBeside disk p.1 p.2) :=
  eq_map_some_of_forall₂ (forall₂_outcomesOf disk .never locations) nofun

end ClassAtlas
