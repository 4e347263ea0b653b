import ClassAtlas.Proofs.Parse.Batches

/-!
# Locations that end the program

An entry that declares more than a buffer can hold ends the program when it is read, and with it
the whole run, of which nothing is left.

* `overflowsBeside`: what ends the program is reading a location beside the first of its batch;
* `ParseOutcome.overflows_iff`: a run ends the program exactly because of such a location that it
  does not leave out;
* `overflowsBeside_of_isOk`: it is none that can be read.
-/

namespace ClassAtlas

/-! ## Entries -/

/-- What ends the program is an entry that is there and declares too much. -/
theorem Archive.overflows_iff {archive : Archive} {name : String} :
    archive.overflows name = true ↔
      ∃ entry stored, archive.find name = .ok (entry, stored) ∧ largestBuffer < entry.size := by
  rw [overflows, attempt]
  cases archive.find name with
  | error cause => simp
  | ok found =>
    obtain ⟨entry, stored⟩ := found
    by_cases large : largestBuffer < entry.size
    · simp [large]
    · simp [large]

/-- A jar with one empty class file, for which the directory declares a size of eight bytes. -/
def jarDeclaring (size : Bytes) : Bytes :=
  [0x50, 0x4B, 0x03, 0x04, 20, 0, 0, 0, 0, 0, 0, 0, 0x21, 0, 0, 0, 0, 0, 0, 0, 0, 0, 0, 0, 0, 0,
    7, 0, 0, 0] ++ "A.class".toUTF8.toList ++
  [0x50, 0x4B, 0x01, 0x02, 20, 3, 20, 0, 0, 0, 0, 0, 0, 0, 0x21, 0, 0, 0, 0, 0, 0, 0, 0, 0,
    0xFF, 0xFF, 0xFF, 0xFF, 7, 0, 12, 0, 0, 0, 0, 0, 0, 0, 0, 0, 0x80, 1, 0, 0, 0, 0] ++
    "A.class".toUTF8.toList ++ [1, 0, 8, 0] ++ size ++
  [0x50, 0x4B, 0x05, 0x06, 0, 0, 0, 0, 1, 0, 1, 0, 65, 0, 0, 0, 37, 0, 0, 0, 0, 0]

/-- The size counts that is declared, not the one of the content, and it counts from `2 ^ 63` on. -/
example :
    (Archive.ofBytes ⟨"/a.jar"⟩ (jarDeclaring [0, 0, 0, 0, 0, 0, 0, 0x80])).toOption.any
      (·.overflows "A.class") = true ∧
    (Archive.ofBytes ⟨"/a.jar"⟩ (jarDeclaring [0xFF, 0xFF, 0xFF, 0xFF, 0xFF, 0xFF, 0xFF,
      0x7F])).toOption.any (·.overflows "A.class") = false := by decide +kernel

/-- An entry that ends the program has no content. -/
theorem Archive.overflows_of_read {archive : Archive} {name : String} {bytes : Bytes}
    (h : archive.read name = .ok bytes) : archive.overflows name = false := by
  rw [read] at h
  rw [overflows]
  cases result : archive.attempt name with
  | returned _ => rfl
  | crashed =>
    rw [result] at h
    cases h

/-! ## Locations of a batch -/

/-- Whether reading a location, but from the archive of another if there are two, ends the
program. -/
def overflowsBeside (disk : Disk) (first location : Location) : Bool :=
  match first.storage.archive?, location.storage with
  | some path, .archived _ name => (Archive.openAt disk path).toOption.any (·.overflows name)
  | _, _ => location.overflows disk

section Beside

variable {disk : Disk} {first location : Location} {path own : Path} {name : String}

theorem overflowsBeside_loose (loose : first.storage.archive? = none) :
    overflowsBeside disk first location = location.overflows disk := by
  rw [overflowsBeside, loose]

section Archived

variable (archive : first.storage.archive? = some path)
variable (storage : location.storage = .archived own name)

include archive storage

theorem overflowsBeside_archived : overflowsBeside disk first location =
    (Archive.openAt disk path).toOption.any (·.overflows name) := by
  rw [overflowsBeside, archive, storage]

theorem overflowsBeside_unopened {cause : ImportError}
    (refused : Archive.openAt disk path = .error cause) :
    overflowsBeside disk first location = false := by
  rw [overflowsBeside_archived archive storage, refused]
  rfl

theorem overflowsBeside_opened {reader : Archive} (opened : Archive.openAt disk path = .ok reader) :
    overflowsBeside disk first location = overflowsOpened disk reader location := by
  rw [overflowsBeside_archived archive storage, opened, overflowsOpened, storage]
  rfl

end Archived

/-- A file ends no program. -/
theorem overflowsBeside_file (loose : location.storage.archive? = none) :
    overflowsBeside disk first location = false := by
  cases storage : location.storage with
  | archived own name =>
    rw [storage] at loose
    cases loose
  | loose own =>
    rw [overflowsBeside, storage]
    cases first.storage.archive? <;> simp [Location.overflows, storage]

theorem any_overflows_of_read {bytes : Bytes}
    (h : (Archive.openAt disk path).bind (·.read name) = .ok bytes) :
    (Archive.openAt disk path).toOption.any (·.overflows name) = false := by
  cases opened : Archive.openAt disk path with
  | error cause => rfl
  | ok reader =>
    rw [opened] at h
    exact Archive.overflows_of_read h

theorem isOk_of_isOk_bind {α β ε : Type} {result : Except ε α} {context : String}
    {next : α → Except ImportError β} {message : ε → String}
    (h : ((atLocation context (result.mapError message)).bind next).isOk = true) :
    ∃ a, result = .ok a := by
  cases result with
  | ok a => exact ⟨a, rfl⟩
  | error cause => cases h

/-- A location that is read to its end does not end the program. -/
theorem overflows_of_isOk (h : (readClass disk location).isOk = true) :
    location.overflows disk = false := by
  rw [readClass, Location.read] at h
  rw [Location.overflows]
  cases storage : location.storage with
  | loose _ => rfl
  | archived path name =>
    rw [storage] at h
    obtain ⟨bytes, read⟩ := isOk_of_isOk_bind h
    exact any_overflows_of_read read

theorem overflowsBeside_of_isOk (h : (readBeside disk first location).isOk = true) :
    overflowsBeside disk first location = false := by
  cases archive : first.storage.archive? with
  | none =>
    rw [readBeside_loose archive] at h
    rw [overflowsBeside_loose archive]
    exact overflows_of_isOk h
  | some path =>
    cases storage : location.storage with
    | loose own =>
      refine overflowsBeside_file ?_
      rw [storage]
      rfl
    | archived own name =>
      rw [readBeside_archived archive storage] at h
      rw [overflowsBeside_archived archive storage]
      obtain ⟨bytes, read⟩ := isOk_of_isOk_bind h
      exact any_overflows_of_read read

end Beside

/-! ## Runs -/

/-- What a list and its numbered items have at one place. -/
theorem zip_zipIdx_map {α β γ : Type} (f : α × Nat → β) (g : α → γ) (items : List α) :
    (items.zipIdx.map f).zip (items.map g) = items.zipIdx.map fun p => (f p, g p.1) := by
  conv_lhs => arg 2; rw [← List.zipIdx_map_fst 0 items, List.map_map]
  exact List.zip_map'

/-- Some location is not left out, and reading it beside the first of its batch ends the
program. -/
def EndsAt (disk : Disk) (outcomes : List Outcome) (places : List (Location × Location)) : Prop :=
  ∃ p ∈ outcomes.zip places, p.1.isSome = true ∧ overflowsBeside disk p.2.1 p.2.2 = true

theorem not_endsAt_of_quiet {disk : Disk} {outcomes : List Outcome}
    {places : List (Location × Location)} (quiet : ∀ outcome ∈ outcomes, outcome = none) :
    ¬ EndsAt disk outcomes places := by
  rintro ⟨p, inside, read, _⟩
  rw [quiet p.1 (List.of_mem_zip inside).1] at read
  cases read

theorem not_endsAt_of_files {disk : Disk} {outcomes : List Outcome} {locations : List Location}
    (loose : ∀ location ∈ locations, location.storage.archive? = none) :
    ¬ EndsAt disk outcomes (headed locations) := by
  rintro ⟨p, inside, _, huge⟩
  have there := List.mem_map_of_mem (f := Prod.snd) (List.of_mem_zip inside).2
  rw [map_snd_headed] at there
  rw [overflowsBeside_file (loose _ there)] at huge
  cases huge

/-- Locations that are read one by one as long as the answers allow it. -/
theorem any_zipIdx_iff {disk : Disk} {first : Location} {batch : List Location}
    (stops : Nat → Bool) (result : Location → Except ImportError SourcedClass)
    {large : Location → Bool}
    (same : ∀ location ∈ batch, overflowsBeside disk first location = large location) :
    (batch.zipIdx.any fun (location, n) => !stops n && large location) = true ↔
      EndsAt disk
        (batch.zipIdx.map fun (location, n) => if stops n then none else some (result location))
        (batch.map fun location => (first, location)) := by
  rw [EndsAt, zip_zipIdx_map, List.any_eq_true]
  constructor
  · rintro ⟨p, inside, ends⟩
    obtain ⟨asked, huge⟩ := (Bool.and_eq_true _ _).mp ends
    refine ⟨_, List.mem_map_of_mem inside, ?_, ?_⟩
    · rw [Bool.not_eq_true'] at asked
      simp [asked]
    · exact (same p.1 (List.fst_mem_of_mem_zipIdx inside)).trans huge
  · rintro ⟨_, inside, read, huge⟩
    obtain ⟨p, there, rfl⟩ := List.mem_map.mp inside
    refine ⟨p, there, (Bool.and_eq_true _ _).mpr ⟨?_, ?_⟩⟩
    · rw [Bool.not_eq_true']
      cases stop : stops p.2 with
      | false => rfl
      | true => simp [stop] at read
    · exact (same p.1 (List.fst_mem_of_mem_zipIdx there)).symm.trans huge

theorem batchOverflows_iff (disk : Disk) (cancelled : Nat → Bool) {batch : List Location}
    (h : IsBatch batch) : batchOverflows disk cancelled batch = true ↔
      EndsAt disk (readBatch disk cancelled batch) (behindFirst batch) := by
  obtain @⟨first, others, shares⟩ := h
  show _ ↔ EndsAt disk _ ((first :: others).map fun location => (first, location))
  rw [batchOverflows, readBatch, List.head?_cons, Option.bind_some]
  cases archive : first.storage.archive? with
  | none => exact any_zipIdx_iff cancelled _ fun location _ => overflowsBeside_loose archive
  | some path =>
    dsimp only
    cases asked : cancelled 0 with
    | true =>
      rw [if_pos rfl, Bool.not_true, Bool.false_and]
      refine iff_of_false Bool.false_ne_true (not_endsAt_of_quiet fun outcome inside => ?_)
      obtain ⟨_, _, rfl⟩ := List.mem_map.mp inside
      rfl
    | false =>
      rw [if_neg Bool.false_ne_true, Bool.not_false, Bool.true_and]
      cases opened : Archive.openAt disk path with
      | error cause =>
        refine iff_of_false Bool.false_ne_true ?_
        rintro ⟨p, inside, _, huge⟩
        obtain ⟨location, there, place⟩ := List.mem_map.mp (List.of_mem_zip inside).2
        obtain ⟨own, name, storage⟩ := isArchived_of_mem shares archive there
        rw [← place, overflowsBeside_unopened archive storage opened] at huge
        cases huge
      | ok reader =>
        refine any_zipIdx_iff (fun n => cancelled (n + 1)) _ fun location inside => ?_
        obtain ⟨own, name, storage⟩ := isArchived_of_mem shares archive inside
        exact overflowsBeside_opened archive storage opened

/-- Rows of the same lengths, put together, have the same pairs as row by row. -/
theorem zip_flatten_map {ι α β : Type} {f : ι → List α} {g : ι → List β} {items : List ι}
    (h : ∀ i ∈ items, (f i).length = (g i).length) :
    (items.flatMap f).zip (items.flatMap g) = items.flatMap fun i => (f i).zip (g i) := by
  induction items with
  | nil => rfl
  | cons i items ih =>
    obtain ⟨first, others⟩ := List.forall_mem_cons.mp h
    rw [List.flatMap_cons, List.flatMap_cons, List.flatMap_cons, List.zip_append first, ih others]

/-- A run ends the program exactly because of a location that it does not leave out. -/
theorem ParseOutcome.overflows_iff (disk : Disk) (cancelled : Cancellation)
    (locations : List Location) : overflows disk cancelled locations = true ↔
      EndsAt disk (outcomesOf disk cancelled locations) (headed locations) := by
  have numbered : headed locations =
      (batchesOf locations).zipIdx.flatMap fun p => behindFirst p.1 := by
    conv_lhs => rw [headed, ← List.zipIdx_map_fst 0 (batchesOf locations), List.flatMap_map]
  have batch : ∀ p ∈ (batchesOf locations).zipIdx, IsBatch p.1 := fun p inside =>
    isBatch_of_mem (List.fst_mem_of_mem_zipIdx inside)
  have rows : (outcomesOf disk cancelled locations).zip (headed locations) =
      (batchesOf locations).zipIdx.flatMap fun p =>
        (readBatch disk (cancelled p.2) p.1).zip (behindFirst p.1) := by
    rw [numbered]
    exact zip_flatten_map fun p inside =>
      (forall₂_readBatch disk (cancelled p.2) (batch p inside)).length_eq
  rw [overflows, List.any_eq_true, EndsAt, rows]
  constructor
  · rintro ⟨p, inside, ends⟩
    obtain ⟨q, there, read⟩ := (batchOverflows_iff disk _ (batch p inside)).mp ends
    exact ⟨q, List.mem_flatMap.mpr ⟨p, inside, there⟩, read⟩
  · rintro ⟨q, there, read⟩
    obtain ⟨p, inside, row⟩ := List.mem_flatMap.mp there
    exact ⟨p, inside, (batchOverflows_iff disk _ (batch p inside)).mpr ⟨q, row, read⟩⟩

/-- Without cancellation no location is left out. -/
theorem ParseOutcome.overflows_never_iff (disk : Disk) (locations : List Location) :
    overflows disk .never locations = true ↔
      ∃ p ∈ headed locations, overflowsBeside disk p.1 p.2 = true := by
  have pairs : ((headed locations).map fun p => some (readBeside disk p.1 p.2)).zip
      (headed locations) = (headed locations).map fun p => (some (readBeside disk p.1 p.2), p) := by
    conv_lhs => arg 2; rw [← List.map_id (headed locations)]
    exact List.zip_map'
  rw [overflows_iff, outcomesOf_never, EndsAt, pairs]
  constructor
  · rintro ⟨_, inside, _, huge⟩
    obtain ⟨p, there, rfl⟩ := List.mem_map.mp inside
    exact ⟨p, there, huge⟩
  · rintro ⟨p, inside, huge⟩
    exact ⟨_, List.mem_map_of_mem inside, rfl, huge⟩

/-- It does not end the program exactly if none of them is too large. -/
theorem ParseOutcome.fits_never_iff (disk : Disk) (locations : List Location) :
    overflows disk .never locations = false ↔
      ∀ p ∈ headed locations, overflowsBeside disk p.1 p.2 = false := by
  rw [Bool.eq_false_iff, ne_eq, overflows_never_iff, not_exists]
  exact forall_congr' fun p => by rw [not_and, Bool.not_eq_true]

/-! ## An entry that is too large -/

/-- A disk with one archive. -/
def jarDisk (content : Bytes) : Disk :=
  { root := .directory [("a.jar", .file content)], workingDirectory := ⟨"/"⟩ }

theorem find_jar (content : Bytes) : (jarDisk content).find ⟨"/a.jar"⟩ = .ok (.file content) := by
  have asked : (jarDisk content).asked ⟨"/a.jar"⟩ = .ok ⟨"/a.jar"⟩ := rfl
  have steps : Disk.steps "/a.jar" = [.into "a.jar"] := by decide
  have short : "a.jar".utf8ByteSize = 5 := by decide
  rw [Disk.find, Disk.locate, asked]
  show (Disk.follow (jarDisk content).root true Disk.maxLinks [] (Disk.steps "/a.jar")).map _ = _
  rw [steps]
  simp [Disk.follow, jarDisk, Disk.Trail.tree, Except.map, Disk.maxNameSize, short]

/-- A disk with a jar that declares `2 ^ 64 - 1` bytes for its class file. -/
def hugeDisk : Disk := jarDisk (jarDeclaring (List.replicate 8 0xFF))

def hugeEntry : Location := .jarEntry ⟨"/a.jar"⟩ "A.class"

theorem batchesOf_hugeEntry : batchesOf [hugeEntry] = [[hugeEntry]] := by
  simp [batchesOf]

theorem overflows_hugeEntry : overflowsBeside hugeDisk hugeEntry hugeEntry = true := by
  show (Archive.openAt hugeDisk ⟨"/a.jar"⟩).toOption.any (·.overflows "A.class") = true
  rw [Archive.openAt, hugeDisk, find_jar]
  decide +kernel

theorem exists_openAt_hugeDisk : ∃ reader, Archive.openAt hugeDisk ⟨"/a.jar"⟩ = .ok reader ∧
    overflowsOpened hugeDisk reader hugeEntry = true := by
  cases opened : Archive.openAt hugeDisk ⟨"/a.jar"⟩ with
  | ok reader => exact ⟨reader, rfl, (overflowsBeside_opened rfl rfl opened).symm.trans
      overflows_hugeEntry⟩
  | error cause =>
    have huge := overflows_hugeEntry
    rw [overflowsBeside_unopened rfl rfl opened] at huge
    cases huge

/-- A run that reads it has no outcome. -/
theorem endsAt_hugeEntry :
    EndsAt hugeDisk (outcomesOf hugeDisk .never [hugeEntry]) (headed [hugeEntry]) := by
  refine (ParseOutcome.overflows_iff hugeDisk .never [hugeEntry]).mp
    ((ParseOutcome.overflows_never_iff hugeDisk [hugeEntry]).mpr
      ⟨(hugeEntry, hugeEntry), ?_, overflows_hugeEntry⟩)
  rw [headed, batchesOf_hugeEntry]
  exact List.mem_singleton_self _

end ClassAtlas
