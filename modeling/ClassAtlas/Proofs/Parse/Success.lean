import ClassAtlas.Proofs.Disk.Spelling
import ClassAtlas.Proofs.Parse.Alone

/-!
# Success in a batch

An archive that opens under two names has the same entries under both. So a location that can be
read alone and in its batch gives the same class in both ways, and locations that can all be read
alone can all be read in their batches.
-/

namespace ClassAtlas

/-! ## Archives under two names -/

theorem Archive.content_of_openAt {disk : Disk} {path : Path} {archive : Archive}
    (h : Archive.openAt disk path = .ok archive) :
    disk.find path = .ok (.file archive.bytes) ∧
      archiveEntries archive.bytes = .ok archive.entries := by
  rw [openAt] at h
  cases found : disk.find path with
  | error fault =>
    rw [found] at h
    cases h
  | ok tree =>
    rw [found] at h
    cases tree with
    | link | directory => cases h
    | file bytes =>
      change ofBytes path bytes = _ at h
      rw [ofBytes] at h
      cases told : archiveEntries bytes with
      | error cause =>
        rw [told] at h
        cases h
      | ok entries =>
        rw [told] at h
        cases h
        exact ⟨rfl, told⟩

/-- Under any name the archive has the same content. -/
theorem Archive.content_eq {disk : Disk} {first second : Path} {one other : Archive}
    (same : first.same second = true) (ho : openAt disk first = .ok one)
    (ht : openAt disk second = .ok other) :
    one.bytes = other.bytes ∧ one.entries = other.entries := by
  obtain ⟨foundOne, entriesOne⟩ := content_of_openAt ho
  obtain ⟨foundOther, entriesOther⟩ := content_of_openAt ht
  have bytes : one.bytes = other.bytes :=
    FileTree.file.inj (Disk.find_same same foundOne foundOther)
  refine ⟨bytes, ?_⟩
  rw [bytes, entriesOther] at entriesOne
  exact (Except.ok.inj entriesOne).symm

/-- What an entry holds does not depend on the name of the archive. Only the errors tell it. -/
theorem Archive.toOption_read_eq {one other : Archive} (bytes : one.bytes = other.bytes)
    (entries : one.entries = other.entries) (name : String) :
    (one.read name).toOption = (other.read name).toOption := by
  obtain ⟨path, content, directory⟩ := one
  obtain ⟨path', content', directory'⟩ := other
  cases bytes
  cases entries
  have sameEntry : entry? ⟨path, content, directory⟩ name =
      entry? ⟨path', content, directory⟩ name := rfl
  rw [read, read, attempt, attempt, find, find, sameEntry]
  cases entry? ⟨path', content, directory⟩ name with
  | none => rfl
  | some entry =>
    have sameBytes : storedBytes ⟨path, content, directory⟩ entry =
        storedBytes ⟨path', content, directory⟩ entry := rfl
    dsimp only
    rw [sameBytes]
    cases storedBytes ⟨path', content, directory⟩ entry <;> rfl

/-! ## Locations of one batch -/

section Batch

variable {disk : Disk} {first location : Location}

/-- What comes of bytes that are there is the class in them, if there is one. -/
theorem toOption_bind_decodeAt (result : Except ImportError Bytes) :
    (result.bind (decodeAt location)).toOption =
      result.toOption.bind fun bytes => (decodeAt location bytes).toOption := by
  cases result <;> rfl

theorem toOption_atLocation {α : Type} (uri : String) (result : Except ImportError α) :
    (atLocation uri (result.mapError ImportError.message)).toOption = result.toOption := by
  cases result <;> rfl

/-- The class of an entry, if its archive opens at this path. -/
def classAt (disk : Disk) (path : Path) (name : String) (location : Location) :
    Option SourcedClass :=
  (((Archive.openAt disk path).bind (·.read name)).toOption).bind fun bytes =>
    (decodeAt location bytes).toOption

theorem toOption_readBeside {path own : Path} {name : String}
    (archive : first.storage.archive? = some path)
    (storage : location.storage = .archived own name) :
    (readBeside disk first location).toOption = classAt disk path name location := by
  rw [readBeside_archived archive storage, toOption_bind_decodeAt, toOption_atLocation, classAt]

theorem toOption_readClass {own : Path} {name : String}
    (storage : location.storage = .archived own name) :
    (readClass disk location).toOption = classAt disk own name location := by
  rw [readClass, Location.read, storage]
  dsimp only
  rw [toOption_bind_decodeAt, toOption_atLocation, classAt]

/-- An entry that gives a class under both names gives the same. -/
theorem classAt_same {path own : Path} {name : String} {one other : Archive}
    (same : path.same own = true) (ho : Archive.openAt disk path = .ok one)
    (ht : Archive.openAt disk own = .ok other) :
    classAt disk path name location = classAt disk own name location := by
  obtain ⟨bytes, entries⟩ := Archive.content_eq same ho ht
  rw [classAt, classAt, ho, ht]
  show ((one.read name).toOption).bind _ = ((other.read name).toOption).bind _
  rw [Archive.toOption_read_eq bytes entries]

theorem opens_of_classAt {path : Path} {name : String}
    (h : (classAt disk path name location).isSome = true) :
    ∃ archive, Archive.openAt disk path = .ok archive := by
  cases opened : Archive.openAt disk path with
  | ok archive => exact ⟨archive, rfl⟩
  | error cause =>
    rw [classAt, opened] at h
    cases h

/-- Two locations of one batch are loose, or both in the archive that the first names. -/
theorem loose_or_archived (shares : sharesArchive first location = true) :
    (first.storage.archive? = none ∧ location.storage.archive? = none) ∨
      ∃ path own name, first.storage.archive? = some path ∧
        location.storage = .archived own name ∧ path.same own = true := by
  rw [sharesArchive] at shares
  cases archive : first.storage.archive? with
  | none =>
    cases storage : location.storage with
    | loose _ => exact .inl ⟨rfl, rfl⟩
    | archived own name =>
      rw [archive, storage] at shares
      cases shares
  | some path =>
    cases storage : location.storage with
    | loose _ =>
      rw [archive, storage] at shares
      cases shares
    | archived own name =>
      rw [archive, storage] at shares
      exact .inr ⟨path, own, name, rfl, rfl, shares⟩

/-- A location that is read in both ways or in none gives the same class, if any. -/
theorem toOption_eq_of_isSome_eq (shares : sharesArchive first location = true)
    (alike : (readBeside disk first location).toOption.isSome =
      (readClass disk location).toOption.isSome) :
    (readBeside disk first location).toOption = (readClass disk location).toOption := by
  rcases loose_or_archived shares with ⟨loose, loose'⟩ | ⟨path, own, name, archive, storage, same⟩
  · rw [readBeside_of_archive?_eq (loose.trans loose'.symm)]
  · rw [toOption_readBeside archive storage, toOption_readClass storage] at alike ⊢
    cases alone : (classAt disk own name location).isSome with
    | false =>
      rw [alone] at alike
      rw [Option.isSome_eq_false_iff, Option.isNone_iff_eq_none] at alone alike
      rw [alone, alike]
    | true =>
      rw [alone] at alike
      obtain ⟨one, ho⟩ := opens_of_classAt alike
      obtain ⟨other, ht⟩ := opens_of_classAt alone
      exact classAt_same same ho ht

/-- Beside a location that can be read, a location is read as alone if it can be read alone. -/
theorem toOption_eq_of_readable (shares : sharesArchive first location = true)
    (readableFirst : (readClass disk first).toOption.isSome = true)
    (readable : (readClass disk location).toOption.isSome = true) :
    (readBeside disk first location).toOption = (readClass disk location).toOption := by
  rcases loose_or_archived shares with ⟨loose, loose'⟩ | ⟨path, own, name, archive, storage, same⟩
  · rw [readBeside_of_archive?_eq (loose.trans loose'.symm)]
  · cases stored : first.storage with
    | loose _ =>
      rw [stored] at archive
      cases archive
    | archived path' name' =>
      rw [stored] at archive
      cases archive
      rw [toOption_readClass stored] at readableFirst
      rw [toOption_readClass storage] at readable
      obtain ⟨one, ho⟩ := opens_of_classAt readableFirst
      obtain ⟨other, ht⟩ := opens_of_classAt readable
      have named : first.storage.archive? = some path := by
        rw [stored]
        rfl
      rw [toOption_readBeside named storage, toOption_readClass storage]
      exact classAt_same same ho ht

theorem sharesArchive_refl (location : Location) : sharesArchive location location = true := by
  rw [sharesArchive]
  cases location.storage with
  | loose _ => rfl
  | archived path _ => exact decide_eq_true rfl

/-- What is told of a location is told beside one of the list that shares its archive. -/
theorem mem_headed {locations : List Location} {p : Location × Location}
    (h : p ∈ headed locations) :
    p.1 ∈ locations ∧ p.2 ∈ locations ∧ sharesArchive p.1 p.2 = true := by
  obtain ⟨batch, inside, hp⟩ := List.mem_flatMap.mp h
  have all : ∀ location ∈ batch, location ∈ locations := by
    intro location hl
    rw [← flatten_batchesOf locations]
    exact List.mem_flatten.mpr ⟨batch, inside, hl⟩
  obtain @⟨first, others, shares⟩ := isBatch_of_mem inside
  obtain ⟨location, hl, rfl⟩ := List.mem_map.mp hp
  refine ⟨all first List.mem_cons_self, all location hl, ?_⟩
  rcases List.mem_cons.mp hl with rfl | later
  · exact sharesArchive_refl _
  · exact shares location later

end Batch

/-- Every location is read in its batch exactly if it can be read alone. -/
def SucceedsAlike (disk : Disk) (locations : List Location) : Prop :=
  ∀ p ∈ headed locations, (readBeside disk p.1 p.2).isOk = (readClass disk p.2).isOk

theorem isSome_toOption {ε α : Type} (result : Except ε α) :
    result.toOption.isSome = result.isOk := by
  cases result <;> rfl

/-- Then the classes of the batches are those that are read alone. -/
theorem SucceedsAlike.toOption_eq {disk : Disk} {locations : List Location}
    (alike : SucceedsAlike disk locations) {p : Location × Location} (h : p ∈ headed locations) :
    (readBeside disk p.1 p.2).toOption = (readClass disk p.2).toOption := by
  refine toOption_eq_of_isSome_eq (mem_headed h).2.2 ?_
  rw [isSome_toOption, isSome_toOption, alike p h]

/-- Locations that can all be read alone can all be read in their batches. -/
theorem succeedsAlike_of_readable {disk : Disk} {locations : List Location}
    (readable : ∀ location ∈ locations, (readClass disk location).isOk = true) :
    SucceedsAlike disk locations := by
  intro p h
  obtain ⟨first, own, shares⟩ := mem_headed h
  have same := toOption_eq_of_readable shares
    (by rw [isSome_toOption]; exact readable _ first)
    (by rw [isSome_toOption]; exact readable _ own)
  rw [← isSome_toOption, same, isSome_toOption]

/-- None of them ends the program. -/
theorem fits_of_readable {disk : Disk} {locations : List Location}
    (readable : ∀ location ∈ locations, (readClass disk location).isOk = true) :
    ∀ p ∈ headed locations, overflowsBeside disk p.1 p.2 = false := by
  intro p h
  refine overflowsBeside_of_isOk ?_
  rw [succeedsAlike_of_readable readable p h]
  exact readable p.2 (mem_headed h).2.1

end ClassAtlas
