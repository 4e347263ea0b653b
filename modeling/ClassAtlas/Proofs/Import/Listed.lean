import ClassAtlas.Proofs.ClassGraph.Resolution
import ClassAtlas.Proofs.Import.Kept
import ClassAtlas.Proofs.Import.Outcomes
import ClassAtlas.Proofs.Parse.Success

/-!
# Imports of listed locations

`Importer.run_locations_iff`: an import of listed locations has the class of every kept location
that can be read alone, the first of each name, and one issue for every other, exactly if batches
read the locations that can be read alone.
-/

namespace ClassAtlas

/-! ## Reading alone -/

/-- The locations that give a class when they are read alone. -/
def readable (disk : Disk) (locations : List Location) : List Location :=
  locations.filter fun location => (readClass disk location).isOk

def unreadable (disk : Disk) (locations : List Location) : List Location :=
  locations.filter fun location => !(readClass disk location).isOk

/-- The classes that the locations give, in order. -/
def decodedAlone (disk : Disk) (locations : List Location) : List SourcedClass :=
  locations.filterMap fun location => (readClass disk location).toOption

/-- The name of the class that a location gives. -/
def nameAlone? (disk : Disk) (location : Location) : Option String :=
  (readClass disk location).toOption.map SourcedClass.name

/-- The first location that gives a class of this name. -/
def firstNamed? (disk : Disk) (locations : List Location) (name : String) : Option Location :=
  locations.find? fun location => nameAlone? disk location = some name

/-- The locations that give a class whose name one in front of them has, each behind the first that
has it. -/
def repeats (disk : Disk) (locations : List Location) : List (Location × Location) :=
  (withFront locations).filterMap fun p =>
    (nameAlone? disk p.2).bind fun name => (firstNamed? disk p.1 name).map fun first => (first, p.2)

section Alone

variable {disk : Disk} {locations : List Location}

theorem nameAlone?_eq_some_iff {location : Location} {name : String} :
    nameAlone? disk location = some name ↔
      ∃ item, readClass disk location = .ok item ∧ item.name = name := by
  rw [nameAlone?]
  cases readClass disk location with
  | error cause => simp [Except.toOption]
  | ok item => simp [Except.toOption]

/-- The first location that gives a class of a name does give one. -/
theorem exists_of_firstNamed? {first : Location} {name : String}
    (h : firstNamed? disk locations name = some first) :
    ∃ item, readClass disk first = .ok item ∧ item.name = name :=
  nameAlone?_eq_some_iff.mp (by simpa using List.find?_some h)

/-- If one location gives a class of a name, there is a first that does. -/
theorem exists_firstNamed? {location : Location} {name : String} (inside : location ∈ locations)
    (named : nameAlone? disk location = some name) :
    ∃ first, firstNamed? disk locations name = some first := by
  cases found : firstNamed? disk locations name with
  | some first => exact ⟨first, rfl⟩
  | none =>
    have missing := List.find?_eq_none.mp found location inside
    exact absurd (decide_eq_true named) missing

theorem find?_decodedAlone (name : String) :
    (decodedAlone disk locations).find? (·.name = name) =
      (firstNamed? disk locations name).bind fun location =>
        (readClass disk location).toOption := by
  rw [decodedAlone, List.find?_filterMap, firstNamed?]
  congr 2
  funext location
  rw [nameAlone?]
  cases readClass disk location <;> simp [Except.toOption]

theorem find?_decodedAlone_eq_some_iff {item : SourcedClass} {name : String} :
    (decodedAlone disk locations).find? (·.name = name) = some item ↔
      ∃ location, firstNamed? disk locations name = some location ∧
        readClass disk location = .ok item := by
  rw [find?_decodedAlone, Option.bind_eq_some_iff]
  refine exists_congr fun location => and_congr_right fun _ => ?_
  cases readClass disk location <;> simp [Except.toOption]

theorem decodedAlone_append_singleton (front : List Location) (location : Location) :
    decodedAlone disk (front ++ [location]) =
      decodedAlone disk front ++ (readClass disk location).toOption.toList := by
  rw [decodedAlone, List.filterMap_append]
  cases result : readClass disk location <;> simp [decodedAlone, result, Except.toOption]

theorem repeats_append_singleton (front : List Location) (location : Location) :
    repeats disk (front ++ [location]) = repeats disk front ++
      ((nameAlone? disk location).bind fun name =>
        (firstNamed? disk front name).map fun first => (first, location)).toList := by
  rw [repeats, withFront_append_singleton, List.filterMap_append, List.filterMap_cons]
  cases (nameAlone? disk location).bind fun name =>
    (firstNamed? disk front name).map fun first => (first, location) <;> rfl

/-- Two classes were read from two locations. -/
def ReadFrom (disk : Disk) (places : Location × Location) (clash : SourcedClass × SourcedClass) :
    Prop :=
  readClass disk places.1 = .ok clash.1 ∧ readClass disk places.2 = .ok clash.2

/-- The classes that clash are those of the locations that repeat a name. -/
theorem forall₂_repeats (disk : Disk) (locations : List Location) :
    List.Forall₂ (ReadFrom disk) (repeats disk locations)
      (Staging.clashes (decodedAlone disk locations)) := by
  induction locations using List.reverseRecOn with
  | nil => exact .nil
  | append_singleton front location ih =>
    rw [repeats_append_singleton, decodedAlone_append_singleton]
    cases told : readClass disk location with
    | error cause =>
      rw [nameAlone?, told]
      simpa [Except.toOption] using ih
    | ok item =>
      have named : nameAlone? disk location = some item.name :=
        nameAlone?_eq_some_iff.mpr ⟨item, told, rfl⟩
      show List.Forall₂ _ _ (Staging.clashes (decodedAlone disk front ++ [item]))
      rw [named, Option.bind_some, Staging.clashes_append_singleton, find?_decodedAlone]
      refine List.rel_append ih ?_
      cases found : firstNamed? disk front item.name with
      | none => exact .nil
      | some first =>
        obtain ⟨kept, read, _⟩ := exists_of_firstNamed? found
        rw [Option.bind_some, read]
        exact .cons ⟨read, told⟩ .nil

theorem isOk_of_mem_readable {location : Location} (h : location ∈ readable disk locations) :
    (readClass disk location).isOk = true :=
  (List.mem_filter.mp h).2

/-- What can be read does not end the program. -/
theorem overflows_readable (disk : Disk) (locations : List Location) :
    ParseOutcome.overflows disk .never (readable disk locations) = false :=
  (ParseOutcome.fits_never_iff disk _).mpr (fits_of_readable fun _ => isOk_of_mem_readable)

theorem decodedAlone_readable : decodedAlone disk (readable disk locations) =
    decodedAlone disk locations := by
  rw [decodedAlone, readable, List.filterMap_filter]
  refine List.filterMap_congr fun location _ => ?_
  cases readClass disk location <;> rfl

end Alone

/-! ## Outcomes -/

section Outcome

variable {disk : Disk} {locations : List Location}

theorem classes_parse (disk : Disk) (locations : List Location) :
    (ParseOutcome.parse disk .never locations).classes =
      (headed locations).filterMap fun p => (readBeside disk p.1 p.2).toOption := by
  rw [ParseOutcome.parse_never, ParseOutcome.ofOutcomes_map_some]

theorem failures_parse (disk : Disk) (locations : List Location) :
    (ParseOutcome.parse disk .never locations).failures =
      (headed locations).filterMap fun p => errorOf? (readBeside disk p.1 p.2) := by
  rw [ParseOutcome.parse_never, ParseOutcome.ofOutcomes_map_some]

theorem SucceedsAlike.classes_eq (alike : SucceedsAlike disk locations) :
    (ParseOutcome.parse disk .never locations).classes = decodedAlone disk locations := by
  rw [classes_parse, List.filterMap_congr fun p inside => alike.toOption_eq inside]
  conv_rhs => rw [decodedAlone, ← map_snd_headed locations, List.filterMap_map]
  rfl

/-- The locations that fail beside the first of their batch. -/
def unreadBeside (disk : Disk) (locations : List Location) : List (Location × Location) :=
  (headed locations).filter fun p => !(readBeside disk p.1 p.2).isOk

/-- Every location that fails in its batch gives one issue that names it. -/
theorem forall₂_failures_parse (disk : Disk) (locations : List Location) :
    List.Forall₂ NamesFailure ((unreadBeside disk locations).map Prod.snd)
      ((ParseOutcome.parse disk .never locations).failures.map Issue.of) := by
  rw [failures_parse, List.forall₂_map_left_iff, List.forall₂_map_right_iff]
  have blamed := forall₂_errors (R := fun p : Location × Location => Blames p.2)
    (f := fun p : Location × Location => readBeside disk p.1 p.2)
    (fun _ _ => blames_of_readBeside) (headed locations)
  exact blamed.imp fun _ _ => Blames.namesFailure

theorem unreadable_eq_map (disk : Disk) (locations : List Location) :
    unreadable disk locations =
      ((headed locations).filter fun p => !(readClass disk p.2).isOk).map Prod.snd := by
  conv_lhs => rw [unreadable, ← map_snd_headed locations, List.filter_map]
  rfl

theorem SucceedsAlike.unreadBeside_eq (alike : SucceedsAlike disk locations) :
    (unreadBeside disk locations).map Prod.snd = unreadable disk locations := by
  rw [unreadable_eq_map, unreadBeside,
    List.filter_congr fun p inside => congrArg not (alike p inside)]

/-- Where no key is repeated, lists that are filtered tell by the keys what was left. -/
theorem eq_of_map_filter_eq {α β : Type} {key : α → β} {p q : α → Bool} {items : List α}
    (nodup : (items.map key).Nodup) (same : (items.filter p).map key = (items.filter q).map key) :
    ∀ item ∈ items, p item = q item := by
  have half : ∀ {p q : α → Bool}, (items.filter p).map key = (items.filter q).map key →
      ∀ item ∈ items, p item = true → q item = true := by
    intro p q same item inside left
    have there := List.mem_map_of_mem (f := key) (List.mem_filter.mpr ⟨inside, left⟩)
    rw [same] at there
    obtain ⟨other, hother, named⟩ := List.mem_map.mp there
    obtain ⟨inside', left'⟩ := List.mem_filter.mp hother
    rwa [← List.inj_on_of_nodup_map nodup inside' inside named]
  intro item inside
  rw [Bool.eq_iff_iff]
  exact ⟨half same item inside, half same.symm item inside⟩

/-- Issues that name the locations which fail alone show that no other fails in its batch. -/
theorem succeedsAlike_of_unreadBeside (nodup : (locations.map Location.uri).Nodup)
    (same : ((unreadBeside disk locations).map Prod.snd).map Location.uri =
      (unreadable disk locations).map Location.uri) :
    SucceedsAlike disk locations := by
  rw [unreadable_eq_map, unreadBeside, List.map_map, List.map_map] at same
  rw [← map_snd_headed locations, List.map_map] at nodup
  intro p inside
  exact Bool.not_inj (eq_of_map_filter_eq nodup same p inside)

end Outcome

/-! ## Graphs -/

/-- The graph of kept locations is the one that reading each of them alone leads to. The other graph
is that of the readable ones among them. -/
structure ImportsAlone (disk : Disk) (kept : List Location) (graph other : ClassGraph) : Prop where
  /-- The imported names are those that kept locations give. -/
  names : ∀ name, (∃ item, Node.imported item ∈ graph.nodes.items ∧ item.name = name) ↔
    ∃ location ∈ kept, nameAlone? disk location = some name
  /-- An imported class is that of the first location which gives its name. -/
  imported : ∀ item, Node.imported item ∈ graph.nodes.items ↔
    ∃ location, firstNamed? disk kept item.name = some location ∧ item.source = some location ∧
      readClass disk location = .ok item
  /-- There is one issue for each location that fails, then one for each that repeats a name. -/
  issues : ∃ failures duplicates, graph.report.issues = failures ++ duplicates ∧
    List.Forall₂ NamesFailure (unreadable disk kept) failures ∧
    List.Forall₂ NamesDuplicate (repeats disk kept) duplicates
  /-- Locations that fail leave no trace in nodes, edges and packages. -/
  wiring : other.toWiring = graph.toWiring
  root : other.root = graph.root

section Graph

open Staging

variable {disk : Disk} {enumeration : Enumeration}

theorem mem_imported_build {item : SourcedClass} :
    Node.imported item ∈ (Importer.build disk .never enumeration).nodes.items ↔
      (ParseOutcome.parse disk .never enumeration.locations).classes.find? (·.name = item.name) =
        some item :=
  ClassGraph.mem_imported_stageAll

theorem issues_build (sound : enumeration.failures = []) :
    (Importer.build disk .never enumeration).report.issues =
      (ParseOutcome.parse disk .never enumeration.locations).failures.map Issue.of ++
        ((clashes (ParseOutcome.parse disk .never enumeration.locations).classes).map
          clashError).map Issue.of := by
  rw [← stageAll_errors]
  show (Report.recordAll (Report.recordAll (Report.recordAll _ _) _) _).issues = _
  rw [Report.issues_recordAll, Report.issues_recordAll, Report.issues_recordAll, sound]
  rfl

/-- Nodes, edges and packages depend on the classes alone. -/
theorem build_eq_of_classes_eq {other : Enumeration}
    (same : (ParseOutcome.parse disk .never other.locations).classes =
      (ParseOutcome.parse disk .never enumeration.locations).classes) :
    (Importer.build disk .never other).toWiring =
        (Importer.build disk .never enumeration).toWiring ∧
      (Importer.build disk .never other).root = (Importer.build disk .never enumeration).root := by
  have wiring : (Importer.build disk .never other).toWiring =
      (Importer.build disk .never enumeration).toWiring := by
    show Wiring.ofStaged (stageAll {} _).1.items.toList = _
    rw [same]
    rfl
  refine ⟨wiring, ?_⟩
  show Package.ofClasses (((Importer.build disk .never other).toWiring.nodes.items.toList.filter
    Node.isResolved).map Node.name) = _
  rw [wiring]
  rfl

variable {kept : List Location}

/-- The duplicates of classes that are read alone name the locations that repeat a name. -/
theorem forall₂_duplicates (disk : Disk) (kept : List Location) :
    List.Forall₂ NamesDuplicate (repeats disk kept)
      (((clashes (decodedAlone disk kept)).map clashError).map Issue.of) := by
  rw [List.map_map, List.forall₂_map_right_iff]
  refine (forall₂_repeats disk kept).imp fun places clash read => ?_
  exact namesDuplicate_clashError (source_of_readClass read.1) (source_of_readClass read.2)

theorem SucceedsAlike.mem_imported (alike : SucceedsAlike disk enumeration.locations)
    {item : SourcedClass} :
    Node.imported item ∈ (Importer.build disk .never enumeration).nodes.items ↔
      ∃ location, firstNamed? disk enumeration.locations item.name = some location ∧
        item.source = some location ∧ readClass disk location = .ok item := by
  rw [mem_imported_build, alike.classes_eq, find?_decodedAlone_eq_some_iff]
  refine exists_congr fun location => and_congr_right fun _ => ?_
  exact ⟨fun read => ⟨source_of_readClass read, read⟩, And.right⟩

theorem SucceedsAlike.exists_imported (alike : SucceedsAlike disk enumeration.locations)
    (name : String) :
    (∃ item, Node.imported item ∈ (Importer.build disk .never enumeration).nodes.items ∧
      item.name = name) ↔
        ∃ location ∈ enumeration.locations, nameAlone? disk location = some name := by
  constructor
  · rintro ⟨item, inside, rfl⟩
    obtain ⟨location, first, _, read⟩ := alike.mem_imported.mp inside
    exact ⟨location, List.mem_of_find?_eq_some first, nameAlone?_eq_some_iff.mpr ⟨item, read, rfl⟩⟩
  · rintro ⟨location, inside, named⟩
    obtain ⟨first, found⟩ := exists_firstNamed? inside named
    obtain ⟨item, read, rfl⟩ := exists_of_firstNamed? found
    exact ⟨item, alike.mem_imported.mpr ⟨first, found, source_of_readClass read, read⟩, rfl⟩

theorem SucceedsAlike.importsAlone (alike : SucceedsAlike disk enumeration.locations)
    (sound : enumeration.failures = []) {other : Enumeration}
    (others : other.locations = readable disk enumeration.locations) :
    ImportsAlone disk enumeration.locations (Importer.build disk .never enumeration)
      (Importer.build disk .never other) := by
  have others_alike : SucceedsAlike disk other.locations := by
    rw [others]
    exact succeedsAlike_of_readable fun _ => isOk_of_mem_readable
  have same : (ParseOutcome.parse disk .never other.locations).classes =
      (ParseOutcome.parse disk .never enumeration.locations).classes := by
    rw [others_alike.classes_eq, alike.classes_eq, others, decodedAlone_readable]
  obtain ⟨wiring, root⟩ := build_eq_of_classes_eq same
  refine ⟨alike.exists_imported, fun _ => alike.mem_imported, ?_, wiring, root⟩
  refine ⟨_, _, issues_build sound, ?_, ?_⟩
  · rw [← alike.unreadBeside_eq]
    exact forall₂_failures_parse _ _
  · rw [alike.classes_eq]
    exact forall₂_duplicates _ _

theorem kind_of_forall₂ {repeated : List (Location × Location)} {duplicates : List Issue}
    (h : List.Forall₂ NamesDuplicate repeated duplicates) :
    ∀ issue ∈ duplicates, issue.kind = .duplicateClassIgnored := by
  induction h with
  | nil => nofun
  | cons named _ ih =>
    intro issue inside
    rcases List.mem_cons.mp inside with rfl | later
    · exact named.kind
    · exact ih issue later

/-- Of issues that are all there are, those that are no duplicates tell which locations fail. -/
theorem places_of_issues {places : List Location} {failures duplicates : List Issue}
    (hf : List.Forall₂ NamesFailure places failures)
    (hd : ∀ issue ∈ duplicates, issue.kind = .duplicateClassIgnored) :
    ((failures ++ duplicates).filter (·.kind ≠ .duplicateClassIgnored)).map Issue.locations =
      (places.map Location.uri).map fun uri => [uri] := by
  induction hf with
  | nil =>
    have empty : duplicates.filter (·.kind ≠ .duplicateClassIgnored) = [] := by
      rw [List.filter_eq_nil_iff]
      intro issue inside
      simp [hd issue inside]
    rw [List.nil_append, empty]
    rfl
  | @cons location issue _ _ named _ ih =>
    have failed : issue.kind ≠ .duplicateClassIgnored := by
      rcases named.kind with unread | malformed
      · simp [unread]
      · simp [malformed]
    rw [List.cons_append, List.filter_cons_of_pos (by simpa using failed), List.map_cons,
      named.locations, ih]
    rfl

/-- The issues show that batches read what can be read alone. -/
theorem ImportsAlone.succeedsAlike {other : ClassGraph} (sound : enumeration.failures = [])
    (nodup : (enumeration.locations.map Location.uri).Nodup)
    (alone : ImportsAlone disk enumeration.locations (Importer.build disk .never enumeration)
      other) :
    SucceedsAlike disk enumeration.locations := by
  obtain ⟨failures, duplicates, issues, hf, hd⟩ := alone.issues
  rw [issues_build sound] at issues
  have expected := places_of_issues hf (kind_of_forall₂ hd)
  rw [← issues, places_of_issues (forall₂_failures_parse _ _) (by
    intro issue inside
    obtain ⟨_, clashed, rfl⟩ := List.mem_map.mp inside
    obtain ⟨_, _, rfl⟩ := List.mem_map.mp clashed
    rfl)] at expected
  exact succeedsAlike_of_unreadBeside nodup
    (List.map_injective_iff.mpr (fun _ _ same => (List.cons.inj same).1) expected)

end Graph

/-- An import of listed locations ends the program exactly because of a kept entry that is too
large. Else it gives a graph, and so does an import of those among the kept locations that can be
read. The graph is the one that reading each kept location alone leads to exactly if every one of
them is read in its batch just when it can be read alone. -/
theorem Importer.run_locations_iff (importer : Importer) (disk : Disk) (environment : Environment)
    (listed : List Location) : ∃ other,
    importer.run disk environment .never
      (.locations (readable disk (keptLocations importer.filters listed))) =
        .returned (.ok other) ∧
    ((importer.run disk environment .never (.locations listed) = .crashed ∧
      ∃ p ∈ headed (keptLocations importer.filters listed),
        overflowsBeside disk p.1 p.2 = true) ∨
    ((∀ p ∈ headed (keptLocations importer.filters listed),
        overflowsBeside disk p.1 p.2 = false) ∧
      ∃ graph, importer.run disk environment .never (.locations listed) = .returned (.ok graph) ∧
        (ImportsAlone disk (keptLocations importer.filters listed) graph other ↔
          SucceedsAlike disk (keptLocations importer.filters listed)))) := by
  have whole := kept_ofFindings importer.filters listed
  have part := kept_ofFindings importer.filters
    (readable disk (keptLocations importer.filters listed))
  rw [← whole.locations] at part ⊢
  have others := part.locations
  rw [keptLocations_of_sublist (by rw [whole.locations]; exact List.filter_sublist)] at others
  have fits := overflows_readable disk (Enumeration.ofFindings importer.filters
    (listed.map .location)).locations
  rw [← others] at fits
  have run := run_eq (rfl : importer.enumerate disk environment (.locations listed) = _) .never
  refine ⟨_, (run_eq rfl .never).trans (if_neg (Bool.eq_false_iff.mp fits)), ?_⟩
  cases large : ParseOutcome.overflows disk .never
      (Enumeration.ofFindings importer.filters (listed.map .location)).locations with
  | true =>
    rw [large] at run
    exact .inl ⟨run, (ParseOutcome.overflows_never_iff disk _).mp large⟩
  | false =>
    rw [large] at run
    refine .inr ⟨(ParseOutcome.fits_never_iff disk _).mp large, _, run, ?_, ?_⟩
    · have nodup := nodup_map_firsts Location.uri (included importer.filters listed)
      rw [← keptLocations, ← whole.locations] at nodup
      exact fun alone => alone.succeedsAlike whole.failures nodup
    · exact fun alike => alike.importsAlone whole.failures others

end ClassAtlas
