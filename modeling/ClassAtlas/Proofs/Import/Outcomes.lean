import ClassAtlas.Proofs.Import.Issues

/-!
# What becomes of each location

Every location of an import gives a class that knows it, gives a failure that names it, or is left
out. So classes and failures stand in the order of their locations, and with the locations that are
left out they add up to all.
-/

namespace ClassAtlas

/-- What can become of a location. -/
inductive Concerns (location : Location) : Outcome → Prop where
  | skipped : Concerns location none
  | parsed {item : SourcedClass} (source : item.source = some location) :
    Concerns location (some (.ok item))
  | failed {error : ImportError} (blames : Blames location error) :
    Concerns location (some (.error error))

/-- A failure blames the location whose outcome it is. -/
theorem Concerns.blames {location : Location} {outcome : Outcome} (h : Concerns location outcome)
    {error : ImportError} (tells : outcome.bind errorOf? = some error) : Blames location error := by
  cases h with
  | skipped | parsed => cases tells
  | failed blames =>
    cases tells
    exact blames

theorem concerns_of_curtailed {disk : Disk} {told : Prop} {first location : Location}
    {outcome : Outcome} (h : Curtailed told outcome (readBeside disk first location)) :
    Concerns location outcome := by
  rcases h with rfl | ⟨rfl, _⟩
  · cases read : readBeside disk first location with
    | ok item => exact .parsed (source_of_readBeside read)
    | error cause => exact .failed (blames_of_readBeside read)
  · exact .skipped

/-- The outcomes stand in the order of the locations, one for each. -/
theorem forall₂_concerns (disk : Disk) (cancelled : Cancellation) (locations : List Location) :
    List.Forall₂ Concerns locations (outcomesOf disk cancelled locations) := by
  have each := (forall₂_outcomesOf disk cancelled locations).flip
  have named := each.imp fun _ _ => concerns_of_curtailed
  rwa [← List.forall₂_map_left_iff, map_snd_headed] at named

theorem length_outcomesOf (disk : Disk) (cancelled : Cancellation) (locations : List Location) :
    (outcomesOf disk cancelled locations).length = locations.length :=
  (forall₂_concerns disk cancelled locations).length_eq.symm

/-! ## Order and number -/

/-- What is told of some outcomes stands in the order of what the outcomes belong to. -/
theorem sublist_of_forall₂ {ι α β : Type} {R : ι → Outcome → Prop} {tell? : Outcome → Option α}
    {key : α → β} {place : ι → β} {items : List ι} {outcomes : List Outcome}
    (h : List.Forall₂ R items outcomes)
    (told : ∀ i outcome, R i outcome → ∀ a, tell? outcome = some a → key a = place i) :
    ((outcomes.filterMap tell?).map key).Sublist (items.map place) := by
  induction h with
  | nil => exact .slnil
  | @cons i outcome _ _ here _ ih =>
    rw [List.filterMap_cons, List.map_cons]
    cases tells : tell? outcome with
    | none => exact ih.cons _
    | some a =>
      dsimp only
      rw [List.map_cons, told i outcome here a tells]
      exact ih.cons_cons _

namespace ParseOutcome

variable {locations : List Location} {outcomes : List Outcome}

/-- The classes stand in the order of the locations that they come from. -/
theorem sources_sublist (h : List.Forall₂ Concerns locations outcomes) :
    ((ofOutcomes outcomes).classes.map SourcedClass.source).Sublist (locations.map some) := by
  refine sublist_of_forall₂ h fun location outcome concerns item tells => ?_
  cases concerns with
  | skipped => cases tells
  | parsed source =>
    cases tells
    exact source
  | failed => cases tells

/-- The failures stand in the order of the locations that they name. -/
theorem failures_sublist (h : List.Forall₂ Concerns locations outcomes) :
    ((ofOutcomes outcomes).failures.map ImportError.locations).Sublist
      (locations.map fun location => [location.uri]) := by
  refine sublist_of_forall₂ h fun location outcome concerns error tells => ?_
  exact (concerns.blames tells).namesFailure.locations

/-- Every failure says of a location that it cannot be read or parsed. -/
theorem blames_of_mem_failures (h : List.Forall₂ Concerns locations outcomes)
    {error : ImportError} (inside : error ∈ (ofOutcomes outcomes).failures) :
    ∃ location, Blames location error := by
  have each := (List.forall₂_and_left (p := fun outcome => ∃ location, Concerns location outcome)
    _ _).mp (h.flip.imp fun _ location concerns => ⟨⟨location, concerns⟩, concerns⟩)
  obtain ⟨outcome, there, tells⟩ := List.mem_filterMap.mp inside
  obtain ⟨location, concerns⟩ := each.1 outcome there
  exact ⟨location, concerns.blames tells⟩

/-- No location is counted twice or not at all. -/
theorem total_ofOutcomes (outcomes : List Outcome) :
    (ofOutcomes outcomes).classes.length + (ofOutcomes outcomes).failures.length +
      (ofOutcomes outcomes).skipped = outcomes.length := by
  induction outcomes with
  | nil => rfl
  | cons outcome outcomes ih =>
    simp only [ofOutcomes, List.filterMap_cons, List.countP_cons, List.length_cons] at ih ⊢
    cases outcome with
    | none =>
      simp
      omega
    | some result =>
      cases result with
      | ok item =>
        simp [Except.toOption, errorOf?]
        omega
      | error cause =>
        simp [Except.toOption, errorOf?]
        omega

end ParseOutcome

/-! ## Imports -/

/-- An import of enumerated locations comes to what parsing them comes to. -/
theorem Importer.run_eq {importer : Importer} {disk : Disk} {environment : Environment}
    {request : ImportRequest} {enumeration : Enumeration}
    (h : importer.enumerate disk environment request = .ok enumeration)
    (cancelled : Cancellation) : importer.run disk environment cancelled request =
      if ParseOutcome.overflows disk cancelled enumeration.locations then .crashed
      else .returned (.ok (build disk cancelled enumeration)) := by
  rw [run, h]
  dsimp only
  rw [ParseOutcome.attempt]
  cases ParseOutcome.overflows disk cancelled enumeration.locations <;> rfl

/-- A disk without files. -/
def bareDisk : Disk := { root := .directory [], workingDirectory := ⟨"/"⟩ }

/-- Two class files, in one batch. -/
def looseFiles : List Location :=
  [.file ⟨"/c"⟩ ⟨"/c/A.class"⟩, .file ⟨"/c"⟩ ⟨"/c/B.class"⟩]

end ClassAtlas
