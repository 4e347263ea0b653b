import ClassAtlas.Proofs.Parse.Schedule

/-!
# Batches against reading alone

Parsing is meant to give for every location what reading it alone gives. `Agrees` says that it does
so beside the first location of its batch, and `parse_alone_iff` that this is exactly when the
outcome is the one of reading alone: no other mixture of classes and failures adds up to it.
`Pool.uncancelled_outcome` says it of runs, which end without an outcome exactly if some entry is
too large.
-/

namespace ClassAtlas

/-! ## Mixtures -/

section Mixtures

variable {ι ε α κ : Type} [DecidableEq κ]

theorem imp_of_countP_le {p q : ι → Bool} {items : List ι}
    (h : ∀ i ∈ items, p i = true → q i = true)
    (count : items.countP q ≤ items.countP p) : ∀ i ∈ items, q i = true → p i = true := by
  induction items with
  | nil => nofun
  | cons i items ih =>
    have others : ∀ j ∈ items, p j = true → q j = true :=
      fun j hj => h j (List.mem_cons_of_mem i hj)
    have less := List.countP_mono_left others
    have here := h i List.mem_cons_self
    rw [List.countP_cons, List.countP_cons] at count
    intro j hj
    rcases List.mem_cons.mp hj with rfl | later
    · intro hq
      by_contra hp
      rw [if_pos hq, if_neg hp] at count
      omega
    · refine ih others ?_ j later
      by_cases hp : p i = true
      · rw [if_pos hp, if_pos (here hp)] at count
        omega
      · rw [if_neg hp] at count
        omega

/-- Results that succeed at the same places are the same if their values and errors are. -/
theorem eq_of_parts_eq {f g : ι → Except ε α} {items : List ι}
    (alike : ∀ i ∈ items, (f i).isOk = (g i).isOk)
    (values : items.filterMap (fun i => (f i).toOption) = items.filterMap fun i => (g i).toOption)
    (errors : items.filterMap (fun i => errorOf? (f i)) = items.filterMap fun i => errorOf? (g i)) :
    ∀ i ∈ items, f i = g i := by
  induction items with
  | nil => nofun
  | cons i items ih =>
    have here := alike i List.mem_cons_self
    have others : ∀ j ∈ items, (f j).isOk = (g j).isOk :=
      fun j hj => alike j (List.mem_cons_of_mem i hj)
    rw [List.filterMap_cons, List.filterMap_cons] at values errors
    intro j hj
    cases hf : f i with
    | ok a =>
      cases hg : g i with
      | error e =>
        rw [hf, hg] at here
        cases here
      | ok b =>
        rw [hf, hg] at values errors
        obtain ⟨first, rest⟩ := List.cons.inj values
        rcases List.mem_cons.mp hj with rfl | later
        · rw [hf, hg, first]
        · exact ih others rest errors j later
    | error e =>
      cases hg : g i with
      | ok b =>
        rw [hf, hg] at here
        cases here
      | error e' =>
        rw [hf, hg] at values errors
        obtain ⟨first, rest⟩ := List.cons.inj errors
        rcases List.mem_cons.mp hj with rfl | later
        · rw [hf, hg, first]
        · exact ih others values rest j later

variable {f : ι → Except ε α} {G : κ → Except ε α} {place : ι → κ} {source : α → Option κ}
  {items : List ι}

/-- How many values come from one place. -/
theorem countP_values (hf : ∀ i a, f i = .ok a → source a = some (place i)) (k : κ) :
    (items.filterMap fun i => (f i).toOption).countP (source · = some k) =
      items.countP fun i => (f i).isOk && place i = k := by
  rw [List.countP_filterMap]
  apply List.countP_congr
  intro i _
  cases h : f i with
  | error e => simp [Except.toOption, Except.isOk, Except.toBool]
  | ok a => simp [Except.toOption, Except.isOk, Except.toBool, hf i a h]

variable (place source) in
/-- If what one reading gives depends on the place alone, another with the same values, each of
which knows its place, succeeds at the same places. -/
theorem isOk_eq_of_values_eq (hf : ∀ i a, f i = .ok a → source a = some (place i))
    (hG : ∀ k a, G k = .ok a → source a = some k)
    (values : items.filterMap (fun i => (f i).toOption) =
      items.filterMap fun i => (G (place i)).toOption) :
    ∀ i ∈ items, (f i).isOk = (G (place i)).isOk := by
  intro i inside
  have counted : (items.countP fun j => (f j).isOk && place j = place i) =
      items.countP fun j => (G (place j)).isOk && place j = place i := by
    rw [← countP_values hf, values, countP_values fun j a => hG (place j) a]
  cases alone : (G (place i)).isOk with
  | true =>
    -- Every reading of this place succeeds alone, so none of as many successes can be missing.
    have all := imp_of_countP_le (p := fun j => (f j).isOk && place j = place i)
      (q := fun j => (G (place j)).isOk && place j = place i)
      (fun j _ h => by
        rw [Bool.and_eq_true, decide_eq_true_iff] at h ⊢
        exact ⟨h.2 ▸ alone, h.2⟩)
      (Nat.le_of_eq counted.symm) i inside (by simp [alone])
    exact (Bool.and_eq_true _ _ ▸ all).1
  | false =>
    have nothing : (items.countP fun j => (G (place j)).isOk && place j = place i) = 0 := by
      rw [List.countP_eq_zero]
      intro j _ h
      rw [Bool.and_eq_true, decide_eq_true_iff] at h
      rw [h.2, alone] at h
      cases h.1
    rw [nothing, List.countP_eq_zero] at counted
    simpa using counted i inside

end Mixtures

/-! ## Reading alone -/

/-- Every location gives beside the first of its batch what it gives alone, and ends the program in
both ways or in none. -/
def Agrees (disk : Disk) (locations : List Location) : Prop :=
  ∀ p ∈ headed locations, readBeside disk p.1 p.2 = readClass disk p.2 ∧
    overflowsBeside disk p.1 p.2 = p.2.overflows disk

namespace ParseOutcome

/-- The outcome of locations none of which is left out. -/
theorem ofOutcomes_map_some {ι : Type} (items : List ι)
    (f : ι → Except ImportError SourcedClass) :
    ofOutcomes (items.map fun i => some (f i)) =
      { classes := items.filterMap fun i => (f i).toOption
        failures := items.filterMap fun i => errorOf? (f i)
        skipped := 0 } := by
  rw [ofOutcomes, List.filterMap_map, List.filterMap_map, List.countP_map]
  congr 1
  exact List.countP_eq_zero.mpr fun _ _ => nofun

/-- Without cancellation every location is read beside the first of its batch. -/
theorem parse_never (disk : Disk) (locations : List Location) :
    parse disk .never locations =
      ofOutcomes ((headed locations).map fun p => some (readBeside disk p.1 p.2)) := by
  rw [parse_eq_ofOutcomes, outcomesOf_never]

end ParseOutcome

theorem source_of_decodeAt {location : Location} {result : Except ImportError Bytes}
    {item : SourcedClass} (h : result.bind (decodeAt location) = .ok item) :
    item.source = some location := by
  cases result with
  | error cause => cases h
  | ok bytes =>
    change decodeAt location bytes = .ok item at h
    rw [decodeAt] at h
    split at h
    · cases h
      rfl
    · cases h

/-- A class knows the location that it was read from. -/
theorem source_of_readClass {disk : Disk} {location : Location} {item : SourcedClass}
    (h : readClass disk location = .ok item) : item.source = some location :=
  source_of_decodeAt h

theorem source_of_readBeside {disk : Disk} {first location : Location} {item : SourcedClass}
    (h : readBeside disk first location = .ok item) : item.source = some location := by
  rw [readBeside] at h
  split at h
  · exact source_of_decodeAt h
  · exact source_of_readClass h

/-- The outcome is the one of reading alone exactly if every location gives in its batch what it
gives alone. -/
theorem parse_alone_iff (disk : Disk) (locations : List Location) :
    ParseOutcome.parse disk .never locations =
        .ofOutcomes (locations.map fun location => some (readClass disk location)) ↔
      ∀ p ∈ headed locations, readBeside disk p.1 p.2 = readClass disk p.2 := by
  have alone : (locations.map fun location => some (readClass disk location)) =
      (headed locations).map fun p => some (readClass disk p.2) := by
    conv_lhs => rw [← map_snd_headed locations]
    rw [List.map_map]
    rfl
  rw [ParseOutcome.parse_never, alone, ParseOutcome.ofOutcomes_map_some,
    ParseOutcome.ofOutcomes_map_some]
  constructor
  · intro same
    obtain ⟨values, errors, _⟩ := ParseOutcome.mk.inj same
    have alike : ∀ p ∈ headed locations,
        (readBeside disk p.1 p.2).isOk = (readClass disk p.2).isOk :=
      isOk_eq_of_values_eq Prod.snd SourcedClass.source
        (fun _ _ => source_of_readBeside) (fun _ _ => source_of_readClass) values
    exact eq_of_parts_eq alike values errors
  · intro agrees
    have values : ∀ p ∈ headed locations, (readBeside disk p.1 p.2).toOption =
        (readClass disk p.2).toOption := fun p hp => by rw [agrees p hp]
    have errors : ∀ p ∈ headed locations, errorOf? (readBeside disk p.1 p.2) =
        errorOf? (readClass disk p.2) := fun p hp => by rw [agrees p hp]
    rw [List.filterMap_congr values, List.filterMap_congr errors]

/-! ## Runs that nobody cancels -/

/-- Where no location ends the program beside the first of its batch, locations agree exactly if
none ends it alone and all are read alike. -/
theorem agrees_iff {disk : Disk} {locations : List Location}
    (fits : ∀ p ∈ headed locations, overflowsBeside disk p.1 p.2 = false) :
    Agrees disk locations ↔ (∀ location ∈ locations, location.overflows disk = false) ∧
      ∀ p ∈ headed locations, readBeside disk p.1 p.2 = readClass disk p.2 := by
  constructor
  · intro agrees
    refine ⟨fun location inside => ?_, fun p there => (agrees p there).1⟩
    rw [← map_snd_headed locations] at inside
    obtain ⟨p, there, rfl⟩ := List.mem_map.mp inside
    rw [← (agrees p there).2, fits p there]
  · rintro ⟨alone, same⟩ p there
    refine ⟨same p there, (fits p there).trans (alone p.2 ?_).symm⟩
    rw [← map_snd_headed locations]
    exact List.mem_map_of_mem there

namespace Pool

section Outcome

variable {disk : Disk} {workers : Nat} {locations : List Location} {pool : Pool}

/-- In a run that nobody cancels every location is read. -/
theorem fits_of_quiet (reachable : Reachable disk workers locations pool)
    (finished : pool.Finished) (quiet : pool.cancelled = false) :
    ∀ p ∈ headed locations, overflowsBeside disk p.1 p.2 = false := by
  obtain ⟨answers, never, _, fits⟩ := outcomes_of_finished reachable finished
  rw [never quiet] at fits
  exact (ParseOutcome.fits_never_iff disk locations).mp fits

theorem outcomes_of_quiet (reachable : Reachable disk workers locations pool)
    (finished : pool.Finished) (quiet : pool.cancelled = false) :
    pool.outcomes locations = (headed locations).map fun p => some (readBeside disk p.1 p.2) := by
  obtain ⟨answers, never, same, _⟩ := outcomes_of_finished reachable finished
  rw [same, never quiet, outcomesOf_never]

end Outcome

end Pool

/-- Workers, however many, get stuck only at an entry that is too large, and always come to an end.
Whatever the order of their work, a run that nobody cancels and that is not broken reads every
location beside the first of its batch, and so has the outcome of reading every location alone
exactly if the two agree. -/
theorem Pool.uncancelled_outcome (disk : Disk) (workers : Nat) (locations : List Location) :
    (∀ pool, ¬ Pool.Finished pool → ¬ Pool.Broken pool →
      ∃ next, Pool.Work disk workers pool next) ∧
    (∀ pool next, Pool.Work disk workers pool next → next.load < pool.load) ∧
    ∀ pool, Pool.Reachable disk workers locations pool → pool.cancelled = false →
      (pool.Broken → ∃ p ∈ headed locations, overflowsBeside disk p.1 p.2 = true) ∧
      (pool.Finished →
        (∀ p ∈ headed locations, overflowsBeside disk p.1 p.2 = false) ∧
        pool.outcome locations =
          .ofOutcomes ((headed locations).map fun p => some (readBeside disk p.1 p.2)) ∧
        ((∀ location ∈ locations, location.overflows disk = false) ∧
            pool.outcome locations =
              .ofOutcomes (locations.map fun location => some (readClass disk location)) ↔
          Agrees disk locations)) := by
  refine ⟨fun _ => exists_work disk workers, fun _ _ => load_lt_of_work, ?_⟩
  intro pool reachable quiet
  refine ⟨overflowsBeside_of_broken reachable, fun finished => ?_⟩
  have fits := fits_of_quiet reachable finished quiet
  have outcome : pool.outcome locations =
      .ofOutcomes ((headed locations).map fun p => some (readBeside disk p.1 p.2)) := by
    rw [outcome_eq_ofOutcomes, outcomes_of_quiet reachable finished quiet]
  refine ⟨fits, outcome, ?_⟩
  rw [agrees_iff fits, outcome, ← ParseOutcome.parse_never, parse_alone_iff]

/-! A slash behind the name of an archive asks for a directory. The batch does not see it, since
both names have the same components. -/

/-- Two entries of one archive, the second behind a slash. -/
def slashedEntries : List Location :=
  [.jarEntry ⟨"/a.jar"⟩ "A.class", .jarEntry ⟨"/a.jar/"⟩ "B.class"]

theorem find_slashed_jar (content : Bytes) :
    (jarDisk content).find ⟨"/a.jar/"⟩ = .error .notDirectory := by
  have asked : (jarDisk content).asked ⟨"/a.jar/"⟩ = .ok ⟨"/a.jar/"⟩ := rfl
  have steps : Disk.steps "/a.jar/" = [.into "a.jar", .stay] := by decide
  have short : "a.jar".utf8ByteSize = 5 := by decide
  have stop : Disk.follow (jarDisk content).root true Disk.maxLinks [("a.jar", .file content)]
      [.stay] = .error .notDirectory := by
    unfold Disk.follow
    rfl
  rw [Disk.find, Disk.locate, asked]
  show (Disk.follow (jarDisk content).root true Disk.maxLinks [] (Disk.steps "/a.jar/")).map _ = _
  rw [steps]
  rw [jarDisk] at stop ⊢
  simp [Disk.follow, Disk.Trail.tree, Except.map, Disk.maxNameSize, short, stop]

theorem batchesOf_slashedEntries : batchesOf slashedEntries = [slashedEntries] := by
  have shares : sharesArchive (.jarEntry ⟨"/a.jar"⟩ "A.class") (.jarEntry ⟨"/a.jar/"⟩ "B.class") =
      true := by decide
  simp [slashedEntries, batchesOf, shares, batchSize]

theorem openAt_jar : Archive.openAt (jarDisk []) ⟨"/a.jar"⟩ =
    .error (.archive ⟨"/a.jar"⟩ (.invalid "Could not find EOCD")) := by
  rw [Archive.openAt, find_jar]
  rfl

theorem openAt_slashed_jar : Archive.openAt (jarDisk []) ⟨"/a.jar/"⟩ =
    .error (.io "Not a directory (os error 20)") := by
  rw [Archive.openAt, find_slashed_jar]
  rfl

/-- The second entry fails for another reason alone than in the batch. -/
theorem not_agrees_slashedEntries : ¬ Agrees (jarDisk []) slashedEntries := by
  intro agrees
  have second := (agrees (.jarEntry ⟨"/a.jar"⟩ "A.class", .jarEntry ⟨"/a.jar/"⟩ "B.class") (by
    rw [headed, batchesOf_slashedEntries]
    simp [slashedEntries, behindFirst])).1
  simp only [readBeside, readClass, Location.read, Location.storage, Storage.archive?, openAt_jar,
    openAt_slashed_jar] at second
  have reasons := Except.error.inj second
  have same := (ImportError.unreadable.inj reasons).2
  exact absurd same (by decide)

/-- An archive that does not open ends no program. -/
theorem overflows_slashedEntries :
    ∀ location ∈ slashedEntries, location.overflows (jarDisk []) = false := by
  intro location inside
  simp only [slashedEntries, List.mem_cons, List.not_mem_nil, or_false] at inside
  rcases inside with rfl | rfl
  · simp [Location.overflows, Location.storage, openAt_jar, Except.toOption]
  · simp [Location.overflows, Location.storage, openAt_slashed_jar, Except.toOption]

/-- One worker reads both entries. What it hands in is not what reading them alone gives. Another
run reads an entry that is too large, and hands in nothing. -/
theorem uncancelled_outcome_slashedEntries :
    (∃ pool, Pool.Reachable (jarDisk []) 1 slashedEntries pool ∧ pool.cancelled = false ∧
      pool.Finished ∧ pool.outcome slashedEntries ≠
        .ofOutcomes (slashedEntries.map fun location => some (readClass (jarDisk []) location))) ∧
    ∃ pool, Pool.Reachable hugeDisk 1 [hugeEntry] pool ∧ pool.cancelled = false ∧ pool.Broken ∧
      ∃ p ∈ headed [hugeEntry], overflowsBeside hugeDisk p.1 p.2 = true := by
  have waiting : (Pool.start slashedEntries).waiting = [] ++ (slashedEntries, 0) :: [] := by
    rw [Pool.start, batchesOf_slashedEntries]
    rfl
  have taken : Pool.Reachable (jarDisk []) 1 slashedEntries _ :=
    .next .start (.work (.take waiting (by decide) fun _ => ⟨rfl, rfl⟩))
  have opened : Pool.Reachable (jarDisk []) 1 slashedEntries _ :=
    .next taken (.work (.advance (List.nil_append _).symm rfl fun _ => rfl))
  have failed : (BatchWork.start slashedEntries).advance (jarDisk []) false = .reading none
      (slashedEntries.map fun location => some (.error (.unreadable location.uri
        "archive error in /a.jar: invalid Zip archive: Could not find EOCD"))) [] := by
    show BatchWork.advance (jarDisk []) (.opening ⟨"/a.jar"⟩ slashedEntries) false = _
    rw [BatchWork.advance, openAt_jar]
    rfl
  have finished : Pool.Reachable (jarDisk []) 1 slashedEntries _ :=
    .next opened (.work (.finish (List.nil_append _).symm (congrArg BatchWork.result? failed)))
  have ended := ((Pool.uncancelled_outcome (jarDisk []) 1 slashedEntries).2.2 _ finished rfl).2
    ⟨rfl, rfl, rfl⟩
  obtain ⟨broken, reachable, quiet, lost⟩ := Pool.exists_broken
  have large := ((Pool.uncancelled_outcome hugeDisk 1 [hugeEntry]).2.2 _ reachable quiet).1 lost
  exact ⟨⟨_, finished, rfl, ⟨rfl, rfl, rfl⟩, fun same =>
    not_agrees_slashedEntries (ended.2.2.mp ⟨overflows_slashedEntries, same⟩)⟩,
    broken, reachable, quiet, lost, large⟩

end ClassAtlas
