import ClassAtlas.Proofs.Import.Outcomes
import ClassAtlas.Proofs.Parse.Cancellation

/-!
# Imports that are cancelled

`Pool.cancelled_outcome`: whenever the token is set and whatever the order of the work, a location
is left out or becomes exactly what it becomes in a run that nobody cancels, and no location is
lost. `CutsShort` is what is said of one run beside the other. Only an entry that is too large and
not left out can break a run.
-/

namespace ClassAtlas

/-- The graph is complete exactly if no location was left out. -/
theorem Importer.complete_graphOf (enumeration : Enumeration) (outcome : ParseOutcome) :
    (Importer.graphOf enumeration outcome).report.complete = outcome.isComplete := by
  show (Report.recordAll (Report.recordAll (Report.recordAll _ _) _) _).complete = _
  rw [Report.recordAll_eq, Report.recordAll_eq, Report.recordAll_eq]

/-- What becomes of each location when nobody cancels: it is read beside the first of its batch. -/
def uncut (disk : Disk) (locations : List Location) : List Outcome :=
  (headed locations).map fun p => some (readBeside disk p.1 p.2)

namespace Pool

/-- A finished run beside one that nobody cancelled. -/
structure CutsShort (disk : Disk) (locations : List Location) (pool : Pool) : Prop where
  /-- Every location is left out or becomes what it becomes uncancelled. -/
  each : List.Forall₂ (fun outcome full => outcome = none ∨ outcome = full)
    (pool.outcomes locations) (uncut disk locations)
  /-- No location that was read is too large. -/
  fits : ¬ EndsAt disk (pool.outcomes locations) (headed locations)
  /-- An outcome stands where its location does: a class knows the location, a failure names it. -/
  located : List.Forall₂ Concerns locations (pool.outcomes locations)
  classes : ((pool.outcome locations).classes.map SourcedClass.source).Sublist
    (locations.map some)
  failures : ((pool.outcome locations).failures.map ImportError.locations).Sublist
    (locations.map fun location => [location.uri])
  total : (pool.outcome locations).classes.length + (pool.outcome locations).failures.length +
    (pool.outcome locations).skipped = locations.length
  /-- The outcome is one of parsing. -/
  parsed : ∃ answers : Cancellation,
    ParseOutcome.attempt disk answers locations = .returned (pool.outcome locations)
  /-- The graph that is built of the outcome is complete exactly if nothing was left out. -/
  complete : ∀ enumeration : Enumeration,
    (Importer.graphOf enumeration (pool.outcome locations)).report.complete = true ↔
      (pool.outcome locations).skipped = 0

section Outcome

variable {disk : Disk} {workers : Nat} {locations : List Location} {pool : Pool}

theorem cutsShort (reachable : Reachable disk workers locations pool) (finished : pool.Finished) :
    CutsShort disk locations pool := by
  obtain ⟨answers, _, same, fits⟩ := outcomes_of_finished reachable finished
  have parsed := outcome_of_finished reachable finished
  have each := forall₂_outcomesOf disk answers locations
  have located := forall₂_concerns disk answers locations
  rw [Bool.eq_false_iff, ne_eq, ParseOutcome.overflows_iff] at fits
  rw [← same] at each located fits
  refine
    { each := ?_
      fits := fits
      located := located
      classes := ParseOutcome.sources_sublist located
      failures := ParseOutcome.failures_sublist located
      total := (ParseOutcome.total_ofOutcomes _).trans located.length_eq.symm
      parsed := parsed.imp fun _ => And.right
      complete := fun enumeration => ?_ }
  · rw [uncut, List.forall₂_map_right_iff]
    exact each.imp fun outcome p curtailed => curtailed.symm.imp_left And.left
  · rw [Importer.complete_graphOf]
    exact decide_eq_true_iff

/-- There is a run that nobody cancels and that is not broken exactly if no entry is too large. -/
theorem exists_whole_iff : (∃ whole, Reachable disk workers locations whole ∧ whole.Finished ∧
      whole.cancelled = false) ↔
    ∀ p ∈ headed locations, overflowsBeside disk p.1 p.2 = false := by
  constructor
  · rintro ⟨whole, reachable, finished, quiet⟩
    exact fits_of_quiet reachable finished quiet
  · intro fits
    obtain ⟨last, runs, ended, quiet⟩ := exists_ended disk workers (start locations)
    have reachable : Reachable disk workers locations last :=
      reachable_of_runs .start (runs.lift id fun _ _ => Step.work)
    refine ⟨last, reachable, ended.resolve_right fun broken => ?_, quiet⟩
    obtain ⟨p, there, huge⟩ := overflowsBeside_of_broken reachable broken
    rw [fits p there] at huge
    cases huge

/-- Outcomes of which the last ones are left out are the first ones of the whole. -/
theorem exists_take {outcomes full : List Outcome}
    (each : List.Forall₂ (fun outcome all => outcome = none ∨ outcome = all) outcomes full)
    (skipsLast : outcomes.Pairwise fun first later => first = none → later = none) :
    ∃ n, outcomes = full.take n ++ (full.drop n).map fun _ => none := by
  induction each with
  | nil => exact ⟨0, rfl⟩
  | @cons outcome all outcomes full here rest ih =>
    rw [List.pairwise_cons] at skipsLast
    rcases here with rfl | rfl
    · refine ⟨0, ?_⟩
      have behind : outcomes = full.map fun _ => none := by
        rw [List.map_const', ← rest.length_eq, List.eq_replicate_iff]
        exact ⟨rfl, fun later inside => skipsLast.1 later inside rfl⟩
      rw [behind]
      rfl
    · obtain ⟨n, split⟩ := ih skipsLast.2
      refine ⟨n + 1, ?_⟩
      rw [List.take_succ_cons, List.drop_succ_cons, List.cons_append, ← split]

/-- A single worker leaves out the last locations. -/
theorem CutsShort.suffix (short : CutsShort disk locations pool)
    (turn : pool.InTurn (batchesOf locations)) (finished : pool.Finished) :
    ∃ n, pool.outcomes locations =
      (uncut disk locations).take n ++ (locations.drop n).map fun _ => none := by
  have last := turn.skipsLast
  rw [← turn.outcomes_eq finished] at last
  obtain ⟨n, split⟩ := exists_take short.each last
  have same : (uncut disk locations).length = locations.length :=
    short.each.length_eq.symm.trans short.located.length_eq.symm
  refine ⟨n, split.trans ?_⟩
  rw [List.map_const', List.map_const', List.length_drop, List.length_drop, same]

/-- If the token is set beforehand, every location is left out. -/
theorem SkipsAll.outcomes_eq (skips : pool.SkipsAll)
    (reachable : Reachable disk workers locations pool) (finished : pool.Finished) :
    pool.outcomes locations = locations.map fun _ => none := by
  obtain ⟨answers, _, same, _⟩ := outcomes_of_finished reachable finished
  rw [List.map_const', List.eq_replicate_iff]
  refine ⟨by rw [same, length_outcomesOf], fun outcome inside => ?_⟩
  exact skips.all outcome (mem_decided_of_mem_outcomes inside)

end Outcome

/-- Every run comes to an end, and only an entry that is too large can break it. A run that nobody
cancels reads every location. If the token is set at some moment, each location is left out or
becomes what it becomes in such a run; of a single worker the locations that are left out are the
last ones. If the token is set beforehand, all are left out, and the run would be the same on any
other disk: nothing is read. -/
theorem cancelled_outcome (disk : Disk) (workers : Nat) (locations : List Location) :
    (∀ pool, (∃ last, Relation.ReflTransGen (Work disk workers) pool last ∧
        (last.Finished ∨ last.Broken) ∧ last.cancelled = pool.cancelled) ∧
      ∀ next, Work disk workers pool next → next.load < pool.load) ∧
    (∀ whole, Reachable disk workers locations whole → whole.Finished →
      whole.cancelled = false → whole.outcomes locations = uncut disk locations) ∧
    ((∃ whole, Reachable disk workers locations whole ∧ whole.Finished ∧
        whole.cancelled = false) ↔
      ∀ p ∈ headed locations, overflowsBeside disk p.1 p.2 = false) ∧
    (∀ pool, Reachable disk workers locations pool →
      (pool.Broken → ∃ p ∈ headed locations, overflowsBeside disk p.1 p.2 = true) ∧
      (pool.Finished → CutsShort disk locations pool ∧
        (workers ≤ 1 → ∃ n, pool.outcomes locations =
          (uncut disk locations).take n ++ (locations.drop n).map fun _ => none))) ∧
    ∀ pool, Relation.ReflTransGen (Step disk workers)
        { start locations with cancelled := true } pool →
      ¬ pool.Broken ∧
      (pool.Finished → pool.outcomes locations = locations.map fun _ => none) ∧
      ∀ other, Relation.ReflTransGen (Step other workers)
        { start locations with cancelled := true } pool := by
  refine ⟨fun pool => ⟨exists_ended disk workers pool, fun _ => load_lt_of_work⟩,
    fun whole => outcomes_of_quiet, exists_whole_iff, ?_, ?_⟩
  · intro pool reachable
    refine ⟨overflowsBeside_of_broken reachable, fun finished => ?_⟩
    have short := cutsShort reachable finished
    exact ⟨short, fun single => short.suffix (inTurn_of_reachable single reachable) finished⟩
  · intro pool runs
    have skips := skipsAll_of_runs (skipsAll_start locations) runs
    have reachable := reachable_of_runs (.next .start .cancel) runs
    exact ⟨not_not.mpr skips.whole, skips.outcomes_eq reachable,
      fun other => runs_of_cancelled other rfl runs⟩

theorem waiting_looseFiles : (start looseFiles).waiting = [] ++ (looseFiles, 0) :: [] := by
  have shares : sharesArchive (.file ⟨"/c"⟩ ⟨"/c/A.class"⟩) (.file ⟨"/c"⟩ ⟨"/c/B.class"⟩) =
      true := by decide
  simp [start, looseFiles, batchesOf, shares, batchSize]

/-- The token is set when one of two files is read, or beforehand. Another run is broken by an entry
that is too large. -/
theorem cancelled_outcome_looseFiles :
    (∃ pool whole idle,
      (Reachable bareDisk 1 looseFiles pool ∧ pool.Finished) ∧
      (Reachable bareDisk 1 looseFiles whole ∧ whole.Finished ∧ whole.cancelled = false) ∧
      CutsShort bareDisk looseFiles pool ∧
      (∃ n, pool.outcomes looseFiles =
        (whole.outcomes looseFiles).take n ++ (looseFiles.drop n).map fun _ => none) ∧
      (Relation.ReflTransGen (Step bareDisk 1) { start looseFiles with cancelled := true } idle ∧
        idle.Finished) ∧
      idle.outcomes looseFiles = [none, none]) ∧
    ∃ pool, Reachable hugeDisk 1 [hugeEntry] pool ∧ pool.Broken ∧
      ∃ p ∈ headed [hugeEntry], overflowsBeside hugeDisk p.1 p.2 = true := by
  have taken : Reachable bareDisk 1 looseFiles _ :=
    .next .start (.work (.take waiting_looseFiles (by decide) fun _ => ⟨rfl, rfl⟩))
  have first : Reachable bareDisk 1 looseFiles _ :=
    .next taken (.work (.advance (List.nil_append _).symm rfl fun _ => rfl))
  have second : Reachable bareDisk 1 looseFiles _ :=
    .next first (.work (.advance (List.nil_append _).symm rfl fun _ => rfl))
  have whole : Reachable bareDisk 1 looseFiles _ :=
    .next second (.work (.finish (List.nil_append _).symm rfl))
  have stopped : Reachable bareDisk 1 looseFiles _ :=
    .next (.next first .cancel) (.work (.advance (List.nil_append _).symm rfl nofun))
  have pool : Reachable bareDisk 1 looseFiles _ :=
    .next stopped (.work (.finish (List.nil_append _).symm rfl))
  have waiting : { start looseFiles with cancelled := true }.waiting =
      [] ++ (looseFiles, 0) :: [] := waiting_looseFiles
  have idle : Relation.ReflTransGen (Step bareDisk 1)
      { start looseFiles with cancelled := true } _ :=
    .tail (.tail (.tail (.tail .refl (.work (.take waiting (by decide) fun _ => ⟨rfl, rfl⟩)))
      (.work (.advance (List.nil_append _).symm rfl nofun)))
      (.work (.advance (List.nil_append _).symm rfl nofun)))
      (.work (.finish (List.nil_append _).symm rfl))
  have all := cancelled_outcome bareDisk 1 looseFiles
  have full := all.2.1 _ whole ⟨rfl, rfl, rfl⟩ rfl
  obtain ⟨short, last⟩ := (all.2.2.2.1 _ pool).2 ⟨rfl, rfl, rfl⟩
  obtain ⟨broken, reachable, _, lost⟩ := exists_broken
  have large := ((cancelled_outcome hugeDisk 1 [hugeEntry]).2.2.2.1 _ reachable).1 lost
  exact ⟨⟨_, _, _, ⟨pool, rfl, rfl, rfl⟩, ⟨whole, ⟨rfl, rfl, rfl⟩, rfl⟩, short,
    full ▸ last (Nat.le_refl 1), ⟨idle, rfl, rfl, rfl⟩,
    (all.2.2.2.2 _ idle).2.1 ⟨rfl, rfl, rfl⟩⟩, broken, reachable, lost, large⟩

end Pool

end ClassAtlas
