import ClassAtlas.Proofs.Import.Outcomes
import ClassAtlas.Proofs.Parse.Cancellation
import ClassAtlas.Proofs.Parse.Watching

/-!
# Progress of a run

Whoever watches a run to its end is told of every batch once.

* `WatchedPool.AllTold`: one progress for every batch, and exactly one that says that all locations
  are done;
* `WatchedPool.InOrder`: of a single worker it arrives in the order of the count;
* `WatchedPool.progress_exact`: all of this for every order of the work, whenever somebody cancels.
-/

namespace ClassAtlas

namespace WatchedPool

variable {disk : Disk} {workers : Nat} {locations : List Location} {watched next : WatchedPool}

/-! ## When everything is handed in -/

/-- What was told when everything is handed in. -/
structure AllTold (locations : List Location) (watched : WatchedPool) : Prop where
  /-- Of every batch one progress arrived. -/
  each : (watched.arrived.map Prod.snd).Perm (List.range (batchesOf locations).length)
  /-- What was counted arrived, in whatever order. -/
  counted : watched.arrived.Perm watched.counted
  /-- One progress says that all locations are done. -/
  full : locations ≠ [] →
    watched.arrived.countP (fun p => p.1.current = locations.length) = 1

section Finished

variable (reachable : Reachable disk workers locations watched) (finished : watched.Finished)
include reachable finished

theorem arrived_perm_range :
    (watched.arrived.map Prod.snd).Perm (List.range (batchesOf locations).length) := by
  have booked := booked_of_reachable reachable
  have numbers := (Pool.sound_of_reachable (reachable_pool reachable)).finished_perm finished
  refine (List.perm_ext_iff_of_nodup booked.arrivedOnce List.nodup_range).mpr fun n => ⟨?_, ?_⟩
  · intro told
    obtain ⟨p, there, rfl⟩ := List.mem_map.mp told
    exact List.mem_range.mpr
      (lt_of_mem_counted reachable (List.mem_map_of_mem (booked.arrived there)))
  · intro inside
    obtain ⟨p, there, rfl⟩ := List.mem_map.mp (numbers.mem_iff.mpr inside)
    exact booked.handedIn p there

theorem arrived_perm_counted : watched.arrived.Perm watched.counted := by
  have booked := booked_of_reachable reachable
  have part := booked.arrivedOnce.of_map.subperm booked.arrived
  have all := (arrived_perm_range reachable finished).length_eq
  rw [List.length_map, List.length_range] at all
  exact part.perm_of_length_le (all ▸ length_counted_le reachable)

theorem counted_perm_batchesOf :
    ((watched.counted.map Prod.snd).map (batchAt locations)).Perm (batchesOf locations) := by
  have all := (arrived_perm_counted reachable finished).symm.map Prod.snd
  have batches := (all.trans (arrived_perm_range reachable finished)).map (batchAt locations)
  rwa [map_batchAt_range] at batches

theorem allTold : watched.AllTold locations := by
  refine ⟨arrived_perm_range reachable finished, arrived_perm_counted reachable finished, ?_⟩
  intro nonempty
  have batches := counted_perm_batchesOf reachable finished
  have all : locationCount ((watched.counted.map Prod.snd).map (batchAt locations)) =
      locations.length := by
    rw [← locationCount_batchesOf locations]
    exact (batches.map _).sum_eq
  have counted : (watched.counted.map Prod.snd).map (batchAt locations) ≠ [] := by
    intro empty
    rw [empty] at batches
    rw [← flatten_batchesOf locations, ← batches.nil_eq] at nonempty
    exact nonempty rfl
  have full := Progress.countP_updates locations.length 0 (filled_of_counted reachable) counted
  rw [← (booked_of_reachable reachable).updates, List.countP_map, all, Nat.zero_add] at full
  rw [(arrived_perm_counted reachable finished).countP_eq]
  exact full

end Finished

/-! ## A single worker -/

/-- A single worker takes, counts and tells of one batch after the other, and hands each in before
it takes the next. -/
structure InOrder (watched : WatchedPool) : Prop where
  counted : watched.counted.map Prod.snd <+: watched.pool.taken
  arrived : watched.arrived <+: watched.counted
  handedIn : watched.pool.finished.map Prod.snd <+: watched.arrived.map Prod.snd

/-- What a single worker did not take waits in order. -/
theorem taken_append_waiting {pool : Pool} (turn : pool.InTurn (batchesOf locations)) :
    pool.taken ++ pool.waiting.map Prod.snd = List.range (batchesOf locations).length := by
  rw [← turn.numbers, Pool.taken, List.append_assoc, List.append_assoc]

/-- What a single worker takes stands behind what it took before. -/
theorem taken_prefix_of_work (single : workers ≤ 1) {pool next : Pool}
    (turn : pool.InTurn (batchesOf locations)) (h : Pool.Work disk workers pool next) :
    pool.taken <+: next.taken := by
  cases h with
  | take _ free ordered =>
    have alone := Pool.crew_of_le_one single
    have idle := List.eq_nil_of_length_eq_zero (Nat.lt_one_iff.mp (alone ▸ free))
    simp [Pool.taken, idle, (ordered alone).2]
  | advance inHand => simp [Pool.taken, inHand]
  | finish inHand | crash inHand =>
    obtain ⟨rfl, rfl, whole⟩ := turn.alone inHand
    simp [Pool.taken, inHand, whole]

/-- What a single worker has in hand is the only batch that it has not handed in. -/
theorem taken_of_single {pool : Pool} (turn : pool.InTurn (batchesOf locations)) {work : BatchWork}
    {n : Nat} (inHand : (work, n) ∈ pool.active) :
    pool.taken = pool.finished.map Prod.snd ++ [n] := by
  obtain ⟨front, rest, active⟩ := List.append_of_mem inHand
  obtain ⟨rfl, rfl, whole⟩ := turn.alone active
  rw [Pool.taken, active, whole]
  rfl

section Single

variable (turn : watched.pool.InTurn (batchesOf locations)) (order : watched.InOrder)
include turn order

/-- What is counted now was the only batch that was taken and not yet counted. -/
theorem InOrder.counting {work : BatchWork} {n : Nat} (inHand : (work, n) ∈ watched.pool.active)
    (uncounted : n ∉ watched.counted.map Prod.snd) : (watched.counting locations n).InOrder := by
  have taken := taken_of_single turn inHand
  refine ⟨?_, order.arrived.trans (List.prefix_append _ _), order.handedIn⟩
  have before : watched.counted.map Prod.snd <+: watched.pool.finished.map Prod.snd := by
    refine (List.prefix_concat_iff.mp (taken ▸ order.counted)).resolve_left fun all => ?_
    exact uncounted (all ▸ List.mem_concat_self)
  have behind := order.handedIn.trans (order.arrived.map Prod.snd)
  show (watched.counted ++ [(_, n)]).map Prod.snd <+: watched.pool.taken
  rw [taken, List.map_append, before.eq_of_length_le behind.length_le]
  exact List.prefix_rfl

/-- At most one batch is counted and not told of. -/
theorem InOrder.telling {progress : Progress} {n : Nat} (counted : (progress, n) ∈ watched.counted)
    (untold : n ∉ watched.arrived.map Prod.snd) : (watched.telling progress n).InOrder := by
  obtain ⟨later, split⟩ := order.arrived
  have few := order.counted.length_le
  have handedIn := order.handedIn.length_le
  rw [← split, Pool.taken] at few
  simp only [List.length_map, List.length_append] at few handedIn
  -- What is taken is at most one batch more than what is handed in, and told of all the more.
  have one : later.length ≤ 1 := by
    have single := turn.single
    omega
  have there : (progress, n) ∈ later := by
    rw [← split] at counted
    refine (List.mem_append.mp counted).resolve_left fun before => ?_
    exact untold (List.mem_map_of_mem before)
  refine ⟨order.counted, ?_, order.handedIn.trans ?_⟩
  · obtain ⟨front, rest, rfl⟩ := List.append_of_mem there
    obtain ⟨rfl, rfl⟩ := Pool.alone_of_single one
    exact split ▸ List.prefix_rfl
  · exact (List.prefix_append _ _).map Prod.snd

/-- What is handed in was the last to be told of. -/
theorem InOrder.finishing {next : Pool} (single : workers ≤ 1)
    (step : Pool.Work disk workers watched.pool next)
    (told : ∀ p ∈ next.finished, p.2 ∈ watched.arrived.map Prod.snd) :
    InOrder { watched with pool := next } := by
  refine ⟨order.counted.trans (taken_prefix_of_work single turn step), order.arrived, ?_⟩
  cases step with
  | take | advance | crash => exact order.handedIn
  | @finish work n _ _ outcomes inHand result =>
    have held : (work, n) ∈ watched.pool.active :=
      inHand ▸ List.mem_append_right _ List.mem_cons_self
    have taken := taken_of_single turn held
    have unfinished : n ∉ watched.pool.finished.map Prod.snd := by
      intro before
      have numbers := taken_append_waiting turn
      rw [taken] at numbers
      have once := (List.nodup_append.mp (numbers ▸ List.nodup_range)).1
      exact (List.nodup_append.mp once).2.2 n before n (List.mem_singleton_self n) rfl
    have last := told (outcomes, n) List.mem_concat_self
    have ahead := (order.arrived.map Prod.snd).trans (taken ▸ order.counted)
    have all := (List.prefix_concat_iff.mp ahead).resolve_right fun before =>
      unfinished (before.subset last)
    show (watched.pool.finished ++ [(outcomes, n)]).map Prod.snd <+: watched.arrived.map Prod.snd
    rw [all, List.map_append]
    exact List.prefix_rfl

theorem inOrder_step (single : workers ≤ 1) (h : Step disk workers locations watched next) :
    next.InOrder := by
  cases h with
  | cancel => exact ⟨order.counted, order.arrived, order.handedIn⟩
  | work step =>
    cases step with
    | count inHand _ uncounted => exact order.counting turn inHand uncounted
    | tell _ counted untold => exact order.telling turn counted untold
    | work step told => exact order.finishing turn single step told

end Single

theorem inOrder_of_reachable (single : workers ≤ 1)
    (h : Reachable disk workers locations watched) : watched.InOrder := by
  induction h with
  | start => exact ⟨List.nil_prefix, List.prefix_rfl, List.prefix_rfl⟩
  | next before step ih =>
    exact inOrder_step (Pool.inTurn_of_reachable single (reachable_pool before)) ih single step

/-- When a single worker has handed in everything, it told of the batches in their order. -/
theorem arrived_of_single (single : workers ≤ 1)
    (reachable : Reachable disk workers locations watched) (finished : watched.Finished) :
    watched.arrived = watched.counted ∧
      watched.arrived.map Prod.fst = Progress.ofLocations locations := by
  have order := inOrder_of_reachable single reachable
  have told := arrived_perm_counted reachable finished
  have same := order.arrived.eq_of_length told.length_eq
  have numbers := taken_append_waiting (Pool.inTurn_of_reachable single (reachable_pool reachable))
  have taken : watched.pool.taken = List.range (batchesOf locations).length := by
    rw [finished.waiting, List.map_nil, List.append_nil] at numbers
    exact numbers
  have each := arrived_perm_range reachable finished
  have all : watched.counted.map Prod.snd = List.range (batchesOf locations).length := by
    rw [← taken]
    refine order.counted.eq_of_length ?_
    rw [taken, ← each.length_eq, same]
  refine ⟨same, ?_⟩
  rw [same, (booked_of_reachable reachable).updates, all, map_batchAt_range, Progress.ofLocations]

/-! ## Every run -/

/-- Watched workers come to an end, until then some worker can go on, and only an entry that is too
large can break the run. Whatever the order of their work and whenever somebody cancels, no progress
is lost or counted twice: each says how many locations the batches counted so far have, and when all
is handed in one arrived for every batch. Of a single worker they arrive in the order in which they
are counted. -/
theorem progress_exact (disk : Disk) (workers : Nat) (locations : List Location) :
    (∀ watched, Reachable disk workers locations watched →
      (∃ last, Relation.ReflTransGen (Work disk workers locations) watched last ∧
        (last.Finished ∨ last.Broken)) ∧
      (∀ next, Work disk workers locations watched next →
        next.load locations < watched.load locations) ∧
      (watched.Broken → ∃ p ∈ headed locations, overflowsBeside disk p.1 p.2 = true)) ∧
    ∀ watched, Reachable disk workers locations watched →
      watched.Truthful locations ∧
      (watched.Finished → watched.AllTold locations) ∧
      (workers ≤ 1 → watched.arrived <+: watched.counted ∧
        (watched.Finished → watched.arrived = watched.counted ∧
          watched.arrived.map Prod.fst = Progress.ofLocations locations)) := by
  refine ⟨fun watched reachable => ⟨exists_ended reachable, fun next => ?_, ?_⟩, ?_⟩
  · exact load_lt_of_work reachable
  · exact Pool.overflowsBeside_of_broken (reachable_pool reachable)
  · intro watched reachable
    refine ⟨truthful reachable, allTold reachable, fun single => ?_⟩
    exact ⟨(inOrder_of_reachable single reachable).arrived, arrived_of_single single reachable⟩

theorem reachable_of_runs (before : Reachable disk workers locations watched)
    (h : Relation.ReflTransGen (Work disk workers locations) watched next) :
    Reachable disk workers locations next := by
  induction h with
  | refl => exact before
  | tail _ work ih => exact ih.next (.work work)

/-- A class file and an entry of an archive, in two batches. -/
def scattered : List Location :=
  [.file ⟨"/c"⟩ ⟨"/c/A.class"⟩, .jarEntry ⟨"/a.jar"⟩ "B.class"]

theorem batchesOf_scattered : batchesOf scattered =
    [[.file ⟨"/c"⟩ ⟨"/c/A.class"⟩], [.jarEntry ⟨"/a.jar"⟩ "B.class"]] := by
  have apart : sharesArchive (.file ⟨"/c"⟩ ⟨"/c/A.class"⟩) (.jarEntry ⟨"/a.jar"⟩ "B.class") =
      false := by decide
  simp [scattered, batchesOf, apart]

theorem waiting_scattered : (start scattered).pool.waiting =
    [] ++ ([.file ⟨"/c"⟩ ⟨"/c/A.class"⟩], 0) :: [([.jarEntry ⟨"/a.jar"⟩ "B.class"], 1)] := by
  rw [start, Pool.start, batchesOf_scattered]
  rfl

theorem fits_scattered : ∀ p ∈ headed scattered, overflowsBeside bareDisk p.1 p.2 = false := by
  have missing : bareDisk.find ⟨"/a.jar"⟩ = .error .notFound := by
    have asked : bareDisk.asked ⟨"/a.jar"⟩ = .ok ⟨"/a.jar"⟩ := rfl
    have steps : Disk.steps "/a.jar" = [.into "a.jar"] := by decide
    have short : "a.jar".utf8ByteSize = 5 := by decide
    rw [Disk.find, Disk.locate, asked]
    show (Disk.follow bareDisk.root true Disk.maxLinks [] (Disk.steps "/a.jar")).map _ = _
    rw [steps]
    simp [Disk.follow, bareDisk, Disk.Trail.tree, Except.map, Disk.maxNameSize, short]
  rw [headed, batchesOf_scattered]
  intro p there
  simp only [List.flatMap_cons, List.flatMap_nil, behindFirst, List.head?_cons, List.map_cons,
    List.map_nil, List.append_nil, List.singleton_append, List.mem_cons, List.not_mem_nil,
    or_false] at there
  rcases there with rfl | rfl
  · rfl
  · have refused : Archive.openAt bareDisk ⟨"/a.jar"⟩ =
        .error (.io DiskFault.notFound.message) := by
      rw [Archive.openAt, missing]
    exact overflowsBeside_unopened rfl rfl refused

/-- Two workers, of whom the second is the first to count and the last to tell. The token is set
before it opens the archive. A single worker tells of the batches in their order, and nothing of one
that has an entry that is too large. -/
theorem progress_exact_crossing :
    (∃ watched single,
      (Reachable bareDisk 2 scattered watched ∧ watched.Finished ∧
        watched.pool.cancelled = true) ∧
      watched.Truthful scattered ∧ watched.AllTold scattered ∧
      watched.counted.map (fun p => p.1.current) = [1, 2] ∧
      watched.arrived.map (fun p => p.1.current) = [2, 1] ∧
      (Reachable bareDisk 1 scattered single ∧ single.Finished) ∧
      single.arrived.map Prod.fst = [.parsed 2 1, .parsed 2 2]) ∧
    ∃ watched, Reachable hugeDisk 1 [hugeEntry] watched ∧ watched.Broken ∧
      watched.Truthful [hugeEntry] ∧ watched.arrived = [] := by
  have first : Reachable bareDisk 2 scattered _ :=
    .next .start (.work (.work (.take waiting_scattered (by decide) nofun) nofun))
  have read : Reachable bareDisk 2 scattered _ :=
    .next first (.work (.work (.advance (List.nil_append _).symm rfl fun _ => rfl) nofun))
  have second : Reachable bareDisk 2 scattered _ :=
    .next read (.work (.work (.take (List.nil_append _).symm (by decide) nofun) nofun))
  have stopped : Reachable bareDisk 2 scattered _ :=
    .next (.next second .cancel)
      (.work (.work (.advance (List.nil_append _).symm rfl fun _ => rfl) nofun))
  have counted : Reachable bareDisk 2 scattered _ :=
    .next (.next stopped (.work (.count List.mem_cons_self rfl nofun)))
      (.work (.count (.tail _ List.mem_cons_self) rfl (by decide)))
  have told : Reachable bareDisk 2 scattered _ :=
    .next (.next counted (.work (.tell (.tail _ List.mem_cons_self) (.tail _ List.mem_cons_self)
      nofun))) (.work (.tell List.mem_cons_self List.mem_cons_self (by decide)))
  have last : Reachable bareDisk 2 scattered _ :=
    .next (.next told (.work (.work (.finish (List.nil_append _).symm rfl) (by decide))))
      (.work (.work (.finish (List.nil_append _).symm rfl) (by decide)))
  have all := progress_exact bareDisk 2 scattered
  obtain ⟨single, runs, ended⟩ := ((progress_exact bareDisk 1 scattered).1 _ .start).1
  have reachable := reachable_of_runs .start runs
  have ends : single.Finished := ended.resolve_right fun broken => by
    obtain ⟨p, there, large⟩ := ((progress_exact bareDisk 1 scattered).1 _ reachable).2.2 broken
    rw [fits_scattered p there] at large
    cases large
  have inTurn := ((progress_exact bareDisk 1 scattered).2 single reachable).2.2 (Nat.le_refl 1)
  have updates : Progress.ofLocations scattered = [.parsed 2 1, .parsed 2 2] := by
    rw [Progress.ofLocations, batchesOf_scattered]
    rfl
  have opened : Reachable hugeDisk 1 [hugeEntry] _ :=
    .next (.next .start (.work (.work
      (.take Pool.waiting_hugeEntry (by decide) fun _ => ⟨rfl, rfl⟩) nofun)))
      (.work (.work (.advance (List.nil_append _).symm rfl fun _ => rfl) nofun))
  have crashed : Reachable hugeDisk 1 [hugeEntry] _ :=
    .next opened (.work (.work
      (.crash (List.nil_append _).symm rfl Pool.overflows_advance_hugeEntry) nofun))
  refine ⟨⟨_, single, ⟨last, ⟨rfl, rfl, rfl⟩, rfl⟩, (all.2 _ last).1,
    (all.2 _ last).2.1 ⟨rfl, rfl, rfl⟩, ?_, ?_, ⟨reachable, ends⟩, (inTurn.2 ends).2.trans updates⟩,
    ⟨_, crashed, List.cons_ne_nil _ _, ((progress_exact hugeDisk 1 [hugeEntry]).2 _ crashed).1,
      rfl⟩⟩
  · simp [batchAt, batchesOf_scattered, start, counting, telling, Progress.parsed]
  · simp [batchAt, batchesOf_scattered, start, counting, telling, Progress.parsed]

end WatchedPool

end ClassAtlas
