import ClassAtlas.Proofs.Parse.Schedule
import Mathlib.Algebra.Order.BigOperators.Group.List
import Mathlib.Data.List.Nodup
import Mathlib.Data.List.Perm.Subperm

/-!
# Watched workers

Somebody may watch the workers. When the work on a batch is done, its worker adds the size of the
batch to a count that all workers share, then tells what the count came to, and only then hands the
batch in. Workers change the count one after the other. What they tell may arrive in another order.

* `Progress.rising_updates`, `Progress.countP_updates`: what counting batch after batch gives;
* `WatchedPool.Booked`: what is counted is counted once, and what is told was counted;
* `WatchedPool.Truthful`: each progress says how many locations the batches counted so far have;
* `WatchedPool.exists_ended`: watched workers come to an end.
-/

namespace ClassAtlas

/-! ## Counting batches -/

/-- How many locations there are in batches. -/
def locationCount (batches : List (List Location)) : Nat := (batches.map List.length).sum

theorem locationCount_append (earlier later : List (List Location)) :
    locationCount (earlier ++ later) = locationCount earlier + locationCount later := by
  rw [locationCount, List.map_append, List.sum_append]
  rfl

theorem locationCount_singleton (batch : List Location) :
    locationCount [batch] = batch.length := by
  simp [locationCount]

theorem locationCount_batchesOf (locations : List Location) :
    locationCount (batchesOf locations) = locations.length := by
  rw [locationCount, ← List.length_flatten, flatten_batchesOf]

theorem length_pos_of_mem_batchesOf {locations batch : List Location}
    (h : batch ∈ batchesOf locations) : 0 < batch.length := by
  obtain ⟨_⟩ := isBatch_of_mem h
  exact Nat.succ_pos _

namespace Progress

variable {total done : Nat} {batches : List (List Location)} {update : Progress}

theorem updates_append (total done : Nat) (earlier later : List (List Location)) :
    updates total done (earlier ++ later) =
      updates total done earlier ++ updates total (done + locationCount earlier) later := by
  induction earlier generalizing done with
  | nil => rfl
  | cons batch earlier ih =>
    rw [List.cons_append, updates, updates, ih, List.cons_append, Nat.add_assoc,
      ← locationCount_singleton, ← locationCount_append, List.singleton_append]

theorem updates_concat (total done : Nat) (earlier : List (List Location))
    (batch : List Location) : updates total done (earlier ++ [batch]) =
      updates total done earlier ++ [parsed total (done + locationCount earlier + batch.length)] :=
  updates_append total done earlier [batch]

theorem length_updates (total done : Nat) (batches : List (List Location)) :
    (updates total done batches).length = batches.length := by
  induction batches generalizing done with
  | nil => rfl
  | cons batch batches ih => rw [updates, List.length_cons, List.length_cons, ih]

theorem total_of_mem_updates (h : update ∈ updates total done batches) : update.total = total := by
  induction batches generalizing done with
  | nil => cases h
  | cons batch batches ih =>
    rcases List.mem_cons.mp h with rfl | later
    · rfl
    · exact ih later

theorem current_le_of_mem_updates (h : update ∈ updates total done batches) :
    update.current ≤ done + locationCount batches := by
  induction batches generalizing done with
  | nil => cases h
  | cons batch batches ih =>
    rw [← List.singleton_append, locationCount_append, locationCount_singleton]
    rcases List.mem_cons.mp h with rfl | later
    · show done + batch.length ≤ _
      omega
    · have behind := ih later
      omega

theorem lt_current_of_mem_updates (filled : ∀ batch ∈ batches, 0 < batch.length)
    (h : update ∈ updates total done batches) : done < update.current := by
  induction batches generalizing done with
  | nil => cases h
  | cons batch batches ih =>
    obtain ⟨nonempty, others⟩ := List.forall_mem_cons.mp filled
    rcases List.mem_cons.mp h with rfl | later
    · exact Nat.lt_add_of_pos_right nonempty
    · exact Nat.lt_of_le_of_lt (Nat.le_add_right done batch.length) (ih others later)

/-- Each progress is further than those before it. -/
theorem rising_updates (total done : Nat) (filled : ∀ batch ∈ batches, 0 < batch.length) :
    (updates total done batches).Pairwise fun first later => first.current < later.current := by
  induction batches generalizing done with
  | nil => exact .nil
  | cons batch batches ih =>
    obtain ⟨_, others⟩ := List.forall_mem_cons.mp filled
    exact .cons (fun _ later => lt_current_of_mem_updates others later) (ih _ others)

/-- Only the last progress says that everything is done. -/
theorem countP_updates (total done : Nat) (filled : ∀ batch ∈ batches, 0 < batch.length)
    (nonempty : batches ≠ []) :
    (updates total done batches).countP (·.current = done + locationCount batches) = 1 := by
  -- The last batch has a location, so without it the count falls short.
  obtain ⟨earlier, last, rfl⟩ := (List.eq_nil_or_concat batches).resolve_left nonempty
  rw [List.concat_eq_append] at filled ⊢
  have behind : 0 < last.length := filled last List.mem_concat_self
  have before : (updates total done earlier).countP
      (·.current = done + locationCount (earlier ++ [last])) = 0 := by
    rw [List.countP_eq_zero]
    intro update inside full
    have less := current_le_of_mem_updates inside
    rw [decide_eq_true_iff, locationCount_append, locationCount_singleton] at full
    omega
  rw [updates_concat, List.countP_append, before, List.countP_singleton, locationCount_append,
    locationCount_singleton]
  simp [parsed, Nat.add_assoc]

end Progress

/-! ## Watched workers -/

/-- The numbers of the batches that workers took, first of those that are handed in. -/
def Pool.taken (pool : Pool) : List Nat :=
  pool.finished.map Prod.snd ++ (pool.active.map Prod.snd ++ pool.lost)

/-- The batch with this number. -/
def batchAt (locations : List Location) (n : Nat) : List Location :=
  (batchesOf locations).getD n []

theorem map_batchAt_range (locations : List Location) :
    (List.range (batchesOf locations).length).map (batchAt locations) = batchesOf locations := by
  apply List.ext_getElem
  · simp
  · intro n _ inside
    simp [batchAt, inside]

/-- A pool, the count that its workers share, and what they say of the batches, each of which is
known by its number. -/
structure WatchedPool where
  pool : Pool
  /-- How many locations are counted. -/
  count : Nat
  /-- The progress after each batch that is counted, in the order of the count. -/
  counted : List (Progress × Nat)
  /-- What was told, in the order in which it arrived. -/
  arrived : List (Progress × Nat)

namespace WatchedPool

def start (locations : List Location) : WatchedPool :=
  { pool := .start locations, count := 0, counted := [], arrived := [] }

/-- The count goes up by the size of a batch, and what it comes to is the progress. -/
def counting (locations : List Location) (watched : WatchedPool) (n : Nat) : WatchedPool :=
  { watched with
    count := watched.count + (batchAt locations n).length
    counted := watched.counted ++
      [(.parsed locations.length (watched.count + (batchAt locations n).length), n)] }

def telling (watched : WatchedPool) (progress : Progress) (n : Nat) : WatchedPool :=
  { watched with arrived := watched.arrived ++ [(progress, n)] }

/-- What workers do. A batch is counted when nothing is left to do for it, told of when it is
counted, and handed in when it is told of. -/
inductive Work (disk : Disk) (workers : Nat) (locations : List Location) :
    WatchedPool → WatchedPool → Prop where
  /-- As if nobody watched, but nothing is handed in that was not told of. -/
  | work {watched : WatchedPool} {next : Pool} (step : Pool.Work disk workers watched.pool next)
    (told : ∀ p ∈ next.finished, p.2 ∈ watched.arrived.map Prod.snd) :
    Work disk workers locations watched { watched with pool := next }
  | count {watched : WatchedPool} {work : BatchWork} {n : Nat} {outcomes : List Outcome}
    (inHand : (work, n) ∈ watched.pool.active) (result : work.result? = some outcomes)
    (uncounted : n ∉ watched.counted.map Prod.snd) :
    Work disk workers locations watched (watched.counting locations n)
  | tell {watched : WatchedPool} {work : BatchWork} {progress : Progress} {n : Nat}
    (inHand : (work, n) ∈ watched.pool.active) (counted : (progress, n) ∈ watched.counted)
    (untold : n ∉ watched.arrived.map Prod.snd) :
    Work disk workers locations watched (watched.telling progress n)

/-- Beside the workers somebody may cancel, perhaps the one who is told. -/
inductive Step (disk : Disk) (workers : Nat) (locations : List Location) :
    WatchedPool → WatchedPool → Prop where
  | work {watched next : WatchedPool} (step : Work disk workers locations watched next) :
    Step disk workers locations watched next
  | cancel {watched : WatchedPool} :
    Step disk workers locations watched
      { watched with pool := { watched.pool with cancelled := true } }

inductive Reachable (disk : Disk) (workers : Nat) (locations : List Location) :
    WatchedPool → Prop where
  | start : Reachable disk workers locations (start locations)
  | next {watched next : WatchedPool} (before : Reachable disk workers locations watched)
    (step : Step disk workers locations watched next) : Reachable disk workers locations next

variable {disk : Disk} {workers : Nat} {locations : List Location} {watched next : WatchedPool}

/-- Watching only restricts the workers. -/
theorem reachable_pool (h : Reachable disk workers locations watched) :
    Pool.Reachable disk workers locations watched.pool := by
  induction h with
  | start => exact .start
  | next _ step ih =>
    cases step with
    | cancel => exact ih.next .cancel
    | work step =>
      cases step with
      | work step _ => exact ih.next (.work step)
      | count | tell => exact ih

/-! ## What is counted and told -/

/-- A batch that a worker took stays by its worker until it is handed in or lost. -/
theorem mem_taken_of_work {pool next : Pool} (h : Pool.Work disk workers pool next) {n : Nat}
    (taken : n ∈ pool.taken) : n ∈ next.taken := by
  cases h with
  | take => exact List.mem_append.mpr ((List.mem_append.mp taken).imp_right (.tail _))
  | advance inHand =>
    rw [Pool.taken, inHand] at taken
    simpa [Pool.taken] using taken
  | finish inHand | crash inHand =>
    rw [Pool.taken, inHand] at taken
    simpa [Pool.taken, or_assoc, or_left_comm] using taken

/-- Each batch is counted once, after that told of once, and then handed in. The count is what
counting the batches one behind the other comes to. -/
structure Booked (locations : List Location) (watched : WatchedPool) : Prop where
  count : watched.count = locationCount ((watched.counted.map Prod.snd).map (batchAt locations))
  updates : watched.counted.map Prod.fst = Progress.updates locations.length 0
    ((watched.counted.map Prod.snd).map (batchAt locations))
  countedOnce : (watched.counted.map Prod.snd).Nodup
  taken : ∀ n ∈ watched.counted.map Prod.snd, n ∈ watched.pool.taken
  arrivedOnce : (watched.arrived.map Prod.snd).Nodup
  arrived : watched.arrived ⊆ watched.counted
  handedIn : ∀ p ∈ watched.pool.finished, p.2 ∈ watched.arrived.map Prod.snd

theorem booked_start : (start locations).Booked locations where
  count := rfl
  updates := rfl
  countedOnce := .nil
  taken := nofun
  arrivedOnce := .nil
  arrived := List.nil_subset _
  handedIn := nofun

/-- The next batch is counted on top of those before. -/
theorem Booked.counting (booked : watched.Booked locations) {work : BatchWork} {n : Nat}
    (inHand : (work, n) ∈ watched.pool.active) (uncounted : n ∉ watched.counted.map Prod.snd) :
    (watched.counting locations n).Booked locations := by
  obtain ⟨count, updates, countedOnce, taken, arrivedOnce, arrived, handedIn⟩ := booked
  refine ⟨?_, ?_, ?_, ?_, arrivedOnce,
    List.Subset.trans arrived (List.subset_append_left _ _), handedIn⟩
  · simp only [WatchedPool.counting, List.map_append, List.map_cons, List.map_nil,
      locationCount_append, locationCount_singleton, ← count]
  · simp only [WatchedPool.counting, List.map_append, List.map_cons, List.map_nil,
      Progress.updates_concat, ← updates, Nat.zero_add, ← count]
  · rw [WatchedPool.counting, List.map_append]
    exact List.concat_eq_append ▸ countedOnce.concat uncounted
  · intro k inside
    rw [WatchedPool.counting, List.map_append] at inside
    rcases List.mem_append.mp inside with before | now
    · exact taken k before
    · rw [List.mem_singleton.mp now]
      exact List.mem_append_right _ (List.mem_append_left _ (List.mem_map_of_mem inHand))

theorem Booked.telling (booked : watched.Booked locations) {progress : Progress} {n : Nat}
    (counted : (progress, n) ∈ watched.counted) (untold : n ∉ watched.arrived.map Prod.snd) :
    (watched.telling progress n).Booked locations := by
  obtain ⟨count, updates, countedOnce, taken, arrivedOnce, arrived, handedIn⟩ := booked
  refine ⟨count, updates, countedOnce, taken, ?_, ?_, fun p inside => ?_⟩
  · rw [WatchedPool.telling, List.map_append]
    exact List.concat_eq_append ▸ arrivedOnce.concat untold
  · exact List.append_subset.mpr ⟨arrived, List.cons_subset.mpr ⟨counted, List.nil_subset _⟩⟩
  · rw [WatchedPool.telling, List.map_append]
    exact List.mem_append_left _ (handedIn p inside)

theorem booked_work (h : Work disk workers locations watched next)
    (booked : watched.Booked locations) : next.Booked locations := by
  cases h with
  | count inHand _ uncounted => exact booked.counting inHand uncounted
  | tell _ counted untold => exact booked.telling counted untold
  | work step told =>
    exact { booked with
      taken := fun n inside => mem_taken_of_work step (booked.taken n inside)
      handedIn := told }

theorem booked_step (h : Step disk workers locations watched next)
    (booked : watched.Booked locations) : next.Booked locations := by
  cases h with
  | work step => exact booked_work step booked
  | cancel => exact { booked with }

theorem booked_of_reachable (h : Reachable disk workers locations watched) :
    watched.Booked locations := by
  induction h with
  | start => exact booked_start
  | next _ step ih => exact booked_step step ih

/-! ## Batches that are lost -/

/-- A batch is not counted before all of it is read, and so never if it is lost. -/
structure CountedLast (watched : WatchedPool) : Prop where
  reading : ∀ p ∈ watched.pool.active, p.1.result? = none → p.2 ∉ watched.counted.map Prod.snd
  lost : ∀ n ∈ watched.pool.lost, n ∉ watched.counted.map Prod.snd

/-- Every batch is at one place. -/
theorem nodup_places (h : Reachable disk workers locations watched) :
    (watched.pool.waiting.map Prod.snd ++ (watched.pool.active.map Prod.snd ++
      (watched.pool.finished.map Prod.snd ++ watched.pool.lost))).Nodup :=
  (Pool.sound_of_reachable (reachable_pool h)).numbers.nodup_iff.mpr List.nodup_range

theorem result?_of_overflows {work : BatchWork} (large : work.overflows disk = true) :
    work.result? = none := by
  cases work with
  | opening => rfl
  | reading archive? done todo =>
    cases todo with
    | nil => cases large
    | cons => rfl

/-- Of what is in hand only a batch that is read can be counted. -/
theorem CountedLast.counting (last : watched.CountedLast)
    (h : Reachable disk workers locations watched) {work : BatchWork} {n : Nat}
    {outcomes : List Outcome} (inHand : (work, n) ∈ watched.pool.active)
    (result : work.result? = some outcomes) : (watched.counting locations n).CountedLast := by
  have places := (List.nodup_append.mp (nodup_places h)).2.1
  obtain ⟨active, _, apart⟩ := List.nodup_append.mp places
  refine ⟨fun p there unread => ?_, fun k gone => ?_⟩
  · rw [WatchedPool.counting, List.map_append, List.mem_append, not_or]
    refine ⟨last.reading p there unread, fun same => ?_⟩
    have one := List.inj_on_of_nodup_map active there inHand (List.mem_singleton.mp same)
    rw [one, result] at unread
    cases unread
  · rw [WatchedPool.counting, List.map_append, List.mem_append, not_or]
    refine ⟨last.lost k gone, fun same => ?_⟩
    exact apart n (List.mem_map_of_mem inHand) k (List.mem_append_right _ gone)
      (List.mem_singleton.mp same).symm

theorem CountedLast.working (last : watched.CountedLast)
    (h : Reachable disk workers locations watched) {next : Pool}
    (step : Pool.Work disk workers watched.pool next) :
    CountedLast { watched with pool := next } := by
  obtain ⟨reading, lost⟩ := last
  cases step with
  | @take batch n front rest waits free ordered =>
    refine ⟨List.forall_mem_cons.mpr ⟨fun _ counted => ?_, reading⟩, lost⟩
    -- What is counted was taken, and this batch still waits.
    have taken := (booked_of_reachable h).taken n counted
    have apart := (List.nodup_append.mp (nodup_places h)).2.2
    rw [waits] at apart
    refine apart n (by simp) n ?_ rfl
    rw [Pool.taken] at taken
    simpa only [List.mem_append, or_left_comm] using taken
  | @advance work n front rest inHand unfinished =>
    rw [inHand] at reading
    have unread := reading (work, n) (by simp) unfinished
    refine ⟨fun p there => ?_, lost⟩
    rcases List.mem_append.mp there with before | later
    · exact reading p (List.mem_append_left _ before)
    · rcases List.mem_cons.mp later with rfl | after
      · exact fun _ => unread
      · exact reading p (List.mem_append_right _ (.tail _ after))
  | finish inHand =>
    rw [inHand] at reading
    exact ⟨fun p there => reading p (Pool.mem_of_mem_others _ there), lost⟩
  | @crash work n front rest inHand _ large =>
    rw [inHand] at reading
    exact ⟨fun p there => reading p (Pool.mem_of_mem_others _ there),
      List.forall_mem_cons.mpr
        ⟨reading (work, n) (by simp) (result?_of_overflows large), lost⟩⟩

theorem countedLast_of_reachable (h : Reachable disk workers locations watched) :
    watched.CountedLast := by
  induction h with
  | start => exact ⟨nofun, nofun⟩
  | next before step ih =>
    cases step with
    | cancel => exact ⟨ih.reading, ih.lost⟩
    | work step =>
      cases step with
      | work step _ => exact ih.working before step
      | count inHand result _ => exact ih.counting before inHand result
      | tell => exact ⟨ih.reading, ih.lost⟩

/-! ## At any moment of a run -/

theorem lt_of_mem_taken (h : Reachable disk workers locations watched) {n : Nat}
    (taken : n ∈ watched.pool.taken) : n < (batchesOf locations).length := by
  have numbers := (Pool.sound_of_reachable (reachable_pool h)).numbers
  refine List.mem_range.mp (numbers.mem_iff.mp (List.mem_append_right _ ?_))
  rw [Pool.taken] at taken
  simpa only [List.mem_append, or_left_comm] using taken

/-- Batches with different numbers have no more locations than there are. -/
theorem locationCount_le {numbers : List Nat} (once : numbers.Nodup)
    (inside : ∀ n ∈ numbers, n < (batchesOf locations).length) :
    locationCount (numbers.map (batchAt locations)) ≤ locations.length := by
  have part := once.subperm fun n there => List.mem_range.mpr (inside n there)
  obtain ⟨all, perm, sublist⟩ := List.subperm_iff.mp part
  calc locationCount (numbers.map (batchAt locations))
    _ ≤ locationCount (all.map (batchAt locations)) :=
      ((sublist.map _).map _).sum_le_sum fun _ _ => Nat.zero_le _
    _ = locationCount ((List.range (batchesOf locations).length).map (batchAt locations)) :=
      ((perm.map _).map _).sum_eq
    _ = locations.length := by rw [map_batchAt_range, locationCount_batchesOf]

/-- What the watched workers say, at any moment. -/
structure Truthful (locations : List Location) (watched : WatchedPool) : Prop where
  /-- In the order of the count, each progress says how many locations the batches up to this one
  have. -/
  sums : ∀ earlier progress n later, watched.counted = earlier ++ (progress, n) :: later →
    progress = .parsed locations.length
      (locationCount ((earlier.map Prod.snd ++ [n]).map (batchAt locations)))
  /-- In the order of the count, each progress is further than those before. -/
  rising : watched.counted.Pairwise fun first later => first.1.current < later.1.current
  total : ∀ p ∈ watched.counted, p.1.total = locations.length
  bounded : ∀ p ∈ watched.counted, p.1.current ≤ locations.length
  /-- What arrived was counted. -/
  counted : watched.arrived ⊆ watched.counted
  /-- No batch is told of twice, -/
  once : (watched.arrived.map Prod.snd).Nodup
  /-- and one that is lost not at all. -/
  lost : ∀ n ∈ watched.pool.lost, n ∉ watched.arrived.map Prod.snd
  distinct : (watched.arrived.map fun p => p.1.current).Nodup

section Booked

variable (reachable : Reachable disk workers locations watched)
include reachable

theorem lt_of_mem_counted {n : Nat} (h : n ∈ watched.counted.map Prod.snd) :
    n < (batchesOf locations).length :=
  lt_of_mem_taken reachable ((booked_of_reachable reachable).taken n h)

theorem filled_of_counted :
    ∀ batch ∈ (watched.counted.map Prod.snd).map (batchAt locations), 0 < batch.length := by
  intro batch there
  obtain ⟨n, counted, rfl⟩ := List.mem_map.mp there
  have inside := lt_of_mem_counted reachable counted
  rw [batchAt, List.getD_eq_getElem?_getD, List.getElem?_eq_getElem inside]
  exact length_pos_of_mem_batchesOf (List.getElem_mem inside)

theorem sums_of_reachable {earlier later : List (Progress × Nat)} {progress : Progress} {n : Nat}
    (h : watched.counted = earlier ++ (progress, n) :: later) :
    progress = .parsed locations.length
      (locationCount ((earlier.map Prod.snd ++ [n]).map (batchAt locations))) := by
  have updates := (booked_of_reachable reachable).updates
  simp only [h, List.map_append, List.map_cons, Progress.updates_append, Progress.updates]
    at updates
  -- What was counted before has one progress for each batch, so this one is at the same place.
  have same : (earlier.map Prod.fst).length = (Progress.updates locations.length 0
      ((earlier.map Prod.snd).map (batchAt locations))).length := by
    rw [Progress.length_updates, List.length_map, List.length_map, List.length_map]
  obtain ⟨_, behind⟩ := List.append_inj updates same
  obtain ⟨here, _⟩ := List.cons.inj behind
  rw [here, Nat.zero_add, List.map_append, locationCount_append]
  exact congrArg (fun k => Progress.parsed _ (_ + k)) (locationCount_singleton _).symm

theorem rising_of_reachable :
    watched.counted.Pairwise fun first later => first.1.current < later.1.current := by
  have rising := Progress.rising_updates locations.length 0 (filled_of_counted reachable)
  rw [← (booked_of_reachable reachable).updates, List.pairwise_map] at rising
  exact rising

theorem truthful : watched.Truthful locations := by
  have booked := booked_of_reachable reachable
  have rising := rising_of_reachable reachable
  have update : ∀ p ∈ watched.counted, p.1 ∈ Progress.updates locations.length 0
      ((watched.counted.map Prod.snd).map (batchAt locations)) := fun p inside =>
    booked.updates ▸ List.mem_map_of_mem inside
  have apart : (watched.counted.map fun p => p.1.current).Nodup :=
    List.pairwise_map.mpr (rising.imp Nat.ne_of_lt)
  refine
    { sums := fun _ _ _ _ => sums_of_reachable reachable
      rising := rising
      total := fun p inside => Progress.total_of_mem_updates (update p inside)
      bounded := fun p inside => ?_
      counted := booked.arrived
      once := booked.arrivedOnce
      lost := fun n gone told => (countedLast_of_reachable reachable).lost n gone
        (List.map_subset _ booked.arrived told)
      distinct := ?_ }
  · have most := locationCount_le booked.countedOnce fun n => lt_of_mem_counted reachable
    have reached := Progress.current_le_of_mem_updates (update p inside)
    omega
  · refine booked.arrivedOnce.of_map.map_on fun p hp q hq same => ?_
    exact List.inj_on_of_nodup_map apart (booked.arrived hp) (booked.arrived hq) same

/-! ## Every run ends -/

theorem length_counted_le : watched.counted.length ≤ (batchesOf locations).length := by
  have once := (booked_of_reachable reachable).countedOnce
  have part := once.subperm fun n there => List.mem_range.mpr (lt_of_mem_counted reachable there)
  simpa using part.length_le

theorem length_arrived_le : watched.arrived.length ≤ (batchesOf locations).length := by
  have booked := booked_of_reachable reachable
  have part := booked.arrivedOnce.of_map.subperm booked.arrived
  exact part.length_le.trans (length_counted_le reachable)

end Booked

/-- Everything is handed in. -/
def Finished (watched : WatchedPool) : Prop := watched.pool.Finished

/-- Some location ended the program. -/
def Broken (watched : WatchedPool) : Prop := watched.pool.Broken

/-- More than what workers can still do. -/
def load (locations : List Location) (watched : WatchedPool) : Nat :=
  watched.pool.load + ((batchesOf locations).length - watched.counted.length) +
    ((batchesOf locations).length - watched.arrived.length)

/-- Whatever a worker does, less is left to do. -/
theorem load_lt_of_work (reachable : Reachable disk workers locations watched)
    (h : Work disk workers locations watched next) :
    next.load locations < watched.load locations := by
  have counted := length_counted_le (reachable.next (.work h))
  have arrived := length_arrived_le (reachable.next (.work h))
  cases h with
  | work step _ =>
    have less := Pool.load_lt_of_work step
    simp only [load]
    omega
  | count =>
    simp only [load, counting, List.length_append, List.length_singleton] at counted ⊢
    omega
  | tell =>
    simp only [load, telling, List.length_append, List.length_singleton] at arrived ⊢
    omega

/-- As long as not everything is handed in and the run is not broken, some worker can go on: if it
may not hand in its batch yet, it has to count it or to tell of it. -/
theorem exists_work (reachable : Reachable disk workers locations watched)
    (h : ¬ watched.Finished) (whole : ¬ watched.Broken) :
    ∃ next, Work disk workers locations watched next := by
  have handedIn := (booked_of_reachable reachable).handedIn
  obtain ⟨next, step⟩ := Pool.exists_work disk workers h whole
  cases step with
  | take waits free ordered => exact ⟨_, .work (.take waits free ordered) handedIn⟩
  | advance inHand unfinished fits => exact ⟨_, .work (.advance inHand unfinished fits) handedIn⟩
  | crash inHand asked large => exact ⟨_, .work (.crash inHand asked large) handedIn⟩
  | @finish work n _ _ outcomes inHand result =>
    have held : (work, n) ∈ watched.pool.active :=
      inHand ▸ List.mem_append_right _ List.mem_cons_self
    by_cases told : n ∈ watched.arrived.map Prod.snd
    · refine ⟨_, .work (.finish inHand result) fun p inside => ?_⟩
      rcases List.mem_append.mp inside with before | now
      · exact handedIn p before
      · rw [List.mem_singleton.mp now]
        exact told
    · by_cases counted : n ∈ watched.counted.map Prod.snd
      · obtain ⟨⟨progress, _⟩, there, rfl⟩ := List.mem_map.mp counted
        exact ⟨_, .tell held there told⟩
      · exact ⟨_, .count held result counted⟩

theorem exists_ended (reachable : Reachable disk workers locations watched) :
    ∃ last, Relation.ReflTransGen (Work disk workers locations) watched last ∧
      (last.Finished ∨ last.Broken) := by
  have goesOn : ∀ watched, Reachable disk workers locations watched →
      ¬ (watched.Finished ∨ watched.Broken) → ∃ next, Work disk workers locations watched next ∧
        Reachable disk workers locations next ∧ next.load locations < watched.load locations := by
    intro watched reachable going
    obtain ⟨unfinished, whole⟩ := not_or.mp going
    obtain ⟨next, work⟩ := exists_work reachable unfinished whole
    exact ⟨next, work, reachable.next (.work work), load_lt_of_work reachable work⟩
  obtain ⟨last, runs, _, ended⟩ := exists_runs_of_load (load locations) goesOn watched reachable
  exact ⟨last, runs, ended⟩

end WatchedPool

end ClassAtlas
