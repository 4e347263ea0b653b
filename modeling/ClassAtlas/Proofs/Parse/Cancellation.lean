import ClassAtlas.Proofs.Parse.Schedule
import Mathlib.Data.List.Nodup

/-!
# Runs that are cancelled

The token can be set at any moment of a run, and every worker learns of it at its next question.

* `Pool.decided_of_work`: what a worker decides on is left out exactly if the token is set;
* `Pool.step_of_cancelled`: when it is set, nobody looks at the disk any more;
* `Pool.InTurn`: a single worker decides on the locations in order, so what it leaves out is last.
-/

namespace ClassAtlas

namespace BatchWork

/-- What became of locations so far. -/
def done : BatchWork → List Outcome
  | opening _ _ => []
  | reading _ done _ => done

theorem done_start (batch : List Location) : (start batch).done = [] := by
  rw [start]
  split <;> rfl

theorem done_of_result? {work : BatchWork} {outcomes : List Outcome}
    (h : work.result? = some outcomes) : work.done = outcomes := by
  cases work with
  | opening => cases h
  | reading => exact (result?_reading h).2.symm

/-- A question decides on locations: if the answer is yes they are left out, and else not. -/
theorem done_advance (disk : Disk) (work : BatchWork) (cancelled : Bool) :
    ∃ more, (work.advance disk cancelled).done = work.done ++ more ∧
      ∀ outcome ∈ more, outcome.isNone = cancelled := by
  cases work with
  | opening path batch =>
    rw [advance]
    cases cancelled with
    | true =>
      refine ⟨batch.map fun _ => none, rfl, fun outcome inside => ?_⟩
      obtain ⟨_, _, rfl⟩ := List.mem_map.mp inside
      rfl
    | false =>
      rw [if_neg Bool.false_ne_true]
      cases Archive.openAt disk path with
      | error cause =>
        refine ⟨_, rfl, fun outcome inside => ?_⟩
        obtain ⟨_, _, rfl⟩ := List.mem_map.mp inside
        rfl
      | ok archive => exact ⟨[], rfl, List.forall_mem_nil _⟩
  | reading archive? done todo =>
    cases todo with
    | nil => exact ⟨[], (List.append_nil _).symm, List.forall_mem_nil _⟩
    | cons location todo =>
      refine ⟨[_], rfl, fun outcome inside => ?_⟩
      rw [List.mem_singleton.mp inside, outcomeWith]
      cases cancelled <;> rfl

/-- Who learns that the import is cancelled looks nothing up. -/
theorem advance_cancelled (disk other : Disk) (work : BatchWork) :
    work.advance disk true = work.advance other true := by
  cases work with
  | opening path batch => rfl
  | reading archive? done todo => cases todo <;> rfl

end BatchWork

namespace Pool

variable {disk : Disk} {workers : Nat} {locations : List Location} {pool next : Pool}

/-- What became of locations so far, first what is handed in and then what is in hand. -/
def decided (pool : Pool) : List Outcome :=
  pool.finished.flatMap Prod.fst ++ pool.active.flatMap fun p => p.1.done

theorem mem_decided_of_mem_outcomes {outcome : Outcome} (h : outcome ∈ pool.outcomes locations) :
    outcome ∈ pool.decided := by
  obtain ⟨n, _, inside⟩ := List.mem_flatMap.mp h
  rw [handedIn] at inside
  cases found : pool.finished.find? (·.2 = n) with
  | none =>
    rw [found] at inside
    cases inside
  | some p =>
    rw [found] at inside
    exact List.mem_append_left _
      (List.mem_flatMap.mpr ⟨p, List.mem_of_find?_eq_some found, inside⟩)

/-! ## Runs -/

theorem cancelled_of_work (h : Work disk workers pool next) : next.cancelled = pool.cancelled := by
  cases h <;> rfl

theorem reachable_of_runs (before : Reachable disk workers locations pool)
    (h : Relation.ReflTransGen (Step disk workers) pool next) :
    Reachable disk workers locations next := by
  induction h with
  | refl => exact before
  | tail _ step ih => exact ih.next step

/-- The workers come to an end, whatever was done before, and none of them cancels. -/
theorem exists_ended (disk : Disk) (workers : Nat) (pool : Pool) :
    ∃ last, Relation.ReflTransGen (Work disk workers) pool last ∧
      (last.Finished ∨ last.Broken) ∧ last.cancelled = pool.cancelled := by
  have goesOn : ∀ later, later.cancelled = pool.cancelled → ¬ (later.Finished ∨ later.Broken) →
      ∃ next, Work disk workers later next ∧ next.cancelled = pool.cancelled ∧
        next.load < later.load := by
    intro later same going
    obtain ⟨unfinished, whole⟩ := not_or.mp going
    obtain ⟨next, work⟩ := exists_work disk workers unfinished whole
    exact ⟨next, work, (cancelled_of_work work).trans same, load_lt_of_work work⟩
  obtain ⟨last, runs, same, ended⟩ := exists_runs_of_load load goesOn pool rfl
  exact ⟨last, runs, ended, same⟩

/-! ## After the token is set -/

/-- What a worker decides on is left out if and only if the token is set. -/
theorem decided_of_work (h : Work disk workers pool next) {outcome : Outcome}
    (inside : outcome ∈ next.decided) :
    outcome ∈ pool.decided ∨ outcome.isNone = pool.cancelled := by
  rw [decided, List.mem_append] at inside ⊢
  rcases inside with handed | held
  · cases h with
    | take | advance | crash => exact .inl (.inl handed)
    | @finish work n _ _ outcomes inHand result =>
      rw [List.flatMap_append] at handed
      refine .inl ((List.mem_append.mp handed).imp_right fun now => ?_)
      rw [inHand]
      refine List.mem_flatMap.mpr ⟨(work, n), by simp, ?_⟩
      rw [BatchWork.done_of_result? result]
      simpa using now
  · obtain ⟨p, there, told⟩ := List.mem_flatMap.mp held
    cases h with
    | take =>
      rcases List.mem_cons.mp there with rfl | before
      · rw [BatchWork.done_start] at told
        cases told
      · exact .inl (.inr (List.mem_flatMap.mpr ⟨p, before, told⟩))
    | @advance work n front rest inHand =>
      rw [inHand]
      rcases List.mem_append.mp there with before | later
      · exact .inl (.inr (List.mem_flatMap.mpr ⟨p, List.mem_append_left _ before, told⟩))
      rcases List.mem_cons.mp later with rfl | after
      · obtain ⟨more, more_eq, skipped⟩ := work.done_advance disk pool.cancelled
        rw [more_eq] at told
        rcases List.mem_append.mp told with old | new
        · exact .inl (.inr (List.mem_flatMap.mpr ⟨(work, n), by simp, old⟩))
        · exact .inr (skipped outcome new)
      · exact .inl (.inr (List.mem_flatMap.mpr
          ⟨p, List.mem_append_right _ (List.mem_cons_of_mem _ after), told⟩))
    | finish inHand | crash inHand =>
      rw [inHand]
      exact .inl (.inr (List.mem_flatMap.mpr ⟨p, mem_of_mem_others _ there, told⟩))

/-- The token is set, and no location was read. -/
structure SkipsAll (pool : Pool) : Prop where
  told : pool.cancelled = true
  whole : pool.lost = []
  all : ∀ outcome ∈ pool.decided, outcome = none

theorem skipsAll_start (locations : List Location) :
    SkipsAll { start locations with cancelled := true } :=
  ⟨rfl, rfl, List.forall_mem_nil _⟩

theorem lost_of_work (h : Work disk workers pool next) (told : pool.cancelled = true) :
    next.lost = pool.lost := by
  cases h with
  | take | advance | finish => rfl
  | crash _ asked _ =>
    rw [told] at asked
    cases asked

theorem skipsAll_step (h : Step disk workers pool next) (skips : pool.SkipsAll) :
    next.SkipsAll := by
  obtain ⟨told, whole, all⟩ := skips
  cases h with
  | cancel => exact ⟨rfl, whole, all⟩
  | work step =>
    refine ⟨(cancelled_of_work step).trans told, (lost_of_work step told).trans whole,
      fun outcome inside => ?_⟩
    rcases decided_of_work step inside with before | now
    · exact all outcome before
    · rw [told] at now
      exact Option.isNone_iff_eq_none.mp now

theorem skipsAll_of_runs (skips : pool.SkipsAll)
    (h : Relation.ReflTransGen (Step disk workers) pool next) : next.SkipsAll := by
  induction h with
  | refl => exact skips
  | tail _ step ih => exact skipsAll_step step ih

/-- After the token is set, workers do the same whatever is on the disk. -/
theorem step_of_cancelled (other : Disk) (told : pool.cancelled = true)
    (h : Step disk workers pool next) : Step other workers pool next := by
  cases h with
  | cancel => exact .cancel
  | work step =>
    refine .work ?_
    cases step with
    | take waits free ordered => exact .take waits free ordered
    | advance inHand unfinished _ =>
      rw [told, BatchWork.advance_cancelled disk other, ← told]
      refine .advance inHand unfinished fun asked => ?_
      rw [told] at asked
      cases asked
    | finish inHand result => exact .finish inHand result
    | crash _ asked _ =>
      rw [told] at asked
      cases asked

theorem runs_of_cancelled (other : Disk) (told : pool.cancelled = true)
    (h : Relation.ReflTransGen (Step disk workers) pool next) :
    Relation.ReflTransGen (Step other workers) pool next := by
  have both : Relation.ReflTransGen (Step other workers) pool next ∧ next.cancelled = true := by
    induction h with
    | refl => exact ⟨.refl, told⟩
    | tail _ step ih =>
      refine ⟨ih.1.tail (step_of_cancelled other ih.2 step), ?_⟩
      cases step with
      | cancel => rfl
      | work work => exact (cancelled_of_work work).trans ih.2
  exact both.1

/-! ## A single worker -/

/-- A single worker has at most one batch in hand and takes the batches in order, unless it lost
one. Behind what it leaves out it leaves out all, and it leaves out nothing before the token is
set. -/
structure InTurn (batches : List (List Location)) (pool : Pool) : Prop where
  single : pool.active.length + pool.lost.length ≤ 1
  numbers : pool.finished.map Prod.snd ++ (pool.active.map Prod.snd ++ (pool.lost ++
    pool.waiting.map Prod.snd)) = List.range batches.length
  skipsLast : pool.decided.Pairwise fun first later => first = none → later = none
  quiet : pool.cancelled = false → ∀ outcome ∈ pool.decided, outcome ≠ none

theorem inTurn_start : (start locations).InTurn (batchesOf locations) where
  single := Nat.zero_le 1
  numbers := by
    simp only [start, List.map_nil, List.nil_append, List.zipIdx_map_snd]
    rw [List.range_eq_range']
  skipsLast := .nil
  quiet := fun _ => List.forall_mem_nil _

theorem alone_of_single {α : Type} {front rest : List α} {x : α}
    (h : (front ++ x :: rest).length ≤ 1) : front = [] ∧ rest = [] := by
  rw [List.length_append, List.length_cons] at h
  exact ⟨List.eq_nil_of_length_eq_zero (by omega), List.eq_nil_of_length_eq_zero (by omega)⟩

/-- What a single worker has in hand is all that it has, and it has lost nothing. -/
theorem InTurn.alone {batches : List (List Location)} (turn : pool.InTurn batches)
    {work : BatchWork × Nat} {front rest : List (BatchWork × Nat)}
    (inHand : pool.active = front ++ work :: rest) : front = [] ∧ rest = [] ∧ pool.lost = [] := by
  have single := turn.single
  rw [inHand, List.length_append, List.length_cons] at single
  exact ⟨List.eq_nil_of_length_eq_zero (by omega), List.eq_nil_of_length_eq_zero (by omega),
    List.eq_nil_of_length_eq_zero (by omega)⟩

/-- The next batch is taken, and nothing is decided. -/
theorem InTurn.take {batches : List (List Location)} (turn : pool.InTurn batches)
    {batch : List Location} {n : Nat} {rest : List (List Location × Nat)}
    (waiting : pool.waiting = (batch, n) :: rest) (free : pool.active = [])
    (whole : pool.lost = []) :
    InTurn batches { pool with waiting := rest, active := [(BatchWork.start batch, n)] } := by
  obtain ⟨_, numbers, skipsLast, quiet⟩ := turn
  have same : decided { pool with waiting := rest, active := [(BatchWork.start batch, n)] } =
      pool.decided := by
    simp [decided, free, BatchWork.done_start]
  refine ⟨by simp [whole], ?_, same ▸ skipsLast, fun calm => same ▸ quiet calm⟩
  rw [waiting, free, whole] at numbers
  simpa [whole] using numbers

/-- All that one question decides on is left out, or nothing of it. -/
theorem InTurn.advance {batches : List (List Location)} (turn : pool.InTurn batches)
    {work : BatchWork} {n : Nat} (inHand : pool.active = [(work, n)]) :
    InTurn batches { pool with active := [(work.advance disk pool.cancelled, n)] } := by
  obtain ⟨single, numbers, skipsLast, quiet⟩ := turn
  obtain ⟨more, done, skipped⟩ := work.done_advance disk pool.cancelled
  have longer : decided { pool with active := [(work.advance disk pool.cancelled, n)] } =
      pool.decided ++ more := by
    simp [decided, inHand, done]
  rw [inHand] at single numbers
  refine ⟨single, numbers, ?_, fun calm outcome inside => ?_⟩
  · rw [longer, List.pairwise_append]
    refine ⟨skipsLast, List.pairwise_of_forall_mem_list fun first hf later hl left => ?_,
      fun first before later hl left => ?_⟩
    · have told := skipped first hf
      rw [left] at told
      exact Option.isNone_iff_eq_none.mp ((skipped later hl).trans told.symm)
    · cases told : pool.cancelled with
      | true => exact Option.isNone_iff_eq_none.mp ((skipped later hl).trans told)
      | false => exact absurd left (quiet told first before)
  · rw [longer] at inside
    rcases List.mem_append.mp inside with before | now
    · exact quiet calm outcome before
    · have told := (skipped outcome now).trans calm
      rintro rfl
      cases told

/-- What is handed in was decided on already. -/
theorem InTurn.finish {batches : List (List Location)} (turn : pool.InTurn batches)
    {work : BatchWork} {n : Nat} {outcomes : List Outcome} (inHand : pool.active = [(work, n)])
    (result : work.result? = some outcomes) :
    InTurn batches { pool with active := [], finished := pool.finished ++ [(outcomes, n)] } := by
  obtain ⟨single, numbers, skipsLast, quiet⟩ := turn
  have same : decided { pool with active := [], finished := pool.finished ++ [(outcomes, n)] } =
      pool.decided := by
    simp [decided, inHand, BatchWork.done_of_result? result]
  rw [inHand] at single numbers
  refine ⟨?_, by simpa using numbers, same ▸ skipsLast, fun calm => same ▸ quiet calm⟩
  exact Nat.le_trans (Nat.add_le_add_right (Nat.zero_le 1) _) single

/-- What was decided on in a batch that is lost is lost with it. -/
theorem InTurn.crash {batches : List (List Location)} (turn : pool.InTurn batches)
    {work : BatchWork} {n : Nat} (inHand : pool.active = [(work, n)]) (whole : pool.lost = []) :
    InTurn batches { pool with active := [], lost := n :: pool.lost } := by
  obtain ⟨_, numbers, skipsLast, quiet⟩ := turn
  have fewer : (decided { pool with active := [], lost := n :: pool.lost }).Sublist
      pool.decided := by
    simp [decided]
  rw [inHand, whole] at numbers
  refine ⟨by simp [whole], by simpa [whole] using numbers, skipsLast.sublist fewer,
    fun calm outcome inside => quiet calm outcome (fewer.subset inside)⟩

theorem inTurn_step {batches : List (List Location)} (single : workers ≤ 1)
    (h : Step disk workers pool next) (turn : pool.InTurn batches) : next.InTurn batches := by
  have alone := crew_of_le_one single
  cases h with
  | cancel =>
    obtain ⟨one, numbers, skipsLast, _⟩ := turn
    exact ⟨one, numbers, skipsLast, fun calm => Bool.noConfusion calm⟩
  | work step =>
    cases step with
    | take waits free ordered =>
      obtain ⟨first, whole⟩ := ordered alone
      rw [first] at waits ⊢
      rw [alone] at free
      have idle := List.eq_nil_of_length_eq_zero (Nat.lt_one_iff.mp free)
      rw [idle]
      exact turn.take waits idle whole
    | advance inHand =>
      obtain ⟨rfl, rfl, _⟩ := turn.alone inHand
      exact turn.advance inHand
    | finish inHand result =>
      obtain ⟨rfl, rfl, _⟩ := turn.alone inHand
      exact turn.finish inHand result
    | crash inHand =>
      obtain ⟨rfl, rfl, whole⟩ := turn.alone inHand
      exact turn.crash inHand whole

theorem inTurn_of_reachable (single : workers ≤ 1) (h : Reachable disk workers locations pool) :
    pool.InTurn (batchesOf locations) := by
  induction h with
  | start => exact inTurn_start
  | next _ step ih => exact inTurn_step single step ih

/-- When all is handed in, the outcomes are what was decided on, in this order. -/
theorem InTurn.outcomes_eq (turn : pool.InTurn (batchesOf locations)) (finished : pool.Finished) :
    pool.outcomes locations = pool.decided := by
  have numbers := turn.numbers
  rw [finished.waiting, finished.active, finished.lost] at numbers
  simp only [List.map_nil, List.append_nil] at numbers
  have once : (pool.finished.map Prod.snd).Nodup := numbers ▸ List.nodup_range
  rw [outcomes, decided, ← numbers, finished.active, List.flatMap_nil, List.append_nil,
    List.flatMap_map]
  refine List.flatMap_congr fun p inside => ?_
  have handed := handedIn_mem (List.mem_map_of_mem (f := Prod.snd) inside)
  exact congrArg Prod.fst (List.inj_on_of_nodup_map once handed inside rfl)

end Pool

end ClassAtlas
