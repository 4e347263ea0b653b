import ClassAtlas.Proofs.Parse.Overflow
import Mathlib.Algebra.Order.Ring.Nat
import Mathlib.Data.List.Perm.Basic
import Mathlib.Logic.Relation

/-!
# Workers

Several workers share the batches of a list of locations. Each takes a batch that waits, opens its
archive if it has one, reads location after location, and hands in what became of them; before every
one of these steps it asks whether the import is cancelled. The token that answers can be set at any
moment and is never reset. A location that ends the program breaks the run: its batch is lost, and
whatever other workers still do, nobody gets an outcome.

* `BatchWork.result_eq`: however the answers fall, what is handed in for a batch is what
  `readBatch` gives for these answers;
* `Pool.Sound`: every batch waits, is worked on, is handed in or is lost, and exactly one of these;
* `outcome_of_finished`: when all is handed in, the outcome is that of `ParseOutcome.parse`, and
  `overflowsBeside_of_broken`: what breaks a run is an entry that is too large.
-/

namespace ClassAtlas

/-! ## Work on one batch -/

/-- What is left to do for a batch. -/
inductive BatchWork where
  /-- The archive has to be opened first. -/
  | opening (path : Path) (batch : List Location)
  /-- Locations are read one by one, from the opened archive if there is one. -/
  | reading (archive? : Option Archive) (done : List Outcome) (todo : List Location)

/-- Reading a location, from the opened archive if there is one. -/
def readWith (disk : Disk) : Option Archive → Location → Except ImportError SourcedClass
  | none => readClass disk
  | some archive => readOpened disk archive

/-- What becomes of a location when its question is answered. -/
def outcomeWith (disk : Disk) (archive? : Option Archive) (location : Location)
    (cancelled : Bool) : Outcome :=
  if cancelled then none else some (readWith disk archive? location)

/-- Whether reading a location, from the opened archive if there is one, ends the program. -/
def overflowsWith (disk : Disk) : Option Archive → Location → Bool
  | none => Location.overflows disk
  | some archive => overflowsOpened disk archive

namespace BatchWork

def start (batch : List Location) : BatchWork :=
  match batch.head?.bind (·.storage.archive?) with
  | none => reading none [] batch
  | some path => opening path batch

/-- One question and what follows from the answer. -/
def advance (disk : Disk) (work : BatchWork) (cancelled : Bool) : BatchWork :=
  match work with
  | opening path batch =>
    if cancelled then reading none (batch.map fun _ => none) []
    else
      match Archive.openAt disk path with
      | .error cause =>
        reading none
          (batch.map fun location => some (.error (.unreadable location.uri cause.message))) []
      | .ok archive => reading (some archive) [] batch
  | reading archive? done [] => reading archive? done []
  | reading archive? done (location :: todo) =>
    reading archive? (done ++ [outcomeWith disk archive? location cancelled]) todo

/-- Whether the next location, if it is not left out, ends the program. -/
def overflows (disk : Disk) : BatchWork → Bool
  | reading archive? _ (location :: _) => overflowsWith disk archive? location
  | _ => false

/-- What became of the locations, once nothing is left to do. -/
def result? : BatchWork → Option (List Outcome)
  | reading _ done [] => some done
  | _ => none

/-- How many questions can follow. -/
def load : BatchWork → Nat
  | opening _ batch => batch.length + 1
  | reading _ _ todo => todo.length

theorem load_start (batch : List Location) : (start batch).load ≤ batch.length + 1 := by
  rw [start]
  split <;> simp [load]

theorem load_advance (disk : Disk) {work : BatchWork} (cancelled : Bool)
    (h : work.result? = none) : (work.advance disk cancelled).load < work.load := by
  cases work with
  | opening path batch =>
    simp only [advance]
    split
    · simp [load]
    · split <;> simp [load]
  | reading archive? done todo =>
    cases todo with
    | nil => cases h
    | cons location todo => simp [advance, load]

/-- The work after some answers. -/
def after (disk : Disk) (batch : List Location) (answers : List Bool) : BatchWork :=
  answers.foldl (advance disk) (start batch)

theorem foldl_advance_reading (disk : Disk) (archive? : Option Archive) (done : List Outcome)
    (todo : List Location) (answers : List Bool) :
    answers.foldl (advance disk) (reading archive? done todo) =
      reading archive? (done ++ List.zipWith (outcomeWith disk archive?) todo answers)
        (todo.drop answers.length) := by
  induction answers generalizing done todo with
  | nil => simp
  | cons answer answers ih =>
    cases todo with
    | nil => rw [List.foldl_cons, advance, ih]; simp
    | cons location todo =>
      rw [List.foldl_cons, advance, ih, List.zipWith_cons_cons, List.append_assoc]
      rfl

/-- Enough answers decide what becomes of every location. -/
theorem zipWith_eq_zipIdx {f : Location → Bool → Outcome} {todo : List Location}
    {answers : List Bool} (enough : todo.length ≤ answers.length) :
    List.zipWith f todo answers =
      todo.zipIdx.map fun (location, n) => f location (answers.getD n false) := by
  apply List.ext_getElem
  · simp [enough]
  · intro n hz _
    have inside : n < answers.length := by
      rw [List.length_zipWith] at hz
      omega
    simp [List.getD_eq_getElem?_getD, List.getElem?_eq_getElem inside]

theorem result?_reading {archive? : Option Archive} {done outcomes : List Outcome}
    {todo : List Location} (h : (reading archive? done todo).result? = some outcomes) :
    todo = [] ∧ outcomes = done := by
  cases todo with
  | nil => exact ⟨rfl, (Option.some_inj.mp h).symm⟩
  | cons => cases h

/-- When nothing is left to read, later answers change nothing. -/
theorem result?_foldl_nil {disk : Disk} {archive? : Option Archive} {done outcomes : List Outcome}
    {answers : List Bool}
    (h : (answers.foldl (advance disk) (reading archive? done [])).result? = some outcomes) :
    outcomes = done := by
  rw [foldl_advance_reading, List.zipWith_nil_left, List.append_nil] at h
  exact (result?_reading h).2

theorem result?_foldl_reading {disk : Disk} {archive? : Option Archive} {outcomes : List Outcome}
    {todo : List Location} {answers : List Bool}
    (h : (answers.foldl (advance disk) (reading archive? [] todo)).result? = some outcomes) :
    outcomes = todo.zipIdx.map fun (location, n) =>
      outcomeWith disk archive? location (answers.getD n false) := by
  rw [foldl_advance_reading] at h
  obtain ⟨nothing, told⟩ := result?_reading h
  rw [told, List.nil_append, zipWith_eq_zipIdx (List.drop_eq_nil_iff.mp nothing)]

/-- What is left to read after some answers. -/
theorem overflows_foldl_reading {disk : Disk} {archive? : Option Archive} {done : List Outcome}
    {todo : List Location} {answers : List Bool} :
    (answers.foldl (advance disk) (reading archive? done todo)).overflows disk =
      (todo[answers.length]?).any (overflowsWith disk archive?) := by
  rw [foldl_advance_reading, ← List.head?_drop]
  cases todo.drop answers.length <;> rfl

section After

variable {disk : Disk} {batch : List Location}

theorem after_loose (loose : batch.head?.bind (·.storage.archive?) = none) (answers : List Bool) :
    after disk batch answers = answers.foldl (advance disk) (reading none [] batch) := by
  rw [after, start, loose]

variable {path : Path} (archive : batch.head?.bind (·.storage.archive?) = some path)

include archive

theorem after_nil : after disk batch [] = opening path batch := by
  rw [after, start, archive]
  rfl

theorem after_cancelled (answers : List Bool) : after disk batch (true :: answers) =
    answers.foldl (advance disk) (reading none (batch.map fun _ => none) []) := by
  rw [after, start, archive, List.foldl_cons, advance, if_pos rfl]

theorem after_unopened {cause : ImportError} (refused : Archive.openAt disk path = .error cause)
    (answers : List Bool) : after disk batch (false :: answers) =
      answers.foldl (advance disk) (reading none
        (batch.map fun location => some (.error (.unreadable location.uri cause.message))) []) := by
  rw [after, start, archive, List.foldl_cons, advance, if_neg Bool.false_ne_true, refused]

theorem after_opened {reader : Archive} (opened : Archive.openAt disk path = .ok reader)
    (answers : List Bool) : after disk batch (false :: answers) =
      answers.foldl (advance disk) (reading (some reader) [] batch) := by
  rw [after, start, archive, List.foldl_cons, advance, if_neg Bool.false_ne_true, opened]

end After

/-- What is handed in for a batch is what the answers make of it. -/
theorem result_eq {disk : Disk} {batch : List Location} {answers : List Bool}
    {outcomes : List Outcome} (h : (after disk batch answers).result? = some outcomes) :
    outcomes = readBatch disk (fun n => answers.getD n false) batch := by
  rw [readBatch]
  cases archive : batch.head?.bind (·.storage.archive?) with
  | none =>
    rw [after_loose archive] at h
    exact result?_foldl_reading h
  | some path =>
    cases answers with
    | nil =>
      rw [after_nil archive] at h
      cases h
    | cons answer answers =>
      dsimp only
      rw [List.getD_cons_zero]
      cases answer with
      | true =>
        rw [after_cancelled archive] at h
        exact result?_foldl_nil h
      | false =>
        rw [if_neg Bool.false_ne_true]
        cases opened : Archive.openAt disk path with
        | error cause =>
          rw [after_unopened archive opened] at h
          exact result?_foldl_nil h
        | ok reader =>
          rw [after_opened archive opened] at h
          exact result?_foldl_reading h

/-- Nothing that was read ended the program. -/
def Survives (disk : Disk) (batch : List Location) (answers : List Bool) : Prop :=
  ∀ earlier later, answers = earlier ++ false :: later →
    (after disk batch earlier).overflows disk = false

theorem survives_nil (disk : Disk) (batch : List Location) : Survives disk batch [] :=
  fun earlier _ split => absurd split.symm (List.append_ne_nil_of_right_ne_nil earlier nofun)

theorem Survives.concat {disk : Disk} {batch : List Location} {answers : List Bool} {answer : Bool}
    (survives : Survives disk batch answers)
    (next : answer = false → (after disk batch answers).overflows disk = false) :
    Survives disk batch (answers ++ [answer]) := by
  intro earlier later split
  rcases List.eq_nil_or_concat later with rfl | ⟨front, last, rfl⟩
  · obtain ⟨rfl, told⟩ := List.append_inj' split rfl
    exact next (List.cons.inj told).1
  · rw [List.concat_eq_append, ← List.cons_append, ← List.append_assoc] at split
    exact survives earlier front (List.append_inj' split rfl).1

/-- Whoever comes to the end of what there is to read was asked for no buffer that is too large. -/
theorem any_overflowsWith_of_survives {disk : Disk} {archive? : Option Archive}
    {todo : List Location} {answers : List Bool} (enough : todo.length ≤ answers.length)
    (survives : ∀ earlier later, answers = earlier ++ false :: later →
      (earlier.foldl (advance disk) (reading archive? [] todo)).overflows disk = false) :
    (todo.zipIdx.any fun (location, n) =>
      !answers.getD n false && overflowsWith disk archive? location) = false := by
  rw [List.any_eq_false]
  intro p inside ends
  obtain ⟨asked, huge⟩ := (Bool.and_eq_true _ _).mp ends
  have here : todo[p.2]? = some p.1 := List.mem_zipIdx_iff_getElem?.mp inside
  have told : p.2 < answers.length :=
    Nat.lt_of_lt_of_le (List.getElem?_eq_some_iff.mp here).1 enough
  have split : answers = answers.take p.2 ++ false :: answers.drop (p.2 + 1) := by
    rw [Bool.not_eq_true', List.getD_eq_getElem?_getD, List.getElem?_eq_getElem told,
      Option.getD_some] at asked
    rw [← asked, List.getElem_cons_drop, List.take_append_drop]
  have fine := survives _ _ split
  rw [overflows_foldl_reading, List.length_take_of_le told.le, here, Option.any_some, huge] at fine
  cases fine

theorem length_le_of_result? {disk : Disk} {archive? : Option Archive} {outcomes : List Outcome}
    {todo : List Location} {answers : List Bool}
    (h : (answers.foldl (advance disk) (reading archive? [] todo)).result? = some outcomes) :
    todo.length ≤ answers.length := by
  rw [foldl_advance_reading] at h
  exact List.drop_eq_nil_iff.mp (result?_reading h).1

/-- A batch that is handed in does not end the program. -/
theorem batchOverflows_of_survives {disk : Disk} {batch : List Location} {answers : List Bool}
    {outcomes : List Outcome} (h : (after disk batch answers).result? = some outcomes)
    (survives : Survives disk batch answers) :
    batchOverflows disk (fun n => answers.getD n false) batch = false := by
  rw [Survives] at survives
  rw [batchOverflows]
  cases archive : batch.head?.bind (·.storage.archive?) with
  | none =>
    rw [after_loose archive] at h
    simp only [after_loose archive] at survives
    exact any_overflowsWith_of_survives (length_le_of_result? h) survives
  | some path =>
    cases answers with
    | nil =>
      rw [after_nil archive] at h
      cases h
    | cons answer answers =>
      dsimp only
      rw [List.getD_cons_zero]
      cases answer with
      | true => rfl
      | false =>
        rw [Bool.not_false, Bool.true_and]
        cases opened : Archive.openAt disk path with
        | error cause => rfl
        | ok reader =>
          rw [after_opened archive opened] at h
          show (batch.zipIdx.any fun (location, n) =>
            !answers.getD n false && overflowsWith disk (some reader) location) = false
          refine any_overflowsWith_of_survives (length_le_of_result? h)
            fun earlier later split => ?_
          rw [← after_opened archive opened]
          exact survives (false :: earlier) later (congrArg _ split)

/-- A batch that ends the program has a location that does so beside the first. -/
theorem overflowsBeside_of_overflows {disk : Disk} {batch : List Location} {answers : List Bool}
    (isBatch : IsBatch batch) (h : (after disk batch answers).overflows disk = true) :
    ∃ p ∈ behindFirst batch, overflowsBeside disk p.1 p.2 = true := by
  obtain @⟨first, others, shares⟩ := isBatch
  have place : ∀ location ∈ first :: others, (first, location) ∈ behindFirst (first :: others) :=
    fun location inside => List.mem_map_of_mem inside
  cases archive : (first :: others).head?.bind (·.storage.archive?) with
  | none =>
    rw [after_loose archive, overflows_foldl_reading, Option.any_eq_true] at h
    obtain ⟨location, there, huge⟩ := h
    exact ⟨_, place location (List.mem_of_getElem? there),
      (overflowsBeside_loose archive).trans huge⟩
  | some path =>
    cases answers with
    | nil =>
      rw [after_nil archive] at h
      cases h
    | cons answer answers =>
      cases answer with
      | true =>
        rw [after_cancelled archive, overflows_foldl_reading] at h
        cases h
      | false =>
        cases opened : Archive.openAt disk path with
        | error cause =>
          rw [after_unopened archive opened, overflows_foldl_reading] at h
          cases h
        | ok reader =>
          rw [after_opened archive opened, overflows_foldl_reading, Option.any_eq_true] at h
          obtain ⟨location, there, huge⟩ := h
          have inside := List.mem_of_getElem? there
          obtain ⟨own, name, storage⟩ := isArchived_of_mem shares archive inside
          exact ⟨_, place location inside,
            (overflowsBeside_opened archive storage opened).trans huge⟩

end BatchWork

/-! ## Runs that end -/

/-- What can go on, and then has less left to do, comes to an end. -/
theorem exists_runs_of_load {α : Type} {step : α → α → Prop} {keeps ended : α → Prop}
    (load : α → Nat)
    (goesOn : ∀ a, keeps a → ¬ ended a → ∃ b, step a b ∧ keeps b ∧ load b < load a) (a : α)
    (h : keeps a) : ∃ b, Relation.ReflTransGen step a b ∧ keeps b ∧ ended b := by
  induction measure : load a using Nat.strongRecOn generalizing a with
  | ind n ih =>
    by_cases stopped : ended a
    · exact ⟨a, .refl, h, stopped⟩
    · obtain ⟨b, first, kept, less⟩ := goesOn a h stopped
      obtain ⟨last, runs, rest⟩ := ih (load b) (measure ▸ less) b kept rfl
      exact ⟨last, .head first runs, rest⟩

/-! ## Pools of workers -/

/-- A token, and the numbered batches: those that wait, those that a worker has in hand, what is
handed in, in the order in which it was, and those of which nothing is left. -/
structure Pool where
  cancelled : Bool
  waiting : List (List Location × Nat)
  active : List (BatchWork × Nat)
  finished : List (List Outcome × Nat)
  lost : List Nat

namespace Pool

def start (locations : List Location) : Pool :=
  { cancelled := false, waiting := (batchesOf locations).zipIdx, active := [], finished := []
    lost := [] }

/-- At least one worker is at work, however few are asked for. -/
def crew (workers : Nat) : Nat := max workers 1

theorem crew_of_le_one {workers : Nat} (single : workers ≤ 1) : crew workers = 1 :=
  Nat.max_eq_right single

/-- What workers do. A single worker takes the batches in order, several in any order. When a
location ends the program, the others may still do what they can, but a single worker is gone. -/
inductive Work (disk : Disk) (workers : Nat) : Pool → Pool → Prop where
  | take {pool : Pool} {batch : List Location} {n : Nat} {front rest : List (List Location × Nat)}
    (next : pool.waiting = front ++ (batch, n) :: rest)
    (free : pool.active.length < crew workers)
    (ordered : crew workers = 1 → front = [] ∧ pool.lost = []) :
    Work disk workers pool
      { pool with waiting := front ++ rest, active := (BatchWork.start batch, n) :: pool.active }
  | advance {pool : Pool} {work : BatchWork} {n : Nat} {front rest : List (BatchWork × Nat)}
    (inHand : pool.active = front ++ (work, n) :: rest) (unfinished : work.result? = none)
    (fits : pool.cancelled = false → work.overflows disk = false) :
    Work disk workers pool
      { pool with active := front ++ (work.advance disk pool.cancelled, n) :: rest }
  | finish {pool : Pool} {work : BatchWork} {n : Nat} {front rest : List (BatchWork × Nat)}
    {outcomes : List Outcome} (inHand : pool.active = front ++ (work, n) :: rest)
    (result : work.result? = some outcomes) :
    Work disk workers pool
      { pool with active := front ++ rest, finished := pool.finished ++ [(outcomes, n)] }
  | crash {pool : Pool} {work : BatchWork} {n : Nat} {front rest : List (BatchWork × Nat)}
    (inHand : pool.active = front ++ (work, n) :: rest) (asked : pool.cancelled = false)
    (large : work.overflows disk = true) :
    Work disk workers pool { pool with active := front ++ rest, lost := n :: pool.lost }

/-- Beside the workers somebody may cancel. Nobody takes that back. -/
inductive Step (disk : Disk) (workers : Nat) : Pool → Pool → Prop where
  | work {pool next : Pool} (step : Work disk workers pool next) : Step disk workers pool next
  | cancel {pool : Pool} : Step disk workers pool { pool with cancelled := true }

inductive Reachable (disk : Disk) (workers : Nat) (locations : List Location) : Pool → Prop where
  | start : Reachable disk workers locations (start locations)
  | next {pool next : Pool} (before : Reachable disk workers locations pool)
    (step : Step disk workers pool next) : Reachable disk workers locations next

/-- Everything is handed in. -/
structure Finished (pool : Pool) : Prop where
  waiting : pool.waiting = []
  active : pool.active = []
  lost : pool.lost = []

/-- Some location ended the program, so that there is no outcome. -/
def Broken (pool : Pool) : Prop := pool.lost ≠ []

/-- What is handed in for a batch. -/
def handedIn (pool : Pool) (n : Nat) : List Outcome :=
  ((pool.finished.find? (·.2 = n)).map Prod.fst).getD []

/-- What is handed in, put into the order of the locations. -/
def outcome (pool : Pool) (locations : List Location) : ParseOutcome :=
  .ofOutcomes ((List.range (batchesOf locations).length).flatMap pool.handedIn)

/-- What became of each location. -/
def outcomes (pool : Pool) (locations : List Location) : List Outcome :=
  (List.range (batchesOf locations).length).flatMap pool.handedIn

theorem handedIn_mem {pool : Pool} {n : Nat} (h : n ∈ pool.finished.map Prod.snd) :
    (pool.handedIn n, n) ∈ pool.finished := by
  obtain ⟨p, inside, rfl⟩ := List.mem_map.mp h
  rw [handedIn]
  cases found : pool.finished.find? (·.2 = p.2) with
  | none =>
    have missing := List.find?_eq_none.mp found p inside
    simp at missing
  | some q =>
    have same : q.2 = p.2 := by simpa using List.find?_some found
    rw [← same]
    exact List.mem_of_find?_eq_some found

theorem outcome_eq_ofOutcomes (pool : Pool) (locations : List Location) :
    pool.outcome locations = .ofOutcomes (pool.outcomes locations) := rfl

/-! ## Every run ends -/

/-- More than what workers can still do. -/
def load (pool : Pool) : Nat :=
  (pool.waiting.map fun p => p.1.length + 3).sum + (pool.active.map fun p => p.1.load + 1).sum

/-- Whatever a worker does, less is left to do. -/
theorem load_lt_of_work {disk : Disk} {workers : Nat} {pool next : Pool}
    (h : Work disk workers pool next) : next.load < pool.load := by
  cases h with
  | @take batch _ _ _ waits =>
    have less := BatchWork.load_start batch
    simp only [load, waits, List.map_append, List.map_cons, List.sum_append, List.sum_cons]
    omega
  | advance inHand unfinished =>
    have less := BatchWork.load_advance disk pool.cancelled unfinished
    simp only [load, inHand, List.map_append, List.map_cons, List.sum_append, List.sum_cons]
    omega
  | finish inHand | crash inHand =>
    simp only [load, inHand, List.map_append, List.map_cons, List.sum_append, List.sum_cons]
    omega

/-- As long as not everything is handed in and the run is not broken, some worker can go on. -/
theorem exists_work {pool : Pool} (disk : Disk) (workers : Nat) (h : ¬ pool.Finished)
    (whole : ¬ pool.Broken) : ∃ next, Work disk workers pool next := by
  have kept : pool.lost = [] := not_not.mp whole
  cases active : pool.active with
  | cons first rest =>
    obtain ⟨work, n⟩ := first
    have inHand : pool.active = [] ++ (work, n) :: rest := active
    cases result : work.result? with
    | some outcomes => exact ⟨_, .finish inHand result⟩
    | none =>
      by_cases large : pool.cancelled = false ∧ work.overflows disk = true
      · exact ⟨_, .crash inHand large.1 large.2⟩
      · exact ⟨_, .advance inHand result fun asked =>
          Bool.eq_false_iff.mpr fun huge => large ⟨asked, huge⟩⟩
  | nil =>
    cases waiting : pool.waiting with
    | nil => exact absurd ⟨waiting, active, kept⟩ h
    | cons first rest =>
      obtain ⟨batch, n⟩ := first
      have next : pool.waiting = [] ++ (batch, n) :: rest := waiting
      have free : pool.active.length < crew workers := by
        rw [active, crew]
        exact Nat.lt_of_lt_of_le Nat.zero_lt_one (Nat.le_max_right _ _)
      exact ⟨_, .take next free fun _ => ⟨rfl, kept⟩⟩

/-! ## Where the batches are -/

/-- As long as nobody cancels, no answer says that somebody did. -/
def Asked (pool : Pool) (answers : List Bool) : Prop :=
  pool.cancelled = false → ∀ answer ∈ answers, answer = false

/-- Every batch waits, is worked on, is handed in or is lost. What is done for it follows from
answers, and only one that is lost ended the program. -/
structure Sound (disk : Disk) (batches : List (List Location)) (pool : Pool) : Prop where
  numbers : (pool.waiting.map Prod.snd ++ (pool.active.map Prod.snd ++
    (pool.finished.map Prod.snd ++ pool.lost))).Perm (List.range batches.length)
  waits : ∀ p ∈ pool.waiting, batches[p.2]? = some p.1
  works : ∀ p ∈ pool.active, ∃ batch answers, batches[p.2]? = some batch ∧
    p.1 = BatchWork.after disk batch answers ∧ BatchWork.Survives disk batch answers ∧
    pool.Asked answers
  ends : ∀ p ∈ pool.finished, ∃ batch answers, batches[p.2]? = some batch ∧
    (BatchWork.after disk batch answers).result? = some p.1 ∧
    BatchWork.Survives disk batch answers ∧ pool.Asked answers
  crashes : ∀ n ∈ pool.lost, ∃ batch answers, batches[n]? = some batch ∧
    (BatchWork.after disk batch answers).overflows disk = true

section Sound

variable {disk : Disk} {workers : Nat} {locations : List Location} {pool next : Pool}

theorem sound_start : (start locations).Sound disk (batchesOf locations) where
  numbers := by
    simp only [start, List.map_nil, List.append_nil, List.zipIdx_map_snd]
    rw [List.range_eq_range']
  waits := by
    intro p inside
    exact List.mem_zipIdx_iff_getElem?.mp inside
  works := nofun
  ends := nofun
  crashes := nofun

theorem mem_of_mem_others {α : Type} {front rest : List α} (x : α) {y : α}
    (h : y ∈ front ++ rest) : y ∈ front ++ x :: rest :=
  ((List.sublist_cons_self x rest).append_left front).subset h

/-- A batch that is taken does not wait any more, and nothing is done for it yet. -/
theorem Sound.take {batches : List (List Location)} (sound : pool.Sound disk batches)
    {batch : List Location} {n : Nat} {front rest : List (List Location × Nat)}
    (waiting : pool.waiting = front ++ (batch, n) :: rest) :
    Sound disk batches
      { pool with
        waiting := front ++ rest
        active := (BatchWork.start batch, n) :: pool.active } := by
  obtain ⟨numbers, waits, works, ends, crashes⟩ := sound
  rw [waiting] at numbers waits
  refine ⟨?_, fun p inside => waits p (mem_of_mem_others _ inside), fun p inside => ?_, ends,
    crashes⟩
  · refine List.Perm.trans ?_ numbers
    simp only [List.map_append, List.map_cons, List.append_assoc, List.cons_append]
    exact List.perm_middle.append_left _
  · rcases List.mem_cons.mp inside with rfl | there
    · have own := waits (batch, n) (List.mem_append_right _ List.mem_cons_self)
      exact ⟨batch, [], own, rfl, BatchWork.survives_nil disk batch, fun _ => nofun⟩
    · exact works p there

/-- What the token says is one more answer for the batch in hand. -/
theorem Sound.advance {batches : List (List Location)} (sound : pool.Sound disk batches)
    {work : BatchWork} {n : Nat} {front rest : List (BatchWork × Nat)}
    (inHand : pool.active = front ++ (work, n) :: rest)
    (fits : pool.cancelled = false → work.overflows disk = false) :
    Sound disk batches
      { pool with active := front ++ (work.advance disk pool.cancelled, n) :: rest } := by
  obtain ⟨numbers, waits, works, ends, crashes⟩ := sound
  have same : ((front ++ (work.advance disk pool.cancelled, n) :: rest).map Prod.snd) =
      pool.active.map Prod.snd := by
    rw [inHand, List.map_append, List.map_append]
    rfl
  refine ⟨same ▸ numbers, waits, fun p inside => ?_, ends, crashes⟩
  rcases List.mem_append.mp inside with before | later
  · exact works p (inHand ▸ List.mem_append_left _ before)
  rcases List.mem_cons.mp later with rfl | after
  · obtain ⟨batch, answers, there, followed, survives, asked⟩ :=
      works (work, n) (inHand ▸ List.mem_append_right _ List.mem_cons_self)
    refine ⟨batch, answers ++ [pool.cancelled], there, ?_, survives.concat fun quiet => ?_,
      fun quiet answer told => ?_⟩
    · rw [BatchWork.after, List.foldl_append, ← BatchWork.after, ← followed]
      rfl
    · rw [← followed]
      exact fits quiet
    · rcases List.mem_append.mp told with before | now
      · exact asked quiet answer before
      · exact (List.mem_singleton.mp now).trans quiet
  · exact works p (inHand ▸ List.mem_append_right _ (List.mem_cons_of_mem _ after))

/-- A number that comes behind others. -/
theorem perm_moved (n : Nat) (active finished lost : List Nat) :
    (active ++ (finished ++ n :: lost)).Perm (n :: (active ++ (finished ++ lost))) := by
  rw [← List.append_assoc, ← List.append_assoc]
  exact List.perm_middle

/-- Work that is done is handed in under the number of its batch. -/
theorem Sound.finish {batches : List (List Location)} (sound : pool.Sound disk batches)
    {work : BatchWork} {n : Nat} {front rest : List (BatchWork × Nat)} {outcomes : List Outcome}
    (inHand : pool.active = front ++ (work, n) :: rest) (result : work.result? = some outcomes) :
    Sound disk batches
      { pool with active := front ++ rest, finished := pool.finished ++ [(outcomes, n)] } := by
  obtain ⟨numbers, waits, works, ends, crashes⟩ := sound
  rw [inHand] at numbers works
  refine ⟨?_, waits, fun p inside => works p (mem_of_mem_others _ inside), fun p inside => ?_,
    crashes⟩
  · refine List.Perm.trans ?_ numbers
    simp only [List.map_append, List.map_cons, List.map_nil, List.append_assoc, List.cons_append,
      List.nil_append]
    exact ((perm_moved n _ _ _).append_left _).append_left _
  · rcases List.mem_append.mp inside with before | now
    · exact ends p before
    · obtain ⟨batch, answers, there, followed, survives, asked⟩ :=
        works (work, n) (List.mem_append_right _ List.mem_cons_self)
      rw [List.mem_singleton.mp now]
      exact ⟨batch, answers, there, followed ▸ result, survives, asked⟩

/-- The batch that ended the program is lost under its number. -/
theorem Sound.crash {batches : List (List Location)} (sound : pool.Sound disk batches)
    {work : BatchWork} {n : Nat} {front rest : List (BatchWork × Nat)}
    (inHand : pool.active = front ++ (work, n) :: rest) (large : work.overflows disk = true) :
    Sound disk batches { pool with active := front ++ rest, lost := n :: pool.lost } := by
  obtain ⟨numbers, waits, works, ends, crashes⟩ := sound
  rw [inHand] at numbers works
  refine ⟨?_, waits, fun p inside => works p (mem_of_mem_others _ inside), ends,
    List.forall_mem_cons.mpr ⟨?_, crashes⟩⟩
  · refine List.Perm.trans ?_ numbers
    simp only [List.map_append, List.map_cons, List.append_assoc, List.cons_append]
    exact ((perm_moved n _ _ _).append_left _).append_left _
  · obtain ⟨batch, answers, there, followed, _⟩ :=
      works (work, n) (List.mem_append_right _ List.mem_cons_self)
    exact ⟨batch, answers, there, followed ▸ large⟩

theorem sound_work {batches : List (List Location)} (h : Work disk workers pool next)
    (sound : pool.Sound disk batches) : next.Sound disk batches := by
  cases h with
  | take waiting => exact sound.take waiting
  | advance inHand _ fits => exact sound.advance inHand fits
  | finish inHand result => exact sound.finish inHand result
  | crash inHand _ large => exact sound.crash inHand large

theorem sound_step {batches : List (List Location)} (h : Step disk workers pool next)
    (sound : pool.Sound disk batches) : next.Sound disk batches := by
  cases h with
  | work step => exact sound_work step sound
  | cancel =>
    obtain ⟨numbers, waits, works, ends, crashes⟩ := sound
    refine ⟨numbers, waits, fun p inside => ?_, fun p inside => ?_, crashes⟩
    · obtain ⟨batch, answers, there, followed, survives, _⟩ := works p inside
      exact ⟨batch, answers, there, followed, survives, nofun⟩
    · obtain ⟨batch, answers, there, followed, survives, _⟩ := ends p inside
      exact ⟨batch, answers, there, followed, survives, nofun⟩

theorem sound_of_reachable (h : Reachable disk workers locations pool) :
    pool.Sound disk (batchesOf locations) := by
  induction h with
  | start => exact sound_start
  | next _ step ih => exact sound_step step ih

/-- When everything is handed in, each number was. -/
theorem Sound.finished_perm {batches : List (List Location)} (sound : pool.Sound disk batches)
    (finished : pool.Finished) :
    (pool.finished.map Prod.snd).Perm (List.range batches.length) := by
  have numbers := sound.numbers
  rw [finished.waiting, finished.active, finished.lost] at numbers
  simpa using numbers

/-- What is handed in for each batch, when everything is. -/
theorem Sound.handedIn_eq {batches : List (List Location)} (sound : pool.Sound disk batches)
    (finished : pool.Finished) {n : Nat} {batch : List Location} (hn : batches[n]? = some batch) :
    ∃ answers, pool.Asked answers ∧
      pool.handedIn n = readBatch disk (fun k => answers.getD k false) batch ∧
      batchOverflows disk (fun k => answers.getD k false) batch = false := by
  have inside : n ∈ pool.finished.map Prod.snd := (sound.finished_perm finished).mem_iff.mpr
    (List.mem_range.mpr (List.getElem?_eq_some_iff.mp hn).1)
  obtain ⟨own, answers, there, result, survives, asked⟩ := sound.ends _ (handedIn_mem inside)
  rw [hn] at there
  rw [Option.some_inj.mp there]
  exact ⟨answers, asked, BatchWork.result_eq result,
    BatchWork.batchOverflows_of_survives result survives⟩

/-- Whatever the order of the work, each location becomes what it does with the answers given, and
none that was read ended the program; as long as nobody cancels, the answers are all no. -/
theorem outcomes_of_finished (h : Reachable disk workers locations pool)
    (finished : pool.Finished) : ∃ answers : Cancellation,
      (pool.cancelled = false → answers = Cancellation.never) ∧
      pool.outcomes locations = outcomesOf disk answers locations ∧
      ParseOutcome.overflows disk answers locations = false := by
  have sound := sound_of_reachable h
  have each : ∀ n, ∃ answers : List Bool, pool.Asked answers ∧
      ∀ batch, (batchesOf locations)[n]? = some batch →
        pool.handedIn n = readBatch disk (fun k => answers.getD k false) batch ∧
        batchOverflows disk (fun k => answers.getD k false) batch = false := by
    intro n
    cases hn : (batchesOf locations)[n]? with
    | none => exact ⟨[], fun _ => nofun, nofun⟩
    | some batch =>
      obtain ⟨answers, asked, result⟩ := sound.handedIn_eq finished hn
      refine ⟨answers, asked, fun other same => ?_⟩
      rw [← Option.some_inj.mp same]
      exact result
  choose answers asked result using each
  refine ⟨fun n k => (answers n).getD k false, fun quiet => ?_, ?_, ?_⟩
  · funext n k
    rw [List.getD_eq_getElem?_getD]
    cases told : (answers n)[k]? with
    | none => rfl
    | some answer => exact asked n quiet answer (List.mem_of_getElem? told)
  · have places : List.range (batchesOf locations).length =
        (batchesOf locations).zipIdx.map Prod.snd := by
      rw [List.zipIdx_map_snd, List.range_eq_range']
    rw [outcomes, outcomesOf, places, List.flatMap_map]
    apply List.flatMap_congr
    intro p inside
    exact (result p.2 p.1 (List.mem_zipIdx_iff_getElem?.mp inside)).1
  · rw [ParseOutcome.overflows, List.any_eq_false]
    intro p inside
    rw [Bool.not_eq_true]
    exact (result p.2 p.1 (List.mem_zipIdx_iff_getElem?.mp inside)).2

/-- The outcome is that of parsing with these answers. -/
theorem outcome_of_finished (h : Reachable disk workers locations pool)
    (finished : pool.Finished) : ∃ answers : Cancellation,
      (pool.cancelled = false → answers = Cancellation.never) ∧
      ParseOutcome.attempt disk answers locations = .returned (pool.outcome locations) := by
  obtain ⟨answers, quiet, same, fits⟩ := outcomes_of_finished h finished
  refine ⟨answers, quiet, ?_⟩
  rw [ParseOutcome.attempt, fits, outcome_eq_ofOutcomes, same]
  rfl

/-- What breaks a run is an entry that is too large. -/
theorem overflowsBeside_of_broken (h : Reachable disk workers locations pool)
    (broken : pool.Broken) : ∃ p ∈ headed locations, overflowsBeside disk p.1 p.2 = true := by
  obtain ⟨n, lost⟩ := List.exists_mem_of_ne_nil _ broken
  obtain ⟨batch, answers, there, large⟩ := (sound_of_reachable h).crashes n lost
  have inside := List.mem_of_getElem? there
  obtain ⟨p, place, huge⟩ := BatchWork.overflowsBeside_of_overflows (isBatch_of_mem inside) large
  exact ⟨p, List.mem_flatMap.mpr ⟨batch, inside, place⟩, huge⟩

end Sound

theorem waiting_hugeEntry : (start [hugeEntry]).waiting = [] ++ ([hugeEntry], 0) :: [] := by
  rw [start, batchesOf_hugeEntry]
  rfl

theorem overflows_advance_hugeEntry :
    ((BatchWork.start [hugeEntry]).advance hugeDisk false).overflows hugeDisk = true := by
  obtain ⟨reader, opened, large⟩ := exists_openAt_hugeDisk
  show (BatchWork.advance hugeDisk (.opening ⟨"/a.jar"⟩ [hugeEntry]) false).overflows hugeDisk = _
  rw [BatchWork.advance, if_neg Bool.false_ne_true, opened]
  exact large

/-- A worker that opens an archive and reads an entry that is too large. -/
theorem exists_broken : ∃ pool, Reachable hugeDisk 1 [hugeEntry] pool ∧ pool.cancelled = false ∧
    pool.Broken := by
  have taken : Reachable hugeDisk 1 [hugeEntry] _ :=
    .next .start (.work (.take waiting_hugeEntry (by decide) fun _ => ⟨rfl, rfl⟩))
  have opened : Reachable hugeDisk 1 [hugeEntry] _ :=
    .next taken (.work (.advance (List.nil_append _).symm rfl fun _ => rfl))
  have crashed : Reachable hugeDisk 1 [hugeEntry] _ :=
    .next opened (.work (.crash (List.nil_append _).symm rfl overflows_advance_hugeEntry))
  exact ⟨_, crashed, rfl, List.cons_ne_nil _ _⟩

end Pool

end ClassAtlas
