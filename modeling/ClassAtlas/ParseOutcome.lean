import ClassAtlas.Batch

/-!
# Parsing locations

Batches may be read by several workers at once. The results stand in the order of the locations
whatever the order of the work, so all that the work can decide is when each batch learns of a
cancellation. Each finished batch counts as progress, a cancelled one too.
-/

namespace ClassAtlas

/-- The answers to the question whether an import is cancelled: for the number of a batch, and the
number of its question. -/
abbrev Cancellation := Nat → Nat → Bool

namespace Cancellation

def never : Cancellation := fun _ _ => false

/-- Before the first batch. -/
def atOnce : Cancellation := fun _ _ => true

/-- When so many batches are finished, by a single worker. -/
def afterBatches (count : Nat) : Cancellation := fun batch _ => decide (count ≤ batch)

end Cancellation

structure ParseOutcome where
  /-- The classes, each with its source, in the order of their locations. -/
  classes : List SourcedClass := []
  failures : List ImportError := []
  /-- How many locations were left out. -/
  skipped : Nat := 0
  deriving Inhabited

namespace ParseOutcome

def ofOutcomes (outcomes : List Outcome) : ParseOutcome :=
  { classes := outcomes.filterMap fun outcome => outcome.bind Except.toOption
    failures := outcomes.filterMap fun outcome => outcome.bind errorOf?
    skipped := outcomes.countP Option.isNone }

/-- What becomes of locations, as long as none of them ends the program. -/
def parse (disk : Disk) (cancelled : Cancellation) (locations : List Location) : ParseOutcome :=
  ofOutcomes <|
    (batchesOf locations).zipIdx.flatMap fun (batch, n) => readBatch disk (cancelled n) batch

/-- Whether parsing ends the program. -/
def overflows (disk : Disk) (cancelled : Cancellation) (locations : List Location) : Bool :=
  (batchesOf locations).zipIdx.any fun (batch, n) => batchOverflows disk (cancelled n) batch

/-- Parsing locations. Nothing of it is left when one of them ends the program. -/
def attempt (disk : Disk) (cancelled : Cancellation) (locations : List Location) :
    Attempt ParseOutcome :=
  if overflows disk cancelled locations then .crashed
  else .returned (parse disk cancelled locations)

def isComplete (outcome : ParseOutcome) : Bool := outcome.skipped = 0

end ParseOutcome

/-- How many of the locations of an import are done. -/
structure Progress where
  current : Nat
  total : Nat
  message : String
  deriving Inhabited

namespace Progress

/-- A count as a floating-point number. Counts fit in 64 bits. -/
def toFloat (count : Nat) : Float := (UInt64.ofNat count).toFloat

/-- The share that is done, in percent. Of nothing, nothing is done. -/
def percentage (progress : Progress) : Float :=
  if progress.total = 0 then 0
  else toFloat progress.current / toFloat progress.total * 100

/-- The progress when `current` of `total` locations are done. -/
def parsed (total current : Nat) : Progress :=
  { current, total
    message := "Parsed " ++ current.repr ++ "/" ++ total.repr ++ " class files" }

/-- The progress after each batch, in the order in which they are finished, when `done` locations
are done already. -/
def updates (total done : Nat) : List (List Location) → List Progress
  | [] => []
  | batch :: batches =>
    parsed total (done + batch.length) :: updates total (done + batch.length) batches

/-- The progress of a single worker. -/
def ofLocations (locations : List Location) : List Progress :=
  updates locations.length 0 (batchesOf locations)

end Progress

end ClassAtlas
