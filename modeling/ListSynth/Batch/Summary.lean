import ListSynth.Search.Report
/-!
What became of the tasks of a batch: the outcomes counted by kind, and the solutions by depth.
-/

namespace ListSynth

inductive TaskOutcome where
  | finished (outcome : Outcome) (tally : Tally)
  | failed (message : String)

namespace TaskOutcome

def label : TaskOutcome → String
  | .finished o _ => o.label
  | .failed _ => "failed"

def ofSearch (result : Except SearchError Outcome) (tally : Tally) : TaskOutcome :=
  match result with
  | .ok outcome => .finished outcome tally
  | .error e => .failed e.message

def withTime (ns : Nat) : TaskOutcome → TaskOutcome
  | .finished o t => .finished o { t with elapsed := ns }
  | o => o

end TaskOutcome

def Tally.including (t : Tally) : TaskOutcome → Tally
  | .finished _ u => t.merge u
  | .failed _ => t

/-- Counts of keys, by ascending key. -/
abbrev Histogram := List (Nat × Nat)

def Histogram.bump (key : Nat) : Histogram → Histogram
  | [] => [(key, 1)]
  | (k, n) :: rest =>
    if key < k then (key, 1) :: (k, n) :: rest
    else if key = k then (k, n + 1) :: rest
    else (k, n) :: bump key rest

namespace Batch

structure Summary where
  total : Nat := 0
  solved : Nat := 0
  exhausted : Nat := 0
  cancelled : Nat := 0
  failed : Nat := 0
  depths : Histogram := []
  deriving DecidableEq, Repr

namespace Summary

def record (s : Summary) (o : TaskOutcome) : Summary :=
  let s := { s with total := s.total + 1 }
  match o with
  | .finished (.solved solution) _ =>
    { s with solved := s.solved + 1, depths := s.depths.bump solution.depth }
  | .finished .exhausted _ => { s with exhausted := s.exhausted + 1 }
  | .finished .cancelled _ => { s with cancelled := s.cancelled + 1 }
  | .failed _ => { s with failed := s.failed + 1 }

def ofOutcomes (os : List TaskOutcome) : Summary := os.foldl record {}

def solveRate (s : Summary) : Float :=
  if s.total = 0 then 0.0 else (UInt64.ofNat s.solved).toFloat / (UInt64.ofNat s.total).toFloat

def text (s : Summary) : String :=
  "Tasks: " ++ toString s.total ++ " (solved " ++ toString s.solved ++ ", exhausted " ++
    toString s.exhausted ++ ", cancelled " ++ toString s.cancelled ++ ", failed " ++
    toString s.failed ++ ")\n" ++
  "Solve rate: " ++ Decimal.fixed 2 (s.solveRate * 100.0) ++ "%\n" ++
  if s.depths.isEmpty then "" else
    "Solutions by depth:\n" ++
      String.join (s.depths.map fun (depth, n) => "  " ++ toString depth ++ ": " ++ toString n ++ "\n")

def document (s : Summary) : Json :=
  .record [
    ("total", .ofNat s.total),
    ("solved", .ofNat s.solved),
    ("exhausted", .ofNat s.exhausted),
    ("cancelled", .ofNat s.cancelled),
    ("failed", .ofNat s.failed),
    ("depth_histogram", .record (s.depths.map fun (depth, n) => (toString depth, .ofNat n)))]

end Summary

def totals (os : List TaskOutcome) : Tally := os.foldl Tally.including {}

end Batch

end ListSynth
