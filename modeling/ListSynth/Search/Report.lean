import ListSynth.Duration
import ListSynth.Search.Beam
import ListSynth.Text.Json
/-!
Reports of a search: its outcome and tally as text and as a document.
-/

namespace ListSynth

namespace Tally

def throughput (t : Tally) : Float :=
  let seconds := Duration.seconds t.elapsed
  if seconds == 0.0 then 0.0 else (UInt64.ofNat t.childrenGenerated).toFloat / seconds

def rejectionRate (t : Tally) : Float :=
  let tried := t.childrenGenerated + t.candidatesRejected
  if tried = 0 then 0.0
  else (UInt64.ofNat t.candidatesRejected).toFloat / (UInt64.ofNat tried).toFloat

/-- A line for each count; rejected candidates and unscoreable states are left out where there are none. -/
def text (t : Tally) : String :=
  "Time: " ++ Duration.text t.elapsed ++ "\n" ++
  "Iterations: " ++ toString t.iterationsRun ++ " (beam widths " ++ Positions.text t.beamWidths ++ ")\n" ++
  "Levels expanded: " ++ toString t.levelsExpanded ++ "\n" ++
  "Nodes expanded: " ++ toString t.nodesExpanded ++ "\n" ++
  "Children generated: " ++ toString t.childrenGenerated ++ "\n" ++
  "Throughput: " ++ Decimal.fixed 0 t.throughput ++ " children/sec\n" ++
  (if t.candidatesRejected = 0 then "" else
    "Rejected candidates: " ++ toString t.candidatesRejected ++ " (" ++
      Decimal.fixed 2 (t.rejectionRate * 100.0) ++ "%)\n") ++
  "Leaves pruned: " ++ toString t.leavesPruned ++ " (" ++ toString t.lengthPruned ++ " by length)\n" ++
  (if t.unscoreableStates = 0 then "" else
    "Unscoreable states: " ++ toString t.unscoreableStates ++ "\n") ++
  "Peak frontier: " ++ toString t.peakFrontier ++ "\n"

def counts (t : Tally) : Json :=
  .record [
    ("iterations_run", .ofNat t.iterationsRun),
    ("beam_widths", .list (t.beamWidths.map .ofNat)),
    ("levels_expanded", .ofNat t.levelsExpanded),
    ("nodes_expanded", .ofNat t.nodesExpanded),
    ("unscoreable_states", .ofNat t.unscoreableStates),
    ("children_generated", .ofNat t.childrenGenerated),
    ("candidates_rejected", .ofNat t.candidatesRejected),
    ("leaves_pruned", .ofNat t.leavesPruned),
    ("length_pruned", .ofNat t.lengthPruned),
    ("nodes_admitted", .ofNat t.nodesAdmitted),
    ("peak_frontier", .ofNat t.peakFrontier)]

def document (t : Tally) : Json :=
  match t.counts with
  | .record fields => .record (("elapsed_ms", .real (Duration.milliseconds t.elapsed)) :: fields)
  | d => d

end Tally

def Step.document (step : Step) : Json :=
  .record [
    ("combinator", .string step.combinator.text),
    ("indices", .list (step.slots.map .ofNat))]

def Solution.output? (s : Solution) : Option Slot := s.expr.eval.toOption

namespace Outcome

def solution? : Outcome → Option Solution
  | .solved s => some s
  | _ => none

def numbered (program : Program) : String :=
  String.join (program.zipIdx.map fun (step, i) => "  " ++ toString (i + 1) ++ ". " ++ step.text ++ "\n")

def text : Outcome → String
  | .solved s =>
    "Solution found at depth " ++ toString s.depth ++ ":\n" ++ numbered s.program ++
    "Composition: " ++ s.expr.text ++ "\n" ++
    match s.output? with
    | some slot => "Output: " ++ slot.text ++ "\n"
    | none => ""
  | .exhausted => "No solution found.\n"
  | .cancelled => "Search cancelled.\n"

/-- The parts of a document that stem from the outcome; without a solution most are null. -/
def fields (o : Outcome) : List (String × Json) :=
  let s := o.solution?
  [ ("outcome", .string o.label),
    ("program", .ofOption (fun s => .list (s.program.map Step.document)) s),
    ("depth", .ofOption (.ofNat ·.depth) s),
    ("composition", .ofOption (.string ·.expr.text) s),
    ("output", .ofOption (.string ·.text) (s.bind Solution.output?)),
    ("rank", .ofOption (.real ·.rank.toFloat) s)]

def document (o : Outcome) (t : Tally) : Json := .record (o.fields ++ [("statistics", t.document)])

end Outcome

end ListSynth
