/-!
The tally of a search: what was expanded, generated, rejected, pruned and admitted.
-/

namespace ListSynth

structure Tally where
  /-- Nanoseconds the search took. -/
  elapsed : Nat := 0
  iterationsRun : Nat := 0
  beamWidths : List Nat := []
  levelsExpanded : Nat := 0
  nodesExpanded : Nat := 0
  unscoreableStates : Nat := 0
  childrenGenerated : Nat := 0
  candidatesRejected : Nat := 0
  leavesPruned : Nat := 0
  lengthPruned : Nat := 0
  nodesAdmitted : Nat := 0
  peakFrontier : Nat := 0
  deriving DecidableEq, Repr

namespace Tally

/-- Counts are added and peaks compared; the widths of single runs are not collected. -/
def merge (t u : Tally) : Tally where
  elapsed := t.elapsed + u.elapsed
  iterationsRun := t.iterationsRun + u.iterationsRun
  beamWidths := t.beamWidths
  levelsExpanded := t.levelsExpanded + u.levelsExpanded
  nodesExpanded := t.nodesExpanded + u.nodesExpanded
  unscoreableStates := t.unscoreableStates + u.unscoreableStates
  childrenGenerated := t.childrenGenerated + u.childrenGenerated
  candidatesRejected := t.candidatesRejected + u.candidatesRejected
  leavesPruned := t.leavesPruned + u.leavesPruned
  lengthPruned := t.lengthPruned + u.lengthPruned
  nodesAdmitted := t.nodesAdmitted + u.nodesAdmitted
  peakFrontier := max t.peakFrontier u.peakFrontier

end Tally

end ListSynth
