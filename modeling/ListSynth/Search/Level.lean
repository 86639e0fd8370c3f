import ListSynth.Search.Expansion
/-!
One level of a search: the children of a frontier are sorted by rank and walked until a solution is found,
the search is asked to stop, or the beam is full.
-/

namespace ListSynth

inductive LevelEnd where
  | found (node : Node)
  | cancelled
  | advanced (frontier : List Node)

/-- The greatest rank comes first; equal ranks keep their order. -/
def sortByRank (pool : List Node) : List Node := pool.mergeSort fun a b => Ranking.before a.rank b.rank

namespace Tally

def countPruned (t : Tally) (why : DeadEnd) : Tally :=
  { t with
    leavesPruned := t.leavesPruned + 1
    lengthPruned := t.lengthPruned + (if why = .overshoot then 1 else 0) }

def countAdmitted (t : Tally) : Tally := { t with nodesAdmitted := t.nodesAdmitted + 1 }

end Tally

variable {σ : Type}

/-- Walk a sorted pool with room for some more nodes. A solution ends the walk at once; after any other
node the stop signal is read, and then the room checked. The admitted nodes are kept in reverse. -/
def walk (guide : Guide σ) (goal : Goal) (lengths : Option (List Nat)) :
    List Node → Nat → List Node → Progress σ → LevelEnd × Progress σ
  | [], _, admitted, p => (.advanced admitted.reverse, p)
  | node :: rest, room, admitted, p =>
    if goal.isReachedBy node.state then (.found node, p)
    else
      let (room, admitted, tally) := match node.state.deadEnd? lengths with
        | some why => (room, admitted, p.tally.countPruned why)
        | none => (room - 1, node :: admitted, p.tally.countAdmitted)
      let (stop, memory) := guide.stopped p.memory
      if stop then (.cancelled, ⟨tally, memory⟩)
      else if room = 0 then (.advanced admitted.reverse, ⟨tally, memory⟩)
      else walk guide goal lengths rest room admitted ⟨tally, memory⟩

def level (guide : Guide σ) (g : Grammar) (goal : Goal) (width : Nat) (frontier : List Node)
    (p : Progress σ) : Except RankingError LevelEnd × Progress σ :=
  match expandAll guide g goal frontier [] p with
  | (.error e, p) => (.error e, p)
  | (.ok pool, p) =>
    let t := { p.tally with levelsExpanded := p.tally.levelsExpanded + 1 }
    match walk guide goal goal.minLengths (sortByRank pool) width [] ⟨t, p.memory⟩ with
    | (.advanced next, p) =>
      let t := { p.tally with peakFrontier := max p.tally.peakFrontier next.length }
      (.ok (.advanced next), ⟨t, p.memory⟩)
    | (done, p) => (.ok done, p)

end ListSynth
