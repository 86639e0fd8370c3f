import ListSynth.Guide
import ListSynth.Search.Node
import ListSynth.Search.Tally
/-!
Expansion of nodes: every candidate step is taken, and those that succeed become ranked children.
-/

namespace ListSynth

structure Progress (σ : Type) where
  tally : Tally
  memory : σ

/-- Nothing has been counted; the memory stays. -/
def Progress.reset {σ : Type} (p : Progress σ) : Progress σ := { p with tally := {} }

/-- Take the candidates in order. The count is of those rejected before the first step that has no rank. -/
def Node.raise (g : Grammar) (w : Weights) (parent : Node) :
    List Step → List Node → Nat → Nat × Except RankingError (List Node)
  | [], children, rejected => (rejected, .ok children.reverse)
  | step :: rest, children, rejected =>
    match parent.state.after step with
    | .error _ => raise g w parent rest children (rejected + 1)
    | .ok s =>
      match Ranking.ofStep g w step with
      | .error e => (rejected, .error e)
      | .ok weight => raise g w parent rest (parent.child step s weight :: children) rejected

variable {σ : Type}

def Node.expand (guide : Guide σ) (g : Grammar) (goal : Goal) (parent : Node) (p : Progress σ) :
    Except RankingError (List Node) × Progress σ :=
  let (w, memory) := guide.consult g goal parent.state p.memory
  let (rejected, result) := parent.raise g w (g.candidates parent.state.length) [] 0
  let generated := match result with
    | .ok children => children.length
    | .error _ => 0
  let t := p.tally
  (result,
    { memory
      tally := { t with
        nodesExpanded := t.nodesExpanded + 1
        unscoreableStates := t.unscoreableStates + (if w.isBlank then 1 else 0)
        candidatesRejected := t.candidatesRejected + rejected
        childrenGenerated := t.childrenGenerated + generated } })

def expandAll (guide : Guide σ) (g : Grammar) (goal : Goal) :
    List Node → List (List Node) → Progress σ → Except RankingError (List Node) × Progress σ
  | [], broods, p => (.ok broods.reverse.flatten, p)
  | node :: rest, broods, p =>
    match node.expand guide g goal p with
    | (.error e, p) => (.error e, p)
    | (.ok children, p) => expandAll guide g goal rest (children :: broods) p

end ListSynth
