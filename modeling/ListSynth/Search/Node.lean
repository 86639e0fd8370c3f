import ListSynth.Step
import ListSynth.Ranking
/-!
Nodes of the search tree and the candidate steps that lead from one to its children.
-/

namespace ListSynth

structure Node where
  /-- The steps from the root, the latest first. -/
  trail : List Step
  state : State
  rank : Number

namespace Node

def root (s : State) : Node := ⟨[], s, .zero⟩

def program (n : Node) : Program := n.trail.reverse

def depth (n : Node) : Nat := n.trail.length

def child (n : Node) (step : Step) (s : State) (weight : Number) : Node :=
  ⟨step :: n.trail, s, n.rank + weight.log⟩

end Node

/-- Pairs of two distinct positions below `n`; ascending pairs alone where order makes no difference. -/
def pairs (n : Nat) (commutative : Bool) : List (List Nat) :=
  (List.range n).flatMap fun a =>
    ((List.range n).filter fun b => a ≠ b && !(commutative && b < a)).map fun b => [a, b]

/-- The slots that a combinator is tried on. Aggregates are tried only to finish a lone slot. -/
def Combinator.slotChoices (c : Combinator) (n : Nat) : List (List Nat) :=
  match c.role with
  | .pairwise => pairs n (c.arith?.all ArithOp.isCommutative)
  | .aggregate => if n = 1 then [[0]] else []
  | _ => (List.range n).map fun i => [i]

def Grammar.candidates (g : Grammar) (n : Nat) : List Step :=
  g.combinators.flatMap fun c => (c.slotChoices n).map (Step.mk c)

end ListSynth
