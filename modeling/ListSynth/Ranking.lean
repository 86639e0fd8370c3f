import ListSynth.Weights
import ListSynth.Step
/-!
Ranks: the product of the weights of a step's choices, and the order that puts the greatest rank first.
-/

namespace ListSynth

inductive RankingError where
  | unknownCombinator (c : Combinator)
  | weightOutOfRange (feature : Feature) (index length : Nat)
  deriving DecidableEq, Repr

def RankingError.message : RankingError → String
  | .unknownCombinator c =>
    "combinator " ++ c.text ++ " is not registered in the grammar alphabets"
  | .weightOutOfRange feature index length =>
    "scorer returned " ++ toString length ++ " weights for " ++ feature.name ++ ", index " ++
      toString index ++ " requested"

namespace Step

/-- The choices that a step makes and the position of each among the grammar's choices, in the order in
which their weights are read. A state may be longer than the slots a scorer weighs. -/
def choices (g : Grammar) (step : Step) : List (Feature × Option Nat) :=
  let c := step.combinator
  (.definition, g.familyIndex? c.family) ::
    (step.slots.take 2).map (fun i => (.index, some i)) ++
    match c with
    | .map op n => [(.arithOp, g.arithIndex? op), (.mapNumber, g.mapNumberIndex? n)]
    | .filter test n =>
      [(.comparison, g.comparisonIndex? test), (.filterNumber, g.filterNumberIndex? n)]
    | .zipWith op => [(.arithOp, g.arithIndex? op)]
    | .take n | .drop n => [(.takeDropNumber, g.takeDropNumberIndex? n)]
    | _ => []

/-- The weight at a position. A slot that the scorer has not weighed has weight zero. -/
def weight (step : Step) (w : Weights) : Feature × Option Nat → Except RankingError Number
  | (.index, i) => .ok ((i.bind fun j => (w.vector .index)[j]?).getD .zero)
  | (_, none) => .error (.unknownCombinator step.combinator)
  | (k, some i) =>
    match (w.vector k)[i]? with
    | some x => .ok x
    | none => .error (.weightOutOfRange k i (w.vector k).length)

def weights (g : Grammar) (w : Weights) (step : Step) : Except RankingError (List Number) :=
  (step.choices g).mapM (step.weight w)

end Step

namespace Ranking

/-- The product of some weights, taken as the exponential of the sum of their logarithms. -/
def product (weights : List Number) : Number :=
  ((weights.map Number.log).foldl (· + ·) Number.zero).exp

def ofStep (g : Grammar) (w : Weights) (step : Step) : Except RankingError Number :=
  return product (← step.weights g w)

def before (x y : Number) : Bool := y.key ≤ x.key

end Ranking

end ListSynth
