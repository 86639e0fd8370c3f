import ListSynth.Grammar
import ListSynth.Number
/-!
Weights: what a scorer says about a state, one vector of numbers for each feature of a step.
-/

namespace ListSynth

inductive Feature where
  | definition
  | index
  | comparison
  | filterNumber
  | arithOp
  | mapNumber
  | takeDropNumber
  deriving DecidableEq, Repr

namespace Feature

def all : List Feature :=
  [.definition, .index, .comparison, .filterNumber, .arithOp, .mapNumber, .takeDropNumber]

def name : Feature → String
  | .definition => "definition"
  | .index => "index"
  | .comparison => "bool_operator"
  | .filterNumber => "bool_number"
  | .arithOp => "num_operator"
  | .mapNumber => "num_number"
  | .takeDropNumber => "take_drop_number"

def choices (g : Grammar) : Feature → Nat
  | .definition => g.families.length
  | .index => g.alphabets.indexSlots
  | .comparison => g.alphabets.comparisons.length
  | .filterNumber => g.alphabets.filterNumbers.length
  | .arithOp => g.alphabets.arithOps.length
  | .mapNumber => g.alphabets.mapNumbers.length
  | .takeDropNumber => g.alphabets.takeDropNumbers.length

end Feature

structure Weights where
  definition : List Number
  index : List Number
  comparison : List Number
  filterNumber : List Number
  arithOp : List Number
  mapNumber : List Number
  takeDropNumber : List Number

namespace Weights

def ofFn (f : Feature → List Number) : Weights where
  definition := f .definition
  index := f .index
  comparison := f .comparison
  filterNumber := f .filterNumber
  arithOp := f .arithOp
  mapNumber := f .mapNumber
  takeDropNumber := f .takeDropNumber

def vector (w : Weights) : Feature → List Number
  | .definition => w.definition
  | .index => w.index
  | .comparison => w.comparison
  | .filterNumber => w.filterNumber
  | .arithOp => w.arithOp
  | .mapNumber => w.mapNumber
  | .takeDropNumber => w.takeDropNumber

@[simp] theorem vector_ofFn (f : Feature → List Number) (k : Feature) : (ofFn f).vector k = f k := by
  cases k <;> rfl

/-- Exponentials scaled to the sum one; the greatest logit is taken off first. -/
def softmax (logits : List Number) : List Number :=
  let top := logits.foldl Number.greater .leastInfinity
  let powers := logits.map fun l => (l - top).exp
  let total := powers.foldl (· + ·) .zero
  powers.map (· / total)

def logistic (x : Number) : Number := .one / (.one + (-x).exp)

/-- Slots are weighed one by one, all other choices against each other. -/
def ofLogits (logits : Weights) : Weights :=
  ofFn fun
    | .index => logits.index.map logistic
    | k => softmax (logits.vector k)

def zeros (g : Grammar) : Weights := ofFn fun k => List.replicate (k.choices g) .zero

/-- No weight differs from zero: the scorer had nothing to say. -/
def isBlank (w : Weights) : Bool := Feature.all.all fun k => (w.vector k).all Number.isZero

end Weights

end ListSynth
