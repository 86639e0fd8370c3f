import ListSynth.Weights
import ListSynth.Goal
import ListSynth.Keystream
/-!
Guides: what a search consults. A guide answers a state with weights and tells, between two candidates,
whether the search is asked to stop; its memory may change each time it is consulted.
-/

namespace ListSynth

structure Guide (σ : Type) where
  predict : Grammar → Goal → State → σ → Weights × σ
  stopped : σ → Bool × σ

/-- The weights of a state. One that has an empty list is never shown to the scorer. -/
def Guide.consult {σ : Type} (guide : Guide σ) (g : Grammar) (goal : Goal) (s : State) (m : σ) :
    Weights × σ :=
  if s.hasEmptyList then (Weights.zeros g, m) else guide.predict g goal s m

inductive ScorerKind where
  | uniform
  | random
  deriving DecidableEq, Repr

namespace ScorerKind

def name : ScorerKind → String
  | .uniform => "uniform"
  | .random => "random"

structure Unknown where
  text : String
  deriving DecidableEq, Repr

def Unknown.message (e : Unknown) : String :=
  "Unknown scorer: '" ++ e.text ++ "'. Valid options: uniform, random"

/-- The scorer that a text names, in small or capital letters. Folding ASCII letters is enough: no other
capital has a letter of these names as its small form. -/
def ofText (text : String) : Except Unknown ScorerKind :=
  match text.toLower with
  | "uniform" => .ok .uniform
  | "random" => .ok .random
  | "rand" => .ok .random
  | _ => .error ⟨text⟩

end ScorerKind

inductive Scorer where
  | fixed (answer : Grammar → Weights)
  | random (stream : Keystream)

namespace Scorer

def uniform : Scorer := .fixed fun g => .ofLogits (.zeros g)

def ofKind (seed : UInt64) : ScorerKind → Scorer
  | .uniform => uniform
  | .random => .random (.ofSeed seed)

def drawLogits (g : Grammar) (stream : Keystream) : Weights × Keystream :=
  let (definition, stream) := stream.signedUnits (Feature.definition.choices g)
  let (index, stream) := stream.signedUnits (Feature.index.choices g)
  let (comparison, stream) := stream.signedUnits (Feature.comparison.choices g)
  let (filterNumber, stream) := stream.signedUnits (Feature.filterNumber.choices g)
  let (arithOp, stream) := stream.signedUnits (Feature.arithOp.choices g)
  let (mapNumber, stream) := stream.signedUnits (Feature.mapNumber.choices g)
  let (takeDropNumber, stream) := stream.signedUnits (Feature.takeDropNumber.choices g)
  ({ definition, index, comparison, filterNumber, arithOp, mapNumber, takeDropNumber }, stream)

def answer (g : Grammar) : Scorer → Weights × Scorer
  | .fixed f => (f g, .fixed f)
  | .random stream =>
    let (logits, stream) := drawLogits g stream
    (.ofLogits logits, .random stream)

/-- The guide by a scorer and a flag whose successive readings are given; the memory counts them. -/
def guide (flag : Nat → Bool) : Guide (Scorer × Nat) where
  predict g _ _ m :=
    let (w, scorer) := m.1.answer g
    (w, (scorer, m.2))
  stopped m := (flag m.2, (m.1, m.2 + 1))

end Scorer

structure Session where
  scorer : Scorer
  /-- The states asked about, the latest first. -/
  asked : List State
  calls : Nat
  stop : Bool
  stopAtCall : Option Nat

namespace Session

def ofScorer (scorer : Scorer) : Session :=
  { scorer, asked := [], calls := 0, stop := false, stopAtCall := none }

def predict (g : Grammar) (_ : Goal) (s : State) (m : Session) : Weights × Session :=
  let (w, scorer) := m.scorer.answer g
  let calls := m.calls + 1
  (w, { m with scorer, calls, asked := s :: m.asked, stop := m.stop || m.stopAtCall == some calls })

/-- Read the stop signal. Once raised it stays raised. -/
def stopped (m : Session) : Bool × Session := (m.stop, m)

def guide : Guide Session := ⟨predict, stopped⟩

end Session

end ListSynth
