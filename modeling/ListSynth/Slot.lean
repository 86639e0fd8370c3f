import ListSynth.Value
/-!
Slots and states. A state is the tuple of slots that a program has at hand between two steps; a slot
carries one value for each component of a task.
-/

namespace ListSynth

/-- A slot holds one value per component. -/
structure Slot where
  components : List Value
  deriving DecidableEq, Repr, Inhabited

abbrev State := List Slot

namespace Slot

def single (v : Value) : Slot := ⟨[v]⟩

def hasScalar (s : Slot) : Bool := s.components.any Value.isScalar

def hasEmptyList (s : Slot) : Bool := s.components.any Value.isEmptyList

/-- A lone component is written as it is, any other number of them in parentheses. -/
def text (s : Slot) : String :=
  match s.components with
  | [v] => v.text
  | vs => "(" ++ "; ".intercalate (vs.map Value.text) ++ ")"

end Slot

namespace State

def ofInputs (inputs : List Value) : State := inputs.map Slot.single

def hasScalar (s : State) : Bool := s.any Slot.hasScalar

def hasEmptyList (s : State) : Bool := s.any Slot.hasEmptyList

end State

end ListSynth
