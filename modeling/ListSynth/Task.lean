import ListSynth.Goal
/-!
Tasks: the inputs a program starts from and the value it is to reach.
-/

namespace ListSynth

/-- A task asks for a program that makes the target of the inputs. -/
structure Task where
  inputs : List Value
  target : Value
  deriving DecidableEq, Repr

namespace Task

def start (t : Task) : State := .ofInputs t.inputs

def goal (t : Task) : Goal := .ofTarget t.target

end Task

end ListSynth
