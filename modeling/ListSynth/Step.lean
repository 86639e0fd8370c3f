import ListSynth.Eval
import ListSynth.Positions
/-!
Program steps and what they do to a state. A step names a combinator and the slots it works on; its result
takes the place of the first of them and the others go. Copying alone makes the state longer.
-/

namespace ListSynth

/-- A combinator and the slots it is applied to, in operand order. -/
structure Step where
  combinator : Combinator
  slots : List Nat
  deriving DecidableEq, Repr

abbrev Program := List Step

def Step.text (step : Step) : String := step.combinator.text ++ " @ " ++ Positions.text step.slots

namespace State

/-- The state after a step: slots are checked first, then their number, then the operands. -/
def after (s : State) (step : Step) : Except EvalError State :=
  match Positions.fault? s.length [] step.slots with
  | some i => .error (.slotOutOfRange i s.length)
  | none =>
    match step.combinator, step.slots with
    | .copy, [i] => .ok (s ++ s[i]?.toList)
    | .copy, slots => .error (.arity .copy 1 slots.length)
    | c, slots => do
      let result ← c.apply (slots.filterMap (s[·]?))
      return Positions.fuse s slots result

def run (s : State) (program : Program) : Except EvalError State := program.foldlM after s

end State

end ListSynth
