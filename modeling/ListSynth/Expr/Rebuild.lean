import ListSynth.Expr
import ListSynth.Step
/-!
The expression that a program computes. Its steps are taken on a state of expressions, where each input
slot starts as itself and no operand is evaluated.
-/

namespace ListSynth

inductive RebuildError where
  | copyOfSeveral (step : Step)
  | noSuchSlot (step : Step) (index length : Nat)
  /-- The first slot is an input that no step has touched, or there is none. -/
  | untouched
  deriving DecidableEq, Repr

def RebuildError.message : RebuildError → String
  | .copyOfSeveral step => "copy step " ++ step.text ++ " must name exactly one slot"
  | .noSuchSlot step index length =>
    "step " ++ step.text ++ " addresses slot " ++ toString index ++ " of " ++ toString length
  | .untouched => "no combinator produced the first slot"

namespace Step

def operand (step : Step) (entries : List Expr) (i : Nat) : Except RebuildError Expr :=
  match entries[i]? with
  | some e => .ok e
  | none => .error (.noSuchSlot step i entries.length)

/-- The expressions after a step, which is recorded and not evaluated. -/
def record (entries : List Expr) (step : Step) : Except RebuildError (List Expr) :=
  match step.combinator, step.slots with
  | .copy, [i] => return entries ++ [← step.operand entries i]
  | .copy, _ => .error (.copyOfSeveral step)
  | c, slots => do
    let args ← slots.mapM (step.operand entries)
    return Positions.fuse entries slots (.call c args)

end Step

namespace Program

def rebuild (program : Program) (inputs : State) : Except RebuildError Expr := do
  match (← program.foldlM Step.record (inputs.map Expr.input)).head? with
  | some (.call c args) => return .call c args
  | _ => .error .untouched

end Program

end ListSynth
