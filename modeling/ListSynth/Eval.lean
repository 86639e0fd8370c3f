import ListSynth.Slot
import ListSynth.Combinator
/-!
What a combinator makes of its operand slots. Components are evaluated in order, and the first that fails
decides the error.
-/

namespace ListSynth

inductive EvalError where
  /-- An operand is not a list of integers (or, where any list will do, not a list). -/
  | typeMismatch (c : Combinator) (found : Value)
  | emptySequence (c : Combinator)
  | overflow (c : Combinator)
  | arity (c : Combinator) (expected found : Nat)
  | slotOutOfRange (index length : Nat)
  | componentMismatch (left right : Nat)
  /-- Copying changes the state and is no expression. -/
  | notEvaluable (c : Combinator)
  deriving DecidableEq, Repr

def EvalError.message : EvalError → String
  | .typeMismatch c found => c.text ++ " expects a list of integers, got " ++ found.text
  | .emptySequence c => c.text ++ " of an empty sequence"
  | .overflow c => "integer overflow in " ++ c.text
  | .arity c expected found =>
    c.text ++ " takes " ++ toString expected ++ " operand(s), got " ++ toString found
  | .slotOutOfRange index length =>
    "slot index " ++ toString index ++ " out of range for state tuple of length " ++ toString length
  | .componentMismatch left right =>
    "operand slots carry " ++ toString left ++ " and " ++ toString right ++ " components"
  | .notEvaluable c => c.text ++ " cannot be evaluated as an expression"

namespace Combinator

def integers (c : Combinator) (v : Value) : Except EvalError (List Int64) :=
  match v.ints? with
  | some xs => .ok xs
  | none => .error (.typeMismatch c v)

def items (c : Combinator) (v : Value) : Except EvalError (List Value) :=
  match v.items? with
  | some vs => .ok vs
  | none => .error (.typeMismatch c v)

def inRange (c : Combinator) : Option Value → Except EvalError Value
  | some v => .ok v
  | none => .error (.overflow c)

def picked (c : Combinator) : Option Int64 → Except EvalError Value
  | some n => .ok (.int n)
  | none => .error (.emptySequence c)

def onValue (c : Combinator) (v : Value) : Except EvalError Value :=
  match c with
  | .map op n => do c.inRange (((← c.integers v).mapM (op.checked · n)).map .ofInts)
  | .filter test n => do return .ofInts ((← c.integers v).filter (test.holds · n))
  | .take n => do return .list ((← c.items v).take n.toNatClampNeg)
  | .drop n => do return .list ((← c.items v).drop n.toNatClampNeg)
  | .sum => do c.inRange (((← c.integers v).foldlM ArithOp.add.checked 0).map .int)
  | .max => do c.picked (← c.integers v).max?
  | .min => do c.picked (← c.integers v).min?
  | .length => do return .int (.ofNat (← c.items v).length)
  | .zipWith _ => .error (.arity c 2 1)
  | .copy => .error (.arity c 1 1)

/-- The items of two components combined in pairs, up to the end of the shorter. -/
def onPair (op : ArithOp) (v w : Value) : Except EvalError Value := do
  let xs ← (zipWith op).integers v
  let ys ← (zipWith op).integers w
  (zipWith op).inRange (((xs.zip ys).mapM fun (x, y) => op.checked x y).map .ofInts)

def apply (c : Combinator) (operands : List Slot) : Except EvalError Slot :=
  match c, operands with
  | .zipWith op, [l, r] =>
    if l.components.length = r.components.length then
      return ⟨← (l.components.zip r.components).mapM fun (v, w) => onPair op v w⟩
    else .error (.componentMismatch l.components.length r.components.length)
  | .zipWith _, _ => .error (.arity c 2 operands.length)
  | _, [slot] => return ⟨← slot.components.mapM c.onValue⟩
  | _, _ => .error (.arity c 1 operands.length)

end Combinator

end ListSynth
