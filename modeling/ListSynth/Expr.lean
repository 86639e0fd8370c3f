import ListSynth.Eval
/-!
Expressions over input slots: what a program computes, with its steps nested in one another.
-/

namespace ListSynth

inductive Expr where
  | input (slot : Slot)
  | call (c : Combinator) (args : List Expr)
  deriving Repr, Inhabited

namespace Expr

mutual

/-- The slot an expression denotes. Operands come first, from the left. -/
def eval : Expr → Except EvalError Slot
  | .input slot => .ok slot
  | .call c args =>
    if c = .copy then .error (.notEvaluable c) else do c.apply (← evalList args)

def evalList : List Expr → Except EvalError (List Slot)
  | [] => .ok []
  | e :: es => do
    let slot ← e.eval
    let slots ← evalList es
    return slot :: slots

end

mutual

def size : Expr → Nat
  | .input _ => 0
  | .call _ args => 1 + sizeList args

def sizeList : List Expr → Nat
  | [] => 0
  | e :: es => e.size + sizeList es

end

mutual

def nesting : Expr → Nat
  | .input _ => 0
  | .call _ args => 1 + nestingList args

def nestingList : List Expr → Nat
  | [] => 0
  | e :: es => max e.nesting (nestingList es)

end

mutual

def text : Expr → String
  | .input slot => slot.text
  | .call c args => c.text ++ "(" ++ textList args ++ ")"

def textList : List Expr → String
  | [] => ""
  | [e] => e.text
  | e :: f :: es => e.text ++ ", " ++ textList (f :: es)

end

end Expr

end ListSynth
