/-!
Arithmetic and comparison on signed 64-bit integers. Arithmetic is checked: a result outside the range is
no result.
-/

namespace ListSynth

inductive ArithOp where
  | add
  | sub
  | mul
  deriving DecidableEq, Repr

inductive Comparison where
  | greater
  | less
  | equal
  deriving DecidableEq, Repr

/-- The 64-bit integer that equals an unbounded one, if there is one. -/
def int64? (n : Int) : Option Int64 :=
  if Int64.minValue.toInt ≤ n ∧ n ≤ Int64.maxValue.toInt then some (Int64.ofInt n) else none

namespace ArithOp

def all : List ArithOp := [.add, .sub, .mul]

def exact : ArithOp → Int → Int → Int
  | .add, a, b => a + b
  | .sub, a, b => a - b
  | .mul, a, b => a * b

def checked (op : ArithOp) (a b : Int64) : Option Int64 := int64? (op.exact a.toInt b.toInt)

/-- Only subtraction depends on the order of its operands. -/
def isCommutative : ArithOp → Bool
  | .sub => false
  | _ => true

def symbol : ArithOp → String
  | .add => "+"
  | .sub => "-"
  | .mul => "*"

def label : ArithOp → String
  | .add => "Add"
  | .sub => "Sub"
  | .mul => "Mul"

end ArithOp

namespace Comparison

def all : List Comparison := [.greater, .less, .equal]

def holds : Comparison → Int64 → Int64 → Bool
  | .greater, a, b => b < a
  | .less, a, b => a < b
  | .equal, a, b => a == b

def symbol : Comparison → String
  | .greater => ">"
  | .less => "<"
  | .equal => "=="

def label : Comparison → String
  | .greater => "Gt"
  | .less => "Lt"
  | .equal => "Eq"

end Comparison

end ListSynth
