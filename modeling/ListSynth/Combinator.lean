import ListSynth.Operator
/-!
The combinators that programs are built from, their families and the part each plays in a program.
-/

namespace ListSynth

/-- The families of combinators; members of one family differ in their operator and number only. -/
inductive Family where
  | map
  | filter
  | zipWith
  | take
  | drop
  | sum
  | max
  | min
  | length
  | copy
  deriving DecidableEq, Repr

/-- How a combinator uses the state: on one slot, on a pair of slots, to finish, or to double a slot. -/
inductive Role where
  | slotwise
  | pairwise
  | aggregate
  | duplication
  deriving DecidableEq, Repr

inductive Combinator where
  | map (op : ArithOp) (n : Int64)
  | filter (test : Comparison) (n : Int64)
  | zipWith (op : ArithOp)
  | take (n : Int64)
  | drop (n : Int64)
  | sum
  | max
  | min
  | length
  | copy
  deriving DecidableEq, Repr

namespace Family

/-- The families a grammar may list, in registry order; copying is always there and never listed. -/
def library : List Family := [.map, .filter, .zipWith, .take, .drop, .sum, .max, .min, .length]

def name : Family → String
  | .map => "map"
  | .filter => "filter"
  | .zipWith => "zip_with"
  | .take => "take"
  | .drop => "drop"
  | .sum => "sum"
  | .max => "max"
  | .min => "min"
  | .length => "length"
  | .copy => "copy_state_tuple"

def label : Family → String
  | .map => "Map"
  | .filter => "Filter"
  | .zipWith => "ZipWith"
  | .take => "Take"
  | .drop => "Drop"
  | .sum => "Sum"
  | .max => "Max"
  | .min => "Min"
  | .length => "Length"
  | .copy => "CopyStateTuple"

end Family

namespace Combinator

def family : Combinator → Family
  | .map .. => .map
  | .filter .. => .filter
  | .zipWith _ => .zipWith
  | .take _ => .take
  | .drop _ => .drop
  | .sum => .sum
  | .max => .max
  | .min => .min
  | .length => .length
  | .copy => .copy

/-- The part a combinator plays is that of its family, whatever its operator and number. -/
def role : Combinator → Role
  | .map .. | .filter .. | .take _ | .drop _ => .slotwise
  | .zipWith _ => .pairwise
  | .sum | .max | .min | .length => .aggregate
  | .copy => .duplication

def arity (c : Combinator) : Nat :=
  match c.role with
  | .pairwise => 2
  | _ => 1

def arith? : Combinator → Option ArithOp
  | .map op _ | .zipWith op => some op
  | _ => none

def comparison? : Combinator → Option Comparison
  | .filter test _ => some test
  | _ => none

def text : Combinator → String
  | .map op n => "map(" ++ op.symbol ++ " " ++ toString n.toInt ++ ")"
  | .filter test n => "filter(" ++ test.symbol ++ " " ++ toString n.toInt ++ ")"
  | .zipWith op => "zip_with(" ++ op.symbol ++ ")"
  | .take n => "take(" ++ toString n.toInt ++ ")"
  | .drop n => "drop(" ++ toString n.toInt ++ ")"
  | c => c.family.name

end Combinator

end ListSynth
