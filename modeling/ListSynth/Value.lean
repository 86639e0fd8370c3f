/-!
Values that programs act on: booleans, 64-bit integers and lists of values, with their two texts.
-/

namespace ListSynth

inductive Value where
  | bool (b : Bool)
  | int (n : Int64)
  | list (items : List Value)
  deriving Repr, Inhabited

namespace Value

mutual

def decEq : (v w : Value) → Decidable (v = w)
  | .bool a, .bool b => decidable_of_iff (a = b) (by simp)
  | .int a, .int b => decidable_of_iff (a = b) (by simp)
  | .list xs, .list ys => match decEqList xs ys with
    | isTrue h => isTrue (congrArg _ h)
    | isFalse h => isFalse fun e => h (Value.list.inj e)
  | .bool _, .int _ => isFalse (by simp)
  | .bool _, .list _ => isFalse (by simp)
  | .int _, .bool _ => isFalse (by simp)
  | .int _, .list _ => isFalse (by simp)
  | .list _, .bool _ => isFalse (by simp)
  | .list _, .int _ => isFalse (by simp)

def decEqList : (xs ys : List Value) → Decidable (xs = ys)
  | [], [] => isTrue rfl
  | [], _ :: _ => isFalse (by simp)
  | _ :: _, [] => isFalse (by simp)
  | x :: xs, y :: ys => match decEq x y, decEqList xs ys with
    | isTrue h, isTrue hs => isTrue (by rw [h, hs])
    | isFalse h, _ => isFalse fun e => h (List.cons.inj e).1
    | _, isFalse hs => isFalse fun e => hs (List.cons.inj e).2

end

instance : DecidableEq Value := decEq

def ofInts (xs : List Int64) : Value := .list (xs.map .int)

def isScalar : Value → Bool
  | .list _ => false
  | _ => true

def items? : Value → Option (List Value)
  | .list items => some items
  | _ => none

def int? : Value → Option Int64
  | .int n => some n
  | _ => none

def ints? (v : Value) : Option (List Int64) := v.items?.bind (·.mapM int?)

def head? (v : Value) : Option Value := v.items?.bind List.head?

/-- How many items a list has; a scalar has none. -/
def length (v : Value) : Nat := (v.items?.getD []).length

def isEmptyList : Value → Bool
  | .list [] => true
  | _ => false

mutual

/-- How many lists enclose the innermost point of a value. -/
def nesting : Value → Nat
  | .list items => 1 + nestingList items
  | _ => 0

def nestingList : List Value → Nat
  | [] => 0
  | v :: vs => max v.nesting (nestingList vs)

end

mutual

/-- The text of a value whose list items are set apart by `gap`. -/
def textWith (gap : String) : Value → String
  | .bool b => if b then "true" else "false"
  | .int n => toString n.toInt
  | .list items => "[" ++ itemsWith gap items ++ "]"

def itemsWith (gap : String) : List Value → String
  | [] => ""
  | [v] => v.textWith gap
  | v :: w :: vs => v.textWith gap ++ gap ++ itemsWith gap (w :: vs)

end

def text (v : Value) : String := v.textWith ", "

def compact (v : Value) : String := v.textWith ","

end Value

end ListSynth
