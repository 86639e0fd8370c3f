import ListSynth.Combinator
/-!
Grammars: the combinators a search may use, and the alphabets that their operators and numbers come from.
A grammar exists only for alphabets without fault.
-/

namespace ListSynth

structure Alphabets where
  families : List Family := Family.library
  arithOps : List ArithOp := ArithOp.all
  mapNumbers : List Int64 := [1, 2, 3, 4, 5]
  comparisons : List Comparison := Comparison.all
  filterNumbers : List Int64 := [0, 1, 2, 3, 4, 5]
  takeDropNumbers : List Int64 := [1, 2, 3, 4, 5]
  /-- How many slots of a state the scorer weighs. -/
  indexSlots : Nat := 5
  deriving DecidableEq, Repr

inductive Alphabets.Field where
  | families
  | arithOps
  | mapNumbers
  | comparisons
  | filterNumbers
  | takeDropNumbers
  | indexSlots
  deriving DecidableEq, Repr

def Alphabets.Field.name : Alphabets.Field → String
  | .families => "definitions"
  | .arithOps => "num_operators"
  | .mapNumbers => "map_numbers"
  | .comparisons => "bool_operators"
  | .filterNumbers => "filter_numbers"
  | .takeDropNumbers => "take_drop_numbers"
  | .indexSlots => "index_slots"

inductive GrammarError where
  | copyListed
  /-- A letter, given by its label, occurs twice. -/
  | duplicate (letter : String) (field : Alphabets.Field)
  | empty (field : Alphabets.Field)
  deriving DecidableEq, Repr

def GrammarError.message : GrammarError → String
  | .copyListed =>
    "invalid grammar: copy_state_tuple is appended automatically and must not be listed"
  | .duplicate letter field => "invalid grammar: duplicate entry " ++ letter ++ " in " ++ field.name
  | .empty field => "invalid grammar: " ++ field.name ++ " must not be empty"

def firstRepeated? {α : Type} [DecidableEq α] (seen : List α) : List α → Option α
  | [] => none
  | a :: rest => if a ∈ seen then some a else firstRepeated? (a :: seen) rest

namespace Alphabets

def repeated {α : Type} [DecidableEq α] (field : Field) (label : α → String) (letters : List α) :
    Option GrammarError :=
  (firstRepeated? [] letters).map fun a => .duplicate (label a) field

def missing (field : Field) (size : Nat) (needed : Bool) : Option GrammarError :=
  if needed && size == 0 then some (.empty field) else none

/-- The first fault: copying listed, then repeated letters, then empty alphabets that a family needs. -/
def fault? (a : Alphabets) : Option GrammarError :=
  let uses f := decide (f ∈ a.families)
  (if Family.copy ∈ a.families then some .copyListed else none)
    <|> repeated .families Family.label a.families
    <|> repeated .arithOps ArithOp.label a.arithOps
    <|> repeated .mapNumbers (toString ·.toInt) a.mapNumbers
    <|> repeated .comparisons Comparison.label a.comparisons
    <|> repeated .filterNumbers (toString ·.toInt) a.filterNumbers
    <|> repeated .takeDropNumbers (toString ·.toInt) a.takeDropNumbers
    <|> missing .arithOps a.arithOps.length (uses .map || uses .zipWith)
    <|> missing .mapNumbers a.mapNumbers.length (uses .map)
    <|> missing .comparisons a.comparisons.length (uses .filter)
    <|> missing .filterNumbers a.filterNumbers.length (uses .filter)
    <|> missing .takeDropNumbers a.takeDropNumbers.length (uses .take || uses .drop)
    <|> missing .indexSlots a.indexSlots true

/-- The members of a family, operators outside and numbers inside, each in its alphabet's order. -/
def members (a : Alphabets) : Family → List Combinator
  | .map => a.arithOps.flatMap fun op => a.mapNumbers.map (.map op)
  | .filter => a.comparisons.flatMap fun test => a.filterNumbers.map (.filter test)
  | .zipWith => a.arithOps.map .zipWith
  | .take => a.takeDropNumbers.map .take
  | .drop => a.takeDropNumbers.map .drop
  | .sum => [.sum]
  | .max => [.max]
  | .min => [.min]
  | .length => [.length]
  | .copy => [.copy]

end Alphabets

structure Grammar where
  alphabets : Alphabets
  faultless : alphabets.fault? = none

namespace Grammar

def ofAlphabets (a : Alphabets) : Except GrammarError Grammar :=
  match h : a.fault? with
  | none => .ok ⟨a, h⟩
  | some e => .error e

def default : Grammar := ⟨{}, by decide⟩

/-- The families in use, in library order whatever the order they are listed in, and copying last. -/
def families (g : Grammar) : List Family :=
  Family.library.filter (· ∈ g.alphabets.families) ++ [.copy]

def combinators (g : Grammar) : List Combinator := g.families.flatMap g.alphabets.members

def familyIndex? (g : Grammar) (f : Family) : Option Nat := g.families.idxOf? f

def arithIndex? (g : Grammar) (op : ArithOp) : Option Nat := g.alphabets.arithOps.idxOf? op

def comparisonIndex? (g : Grammar) (test : Comparison) : Option Nat :=
  g.alphabets.comparisons.idxOf? test

def mapNumberIndex? (g : Grammar) (n : Int64) : Option Nat := g.alphabets.mapNumbers.idxOf? n

def filterNumberIndex? (g : Grammar) (n : Int64) : Option Nat := g.alphabets.filterNumbers.idxOf? n

def takeDropNumberIndex? (g : Grammar) (n : Int64) : Option Nat :=
  g.alphabets.takeDropNumbers.idxOf? n

end Grammar

end ListSynth
