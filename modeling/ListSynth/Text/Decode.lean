import ListSynth.Grammar
import ListSynth.Task
import ListSynth.Text.Reader
/-!
Values, tasks and alphabets from JSON text. Lists and records may be nested 127 deep; entries that are
passed over do not count.
-/

namespace ListSynth

def maxNesting : Nat := 127

namespace Value

mutual

def ofDatum? (depth : Nat) : Datum → Option Value
  | .bool b => some (.bool b)
  | .int n => (int64? n).map .int
  | .list items =>
    match depth with
    | 0 => none
    | depth + 1 => (ofDatumList? depth items).map .list
  | _ => none

def ofDatumList? (depth : Nat) : List Datum → Option (List Value)
  | [] => some []
  | d :: ds =>
    match ofDatum? depth d, ofDatumList? depth ds with
    | some v, some vs => some (v :: vs)
    | _, _ => none

end

def ofText? (s : String) : Option Value := (Datum.ofText? s).bind (ofDatum? maxNesting)

end Value

namespace Task

/-- A task is a record of its inputs and target, both of which have to be there. -/
def ofDatum? (depth : Nat) (d : Datum) : Option Task :=
  match depth, d.entries? ["input", "target"] with
  | depth + 2, some [some (.list inputs), some target] => do
    return ⟨← Value.ofDatumList? depth inputs, ← Value.ofDatum? (depth + 1) target⟩
  | _, _ => none

def allOfText? (s : String) : Option (List Task) := do
  (← (← Datum.ofText? s).items?).mapM (ofDatum? (maxNesting - 1))

end Task

namespace Alphabets

/-- The letters of an entry, each of which `letter` reads; a missing entry has the default letters. -/
def letters {α : Type} (letter : Datum → Option α) (default : List α) :
    Option Datum → Option (List α)
  | none => some default
  | some d => d.items?.bind (·.mapM letter)

def named {α : Type} (all : List α) (symbol : α → String) (d : Datum) : Option α :=
  d.name?.bind fun s => all.find? (symbol · == s)

def number : Datum → Option Int64
  | .int n => int64? n
  | _ => none

def ofDatum? (d : Datum) : Option Alphabets := do
  let fields : List Field :=
    [.families, .arithOps, .mapNumbers, .comparisons, .filterNumbers, .takeDropNumbers, .indexSlots]
  let a : Alphabets := {}
  match ← d.entries? (fields.map Field.name) with
  | [families, arithOps, mapNumbers, comparisons, filterNumbers, takeDropNumbers, indexSlots] =>
    return {
      families := ← letters (named (Family.library ++ [Family.copy]) Family.name) a.families families
      arithOps := ← letters (named ArithOp.all ArithOp.symbol) a.arithOps arithOps
      mapNumbers := ← letters number a.mapNumbers mapNumbers
      comparisons := ← letters (named Comparison.all Comparison.symbol) a.comparisons comparisons
      filterNumbers := ← letters number a.filterNumbers filterNumbers
      takeDropNumbers := ← letters number a.takeDropNumbers takeDropNumbers
      indexSlots := ← match indexSlots with
        | none => some a.indexSlots
        | some n => n.count? }
  | _ => none

def ofText? (s : String) : Option Alphabets := (Datum.ofText? s).bind ofDatum?

end Alphabets

end ListSynth
