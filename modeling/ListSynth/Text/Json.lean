import ListSynth.Decimal.Shortest
/-!
JSON documents that reports are written as.
-/

namespace ListSynth

/-- A document. A record keeps its entries in the order they are given. -/
inductive Json where
  | null
  | bool (b : Bool)
  | int (n : Int)
  | real (x : Float)
  | string (s : String)
  | list (items : List Json)
  | record (fields : List (String × Json))
  deriving Inhabited

namespace Json

def ofOption {α : Type} (f : α → Json) : Option α → Json
  | some a => f a
  | none => .null

def ofNat (n : Nat) : Json := .int n

def hexDigit (n : Nat) : Char := Nat.digitChar (n % 16)

def escaped (c : Char) : List Char :=
  match c with
  | '"' => ['\\', '"']
  | '\\' => ['\\', '\\']
  | '\x08' => ['\\', 'b']
  | '\x0c' => ['\\', 'f']
  | '\n' => ['\\', 'n']
  | '\r' => ['\\', 'r']
  | '\t' => ['\\', 't']
  | c => if c < ' ' then ['\\', 'u', '0', '0', hexDigit (c.toNat / 16), hexDigit c.toNat] else [c]

def quoted (s : String) : String := "\"" ++ String.ofList (s.toList.flatMap escaped) ++ "\""

def indent (depth : Nat) : String := "\n" ++ String.ofList (List.replicate (2 * depth) ' ')

mutual

def sorted : Json → Json
  | .list ds => .list (sortedItems ds)
  | .record fields => .record ((sortedFields fields).mergeSort fun a b => decide (a.1 ≤ b.1))
  | d => d

/-- Items keep their order; records inside them are sorted. -/
def sortedItems : List Json → List Json
  | [] => []
  | d :: ds => d.sorted :: sortedItems ds

def sortedFields : List (String × Json) → List (String × Json)
  | [] => []
  | (k, d) :: fields => (k, d.sorted) :: sortedFields fields

end

mutual

/-- The text of a document over several lines; a number that is not finite is written as null. -/
def pretty (depth : Nat) : Json → String
  | .null => "null"
  | .bool b => if b then "true" else "false"
  | .int n => toString n
  | .real x => (Decimal.text? Decimal.report x).getD "null"
  | .string s => quoted s
  | .list [] => "[]"
  | .list (d :: ds) =>
    "[" ++ indent (depth + 1) ++ d.pretty (depth + 1) ++ prettyItems (depth + 1) ds ++ indent depth ++ "]"
  | .record [] => "\x7b\x7d"
  | .record ((k, d) :: fields) =>
    "\x7b" ++ indent (depth + 1) ++ quoted k ++ ": " ++ d.pretty (depth + 1) ++
      prettyFields (depth + 1) fields ++ indent depth ++ "\x7d"

def prettyItems (depth : Nat) : List Json → String
  | [] => ""
  | d :: ds => "," ++ indent depth ++ d.pretty depth ++ prettyItems depth ds

def prettyFields (depth : Nat) : List (String × Json) → String
  | [] => ""
  | (k, d) :: fields =>
    "," ++ indent depth ++ quoted k ++ ": " ++ d.pretty depth ++ prettyFields depth fields

end

end Json

end ListSynth
