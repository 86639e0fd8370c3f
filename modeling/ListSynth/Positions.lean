/-!
Lists of positions: which of them name distinct places of a list, and the merging of the places they name
into one.
-/

namespace ListSynth.Positions

/-- The first position that is past the end or was named before. -/
def fault? (length : Nat) (seen : List Nat) : List Nat → Option Nat
  | [] => none
  | i :: rest => if length ≤ i ∨ i ∈ seen then some i else fault? length (seen ++ [i]) rest

def insertDescending (i : Nat) : List Nat → List Nat
  | [] => [i]
  | j :: rest =>
    if j < i then i :: j :: rest
    else if i = j then j :: rest
    else j :: insertDescending i rest

def descending (positions : List Nat) : List Nat := positions.foldr insertDescending []

/-- The result takes the place of the least position; the other places are removed, from the back. -/
def fuse {α : Type} (items : List α) (positions : List Nat) (result : α) : List α :=
  match positions.min? with
  | none => items
  | some least =>
    (descending (positions.filter (· ≠ least))).foldl List.eraseIdx (items.set least result)

def text (positions : List Nat) : String := "[" ++ ", ".intercalate (positions.map toString) ++ "]"

end ListSynth.Positions
