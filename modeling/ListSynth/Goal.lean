import ListSynth.Slot
/-!
The goal of a search, when a state reaches it, and which states cannot.
-/

namespace ListSynth

structure Goal where
  components : List Value
  deriving DecidableEq, Repr

/-- Why a state is not searched further: a scalar takes no more list steps, and lists never grow back. -/
inductive DeadEnd where
  | scalar
  | overshoot
  deriving DecidableEq, Repr

namespace Goal

/-- A list that begins with a list is a family of components; every other target is one component. -/
def ofTarget : Value → Goal
  | .list (.list xs :: rest) => ⟨.list xs :: rest⟩
  | v => ⟨[v]⟩

/-- The lengths below which components overshoot, when the first component is a list. -/
def minLengths (g : Goal) : Option (List Nat) :=
  match g.components with
  | .list _ :: _ => some (g.components.map Value.length)
  | _ => none

def text (g : Goal) : String := (Slot.mk g.components).text

/-- One slot is left, and it carries the components or begins with the first item of the first of them. -/
def isReachedBy (g : Goal) : State → Bool
  | [slot] =>
    slot.components == g.components ||
      match slot.components.head?, g.components.head?.bind Value.head? with
      | some found, some wanted => found == wanted
      | _, _ => false
  | _ => false

end Goal

namespace Slot

def overshoots (s : Slot) (lengths : List Nat) : Bool :=
  (s.components.zip lengths).any fun (v, least) =>
    match v with
    | .list items => decide (items.length < least)
    | _ => false

end Slot

namespace State

/-- A scalar decides first; lengths count only where the goal sets them. -/
def deadEnd? (s : State) (lengths : Option (List Nat)) : Option DeadEnd :=
  if s.hasScalar then some .scalar
  else match lengths with
    | some ls => if s.any (·.overshoots ls) then some .overshoot else none
    | none => none

end State

end ListSynth
