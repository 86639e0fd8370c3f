/-!
Data read from JSON text, as far as values, tasks and alphabets can use it: of a number only an integer is
kept, and of a string only a text.
-/

namespace ListSynth

/-- Data of a JSON text. A string whose escapes leave a surrogate without its pair denotes no text. -/
inductive Datum where
  | null
  | bool (b : Bool)
  | int (n : Int)
  /-- A number with a fraction or an exponent, or minus zero. -/
  | real
  | string (text : Option String)
  | list (items : List Datum)
  | record (fields : List (Option String × Datum))
  deriving Repr, Inhabited

namespace Datum

def items? : Datum → Option (List Datum)
  | .list items => some items
  | _ => none

def count? : Datum → Option Nat
  | .int n => if 0 ≤ n ∧ n.toNat < UInt64.size then some n.toNat else none
  | _ => none

/-- A name stands alone, or as the one key of a record that says nothing more of it. -/
def name? : Datum → Option String
  | .string text => text
  | .record [(text, .null)] => text
  | _ => none

/-- The entries of a record by name. Other entries are passed over; a name may not be given twice, and
every key has to denote a text. A list gives the entries in order, from the first. -/
def entries? (names : List String) : Datum → Option (List (Option Datum))
  | .list items =>
    if items.length ≤ names.length then some ((names.zipIdx).map fun (_, i) => items[i]?) else none
  | .record fields =>
    if fields.all fun (key, _) => key.isSome then
      names.mapM fun name =>
        match fields.filter fun (key, _) => key == some name with
        | [] => some none
        | [(_, d)] => some (some d)
        | _ => none
    else none
  | _ => none

end Datum

end ListSynth
