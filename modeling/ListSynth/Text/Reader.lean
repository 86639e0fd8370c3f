import ListSynth.Text.Token
/-!
The data of a JSON text. Tokens are taken one at a time; what is open is kept on a stack.
-/

namespace ListSynth

/-- A list or record that is still open, its parts so far with the latest first. -/
inductive Frame where
  | list (items : List Datum)
  | record (fields : List (Option String × Datum))
  /-- A record with a key that waits for its datum. -/
  | entry (fields : List (Option String × Datum)) (key : Option String)

inductive Expecting where
  | datum
  /-- A datum, or the end of a list that has just begun. -/
  | datumOrEnd
  | key
  /-- A key, or the end of a record that has just begun. -/
  | keyOrEnd
  | colon
  | commaOrEnd
  | nothing (result : Datum)

structure Assembly where
  stack : List Frame
  expecting : Expecting

namespace Assembly

/-- Hand a complete datum to the innermost open list or record. -/
def deliver (d : Datum) : List Frame → Option Assembly
  | [] => some ⟨[], .nothing d⟩
  | .list items :: rest => some ⟨.list (d :: items) :: rest, .commaOrEnd⟩
  | .entry fields key :: rest => some ⟨.record ((key, d) :: fields) :: rest, .commaOrEnd⟩
  | .record _ :: _ => none

def begin (t : Token) (stack : List Frame) : Option Assembly :=
  match t with
  | .openList => some ⟨.list [] :: stack, .datumOrEnd⟩
  | .openRecord => some ⟨.record [] :: stack, .keyOrEnd⟩
  | .atom d => deliver d stack
  | _ => none

def close (t : Token) (stack : List Frame) : Option Assembly :=
  match t, stack with
  | .closeList, .list items :: rest => deliver (.list items.reverse) rest
  | .closeRecord, .record fields :: rest => deliver (.record fields.reverse) rest
  | _, _ => none

def name (t : Token) (stack : List Frame) : Option Assembly :=
  match t, stack with
  | .atom (.string key), .record fields :: rest => some ⟨.entry fields key :: rest, .colon⟩
  | _, _ => none

def separate (t : Token) (stack : List Frame) : Option Assembly :=
  match t, stack with
  | .comma, .list items :: rest => some ⟨.list items :: rest, .datum⟩
  | .comma, .record fields :: rest => some ⟨.record fields :: rest, .key⟩
  | _, _ => none

def take (a : Assembly) (t : Token) : Option Assembly :=
  match a.expecting with
  | .datum => begin t a.stack
  | .datumOrEnd => close t a.stack <|> begin t a.stack
  | .key => name t a.stack
  | .keyOrEnd => close t a.stack <|> name t a.stack
  | .colon => match t with
    | .colon => some ⟨a.stack, .datum⟩
    | _ => none
  | .commaOrEnd => close t a.stack <|> separate t a.stack
  | .nothing _ => none

end Assembly

def Datum.ofTokens? (tokens : List Token) : Option Datum :=
  match tokens.foldlM Assembly.take ⟨[], .datum⟩ with
  | some ⟨_, .nothing d⟩ => some d
  | _ => none

def Datum.ofText? (s : String) : Option Datum := (Token.ofText? s.toList).bind Datum.ofTokens?

end ListSynth
