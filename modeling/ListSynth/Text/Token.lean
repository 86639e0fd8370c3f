import ListSynth.Text.Datum
/-!
The tokens of JSON text. Text is read a character at a time; words are as long as they can be, and what
they mean is decided at their end.
-/

namespace ListSynth

inductive Token where
  | openList
  | closeList
  | openRecord
  | closeRecord
  | comma
  | colon
  | atom (d : Datum)
  deriving Repr

namespace Token

def isBlank (c : Char) : Bool := c = ' ' || c = '\t' || c = '\n' || c = '\r'

def ofMark? : Char → Option Token
  | '[' => some .openList
  | ']' => some .closeList
  | '\x7b' => some .openRecord
  | '\x7d' => some .closeRecord
  | ',' => some .comma
  | ':' => some .colon
  | _ => none

def isDigits (cs : List Char) : Bool := !cs.isEmpty && cs.all Char.isDigit

def isExponent : List Char → Bool
  | [] => true
  | e :: '+' :: cs => (e = 'e' || e = 'E') && isDigits cs
  | e :: '-' :: cs => (e = 'e' || e = 'E') && isDigits cs
  | e :: cs => (e = 'e' || e = 'E') && isDigits cs

def isTail : List Char → Bool
  | '.' :: cs => isDigits (cs.takeWhile Char.isDigit) && isExponent (cs.dropWhile Char.isDigit)
  | cs => isExponent cs

def isWhole (ds : List Char) : Bool := isDigits ds && (ds.head? != some '0' || ds.length == 1)

/-- The number of an unsigned numeral. Minus zero is no integer. -/
def ofNumeral? (negative : Bool) (cs : List Char) : Option Datum :=
  let ds := cs.takeWhile Char.isDigit
  let tail := cs.dropWhile Char.isDigit
  if isWhole ds then
    if tail.isEmpty then
      let n := Nat.ofDigitChars 10 ds 0
      some (if negative then (if n = 0 then .real else .int (-(n : Int))) else .int n)
    else if isTail tail then some .real
    else none
  else none

def ofWord? : List Char → Option Datum
  | ['n', 'u', 'l', 'l'] => some .null
  | ['t', 'r', 'u', 'e'] => some (.bool true)
  | ['f', 'a', 'l', 's', 'e'] => some (.bool false)
  | '-' :: cs => ofNumeral? true cs
  | cs => ofNumeral? false cs

def hexValue? (c : Char) : Option Nat :=
  if '0' ≤ c ∧ c ≤ '9' then some (c.toNat - '0'.toNat)
  else if 'a' ≤ c ∧ c ≤ 'f' then some (c.toNat - 'a'.toNat + 10)
  else if 'A' ≤ c ∧ c ≤ 'F' then some (c.toNat - 'A'.toNat + 10)
  else none

def ofEscape? : Char → Option Char
  | '"' => some '"'
  | '\\' => some '\\'
  | '/' => some '/'
  | 'b' => some '\x08'
  | 'f' => some '\x0c'
  | 'n' => some '\n'
  | 'r' => some '\r'
  | 't' => some '\t'
  | _ => none

end Token

structure PartialString where
  chars : List Char := []
  /-- A high surrogate that waits for its pair. -/
  high : Option Nat := none
  /-- Every surrogate so far has its pair. -/
  paired : Bool := true

namespace PartialString

/-- A character that is no surrogate leaves a waiting one without its pair. -/
def push (s : PartialString) (c : Char) : PartialString :=
  ⟨c :: s.chars, none, s.paired && s.high.isNone⟩

def pushUnit (s : PartialString) (u : Nat) : PartialString :=
  if 0xDC00 ≤ u ∧ u < 0xE000 then
    match s.high with
    | some h => ⟨Char.ofNat (0x10000 + (h - 0xD800) * 0x400 + (u - 0xDC00)) :: s.chars, none, s.paired⟩
    | none => { s with paired := false }
  else if 0xD800 ≤ u ∧ u < 0xDC00 then
    { s with high := some u, paired := s.paired && s.high.isNone }
  else s.push (Char.ofNat u)

def text? (s : PartialString) : Option String :=
  if s.paired && s.high.isNone then some (String.ofList s.chars.reverse) else none

end PartialString

inductive Lexing where
  | between
  | word (chars : List Char)
  | string (s : PartialString)
  | escape (s : PartialString)
  /-- Inside the four digits of a code unit, with the value so far and the digits to come. -/
  | unit (s : PartialString) (value remaining : Nat)

namespace Lexing

/-- Begin a token with a character. Tokens are kept with the latest first. -/
def start (tokens : List Token) (c : Char) : List Token × Lexing :=
  if Token.isBlank c then (tokens, .between)
  else if c = '"' then (tokens, .string {})
  else match Token.ofMark? c with
    | some t => (t :: tokens, .between)
    | none => (tokens, .word [c])

def endsWord (c : Char) : Bool := Token.isBlank c || c = '"' || (Token.ofMark? c).isSome

def read : List Token × Lexing → Char → Option (List Token × Lexing)
  | (tokens, .between), c => some (start tokens c)
  | (tokens, .word chars), c =>
    if endsWord c then (Token.ofWord? chars.reverse).map fun d => start (.atom d :: tokens) c
    else some (tokens, .word (c :: chars))
  | (tokens, .string s), c =>
    if c = '"' then some (.atom (.string s.text?) :: tokens, .between)
    else if c = '\\' then some (tokens, .escape s)
    else if c < ' ' then none
    else some (tokens, .string (s.push c))
  | (tokens, .escape s), c =>
    if c = 'u' then some (tokens, .unit s 0 4)
    else (Token.ofEscape? c).map fun x => (tokens, .string (s.push x))
  | (tokens, .unit s value remaining), c =>
    (Token.hexValue? c).map fun digit =>
      let value := value * 16 + digit
      if remaining ≤ 1 then (tokens, .string (s.pushUnit value))
      else (tokens, .unit s value (remaining - 1))

def finish : List Token × Lexing → Option (List Token)
  | (tokens, .between) => some tokens.reverse
  | (tokens, .word chars) =>
    (Token.ofWord? chars.reverse).map fun d => (Token.atom d :: tokens).reverse
  | _ => none

end Lexing

def Token.ofText? (s : List Char) : Option (List Token) :=
  (s.foldlM Lexing.read ([], .between)).bind Lexing.finish

end ListSynth
