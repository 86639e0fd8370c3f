import ListSynth.Decimal.Rounding
/-!
The shortest decimal that reads back as a given binary number, and of those the nearest to it.
-/

namespace ListSynth.Decimal

structure Scaled where
  digits : Nat
  exponent : Int
  deriving DecidableEq, Repr

/-- The numbers that round to a positive binary number, in units of a quarter of its last place: its own
value, the least and the greatest, and whether these two belong to it. -/
structure Interval where
  low : Nat
  middle : Nat
  high : Nat
  closed : Bool
  exponent : Int

/-- The interval of a significand; below a power of two the neighbours are twice as near. -/
def Interval.ofBinary (b : Binary) : Interval where
  low := if b.significand = Nat.pow 2 52 ∧ -1074 < b.exponent then 4 * b.significand - 1
    else 4 * b.significand - 2
  middle := 4 * b.significand
  high := 4 * b.significand + 2
  closed := b.significand % 2 = 0
  exponent := b.exponent - 2

/-- Two positive numbers with a common factor taken out: a count of units, and one of steps of a decimal
grid, both in the same measure. -/
def commonMeasure (units : Nat) (unitExponent : Int) (grid : Int) : Nat × Nat :=
  let twos := unitExponent.toNat
  let halves := (-unitExponent).toNat
  let tens := grid.toNat
  let tenths := (-grid).toNat
  (units * Nat.pow 2 twos * Nat.pow 10 tenths, Nat.pow 10 tens * Nat.pow 2 halves)

def Interval.holds (i : Interval) (grid : Int) (steps : Nat) : Bool :=
  let (low, step) := commonMeasure i.low i.exponent grid
  let (high, _) := commonMeasure i.high i.exponent grid
  if i.closed then low ≤ steps * step && steps * step ≤ high
  else low < steps * step && steps * step < high

def Interval.onGrid? (i : Interval) (grid : Int) : Option Nat :=
  let (middle, step) := commonMeasure i.middle i.exponent grid
  let below := middle / step
  let nearest := roundDiv middle step
  let other := if nearest = below then below + 1 else below
  if i.holds grid nearest && nearest != 0 then some nearest
  else if i.holds grid other && other != 0 then some other
  else none

/-- The least power of ten past a positive number, found from a guess no more than the fuel away. -/
def magnitude (num den : Nat) : Nat → Int → Int
  | 0, k => k
  | fuel + 1, k =>
    let (n, step) := (num * Nat.pow 10 (-k).toNat, den * Nat.pow 10 k.toNat)
    if step ≤ n then magnitude num den fuel (k + 1)
    else if n * 10 < step then magnitude num den fuel (k - 1)
    else k

def firstGrid (i : Interval) (top : Int) : Nat → Nat → Scaled
  | 0, n => ⟨(i.onGrid? (top - n)).getD 0, top - n⟩
  | fuel + 1, n =>
    match i.onGrid? (top - n) with
    | some digits => ⟨digits, top - n⟩
    | none => firstGrid i top fuel (n + 1)

def trim : Nat → Scaled → Scaled
  | 0, s => s
  | fuel + 1, s => if s.digits % 10 = 0 ∧ s.digits ≠ 0 then trim fuel ⟨s.digits / 10, s.exponent + 1⟩ else s

def shortest (b : Binary) : Scaled :=
  let (num, den) := b.quotient
  let guess : Int := ((Nat.log2 b.significand : Int) + b.exponent) * 30103 / 100000
  trim 20 (firstGrid (Interval.ofBinary b) (magnitude num den 8 guess) 17 1)

/-- Plain notation is used while the point stands within these many digits before and after the first. -/
structure PlainRange where
  before : Int
  after : Int

def report : PlainRange := ⟨16, -5⟩

def Scaled.text (style : PlainRange) (s : Scaled) : String :=
  let ds := toString s.digits
  let point : Int := ds.length + s.exponent
  if 0 ≤ s.exponent ∧ point ≤ style.before then
    ds ++ String.ofList (List.replicate s.exponent.toNat '0') ++ ".0"
  else if 0 < point ∧ point ≤ style.before then
    String.ofList (ds.toList.take point.toNat) ++ "." ++ String.ofList (ds.toList.drop point.toNat)
  else if style.after < point ∧ point ≤ 0 then
    "0." ++ String.ofList (List.replicate (-point).toNat '0') ++ ds
  else
    let tail := String.ofList (ds.toList.drop 1)
    String.ofList (ds.toList.take 1) ++ (if tail.isEmpty then "" else "." ++ tail) ++ "e" ++
      toString (point - 1)

def text? (style : PlainRange) (x : Float) : Option String :=
  (Binary.ofFloat? x).map fun b =>
    (if b.negative then "-" else "") ++
      if b.significand = 0 then "0.0" else (shortest b).text style

end ListSynth.Decimal
