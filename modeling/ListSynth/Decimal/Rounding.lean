/-!
Exact rounding: quotients to the nearest integer, and binary numbers to decimal ones.
-/

namespace ListSynth.Decimal

/-- The integer nearest to a quotient; of two that are equally near, the even one. -/
def roundDiv (num den : Nat) : Nat :=
  let q := num / den
  let r := num % den
  if 2 * r < den then q
  else if den < 2 * r then q + 1
  else if q % 2 = 0 then q else q + 1

/-- A finite number as its sign, a natural number and the power of two that scales it. -/
structure Binary where
  negative : Bool
  significand : Nat
  exponent : Int
  deriving DecidableEq, Repr

def Binary.ofFloat? (x : Float) : Option Binary :=
  let bits := x.toBits.toNat
  let negative := Nat.pow 2 63 ≤ bits
  let e : Nat := bits / Nat.pow 2 52 % Nat.pow 2 11
  let m : Nat := bits % Nat.pow 2 52
  if e = Nat.pow 2 11 - 1 then none
  else if e = 0 then some ⟨negative, m, -1074⟩
  else some ⟨negative, m + Nat.pow 2 52, (e : Int) - 1075⟩

def Binary.quotient (b : Binary) : Nat × Nat :=
  if 0 ≤ b.exponent then (b.significand * Nat.pow 2 b.exponent.toNat, 1)
  else (b.significand, Nat.pow 2 (-b.exponent).toNat)

def padLeft (width : Nat) (s : String) : String :=
  String.ofList (List.replicate (width - s.length) '0') ++ s

def withPoint (places : Nat) (n : Nat) : String :=
  if places = 0 then toString n
  else toString (n / Nat.pow 10 places) ++ "." ++ padLeft places (toString (n % Nat.pow 10 places))

/-- A number with a fixed count of decimal places, rounded from its exact value. -/
def fixed (places : Nat) (x : Float) : String :=
  match Binary.ofFloat? x with
  | some b =>
    let (num, den) := b.quotient
    (if b.negative then "-" else "") ++ withPoint places (roundDiv (num * Nat.pow 10 places) den)
  | none => if x.isNaN then "NaN" else if x < 0.0 then "-inf" else "inf"

end ListSynth.Decimal
