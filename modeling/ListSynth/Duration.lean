import ListSynth.Decimal.Rounding
/-!
Durations, counted in nanoseconds.
-/

namespace ListSynth.Duration

structure Scale where
  sign : String
  length : Nat

def scale (ns : Nat) : Scale :=
  if 1000000000 ≤ ns then ⟨"s", 1000000000⟩
  else if 1000000 ≤ ns then ⟨"ms", 1000000⟩
  else if 1000 ≤ ns then ⟨"µs", 1000⟩
  else ⟨"ns", 1⟩

/-- Two decimal places; the unit stays when rounding reaches the next one. -/
def text (ns : Nat) : String :=
  Decimal.withPoint 2 (Decimal.roundDiv (ns * 100) (scale ns).length) ++ (scale ns).sign

def seconds (ns : Nat) : Float :=
  (UInt64.ofNat (ns / 1000000000)).toFloat + (UInt64.ofNat (ns % 1000000000)).toFloat / 1000000000.0

def milliseconds (ns : Nat) : Float := seconds ns * 1000.0

end ListSynth.Duration
