import ListSynth.Guide
/-!
The settings of a search, and the beam width of each of its iterations.
-/

namespace ListSynth

def saturate (n : Nat) : UInt64 := if n < UInt64.size then .ofNat n else .ofNat (UInt64.size - 1)

/-- A power that stops at the greatest word. From the 64th on, powers of two and more are past it. -/
def saturatingPow (a : UInt64) (k : Nat) : UInt64 :=
  match a.toNat with
  | 0 => if k = 0 then 1 else 0
  | 1 => 1
  | n => if k < 64 then saturate (Nat.pow n k) else .ofNat (UInt64.size - 1)

def saturatingMul (a b : UInt64) : UInt64 := saturate (a.toNat * b.toNat)

structure Settings where
  beamSize : UInt64 := 100
  maxLength : UInt64 := 6
  iterations : UInt32 := 3
  widening : UInt64 := 2
  scorer : ScorerKind := .uniform
  seed : Option UInt64 := none
  /-- Seconds after which a search is asked to stop. -/
  timeout : Option UInt64 := none
  deriving DecidableEq, Repr

inductive SettingsError where
  | noBeam
  | noIteration
  | noWidening
  deriving DecidableEq, Repr

def SettingsError.message : SettingsError → String
  | .noBeam => "invalid search configuration: beam size must be at least 1"
  | .noIteration => "invalid search configuration: at least one iteration is required"
  | .noWidening => "invalid search configuration: widening factor must be at least 2"

namespace Settings

/-- The beam width of iteration `k`, which grows by the widening factor until it can grow no more. -/
def width (c : Settings) (k : Nat) : UInt64 := saturatingMul (saturatingPow c.widening k) c.beamSize

/-- The first setting at fault. Each iteration has to be wider than the last. -/
def fault? (c : Settings) : Option SettingsError :=
  if c.beamSize = 0 then some .noBeam
  else if c.iterations = 0 then some .noIteration
  else if c.widening < 2 then some .noWidening
  else none

end Settings

end ListSynth
