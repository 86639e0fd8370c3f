/-!
The numbers that weights and ranks are: binary floating-point numbers of 64 bits. What is no number has a
sign as well, which the order of ranks shows: an operand that is no number is passed on as the result, and
where numbers have no result the sign is negative.
-/

namespace ListSynth

/-- A number by its bits: the sign, eleven bits of exponent and fifty-two of fraction. -/
structure Number where
  bits : UInt64
  deriving DecidableEq, Repr

namespace Number

@[inline] def ofFloat (x : Float) : Number := ⟨x.toBits⟩

@[inline] def toFloat (a : Number) : Float := .ofBits a.bits

def zero : Number := ⟨0⟩

def one : Number := ⟨0x3FF0000000000000⟩

def leastInfinity : Number := ⟨0xFFF0000000000000⟩

def undefined : Number := ⟨0xFFF8000000000000⟩

/-- Magnitudes past the infinite one are no numbers. -/
@[inline] def isNaN (a : Number) : Bool := 0x7FF0000000000000 < a.bits &&& 0x7FFFFFFFFFFFFFFF

def isZero (a : Number) : Bool := a.bits &&& 0x7FFFFFFFFFFFFFFF == 0

/-- The result of an operation on numbers. -/
@[inline] def settle (x : Float) : Number := if x.isNaN then undefined else ofFloat x

@[inline] def unary (f : Float → Float) (a : Number) : Number :=
  if a.isNaN then a else settle (f a.toFloat)

/-- An operation on two operands, of which the first that is no number decides. -/
@[inline] def binary (f : Float → Float → Float) (a b : Number) : Number :=
  if a.isNaN then a else if b.isNaN then b else settle (f a.toFloat b.toFloat)

instance : Add Number := ⟨binary (· + ·)⟩

instance : Sub Number := ⟨binary (· - ·)⟩

instance : Div Number := ⟨binary (· / ·)⟩

instance : Neg Number := ⟨fun a => ⟨a.bits ^^^ 0x8000000000000000⟩⟩

def exp (a : Number) : Number := a.unary Float.exp

def log (a : Number) : Number := a.unary Float.log

def greater (a b : Number) : Number :=
  if a.toFloat < b.toFloat then b else if a.isNaN then b else a

/-- Bits turned so that unsigned order on keys is a total order: what is no number and negative, negative
numbers from the greatest magnitude, positive ones from the least, and what is no number and positive. -/
def key (a : Number) : UInt64 :=
  if a.bits < 0x8000000000000000 then a.bits + 0x8000000000000000 else ~~~a.bits

end Number

end ListSynth
