import Microkernel.Decimal.Shortest

/-! # Single-precision numbers

A number is its thirty-two bits, so that the payload of a not-a-number survives every copy.
-/

namespace Microkernel

/-- A binary floating-point number of thirty-two bits. -/
structure Single where
  bits : UInt32
  deriving DecidableEq

namespace Single

def toFloat32 (x : Single) : Float32 :=
  Float32.ofBits x.bits

def isNegative (x : Single) : Bool :=
  x.bits >>> 31 != 0

/-- The eight bits of the biased exponent. -/
def biasedExponent (x : Single) : Nat :=
  ((x.bits >>> 23) &&& 0xFF).toNat

/-- The twenty-three bits of the fraction. -/
def fraction (x : Single) : Nat :=
  (x.bits &&& 0x7FFFFF).toNat

/-- Two numbers closer than this are taken for equal. -/
def epsilon : Single :=
  ⟨897988541⟩

/-- Whether two numbers differ by less than `epsilon`. A difference that is not a number is not
small, so neither a not-a-number nor an infinity is near itself. -/
def near (a b : Single) : Bool :=
  let difference := a.toFloat32 - b.toFloat32
  difference < epsilon.toFloat32 && difference > -epsilon.toFloat32

/-- The greatest power of ten that a single-precision number reaches. -/
def coarsestGrid : Int := 38

/-- Grids between the coarsest and one finer than the gap between the smallest numbers. -/
def gridCount : Nat := 100

/-- The text of the magnitude: the fewest digits that read back, always positional. -/
def magnitudeText (x : Single) : String :=
  if x.biasedExponent = 0 ∧ x.fraction = 0 then "0"
  else
    let interval :=
      if x.biasedExponent = 0 then
        Decimal.RoundingInterval.ofBinary x.fraction (-149) false
      else
        Decimal.RoundingInterval.ofBinary (x.fraction + 0x800000) (x.biasedExponent - 150)
          (x.fraction = 0 && 1 < x.biasedExponent)
    match interval.search gridCount coarsestGrid with
    | some found => found.positional
    | none => ""

/-- The text of a number. A not-a-number has no sign, a zero keeps its sign. -/
def toText (x : Single) : String :=
  if x.biasedExponent = 255 then
    if x.fraction ≠ 0 then "NaN" else if x.isNegative then "-inf" else "inf"
  else if x.isNegative then "-" ++ x.magnitudeText
  else x.magnitudeText

end Single

end Microkernel
