/-! # The fewest digits that read back

A positive binary number stands for every real that rounds to it. Its shortest decimal is the
point of the coarsest decimal grid that falls among those reals; of two such points the nearer
is taken, and of two equally near ones the greater. All of it is exact arithmetic on natural
numbers: the interval, the number and the grid share one denominator.
-/

namespace Microkernel.Decimal

/-- The reals that round to a number, all three over one denominator. -/
structure RoundingInterval where
  low : Nat
  value : Nat
  high : Nat
  denominator : Nat
  /-- Whether the two ends round to the number as well. -/
  closed : Bool

/-- A decimal number `digits · 10 ^ exponent`. -/
structure Scaled where
  digits : Nat
  exponent : Int
  deriving DecidableEq

namespace RoundingInterval

/-- The interval of `mantissa · 2 ^ exponent`. The gap below is half as wide where the number is
the least of its binade; the ends belong to an even mantissa. -/
def ofBinary (mantissa : Nat) (exponent : Int) (leastOfBinade : Bool) : RoundingInterval :=
  let scale := Nat.pow 2 exponent.toNat
  { low := (if leastOfBinade then 4 * mantissa - 1 else 4 * mantissa - 2) * scale
    value := 4 * mantissa * scale
    high := (4 * mantissa + 2) * scale
    denominator := 4 * Nat.pow 2 (-exponent).toNat
    closed := mantissa % 2 = 0 }

/-- Whether the fraction `numerator / denominator` rounds to the number. -/
def holds (interval : RoundingInterval) (numerator denominator : Nat) : Bool :=
  let point := numerator * interval.denominator
  let low := interval.low * denominator
  let high := interval.high * denominator
  if interval.closed then low ≤ point && point ≤ high else low < point && point < high

/-- The number's neighbour on the grid of multiples of `10 ^ exponent` that reads back, the
nearer one where both do, the upper one where both are equally near. -/
def onGrid? (interval : RoundingInterval) (exponent : Int) : Option Scaled :=
  let up := Nat.pow 10 exponent.toNat
  let down := Nat.pow 10 (-exponent).toNat
  let below := interval.value * down / (interval.denominator * up)
  let remainder := interval.value * down % (interval.denominator * up)
  let holdsBelow := interval.holds (below * up) down
  let holdsAbove := interval.holds ((below + 1) * up) down
  let nearerAbove := interval.denominator * up ≤ 2 * remainder
  if holdsAbove && (nearerAbove || !holdsBelow) then some ⟨below + 1, exponent⟩
  else if holdsBelow then some ⟨below, exponent⟩
  else none

/-- The first grid, from `exponent` downwards, that has a point which reads back. -/
def search (interval : RoundingInterval) : Nat → Int → Option Scaled
  | 0, _ => none
  | grids + 1, exponent =>
    match interval.onGrid? exponent with
    | some found => some found
    | none => interval.search grids (exponent - 1)

end RoundingInterval

/-- Positional text: no exponent, no point where nothing follows it. -/
def Scaled.positional (number : Scaled) : String :=
  let digits := Nat.toDigits 10 number.digits
  if 0 ≤ number.exponent then
    String.ofList (digits ++ List.replicate number.exponent.toNat '0')
  else
    let places := (-number.exponent).toNat
    let padded := List.replicate (places + 1 - digits.length) '0' ++ digits
    let whole := padded.length - places
    String.ofList (padded.take whole ++ '.' :: padded.drop whole)

end Microkernel.Decimal
