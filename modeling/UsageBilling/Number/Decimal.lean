import UsageBilling.Number.Power
import UsageBilling.Number.Rounding

/-!
# Decimal amounts

A `Decimal` is `± magnitude / 10 ^ scale` with at most 28 places and a magnitude below `2 ^ 96`.
The scale is part of the value: `1.50` and `1.5` are two decimals of one worth.  So is the sign, also
of zero; a negative zero is what is left of a negative amount too small for 28 places.

`Decimal.add?` is exact as long as the sum fits the larger scale of the two; then it gives up
places, rounding half to even, and it has no result where even a whole number does not fit.
-/

namespace UsageBilling

/-- Magnitudes stay below this number. -/
def magnitudeLimit : Nat := twoPow 96

/-- The most places a decimal can have. -/
def maxScale : Nat := 28

/-- A decimal amount. -/
structure Decimal where
  negative : Bool
  magnitude : Nat
  /-- The number of places. -/
  scale : Nat
  magnitude_lt : magnitude < magnitudeLimit
  scale_le : scale ≤ maxScale
  deriving DecidableEq

namespace Decimal

/-- A sign, a magnitude and a number of places, if they are in range. -/
def ofParts? (negative : Bool) (magnitude scale : Nat) : Option Decimal :=
  if h : magnitude < magnitudeLimit ∧ scale ≤ maxScale then
    some ⟨negative, magnitude, scale, h.1, h.2⟩
  else none

/-- `0` without places. -/
def zero : Decimal := ⟨false, 0, 0, by decide, by decide⟩

/-- The decimal is zero, of either sign. -/
def isZero (x : Decimal) : Bool := x.magnitude = 0

/-- `± magnitude / 10 ^ (scale + dropped)` with at most `scale` places, as many as fit. -/
def fitFrom? (negative : Bool) (magnitude : Nat) :
    (scale dropped : Nat) → scale ≤ maxScale → Option Decimal
  | scale, dropped, hs =>
    -- always from the exact magnitude, so that nothing is rounded twice
    let rounded := roundHalfEven magnitude (tenPow dropped)
    if hm : rounded < magnitudeLimit then some ⟨negative, rounded, scale, hm, hs⟩
    else
      match scale with
      | 0 => none
      | scale + 1 => fitFrom? negative magnitude scale (dropped + 1) (by omega)

/-- `coefficient / 10 ^ scale`, with fewer places if that does not fit. -/
def fit? (coefficient : Int) (scale : Nat) (hs : scale ≤ maxScale) : Option Decimal :=
  fitFrom? (coefficient < 0) coefficient.natAbs scale 0 hs

/-- The magnitude with its sign. -/
def coefficient (x : Decimal) : Int := if x.negative then -(x.magnitude : Int) else x.magnitude

/-- The coefficient the decimal has with `scale` places. -/
def coefficientAt (x : Decimal) (scale : Nat) : Int := x.coefficient * tenPow (scale - x.scale)

/-- The sum.  Zero added to a decimal leaves it as it is, with its scale. -/
def add? (x y : Decimal) : Option Decimal :=
  if x.isZero then some y
  else if y.isZero then some x
  else
    let scale := max x.scale y.scale
    fit? (x.coefficientAt scale + y.coefficientAt scale) scale
      (Nat.max_le.2 ⟨x.scale_le, y.scale_le⟩)

/-- The sum of a list, added up from the left. -/
def sum? (xs : List Decimal) : Option Decimal := xs.foldlM add? zero

/-- How the store keeps a decimal: zero loses its places and its sign. -/
def stored (x : Decimal) : Decimal := if x.isZero then zero else x

end Decimal

end UsageBilling
