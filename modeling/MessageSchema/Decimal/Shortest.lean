import MessageSchema.Decimal.Rounding

/-!
Writing a decimal: the fewest digits that read back as the same word, and of those the nearest to
it. Grids of one, two, … seventeen digits are tried in turn; on each only the two neighbours of the
value can lie in the interval of reals that round to the word.
-/

namespace MessageSchema

set_option autoImplicit false

/-- The decimal `digits * 10 ^ scale`. -/
structure Decimal where
  digits : Nat
  scale : Int
  deriving DecidableEq

namespace Decimal

/-- Trailing zeros belong to the scale. The fuel is the number of digits. -/
def stripZeros : Nat → Decimal → Decimal
  | 0, d => d
  | fuel + 1, d =>
      if d.digits % 10 = 0 && d.digits != 0 then stripZeros fuel ⟨d.digits / 10, d.scale + 1⟩ else d

end Decimal

namespace Binary64

/-- Twice the value and the two halves of its interval, over a common denominator: a real reads
back as the word when it lies between `value - below` and `value + above`. -/
structure Interval where
  value : Nat
  below : Nat
  above : Nat
  den : Nat
  closed : Bool

/-- The gap below a power of two is half the gap above it, except at the smallest normal word. -/
def interval (x : Binary64) : Interval :=
  let narrow := x.fractionField = 0 && 1 < x.exponentField
  let (num, den) := scaled 2 x.exponent 1 1
  { value := 4 * x.significand * num
    below := if narrow then num else 2 * num
    above := 2 * num
    den := 4 * den
    closed := x.significand % 2 == 0 }

namespace Interval

/-- Whether `num / den` lies in the interval, where `den` is the interval's own. -/
def holds (i : Interval) (num : Nat) : Bool :=
  if i.closed then i.value ≤ num + i.below && num ≤ i.value + i.above
  else i.value < num + i.below && num < i.value + i.above

/-- The point of the grid `10 ^ scale` that lies in the interval and is nearest to the value. -/
def pointOn (i : Interval) (scale : Int) : Option Decimal :=
  let (unit, widen) := scaled 10 scale 1 1
  -- all three numbers over the denominator `i.den * widen`
  let wide : Interval :=
    { i with value := i.value * widen, below := i.below * widen, above := i.above * widen }
  let step := unit * i.den
  let low := wide.value / step
  let lowFits := wide.holds (low * step)
  let highFits := wide.holds ((low + 1) * step)
  let highNearer :=
    let fromLow := wide.value - low * step
    let fromHigh := (low + 1) * step - wide.value
    fromHigh < fromLow || (fromHigh == fromLow && low % 2 == 1)
  if lowFits && highFits then some ⟨if highNearer then low + 1 else low, scale⟩
  else if lowFits then some ⟨low, scale⟩
  else if highFits then some ⟨low + 1, scale⟩
  else none

end Interval

/-- The power of ten at or just below `value / den`, found from the number of digits of both. -/
def leadingPower (i : Interval) : Int :=
  let guess : Int :=
    ((Nat.toDigits 10 i.value).length : Int) - (Nat.toDigits 10 i.den).length
  let (unit, widen) := scaled 10 guess 1 1
  if unit * i.den ≤ i.value * widen then guess else guess - 1

/-- The first grid with a point in the interval, starting from the coarsest. -/
def firstPoint (i : Interval) (lead : Int) : List Nat → Option Decimal
  | [] => none
  | places :: finer =>
      match i.pointOn (lead - places) with
      | some point => some point
      | none => firstPoint i lead finer

/-- The shortest decimal of a finite word. Seventeen digits always suffice, so the last case is
only there to make the definition total. -/
def shortest (x : Binary64) : Decimal :=
  if x.isZero then ⟨0, 0⟩
  else
    let i := x.interval
    match firstPoint i (leadingPower i) (List.range 18) with
    | some point => point.stripZeros 20
    | none => ⟨x.significand, 0⟩

end Binary64

end MessageSchema
