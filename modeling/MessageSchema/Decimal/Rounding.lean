import MessageSchema.Decimal.Binary64

/-!
Reading a decimal: the word nearest to `digits * 10 ^ scale`, a tie going to the even neighbour.
The quotient is exact until the one rounding step, so no digit of the decimal is lost.
-/

namespace MessageSchema

set_option autoImplicit false

/-- The whole number nearest to `num / den`; half way goes to the even one. -/
def roundedQuotient (num den : Nat) : Nat :=
  let whole := num / den
  let twice := 2 * (num % den)
  if twice < den then whole
  else if den < twice then whole + 1
  else whole + whole % 2

def scaled (base : Nat) (power : Int) (num den : Nat) : Nat × Nat :=
  match power with
  | .ofNat n => (num * Nat.pow base n, den)
  | .negSucc n => (num, den * Nat.pow base (n + 1))

namespace Binary64

/-- The least exponent that leaves at most 53 bits of `num / den`, and never one below that of the
smallest words. -/
def gridExponent (num den : Nat) : Int :=
  let estimate : Int := (num.log2 : Int) - (den.log2 : Int) - 53
  let (top, bottom) := scaled 2 (-estimate) num den
  let tight := if top / bottom < 2 * fractionSize then estimate else estimate + 1
  if tight < -1074 then -1074 else tight

/-- The 63 magnitude bits of the word nearest to `num / den`. A carry out of the fraction reaches
the exponent field, which is what rounding up to the next power of two should do. -/
def magnitudeOf (num den : Nat) : Nat :=
  let exponent := gridExponent num den
  let (top, bottom) := scaled 2 (-exponent) num den
  let significand := roundedQuotient top bottom
  if significand < fractionSize then significand
  else ((exponent + 1074).toNat + 1) * fractionSize + (significand - fractionSize)

/-- The word nearest to `digits * 10 ^ scale`, unless it is too large for a finite one. The two
bounds only spare huge powers: past them the answer is known. -/
def ofDecimal? (negative : Bool) (digits : Nat) (scale : Int) : Option Binary64 :=
  let size : Int := (Nat.toDigits 10 digits).length + scale
  if digits = 0 || size < -330 then some (ofMagnitude negative 0)
  else if 320 < size then none
  else
    let (num, den) := scaled 10 scale digits 1
    let magnitude := magnitudeOf num den
    if magnitude < topExponent * fractionSize then some (ofMagnitude negative magnitude) else none

end Binary64

end MessageSchema
