/-!
Binary floating-point numbers of 64 bits, taken as words. A finite word stands for the rational
`significand * 2 ^ exponent` with the sign of its top bit; nothing here depends on machine
arithmetic, so reading and writing decimals is exact.
-/

namespace MessageSchema

set_option autoImplicit false

structure Binary64 where
  bits : UInt64
  deriving DecidableEq

namespace Binary64

/-- Two to the 52: the words between two powers of two. -/
def fractionSize : Nat := 0x10000000000000

/-- Two to the 63: where the words with a minus sign begin. -/
def signSize : Nat := 0x8000000000000000

/-- The exponent field of what is no finite number. -/
def topExponent : Nat := 2047

def fractionField (x : Binary64) : Nat := x.bits.toNat % fractionSize

def exponentField (x : Binary64) : Nat := x.bits.toNat / fractionSize % (topExponent + 1)

def isNegative (x : Binary64) : Bool := signSize ≤ x.bits.toNat

def isNaN (x : Binary64) : Bool := x.exponentField == topExponent && x.fractionField != 0

def isInfinite (x : Binary64) : Bool := x.exponentField == topExponent && x.fractionField == 0

def isZero (x : Binary64) : Bool := x.exponentField == 0 && x.fractionField == 0

def significand (x : Binary64) : Nat :=
  if x.exponentField = 0 then x.fractionField else fractionSize + x.fractionField

def exponent (x : Binary64) : Int :=
  if x.exponentField = 0 then -1074 else (x.exponentField : Int) - 1075

def ofMagnitude (negative : Bool) (magnitude : Nat) : Binary64 :=
  ⟨UInt64.ofNat (if negative then signSize + magnitude else magnitude)⟩

def infinity (negative : Bool) : Binary64 := ofMagnitude negative (topExponent * fractionSize)

def nan : Binary64 := ofMagnitude false (topExponent * fractionSize + fractionSize / 2)

/-- Two words are the same number when they are equal, both zero, or both not a number: what a
document repeats as a key it may not repeat under another sign of zero. -/
def same (x y : Binary64) : Bool := x == y || (x.isZero && y.isZero) || (x.isNaN && y.isNaN)

theorem same_refl (x : Binary64) : x.same x = true := by simp [same]

end Binary64

end MessageSchema
