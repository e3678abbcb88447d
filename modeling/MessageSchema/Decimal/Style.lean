import MessageSchema.Decimal.Shortest

/-!
How a document writes a floating-point number: positionally while the exponent of its leading digit
lies in a fixed range, always with a point, and otherwise with an exponent of ten that has neither a
plus sign nor padding.
-/

namespace MessageSchema

set_option autoImplicit false

structure DecimalStyle where
  /-- Least exponent of the leading digit that is written positionally. -/
  leastPositional : Int
  /-- Greatest exponent of the leading digit that is written positionally. -/
  greatestPositional : Int
  infinity : List Char
  nan : List Char

namespace DecimalStyle

def zeros (n : Nat) : List Char := List.replicate n '0'

/-- The digits with a point after the first `places` of them, padded with zeros on either side. -/
def positional (digits : List Char) (places : Int) : List Char :=
  if places ≤ 0 then ['0', '.'] ++ zeros (-places).toNat ++ digits
  else
    let whole := places.toNat
    if digits.length ≤ whole then digits ++ zeros (whole - digits.length) ++ ['.', '0']
    else digits.take whole ++ '.' :: digits.drop whole

def scientific (digits : List Char) (exponent : Int) : List Char :=
  let mantissa :=
    match digits with
    | first :: second :: rest => first :: '.' :: second :: rest
    | short => short
  mantissa ++ 'e' :: (toString exponent).toList

def magnitude (style : DecimalStyle) (x : Binary64) : List Char :=
  if x.isZero then ['0', '.', '0']
  else
    let decimal := x.shortest
    let digits := Nat.toDigits 10 decimal.digits
    let exponent := decimal.scale + digits.length - 1
    if style.leastPositional ≤ exponent && exponent ≤ style.greatestPositional then
      positional digits (exponent + 1)
    else scientific digits exponent

def write (style : DecimalStyle) (x : Binary64) : String :=
  String.ofList <|
    if x.isNaN then style.nan
    else
      let size := if x.isInfinite then style.infinity else style.magnitude x
      if x.isNegative then '-' :: size else size

end DecimalStyle

end MessageSchema
