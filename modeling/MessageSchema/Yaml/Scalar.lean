import MessageSchema.Yaml.Value

/-!
What an unquoted scalar means. The words for null and the booleans come first, then whole numbers in
four bases, then decimals; everything else is a string. Several digits after a leading zero are a
string too, so that identification numbers keep their zeros.
-/

namespace MessageSchema.Yaml.Scalar

set_option autoImplicit false

/-- The meaning of an unquoted scalar. A whole number beyond 64 bits is no value of a document,
though it is not a string either. -/
inductive Meaning where
  | null
  | bool (value : Bool)
  | number (value : Number)
  | wide
  | string
  deriving DecidableEq

def isNullWord (text : List Char) : Bool :=
  ["null", "Null", "NULL", "~"].any (·.toList == text)

def boolWord? (text : List Char) : Option Bool :=
  if ["true", "True", "TRUE"].any (·.toList == text) then some true
  else if ["false", "False", "FALSE"].any (·.toList == text) then some false
  else none

def withoutSign : List Char → List Char
  | '+' :: rest => rest
  | '-' :: rest => rest
  | text => text

/-- Several digits that begin with a zero. -/
def isPaddedDigits (text : List Char) : Bool :=
  match withoutSign text with
  | '0' :: second :: rest => (second :: rest).all (·.isDigit)
  | _ => false

def digitValue (c : Char) : Nat :=
  if c.isDigit then c.toNat - '0'.toNat
  else if 'a' ≤ c && c ≤ 'z' then c.toNat - 'a'.toNat + 10
  else if 'A' ≤ c && c ≤ 'Z' then c.toNat - 'A'.toNat + 10
  else 36

def natOfDigits (base : Nat) (digits : List Char) : Nat :=
  digits.foldl (fun value c => value * base + digitValue c) 0

def natural? (base : Nat) (digits : List Char) : Option Nat :=
  if digits.isEmpty || digits.any (fun c => base ≤ digitValue c) then none
  else some (natOfDigits base digits)

def basedNatural? : List Char → Option Nat
  | '0' :: 'x' :: digits => natural? 16 digits
  | '0' :: 'o' :: digits => natural? 8 digits
  | '0' :: 'b' :: digits => natural? 2 digits
  | _ => none

/-- A whole number of any size. Padded decimal digits are none. -/
def integer? (text : List Char) : Option Int :=
  let negative := text.head? == some '-'
  let size := withoutSign text
  let magnitude :=
    match basedNatural? size with
    | some n => some n
    | none => if isPaddedDigits text then none else natural? 10 size
  magnitude.map fun n => if negative then -(n : Int) else n

/-- Whether a whole number has a width of so many bits, with a sign or without. -/
def fitsBits (bits : Nat) (n : Int) : Bool :=
  -(Nat.pow 2 (bits - 1) : Int) ≤ n && n < (Nat.pow 2 bits : Int)

def fitsDocument (n : Int) : Bool := fitsBits 64 n

/-- Whether a whole number fits twice that width; one that does is never read as a decimal. -/
def fitsTwice (n : Int) : Bool := fitsBits 128 n

/-- An exponent of ten, with an optional sign. Its mark has been read. -/
def exponent? (text : List Char) : Option Int :=
  (natural? 10 (withoutSign text)).map fun n =>
    if text.head? == some '-' then -(n : Int) else n

/-- An unsigned decimal with a point, an exponent, both or neither. At least one digit is needed
before the exponent; the value must be finite. -/
def decimal? (negative : Bool) (text : List Char) : Option Binary64 :=
  let whole := text.takeWhile (·.isDigit)
  let afterWhole := text.dropWhile (·.isDigit)
  let (fraction, afterFraction) :=
    match afterWhole with
    | '.' :: rest => (rest.takeWhile (·.isDigit), rest.dropWhile (·.isDigit))
    | rest => ([], rest)
  let digits := natOfDigits 10 (whole ++ fraction)
  if whole.isEmpty && fraction.isEmpty then none
  else
    match afterFraction with
    | [] => Binary64.ofDecimal? negative digits (-(fraction.length : Int))
    | mark :: power =>
        if mark == 'e' || mark == 'E' then
          (exponent? power).bind fun shift =>
            Binary64.ofDecimal? negative digits (shift - fraction.length)
        else none

/-- The names of the special decimals; only infinity takes a sign. -/
def special? (text : List Char) : Option Binary64 :=
  let infinite (rest : List Char) := [".inf", ".Inf", ".INF"].any (·.toList == rest)
  if [".nan", ".NaN", ".NAN"].any (·.toList == text) then some Binary64.nan
  else
    match text with
    | '-' :: rest => if infinite rest then some (Binary64.infinity true) else none
    | '+' :: rest => if infinite rest then some (Binary64.infinity false) else none
    | rest => if infinite rest then some (Binary64.infinity false) else none

def float? (text : List Char) : Option Binary64 :=
  match special? text with
  | some value => some value
  | none => decimal? (text.head? == some '-') (withoutSign text)

def meaning (text : List Char) : Meaning :=
  if text.isEmpty || isNullWord text then .null
  else
    match boolWord? text with
    | some b => .bool b
    | none =>
        match (integer? text).filter fitsTwice with
        | some n => if fitsDocument n then .number (.int n) else .wide
        | none =>
            if isPaddedDigits text then .string
            else
              match float? text with
              | some x => .number (.float x)
              | none => .string

end MessageSchema.Yaml.Scalar
