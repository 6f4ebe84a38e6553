import HoareCheck.Number.Binary64

/-!
# Decimal text of numbers

The shortest decimal that reads back as a double, decimals of a fixed number
of places or of significant digits, and the way back from decimal text.  All
of it is exact: a tie is decided on the exact binary value and goes to the even
digit.
-/

namespace HoareCheck.Number

/-- A decimal: `digits * 10 ^ exponent`. -/
structure Decimal where
  digits : Nat
  exponent : Int
  deriving DecidableEq, Repr

/-- Ten to an integer power. -/
def powerOfTen (exponent : Int) : Rat :=
  if 0 ≤ exponent then (Nat.pow 10 exponent.toNat : Rat)
  else mkRat 1 (Nat.pow 10 (-exponent).toNat)

namespace Decimal

def toRat (decimal : Decimal) : Rat :=
  decimal.digits * powerOfTen decimal.exponent

/-- The number of decimal digits of a natural; zero has one. -/
def width (value : Nat) : Nat :=
  (Nat.toDigits 10 value).length

/-- The exponent of the first significant digit of a positive rational. -/
def order (value : Rat) : Int :=
  if 1 ≤ value then
    (width value.floor.toNat : Int) - 1
  else
    let inverse := value.den / value.num.natAbs
    let guess : Int := -(width inverse : Int)
    if powerOfTen (guess + 1) ≤ value then guess + 1 else guess

/-- A positive rational rounded to a multiple of `10 ^ exponent`, a tie going
to the even multiple. -/
def roundAt (value : Rat) (exponent : Int) : Nat :=
  let scaled := value / powerOfTen exponent
  roundedQuotient scaled.num.natAbs scaled.den

end Decimal

namespace Binary64

/-- The reals that round to a positive double, and whether the ends do. -/
structure Interval where
  lower : Rat
  upper : Rat
  closed : Bool

def Interval.contains (interval : Interval) (value : Rat) : Bool :=
  if interval.closed then interval.lower ≤ value && value ≤ interval.upper
  else interval.lower < value && value < interval.upper

/-- The interval around `mantissa * 2 ^ exponent`.  Below a power of two the
spacing halves, and so does the lower half of the interval. -/
def roundingInterval (mantissa : Nat) (exponent : Int) : Interval :=
  let unit : Rat := mkRat (Nat.pow 2 exponent.toNat) (Nat.pow 2 (-exponent).toNat)
  let value := mantissa * unit
  let below := if mantissa = Nat.pow 2 52 ∧ minExponent < exponent then unit / 4 else unit / 2
  { lower := value - below, upper := value + unit / 2, closed := mantissa % 2 = 0 }

/-- The nearer of the two neighbours with `count` digits, if one of them reads
back. -/
def neighbour? (value : Rat) (interval : Interval) (count : Nat) : Option Decimal :=
  let exponent := Decimal.order value - count + 1
  let below := (value / powerOfTen exponent).floor.toNat
  let nearest := Decimal.roundAt value exponent
  let other := if nearest = below then below + 1 else below
  [nearest, other].findSome? fun digits =>
    let candidate : Decimal := ⟨digits, exponent⟩
    if interval.contains candidate.toRat then some candidate else none

/-- The decimal of fewest digits that reads back as the positive double
`mantissa * 2 ^ exponent`, the nearest to it if there are several. -/
def shortest (mantissa : Nat) (exponent : Int) : Decimal :=
  let interval := roundingInterval mantissa exponent
  let value : Rat := mantissa * mkRat (Nat.pow 2 exponent.toNat) (Nat.pow 2 (-exponent).toNat)
  ((List.range 17).findSome? fun index => neighbour? value interval (index + 1)).getD
    ⟨Decimal.roundAt value (Decimal.order value - 16), Decimal.order value - 16⟩

end Binary64

/-- Digits without the zeros at their end. -/
def dropTrailingZeros (digits : List Char) : List Char :=
  (digits.reverse.dropWhile (· = '0')).reverse

/-- How numbers are written: positionally while the exponent of the first digit
is at least `positionalFrom` and below `positionalTo`, with an exponent of two
or more digits otherwise, and whole numbers with or without `.0`. -/
structure FloatFormat where
  positionalFrom : Int
  positionalTo : Int
  keepsPoint : Bool

namespace FloatFormat

/-- The usual form of a number in messages and claims. -/
def standard : FloatFormat :=
  { positionalFrom := -4, positionalTo := 16, keepsPoint := true }

/-- Writes the digits `d.ddd` times ten to the power `order`. -/
def render (format : FloatFormat) (digits : List Char) (order : Int) : String :=
  let digits := dropTrailingZeros digits
  let digits := if digits.isEmpty then ['0'] else digits
  if format.positionalFrom ≤ order ∧ order < format.positionalTo then
    if 0 ≤ order then
      let wholeWidth := order.toNat + 1
      let whole := digits.take wholeWidth
      let padding := List.replicate (wholeWidth - whole.length) '0'
      let fraction := digits.drop wholeWidth
      let fraction := if fraction.isEmpty && format.keepsPoint then ['0'] else fraction
      String.ofList (whole ++ padding) ++
        (if fraction.isEmpty then "" else "." ++ String.ofList fraction)
    else
      "0." ++ String.ofList (List.replicate ((-order).toNat - 1) '0' ++ digits)
  else
    let mantissa := String.ofList (digits.take 1) ++
      (if digits.length ≤ 1 then "" else "." ++ String.ofList (digits.drop 1))
    let power := toString order.natAbs
    mantissa ++ (if order < 0 then "e-" else "e+") ++
      (if power.length < 2 then "0" ++ power else power)

end FloatFormat

namespace Binary64

/-- The shortest text that reads back, in the standard form. -/
def toText : Binary64 → String
  | .nan => "nan"
  | .infinite negative => if negative then "-inf" else "inf"
  | .finite negative mantissa exponent =>
    let sign := if negative then "-" else ""
    if mantissa = 0 then
      sign ++ "0.0"
    else
      let decimal := shortest mantissa exponent
      let digits := Nat.toDigits 10 decimal.digits
      sign ++ FloatFormat.standard.render digits
        (decimal.exponent + (digits.length : Int) - 1)

/-- The value with a fixed number of decimal places. -/
def toFixed (places : Nat) : Binary64 → String
  | .nan => "nan"
  | .infinite negative => if negative then "-inf" else "inf"
  | value@(.finite negative _ _) =>
    let magnitude := (value.abs.toRat?).getD 0
    let digits := Nat.toDigits 10 (Decimal.roundAt magnitude (-places))
    let digits := List.replicate (places + 1 - digits.length) '0' ++ digits
    let whole := digits.take (digits.length - places)
    let fraction := digits.drop (digits.length - places)
    (if negative then "-" else "") ++ String.ofList whole ++
      (if fraction.isEmpty then "" else "." ++ String.ofList fraction)

/-- The double nearest to the value rounded to a number of decimal places. -/
def roundTo (places : Nat) : Binary64 → Binary64
  | value@(.finite negative _ _) =>
    let magnitude := (value.abs.toRat?).getD 0
    let rounded := Decimal.roundAt magnitude (-places) * powerOfTen (-places)
    ofRatio negative rounded.num.natAbs rounded.den
  | value => value

/-- The double nearest to the value rounded to a number of significant
digits. -/
def roundSignificant (digits : Nat) : Binary64 → Binary64
  | value@(.finite negative mantissa _) =>
    if mantissa = 0 then
      value
    else
      let magnitude := (value.abs.toRat?).getD 0
      let exponent := Decimal.order magnitude - digits + 1
      let rounded := Decimal.roundAt magnitude exponent * powerOfTen exponent
      ofRatio negative rounded.num.natAbs rounded.den
  | value => value

/-- The double nearest to `mantissa * 10 ^ exponent`.  Exponents far outside the
range of doubles are cut off, so that no huge power is computed. -/
def ofScientific (negative : Bool) (mantissa : Nat) (exponent : Int) : Binary64 :=
  if mantissa = 0 then
    zero negative
  else
    let order := exponent + (Decimal.width mantissa : Int)
    if 400 < order then .infinite negative
    else if order < -400 then zero negative
    else
      let value := mantissa * powerOfTen exponent
      ofRatio negative value.num.natAbs value.den

end Binary64

end HoareCheck.Number
