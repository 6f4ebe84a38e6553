/-!
# Double-precision numbers

A double is a signed mantissa times a power of two, an infinity, or not a
number.  Every operation computes the exact rational result and rounds it once
to the nearest double, a tie going to the even mantissa, so nothing here
depends on machine arithmetic.
-/

namespace HoareCheck.Number

/-- A number of double precision.  A finite one stands for
`mantissa * 2 ^ exponent` with its sign; the two zeros differ in sign only. -/
inductive Binary64
  | finite (negative : Bool) (mantissa : Nat) (exponent : Int)
  | infinite (negative : Bool)
  | nan
  deriving DecidableEq, Repr, Inhabited

/-- The quotient of two naturals rounded to the nearest one, a tie going to the
even neighbour. -/
def roundedQuotient (numerator denominator : Nat) : Nat :=
  let quotient := numerator / denominator
  let twice := 2 * (numerator % denominator)
  if denominator < twice ∨ (twice = denominator ∧ quotient % 2 = 1) then
    quotient + 1
  else
    quotient

namespace Binary64

/-- The exponent of the smallest positive double. -/
def minExponent : Int := -1074

/-- The exponent of the largest doubles. -/
def maxExponent : Int := 971

def zero (negative : Bool) : Binary64 :=
  .finite negative 0 minExponent

/-- `numerator / denominator` is at least two to the power `exponent`. -/
def reachesPower (numerator denominator : Nat) (exponent : Int) : Bool :=
  denominator * Nat.pow 2 exponent.toNat ≤ numerator * Nat.pow 2 (-exponent).toNat

/-- The largest power of two that does not exceed a positive ratio. -/
def binaryOrder (numerator denominator : Nat) : Int :=
  let guess : Int := (Nat.log2 numerator : Int) - Nat.log2 denominator
  if reachesPower numerator denominator guess then guess else guess - 1

/-- The double nearest to `numerator / denominator`, with the given sign. -/
def ofRatio (negative : Bool) (numerator denominator : Nat) : Binary64 :=
  if numerator = 0 then
    zero negative
  else
    let exponent := max (binaryOrder numerator denominator - 52) minExponent
    let mantissa := roundedQuotient (numerator * Nat.pow 2 (-exponent).toNat)
      (denominator * Nat.pow 2 exponent.toNat)
    let (mantissa, exponent) :=
      if mantissa = Nat.pow 2 53 then (Nat.pow 2 52, exponent + 1) else (mantissa, exponent)
    if maxExponent < exponent then .infinite negative
    else .finite negative mantissa exponent

/-- The double nearest to a rational; zero is positive. -/
def ofRat (value : Rat) : Binary64 :=
  ofRatio (value < 0) value.num.natAbs value.den

/-- The double nearest to an integer, unless it is too large for one. -/
def ofInt? (value : Int) : Option Binary64 :=
  match ofRat value with
  | .infinite _ => none
  | result => some result

/-- The exact value of a finite double. -/
def toRat? : Binary64 → Option Rat
  | .finite negative mantissa exponent =>
    let magnitude : Rat :=
      mkRat (mantissa * Nat.pow 2 exponent.toNat) (Nat.pow 2 (-exponent).toNat)
    some (if negative then -magnitude else magnitude)
  | _ => none

def isNegative : Binary64 → Bool
  | .finite negative _ _ => negative
  | .infinite negative => negative
  | .nan => false

def isZero : Binary64 → Bool
  | .finite _ mantissa _ => mantissa = 0
  | _ => false

def neg : Binary64 → Binary64
  | .finite negative mantissa exponent => .finite (!negative) mantissa exponent
  | .infinite negative => .infinite (!negative)
  | .nan => .nan

def abs : Binary64 → Binary64
  | .finite _ mantissa exponent => .finite false mantissa exponent
  | .infinite _ => .infinite false
  | .nan => .nan

/-- The double nearest to a rational result; a zero result takes the sign
given. -/
def ofResult (zeroNegative : Bool) (value : Rat) : Binary64 :=
  if value = 0 then zero zeroNegative else ofRat value

def add (left right : Binary64) : Binary64 :=
  match left.toRat?, right.toRat? with
  | some leftValue, some rightValue =>
    ofResult (left.isNegative && right.isNegative) (leftValue + rightValue)
  | _, _ =>
    match left, right with
    | .nan, _ | _, .nan => .nan
    | .infinite leftSign, .infinite rightSign =>
      if leftSign = rightSign then .infinite leftSign else .nan
    | .infinite sign, _ | _, .infinite sign => .infinite sign
    | _, _ => .nan

def sub (left right : Binary64) : Binary64 :=
  left.add right.neg

def mul (left right : Binary64) : Binary64 :=
  let sign := left.isNegative != right.isNegative
  match left.toRat?, right.toRat? with
  | some leftValue, some rightValue => ofResult sign (leftValue * rightValue)
  | _, _ =>
    if left = .nan || right = .nan || left.isZero || right.isZero then .nan
    else .infinite sign

/-- The quotient; there is none by zero. -/
def div? (left right : Binary64) : Option Binary64 :=
  let sign := left.isNegative != right.isNegative
  if right.isZero then
    none
  else
    match left.toRat?, right.toRat? with
    | some leftValue, some rightValue =>
      some (ofResult sign (leftValue / rightValue))
    | some _, none => some (if right = .nan then .nan else zero sign)
    | none, some _ => some (if left = .nan then .nan else .infinite sign)
    | none, none => some .nan

/-- The remainder of division rounded down, which has the sign of the divisor;
there is none by zero. -/
def mod? (left right : Binary64) : Option Binary64 :=
  if right.isZero then
    none
  else
    match left.toRat?, right.toRat? with
    | some leftValue, some rightValue =>
      let truncated :=
        let quotient := leftValue / rightValue
        leftValue - rightValue * (if quotient < 0 then -((-quotient).floor) else quotient.floor)
      let rest := ofResult left.isNegative truncated
      if truncated = 0 then some (zero right.isNegative)
      else if (truncated < 0) != (rightValue < 0) then some (rest.add right)
      else some rest
    | some leftValue, none =>
      if right = .nan then some .nan
      else if leftValue = 0 then some (zero right.isNegative)
      else if (leftValue < 0) != right.isNegative then some right
      else some left
    | none, _ => some .nan

/-- The whole part, toward zero; infinities and not-a-number have none. -/
def truncate? (value : Binary64) : Option Int :=
  value.toRat?.map fun exact =>
    if exact < 0 then -((-exact).floor) else exact.floor

/-- The order of two doubles: `none` if one is not a number. -/
def compare? (left right : Binary64) : Option Ordering :=
  match left.toRat?, right.toRat? with
  | some leftValue, some rightValue =>
    some (if leftValue < rightValue then .lt else if rightValue < leftValue then .gt else .eq)
  | _, _ =>
    match left, right with
    | .nan, _ | _, .nan => none
    | .infinite leftSign, .infinite rightSign =>
      some (if leftSign = rightSign then .eq else if leftSign then .lt else .gt)
    | .infinite sign, _ => some (if sign then .lt else .gt)
    | _, .infinite sign => some (if sign then .gt else .lt)
    | _, _ => none

end Binary64

end HoareCheck.Number
