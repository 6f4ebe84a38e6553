import HoareCheck.Claim.Fault

/-!
# Arithmetic on plain values

An operation whose operands are all literals is carried out at once, before the
solver sees it.  Truth values count as one and zero, division always gives a
double, and the remainder has the sign of the divisor.
-/

namespace HoareCheck

open HoareCheck.Number (Binary64)

namespace Datum

/-- A number: an integer, or a double. -/
inductive Num
  | int (value : Int)
  | real (value : Binary64)
  deriving DecidableEq, Repr

/-- The number that a datum counts as. -/
def num? : Datum → Option Num
  | .bool value => some (.int (if value then 1 else 0))
  | .int value => some (.int value)
  | .real value => some (.real value)
  | _ => none

/-- The double that a number counts as beside a double. -/
def Num.toReal : Num → Except Fault Binary64
  | .real value => pure value
  | .int value =>
    match Binary64.ofInt? value with
    | some result => pure result
    | none => throw .tooLarge

/-- The two numbers of an operation. -/
def nums (left right : Datum) : Except Fault (Num × Num) :=
  match left.num?, right.num? with
  | some leftNum, some rightNum => pure (leftNum, rightNum)
  | _, _ => throw .wrongKind

/-- An operation that is exact on integers and rounded on doubles. -/
def arithmetic (onInts : Int → Int → Int) (onReals : Binary64 → Binary64 → Binary64)
    (left right : Datum) : Except Fault Datum := do
  match ← nums left right with
  | (.int leftValue, .int rightValue) => return .int (onInts leftValue rightValue)
  | (leftNum, rightNum) => return .real (onReals (← leftNum.toReal) (← rightNum.toReal))

def add (left right : Datum) : Except Fault Datum :=
  match left, right with
  | .text leftText, .text rightText => pure (.text (leftText ++ rightText))
  | _, _ => arithmetic (· + ·) Binary64.add left right

def sub : Datum → Datum → Except Fault Datum :=
  arithmetic (· - ·) Binary64.sub

/-- A text repeated; a negative count gives none of it. -/
def repeated (text : String) (count : Int) : String :=
  String.join (List.replicate count.toNat text)

def mul (left right : Datum) : Except Fault Datum :=
  match left, right with
  | .text chars, .int count | .int count, .text chars => pure (.text (repeated chars count))
  | .text chars, .bool count | .bool count, .text chars =>
    pure (.text (if count then chars else ""))
  | _, _ => arithmetic (· * ·) Binary64.mul left right

/-- The double nearest to the quotient of two integers. -/
def quotient (left right : Int) : Except Fault Datum :=
  if right = 0 then
    throw .divisionByZero
  else
    match Binary64.ofRat (mkRat left 1 / mkRat right 1) with
    | .infinite _ => throw .tooLarge
    | result =>
      let negativeZero := left = 0 && right < 0
      pure (.real (if negativeZero then result.neg else result))

def div (left right : Datum) : Except Fault Datum := do
  match ← nums left right with
  | (.int leftValue, .int rightValue) => quotient leftValue rightValue
  | (leftNum, rightNum) =>
    match (← leftNum.toReal).div? (← rightNum.toReal) with
    | some result => return .real result
    | none => throw .divisionByZero

def mod (left right : Datum) : Except Fault Datum := do
  match ← nums left right with
  | (.int leftValue, .int rightValue) =>
    if rightValue = 0 then throw .divisionByZero
    else return .int (Int.fmod leftValue rightValue)
  | (leftNum, rightNum) =>
    match (← leftNum.toReal).mod? (← rightNum.toReal) with
    | some result => return .real result
    | none => throw .divisionByZero

def neg (datum : Datum) : Except Fault Datum :=
  match datum.num? with
  | some (.int value) => pure (.int (-value))
  | some (.real value) => pure (.real value.neg)
  | none => throw .wrongKind

/-- The order of two numbers, exact also between an integer and a double;
`none` if one of them is not a number. -/
def Num.compare? (left right : Num) : Option Ordering :=
  let asReal : Num → Option Rat
    | .int value => some value
    | .real value => value.toRat?
  match asReal left, asReal right with
  | some leftValue, some rightValue =>
    some (if leftValue < rightValue then .lt else if rightValue < leftValue then .gt else .eq)
  | _, _ =>
    match left, right with
    | .real leftValue, .real rightValue => leftValue.compare? rightValue
    | .real leftValue, .int _ => leftValue.compare? (Binary64.zero false)
    | .int _, .real rightValue => (Binary64.zero false).compare? rightValue
    | .int _, .int _ => none

/-- Whether two data are equal; data of different kinds are not, numbers apart. -/
def equal (left right : Datum) : Bool :=
  match left.num?, right.num? with
  | some leftNum, some rightNum => leftNum.compare? rightNum == some .eq
  | none, none => left = right
  | _, _ => false

/-- The order of two data that have one: `none` beside what is not a number. -/
def order (left right : Datum) : Except Fault (Option Ordering) :=
  match left, right with
  | .text leftText, .text rightText => pure (some (Ord.compare leftText rightText))
  | _, _ => do
      let (leftNum, rightNum) ← nums left right
      return leftNum.compare? rightNum

end Datum

end HoareCheck
