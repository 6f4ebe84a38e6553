import HoareCheck.Solver.Formula
import HoareCheck.Solver.Plain

/-!
# Operands and their coercions

While a claim is encoded, each part is either a plain value or a formula.
An operation on plain values is carried out at once.  Beside a formula a plain
value becomes a numeral of the formula's sort; a formula of truth values becomes
`(if b 1 0)` beside a number, and an integer becomes a real beside a real.  An
operation that no side knows is a fault of kind; one that the solver cannot
build is ill-sorted.
-/

namespace HoareCheck

inductive Operand
  | plain (datum : Datum)
  | symbolic (formula : Formula)
  deriving DecidableEq, Repr, Inhabited

namespace Operand

/-- One for true and zero for false. -/
def indicator (formula : Formula) : Formula :=
  .ite formula (.int 1) (.int 0)

/-- The integer numeral of a plain value: doubles lose their fraction. -/
def intNumeral : Datum → Except Fault Formula
  | .bool value => pure (.int (if value then 1 else 0))
  | .int value => pure (.int value)
  | .real value =>
    match value.truncate? with
    | some whole => pure (.int whole)
    | none => throw (if value = .nan then .notAnInteger else .tooLarge)
  | _ => throw .illSorted

/-- The exact value of the decimal text of a double. -/
def decimalValue? : Number.Binary64 → Option Rat
  | .finite negative mantissa exponent =>
    if mantissa = 0 then
      some 0
    else
      let magnitude := (Number.Binary64.shortest mantissa exponent).toRat
      some (if negative then -magnitude else magnitude)
  | _ => none

/-- The real numeral of a plain value: the value of its decimal text. -/
def realNumeral : Datum → Except Fault Formula
  | .int value => pure (.real value)
  | .real value =>
    match decimalValue? value with
    | some exact => pure (.real exact)
    | none => throw .illSorted
  | _ => throw .illSorted

/-- An operand as a formula of a sort. -/
def cast (sort : SolverSort) (operand : Operand) : Except Fault Formula :=
  match sort, operand with
  | .bool, .plain (.bool value) => pure (.truth value)
  | .bool, .plain _ => throw .illSorted
  | .int, .plain datum => intNumeral datum
  | .real, .plain datum => realNumeral datum
  | .array, .plain _ => throw .illSorted
  | sort, .symbolic formula =>
    if formula.sort = sort then
      pure formula
    else
      match sort, formula.sort with
      | .int, .bool => pure (indicator formula)
      | .real, .bool => pure (.toReal (indicator formula))
      | .real, .int => pure (.toReal formula)
      | .int, .array | .real, .array => throw .noSuchPart
      | _, _ => throw .illSorted

/-- A plain value on its own as a formula. -/
def ofPlain : Datum → Except Fault Formula
  | .bool value => pure (.truth value)
  | .int value => pure (.int value)
  | .real value => realNumeral (.real value)
  | _ => throw .illSorted

/-- The sort of an operand that is a formula. -/
def sort? : Operand → Option SolverSort
  | .plain _ => none
  | .symbolic formula => some formula.sort

/-- The wider of two sorts: truth values, integers, reals. -/
def join : SolverSort → SolverSort → Except Fault SolverSort
  | .bool, .bool => pure .bool
  | .array, .array => pure .array
  | .array, _ | _, .array => throw .illSorted
  | .real, _ | _, .real => pure .real
  | .int, _ | _, .int => pure .int

/-- Two operands as formulas of one sort. -/
def unify (left right : Operand) : Except Fault (Formula × Formula) := do
  match left, right with
  | .plain leftDatum, .plain rightDatum =>
    let left ← ofPlain leftDatum
    let right ← ofPlain rightDatum
    let sort ← join left.sort right.sort
    return (← cast sort (.symbolic left), ← cast sort (.symbolic right))
  | .plain _, .symbolic formula =>
    return (← cast formula.sort left, ← cast formula.sort right)
  | .symbolic formula, .plain _ =>
    return (← cast formula.sort left, ← cast formula.sort right)
  | .symbolic leftFormula, .symbolic rightFormula =>
    let sort ← join leftFormula.sort rightFormula.sort
    return (← cast sort left, ← cast sort right)

/-- Whether an operand is a formula that stands for a number. -/
def isNumber (operand : Operand) : Bool :=
  operand.sort? = some .int || operand.sort? = some .real

/-- The choice between two operands. -/
def choose (condition thenPart elsePart : Operand) : Except Fault Operand := do
  let condition ← cast .bool condition
  let (thenPart, elsePart) ← unify thenPart elsePart
  return .symbolic (.ite condition thenPart elsePart)

/-- A truth value times a factor: the factor if true, zero otherwise.  The
factors one and zero give the truth value itself and the plain zero. -/
def scale (flag : Formula) (factor : Operand) : Except Fault Operand := do
  match factor with
  | .plain datum =>
    if datum.equal (.int 1) then return .symbolic flag
    else if datum.equal (.int 0) then return .plain (.int 0)
    else choose (.symbolic flag) factor (.plain (.int 0))
  | .symbolic formula =>
    if formula.sort = .bool || formula.sort = .array then throw .illSorted
    else choose (.symbolic flag) factor (.plain (.int 0))

/-- The formula for an arithmetic operation, one of whose sides is a number. -/
def arithmeticFormula (operator : ArithmeticOp) (left right : Operand) : Except Fault Operand := do
  let (left, right) ← unify left right
  if operator = .mod && left.sort ≠ .int then throw .illSorted
  return .symbolic (.arithmetic operator left right)

/-- An operation on two plain values. -/
def plainArithmetic : ArithmeticOp → Datum → Datum → Except Fault Datum
  | .add => Datum.add
  | .sub => Datum.sub
  | .mul => Datum.mul
  | .div => Datum.div
  | .mod => Datum.mod

def isText : Operand → Bool
  | .plain (.text _) => true
  | _ => false

/-- The truth value beside which an operand is scaled. -/
def flag? : Operand → Option Formula
  | .symbolic formula => if formula.sort = .bool then some formula else none
  | .plain _ => none

/-- An arithmetic operation. -/
def arithmetic (operator : ArithmeticOp) (left right : Operand) : Except Fault Operand := do
  match left, right with
  | .plain leftDatum, .plain rightDatum =>
    return .plain (← plainArithmetic operator leftDatum rightDatum)
  | _, _ =>
    match operator, left.flag?, right.flag? with
    | .mul, some flag, _ => scale flag right
    | .mul, _, some flag =>
      if left.isNumber then choose (.symbolic flag) left (.plain (.int 0))
      else scale flag left
    | _, _, _ =>
      if operator = .mod && left.isText then throw .wrongKind
      else if left.isNumber then arithmeticFormula operator left right
      else if right.isNumber then do
        let (right, left) ← unify right left
        if operator = .mod && right.sort ≠ .int then throw .illSorted
        return .symbolic (.arithmetic operator left right)
      else throw .wrongKind

/-- Whether an order of plain values satisfies a comparison. -/
def satisfies (operator : OrderOp) (ordering : Option Ordering) : Bool :=
  match operator, ordering with
  | _, none => false
  | .lt, some ordering => ordering = .lt
  | .le, some ordering => ordering ≠ .gt
  | .gt, some ordering => ordering = .gt
  | .ge, some ordering => ordering ≠ .lt

/-- A comparison of size.  A number formula keeps to the left, so beside one on
the right alone the comparison is flipped. -/
def compare (operator : OrderOp) (left right : Operand) : Except Fault Operand := do
  match left, right with
  | .plain leftDatum, .plain rightDatum =>
    return .plain (.bool (satisfies operator (← leftDatum.order rightDatum)))
  | _, _ =>
    if left.isNumber then
      let (left, right) ← unify left right
      return .symbolic (.order operator left right)
    else if right.isNumber then
      let (right, left) ← unify right left
      return .symbolic (.order operator.flipped right left)
    else
      throw .wrongKind

/-- Equality.  A formula never equals the absent value; a plain left side goes
to the right of a formula. -/
def equal (left right : Operand) : Except Fault Operand := do
  match left, right with
  | .plain leftDatum, .plain rightDatum => return .plain (.bool (leftDatum.equal rightDatum))
  | .symbolic _, .plain .nothing | .plain .nothing, .symbolic _ => return .plain (.bool false)
  | .plain _, .symbolic _ =>
    let (right, left) ← unify right left
    return .symbolic (.equal right left)
  | .symbolic _, _ =>
    let (left, right) ← unify left right
    return .symbolic (.equal left right)

def negate (operand : Operand) : Except Fault Operand :=
  match operand with
  | .plain datum => (Operand.plain ·) <$> datum.neg
  | .symbolic formula =>
    if operand.isNumber then pure (.symbolic (.neg formula)) else throw .wrongKind

/-- The absolute value, as a choice between the operand and its negation. -/
def absolute (operand : Operand) : Except Fault Operand := do
  let positive ← compare .gt operand (.plain (.int 0))
  let negated ← negate operand
  choose positive operand negated

def logicalNot (operand : Operand) : Except Fault Operand := do
  return .symbolic (.not (← cast .bool operand))

def logicalAnd (left right : Operand) : Except Fault Operand := do
  let (left, right) ← unify left right
  if left.sort = .bool then return .symbolic (.and left right) else throw .illSorted

def logicalOr (left right : Operand) : Except Fault Operand := do
  let (left, right) ← unify left right
  if left.sort = .bool then return .symbolic (.or left right) else throw .illSorted

def logicalImplies (left right : Operand) : Except Fault Operand := do
  let left ← cast .bool left
  let right ← cast .bool right
  return .symbolic (.implies left right)

def logicalIff (left right : Operand) : Except Fault Operand := do
  let forward ← logicalImplies left right
  let backward ← logicalImplies right left
  logicalAnd forward backward

/-- The element of an array at an index. -/
def select (array index : Operand) : Except Fault Operand := do
  match array with
  | .symbolic formula =>
    if formula.sort = .array then
      return .symbolic (.select formula (← cast .int index))
    else
      throw .illSorted
  | .plain _ => throw .illSorted

/-- The universal closure of an operand over a variable; of a plain value only
its truth counts. -/
def forAll (name : String) (sort : SolverSort) (body : Operand) : Except Fault Operand :=
  match body with
  | .plain datum => pure (.symbolic (.all name sort (.truth datum.truth)))
  | .symbolic formula =>
    if formula.sort = .bool then pure (.symbolic (.all name sort formula))
    else throw .illSorted

/-- The constant that stands for the `index`-th position of adjacent arrays. -/
def positionConst (index : Nat) : Formula :=
  .const ("@i_" ++ toString index) .int

/-- One if two arrays differ at a position, zero otherwise. -/
def differenceAt (left right : Formula) (index : Nat) : Formula :=
  indicator (.distinct (.select left (positionConst index)) (.select right (positionConst index)))

/-- The bounds of a position. -/
def positionBounds (length : Int) (index : Nat) : Formula :=
  .and (.order .ge (positionConst index) (.int 0))
    (.order .lt (positionConst index) (.int length))

/-- Two arrays of a length are adjacent: of as many positions as the length,
each within it, the arrays differ at exactly one. -/
def adjacent (left right : Operand) (length : Int) : Except Fault Operand :=
  match List.range length.toNat with
  | [] => pure (.plain (.bool false))
  | first :: rest =>
    match left, right with
    | .symbolic leftFormula, .symbolic rightFormula =>
      if leftFormula.sort = .array && rightFormula.sort = .array then
        let differences := rest.foldl
          (fun sum index => Formula.sumMore sum (differenceAt leftFormula rightFormula index))
          (.sumOf (differenceAt leftFormula rightFormula first))
        let bounds := rest.foldl
          (fun bounds index => Formula.and bounds (positionBounds length index))
          (positionBounds length first)
        pure (.symbolic (.and bounds (.equal differences (.int 1))))
      else
        throw .wrongKind
    | _, _ => throw .wrongKind

/-- The text of an operand: a plain value in quotes where it is text, after a
mark, and a formula as it prints. -/
def print : Operand → String
  | .plain datum => "py:" ++ datum.quoted
  | .symbolic formula => formula.print

/-- The name of an operand's sort or class. -/
def sortName : Operand → String
  | .plain datum => datum.className
  | .symbolic formula => formula.sort.shown

end Operand

end HoareCheck
