/-!
# Formulas of the solver

Terms over integers, truth values, reals and integer arrays, each of one sort.
`Formula.print` writes them in parentheses with the operator first; a bound
variable is written by its name.
-/

namespace HoareCheck

inductive SolverSort
  | int
  | bool
  | real
  | array
  deriving DecidableEq, Repr, Inhabited

def SolverSort.shown : SolverSort → String
  | .int => "Int"
  | .bool => "Bool"
  | .real => "Real"
  | .array => "(Array Int Int)"

/-- Arithmetic of the solver; division and remainder of integers are those
whose remainder is never negative. -/
inductive ArithmeticOp
  | add | sub | mul | div | mod
  deriving DecidableEq, Repr, Inhabited

inductive OrderOp
  | lt | le | gt | ge
  deriving DecidableEq, Repr, Inhabited

namespace OrderOp

def sign : OrderOp → String
  | .lt => "<"
  | .le => "<="
  | .gt => ">"
  | .ge => ">="

/-- The comparison with its sides exchanged. -/
def flipped : OrderOp → OrderOp
  | .lt => .gt
  | .le => .ge
  | .gt => .lt
  | .ge => .le

end OrderOp

inductive Formula
  | int (value : Int)
  | real (value : Rat)
  | truth (value : Bool)
  | const (name : String) (sort : SolverSort)
  | neg (operand : Formula)
  | arithmetic (operator : ArithmeticOp) (left right : Formula)
  | order (operator : OrderOp) (left right : Formula)
  | equal (left right : Formula)
  | distinct (left right : Formula)
  | and (left right : Formula)
  | or (left right : Formula)
  | not (operand : Formula)
  | implies (left right : Formula)
  | ite (condition thenPart elsePart : Formula)
  | select (array index : Formula)
  | toReal (operand : Formula)
  /-- A sum of one term. -/
  | sumOf (term : Formula)
  /-- A sum with one more term: the terms form one sum, not nested ones. -/
  | sumMore (sum term : Formula)
  | all (name : String) (sort : SolverSort) (body : Formula)
  deriving DecidableEq, Repr, Inhabited

namespace Formula

def sort : Formula → SolverSort
  | .int _ => .int
  | .real _ => .real
  | .truth _ => .bool
  | .const _ sort => sort
  | .neg operand => operand.sort
  | .arithmetic _ left _ => left.sort
  | .order .. | .equal .. | .distinct .. | .and .. | .or .. | .not _ | .implies .. => .bool
  | .ite _ thenPart _ => thenPart.sort
  | .select .. => .int
  | .toReal _ => .real
  | .sumOf term => term.sort
  | .sumMore sum _ => sum.sort
  | .all .. => .bool

/-- The numeral of a rational: a fraction in lowest terms, or an integer. -/
def realText (value : Rat) : String :=
  if value.den = 1 then toString value.num
  else toString value.num ++ "/" ++ toString value.den

/-- The sign of an arithmetic operator on terms of a sort. -/
def arithmeticSign (operator : ArithmeticOp) (sort : SolverSort) : String :=
  match operator with
  | .add => "+"
  | .sub => "-"
  | .mul => "*"
  | .div => if sort = .real then "/" else "div"
  | .mod => "mod"

mutual

def print : Formula → String
  | .int value => toString value
  | .real value => "(real " ++ realText value ++ ")"
  | .truth value => if value then "true" else "false"
  | .const name _ => name
  | .neg operand => "(- " ++ operand.print ++ ")"
  | .arithmetic operator left right =>
    "(" ++ arithmeticSign operator left.sort ++ " " ++ left.print ++ " " ++ right.print ++ ")"
  | .order operator left right =>
    "(" ++ operator.sign ++ " " ++ left.print ++ " " ++ right.print ++ ")"
  | .equal left right => "(= " ++ left.print ++ " " ++ right.print ++ ")"
  | .distinct left right => "(distinct " ++ left.print ++ " " ++ right.print ++ ")"
  | .and left right => "(and " ++ left.print ++ " " ++ right.print ++ ")"
  | .or left right => "(or " ++ left.print ++ " " ++ right.print ++ ")"
  | .not operand => "(not " ++ operand.print ++ ")"
  | .implies left right => "(=> " ++ left.print ++ " " ++ right.print ++ ")"
  | .ite condition thenPart elsePart =>
    "(if " ++ condition.print ++ " " ++ thenPart.print ++ " " ++ elsePart.print ++ ")"
  | .select array index => "(select " ++ array.print ++ " " ++ index.print ++ ")"
  | .toReal operand => "(to_real " ++ operand.print ++ ")"
  | .sumOf term => "(+ " ++ term.print ++ ")"
  | .sumMore sum term => "(+ " ++ sum.printTerms ++ " " ++ term.print ++ ")"
  | .all name sort body => "(forall (" ++ name ++ " " ++ sort.shown ++ ") " ++ body.print ++ ")"

/-- The terms of a sum, without the parentheses around it. -/
def printTerms : Formula → String
  | .sumOf term => term.print
  | .sumMore sum term => sum.printTerms ++ " " ++ term.print
  | formula => formula.print

end

end Formula

end HoareCheck
