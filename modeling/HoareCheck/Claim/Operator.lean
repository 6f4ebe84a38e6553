/-!
# Operators of the claim language

One enumeration serves unary and binary positions; a rule that does not know
an operator in its position refuses it.
-/

namespace HoareCheck

inductive Operator
  | add | minus | mult | div | mod | abs
  | eq | neq | adjacent | lt | le | gt | ge
  | and | or | not | implies | iff
  deriving DecidableEq, Repr, Inhabited

/-- What an operator takes: numbers to a number, numbers to a truth value, or
truth values to a truth value. -/
inductive Operator.Family
  | arithmetic | comparison | logical
  deriving DecidableEq, Repr

namespace Operator

def all : List Operator :=
  [.add, .minus, .mult, .div, .mod, .abs, .eq, .neq, .adjacent, .lt, .le, .gt, .ge,
    .and, .or, .not, .implies, .iff]

def name : Operator → String
  | .add => "Add"
  | .minus => "Minus"
  | .mult => "Mult"
  | .div => "Div"
  | .mod => "Mod"
  | .abs => "Abs"
  | .eq => "Eq"
  | .neq => "NEq"
  | .adjacent => "Adj"
  | .lt => "Lt"
  | .le => "Le"
  | .gt => "Gt"
  | .ge => "Ge"
  | .and => "And"
  | .or => "Or"
  | .not => "Not"
  | .implies => "Implies"
  | .iff => "Iff"

/-- The operator of a given name. -/
def ofName? (name : String) : Option Operator :=
  all.find? fun operator => operator.name = name

/-- The form in printed claims. -/
def shown (operator : Operator) : String :=
  "Op." ++ operator.name

/-- The sign that describes an operator.  It is a label only: claims are read
by the scanner, which spells "at least" as `>=`. -/
def sign : Operator → String
  | .add => "+"
  | .minus => "-"
  | .mult => "*"
  | .div => "/"
  | .mod => "%"
  | .abs => "||"
  | .eq => "=="
  | .neq => "!="
  | .adjacent => "~"
  | .lt => "<"
  | .le => "<="
  | .gt => ">"
  | .ge => "=>"
  | .and => "and"
  | .or => "or"
  | .not => "not"
  | .implies => "==>"
  | .iff => "<==>"

def family : Operator → Family
  | .add | .minus | .mult | .div | .mod | .abs => .arithmetic
  | .eq | .neq | .adjacent | .lt | .le | .gt | .ge => .comparison
  | .and | .or | .not | .implies | .iff => .logical

end Operator

end HoareCheck
