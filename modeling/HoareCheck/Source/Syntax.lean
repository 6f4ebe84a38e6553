import HoareCheck.Claim.Literal

/-!
# Syntax of source programs

The part of Python that programs to verify are written in.  The parts of a
function other than its body, and the annotation of a name on its own, are
dropped while reading.
-/

namespace HoareCheck.Source

inductive BinaryOp
  | add | sub | mult | matMult | div | mod | pow | leftShift | rightShift
  | bitOr | bitXor | bitAnd | floorDiv
  deriving DecidableEq, Repr, Inhabited

inductive UnaryOp
  | invert | not | plus | minus
  deriving DecidableEq, Repr, Inhabited

inductive CompareOp
  | eq | notEq | lt | ltE | gt | gtE | same | notSame | isIn | notIn
  deriving DecidableEq, Repr, Inhabited

inductive LogicalOp
  | and | or
  deriving DecidableEq, Repr, Inhabited

/-- The form of an operator in messages. -/
def BinaryOp.shown : BinaryOp → String
  | .add => "<ast.Add object>"
  | .sub => "<ast.Sub object>"
  | .mult => "<ast.Mult object>"
  | .matMult => "<ast.MatMult object>"
  | .div => "<ast.Div object>"
  | .mod => "<ast.Mod object>"
  | .pow => "<ast.Pow object>"
  | .leftShift => "<ast.LShift object>"
  | .rightShift => "<ast.RShift object>"
  | .bitOr => "<ast.BitOr object>"
  | .bitXor => "<ast.BitXor object>"
  | .bitAnd => "<ast.BitAnd object>"
  | .floorDiv => "<ast.FloorDiv object>"

/-- The form of an operator in messages. -/
def UnaryOp.shown : UnaryOp → String
  | .invert => "<ast.Invert object>"
  | .not => "<ast.Not object>"
  | .plus => "<ast.UAdd object>"
  | .minus => "<ast.USub object>"

inductive Expr
  | name (id : String)
  | constant (value : Datum)
  /-- A row of operands under one logical operator is grouped to the left. -/
  | logical (operator : LogicalOp) (left right : Expr)
  /-- A comparison, with the operators and operands of a longer chain. -/
  | compare (left : Expr) (operator : CompareOp) (right : Expr)
      (moreOperators : List CompareOp) (moreOperands : List Expr)
  | binary (left : Expr) (operator : BinaryOp) (right : Expr)
  | unary (operator : UnaryOp) (operand : Expr)
  | call (function : Expr) (arguments : List Expr)
  | member (value : Expr) (field : String)
  | subscript (value index : Expr)
  | slice (lower upper step : Option Expr)
  | tuple (items : List Expr)
  | list (items : List Expr)
  deriving Repr, Inhabited

inductive Stmt
  | functionDef (name : String) (body : List Stmt)
  | assign (targets : List Expr) (value : Expr)
  | augmented (target : Expr) (operator : BinaryOp) (value : Expr)
  | annotated (target type : Expr) (value : Option Expr)
  | ifElse (test : Expr) (body orElse : List Stmt)
  | whileLoop (test : Expr) (body orElse : List Stmt)
  | forLoop (target iterated : Expr) (body orElse : List Stmt)
  | assert (test : Expr) (message : Option Expr)
  | returned (value : Option Expr)
  | pass
  | breakLoop
  | continueLoop
  | expr (value : Expr)
  deriving Repr, Inhabited

/-- A program: its statements in order. -/
abbrev Program := List Stmt

end HoareCheck.Source
