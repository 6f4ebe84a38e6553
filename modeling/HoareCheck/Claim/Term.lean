import HoareCheck.Claim.Literal
import HoareCheck.Claim.Operator
import HoareCheck.Claim.Ty

/-!
# Terms of the claim language

Expressions and statements form one syntax, because either may stand where the
other is expected: a claim may be written as a statement of its own, and an
assumption may stand to the right of an assignment.  An operand that was never
written is a term too, `missing`.

Reads of array elements are numbered by *sites*.  Writes are recorded against a
site (`HoareCheck.Claim.WriteLog`), so two occurrences of one read, which have
the same site, see the same writes.
-/

namespace HoareCheck

/-- The number of an array read.  Site zero belongs to all reads that have not
been placed in a development yet; nothing is recorded against it. -/
abbrev Site := Nat

inductive Quantifier
  | universal
  | existential
  deriving DecidableEq, Repr, Inhabited

inductive Term
  | missing
  | var (name : String)
  | literal (value : Literal)
  | slice (lower upper : Term)
  | subscript (site : Site) (array index : Term)
  | unary (operator : Operator) (operand : Term)
  | binary (left : Term) (operator : Operator) (right : Term)
  /-- The type of the bound variable is given as `type`, or as the term
  `written` after the colon; `closed` tells that the binder has been renamed
  apart. -/
  | quantified (quantifier : Quantifier) (binder : Term) (type : Option Ty) (written : Term)
      (body : Term) (closed : Bool)
  | skip
  /-- An assignment; `charge` marks the one that adds to the privacy cost. -/
  | assign (target value : Term) (charge : Bool)
  | ifElse (condition thenBranch elseBranch : Term)
  | seq (first second : Term)
  | assume (claim : Term)
  | assert (claim : Term)
  | loop (invariant condition body : Term)
  /-- Any value for `name`; `count` numbers the havocs of that name. -/
  | havoc (name : String) (count : Int)
  deriving DecidableEq, Repr, Inhabited

namespace Term

def int (value : Int) : Term := .literal (.int value)

def bool (value : Bool) : Term := .literal (.bool value)

/-- The term, or `skip` for a missing one. -/
def orSkip : Term → Term
  | .missing => .skip
  | term => term

/-- A slice; a missing lower bound is zero. -/
def ofBounds (lower upper : Term) : Term :=
  match lower with
  | .missing => .slice (int 0) upper
  | lower => .slice lower upper

/-- A sequence; a missing part does nothing. -/
def andThen (first second : Term) : Term :=
  .seq first.orSkip second.orSkip

/-- A conditional; a missing branch does nothing. -/
def branch (condition thenBranch elseBranch : Term) : Term :=
  .ifElse condition thenBranch.orSkip elseBranch.orSkip

/-- A loop; a missing body does nothing. -/
def repeatWhile (invariant condition body : Term) : Term :=
  .loop invariant condition body.orSkip

/-- The name of a variable; no other term has one. -/
def name? : Term → Option String
  | .var name => some name
  | _ => none

def isMissing : Term → Bool
  | .missing => true
  | _ => false

/-- The name of a term's form. -/
def kind : Term → String
  | .missing => "NoneType"
  | .var _ => "VarExpr"
  | .literal _ => "LiteralExpr"
  | .slice .. => "SliceExpr"
  | .subscript .. => "SubscriptExpr"
  | .unary .. => "UnOpExpr"
  | .binary .. => "BinOpExpr"
  | .quantified .. => "QuantificationExpr"
  | .skip => "SkipStmt"
  | .assign _ _ charge => if charge then "DPAssignStmt" else "AssignStmt"
  | .ifElse .. => "IfElseStmt"
  | .seq .. => "CompoundStmt"
  | .assume _ => "AssumeStmt"
  | .assert _ => "AssertStmt"
  | .loop .. => "WhileStmt"
  | .havoc .. => "HavocStmt"

/-- Whether a term is an expression rather than a statement. -/
def isExpression : Term → Bool
  | .var _ | .literal _ | .slice .. | .subscript .. | .unary .. | .binary ..
  | .quantified .. => true
  | _ => false

/-- The form of a term as messages print it. -/
def shownClass (term : Term) : String :=
  match term with
  | .missing => "<class 'NoneType'>"
  | term =>
    let part := if term.isExpression then "expr" else "stmt"
    "<class 'myprover.claim." ++ part ++ "." ++ term.kind ++ "'>"

end Term

end HoareCheck
