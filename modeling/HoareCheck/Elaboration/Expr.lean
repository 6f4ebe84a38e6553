import HoareCheck.Claim.Copy
import HoareCheck.Claim.Parser
import HoareCheck.Claim.ReadLiteral
import HoareCheck.Source.Syntax

/-!
# Claims from source expressions

An expression of a program becomes a term of the claim language.  Arithmetic,
comparisons and logic carry over; of a chain of comparisons only the first
counts.  The calls `assume(...)` and `invariant(...)` hold a claim as text.
What has no counterpart is gone through for its faults and becomes a missing
term; other calls become one without a look at their arguments.

To compare two runs of a program, expressions are *forked*: of a term two
copies are made, which speak of `v#1` and `v#2` in place of each forked name
`v`.  Only then does `laplace(...)` have a counterpart, a charge to the privacy
cost.
-/

namespace HoareCheck

/-- Whether one run of a program is elaborated, or two runs that fork some
names. -/
inductive RunMode
  | single
  | forked (names : List String)
  deriving DecidableEq, Repr, Inhabited

/-- The name of a variable in the first and in the second run. -/
def firstCopy (name : String) : String := name ++ "#1"

@[inherit_doc firstCopy]
def secondCopy (name : String) : String := name ++ "#2"

/-- The variable that holds the privacy cost so far. -/
def costName : String := "v_eps#"

/-- The variable that holds the cost of a unit of distance. -/
def unitCostName : String := "eps#"

/-- The copies of a term for the two runs. -/
def Term.fork (names : List String) (term : Term) : Logged (Term × Term) := do
  let first ← term.copy
  let second ← term.copy
  let first ← first.renameAll (names.map fun name => (name, firstCopy name))
  let second ← second.renameAll (names.map fun name => (name, secondCopy name))
  return (first, second)

/-- Adds the distance of the two copies of a term to the privacy cost. -/
def Term.charge (first second : Term) : Term :=
  .assign (.var costName)
    (.binary (.var costName) .add
      (.binary (.unary .abs (.binary first .minus second)) .mult (.var unitCostName)))
    true

namespace Source

/-- The counterpart of a comparison. -/
def CompareOp.operator? : CompareOp → Option Operator
  | .lt => some .lt
  | .ltE => some .le
  | .gt => some .gt
  | .gtE => some .ge
  | .eq => some .eq
  | .notEq => some .neq
  | .same | .notSame | .isIn | .notIn => none

/-- The counterpart of a binary operator. -/
def BinaryOp.operator? : BinaryOp → Option Operator
  | .add => some .add
  | .sub => some .minus
  | .mult => some .mult
  | .div => some .div
  | .mod => some .mod
  | _ => none

/-- The counterpart of a unary operator. -/
def UnaryOp.operator? : UnaryOp → Option Operator
  | .minus => some .minus
  | .not => some .not
  | _ => none

def LogicalOp.operator : LogicalOp → Operator
  | .and => .and
  | .or => .or

/-- The claim in the first argument of a call, which has to be text. -/
def claimArgument : List Expr → Logged Term
  | [] => throw .noSuchIndex
  | .constant (.text text) :: _ => Logged.parse text
  | .constant _ :: _ => throw .wrongKind
  | _ :: _ => throw .noSuchPart

/-- The name of the function that a call calls. -/
def Expr.calledName : Expr → Logged String
  | .name id => pure id
  | _ => throw .noSuchPart

mutual

/-- The term of an expression. -/
def Expr.elaborate (mode : RunMode) : Expr → Logged Term
  | .name id => return .var id
  | .constant value =>
    match Literal.readInt value with
    | .ok literal => return .literal literal
    | .error fault => throw fault
  | .logical operator left right => do
      let left ← left.elaborate mode
      let right ← right.elaborate mode
      return .binary left operator.operator right
  | .compare left operator right _ _ => do
      let left ← left.elaborate mode
      let right ← right.elaborate mode
      match operator.operator? with
      | some operator => return .binary left operator right
      | none => throw .noSuchPart
  | .binary left operator right => do
      let left ← left.elaborate mode
      let right ← right.elaborate mode
      match operator.operator? with
      | some operator => return .binary left operator right
      | none => throw (.unsupportedSourceOperator operator.shown)
  | .unary operator operand => do
      let operand ← operand.elaborate mode
      match operator.operator? with
      | some operator => return .unary operator operand
      | none => throw (.unsupportedSourceOperator operator.shown)
  | .call function arguments => do
      let called ← function.calledName
      if called = "assume" then
        return .assume (← claimArgument arguments)
      else if called = "invariant" then
        claimArgument arguments
      else
        match mode with
        | .single => return .missing
        | .forked names =>
          if called = "laplace" then
            let noised ← elaborateFirst mode arguments
            let (first, second) ← noised.fork names
            return Term.charge first second
          else
            return .missing
  | .member value _ => do
      let _ ← value.elaborate mode
      return .missing
  | .subscript value index => do
      let array ← value.elaborate mode
      let index ← index.elaborate mode
      Logged.place (.subscript 0 array index)
  | .slice lower upper _ => do
      let lower ← elaborateBound mode lower
      let upper ← elaborateBound mode upper
      return Term.ofBounds lower upper
  | .tuple items => do
      elaborateItems mode items
      return .missing
  | .list items => do
      elaborateItems mode items
      return .missing

/-- The term of a bound of a slice, which may be missing. -/
def elaborateBound (mode : RunMode) : Option Expr → Logged Term
  | some bound => bound.elaborate mode
  | none => return .missing

/-- The term of the first of several expressions. -/
def elaborateFirst (mode : RunMode) : List Expr → Logged Term
  | [] => throw .noSuchIndex
  | first :: _ => first.elaborate mode

/-- Goes through expressions for their faults. -/
def elaborateItems (mode : RunMode) : List Expr → Logged Unit
  | [] => return ()
  | item :: rest => do
      let _ ← item.elaborate mode
      elaborateItems mode rest

end

theorem Expr.elaborate_name (mode : RunMode) (id : String) :
    (Expr.name id).elaborate mode = pure (.var id) := by
  rw [Expr.elaborate]

end Source

end HoareCheck
