import HoareCheck.Elaboration.Expr
import HoareCheck.Source.Parser

/-!
# Claim statements from source programs

The statements of a block become a sequence, grouped to the left, with at least
two parts.  The calls `invariant(...)` directly in the body of a loop are its
invariants, joined by "and"; they are not statements of the body.

When two runs are compared, an assignment becomes one for each run, and a test
is made by both: an assertion that they agree stands before the conditional or
loop, and at the end of the body of a loop.
-/

namespace HoareCheck.Source

/-- The call that is all of a statement. -/
def Stmt.call? : Stmt → Option (Expr × List Expr)
  | .expr (.call function arguments) => some (function, arguments)
  | _ => none

/-- Whether a statement is a call of `invariant`. -/
def Stmt.isInvariant (statement : Stmt) : Bool :=
  match statement.call? with
  | some (.name id, _) => id = "invariant"
  | _ => false

/-- The invariants among the statements of a loop's body, in order. -/
def invariants : List Stmt → Logged (List Term)
  | [] => return []
  | statement :: rest =>
    match statement.call? with
    | none => invariants rest
    | some (function, arguments) => do
        if (← function.calledName) = "invariant" then
          let claim ← claimArgument arguments
          return claim :: (← invariants rest)
        else
          invariants rest

/-- The conjunction of claims; of none it is true. -/
def conjunction : List Term → Term
  | [] => .bool true
  | first :: rest => rest.foldl (fun left right => .binary left .and right) first

/-- A block as a statement: at least a sequence of two. -/
def asBlock : Option Term → Term
  | none => .skip
  | some (.seq first second) => .seq first second
  | some term => term.andThen .skip

/-- The target of an assignment: a name, or an element of an array. -/
def assignmentTarget (mode : RunMode) (targets : List Expr) : Logged Term :=
  match targets with
  | .name id :: _ => return .var id
  | .subscript value index :: _ => (Expr.subscript value index).elaborate mode
  | _ :: _ => throw .noSuchPart
  | [] => throw .noSuchIndex

/-- The assertion that both runs agree on a test. -/
def agreement (first second : Term) : Term :=
  .assert (.binary first .iff second)

def isCharge : Term → Bool
  | .assign _ _ charge => charge
  | _ => false

/-- An assignment made by two runs.  A noised value is the same in both: to a
name it may be assigned only if its copies agree, and the copies of an array
element are taken to agree. -/
def forkedAssignment (names : List String) (target value : Term) : Logged Term := do
  let arrayTarget := match target with
    | .subscript .. => true
    | _ => false
  let name ← match target with
    | .subscript _ array _ => Logged.ofOption .noSuchPart array.name?
    | target => Logged.ofOption .noSuchPart target.name?
  let (firstValue, secondValue) ← value.fork names
  if arrayTarget then
    let (firstTarget, secondTarget) ← target.fork names
    if isCharge value then
      return (Term.assume (.binary firstTarget .eq secondTarget)).andThen value
    else
      return (Term.assign firstTarget firstValue false).andThen
        (.assign secondTarget secondValue false)
  else
    let firstTarget := Term.var (firstCopy name)
    let secondTarget := Term.var (secondCopy name)
    if isCharge value then
      return (Term.assert (.binary firstTarget .eq secondTarget)).andThen value
    else
      return (Term.assign firstTarget firstValue false).andThen
        (.assign secondTarget secondValue false)

mutual

/-- The claim statement of a statement. -/
def Stmt.elaborate (mode : RunMode) : Stmt → Logged Term
  | .functionDef _ body => do
      return asBlock (← elaborateBlock mode false none body)
  | .assign targets value =>
    match mode with
    | .single => do
        let target ← assignmentTarget mode targets
        let value ← value.elaborate mode
        return .assign target value false
    | .forked names => do
        let target ← assignmentTarget mode targets
        -- The base of an array target is looked at before the value.
        let _ ← match target with
          | .subscript _ array _ => Logged.ofOption .noSuchPart array.name?
          | _ => pure ""
        let value ← value.elaborate mode
        forkedAssignment names target value
  | .augmented target _ value => do
      let _ ← target.elaborate mode
      let _ ← value.elaborate mode
      return .missing
  | .annotated target type value => do
      let _ ← target.elaborate mode
      let _ ← type.elaborate mode
      let _ ← elaborateBound mode value
      return .missing
  | .ifElse test body orElse => do
      let test ← test.elaborate mode
      match mode with
      | .single =>
        let thenBranch ← elaborateBlock mode false none body
        let elseBranch ← elaborateBlock mode false none orElse
        return test.branch (asBlock thenBranch) (asBlock elseBranch)
      | .forked names =>
        let (first, second) ← test.fork names
        let thenBranch ← elaborateBlock mode false none body
        let elseBranch ← elaborateBlock mode false none orElse
        return (agreement first second).andThen
          (first.branch (asBlock thenBranch) (asBlock elseBranch))
  | .whileLoop test body _ => do
      let test ← test.elaborate mode
      match mode with
      | .single =>
        let invariant := conjunction (← invariants body)
        let body ← elaborateBlock mode true none body
        return invariant.repeatWhile test (asBlock body)
      | .forked names =>
        let (first, second) ← test.fork names
        let invariant := conjunction (← invariants body)
        let body ← elaborateBlock mode true none body
        return (agreement first second).andThen
          (invariant.repeatWhile first ((asBlock body).andThen (agreement first second)))
  | .forLoop target iterated body orElse => do
      let _ ← target.elaborate mode
      let _ ← iterated.elaborate mode
      let _ ← elaborateBlock mode false none body
      let _ ← elaborateBlock mode false none orElse
      return .missing
  | .assert test _ => do
      return .assert (← test.elaborate mode)
  | .returned _ => return .skip
  | .pass => return .skip
  | .breakLoop => return .missing
  | .continueLoop => return .missing
  | .expr value => value.elaborate mode

/-- The sequence of the statements of a block after `before`.  Invariants are
left out if `inLoop` is set. -/
def elaborateBlock (mode : RunMode) (inLoop : Bool) (before : Option Term) :
    List Stmt → Logged (Option Term)
  | [] => return before
  | statement :: rest => do
      if inLoop && statement.isInvariant then
        elaborateBlock mode inLoop before rest
      else
        let term ← statement.elaborate mode
        let sequence := match before with
          | some before => before.andThen term
          | none => term
        elaborateBlock mode inLoop (some sequence) rest

end

theorem elaborateBlock_nil (mode : RunMode) (inLoop : Bool) (before : Option Term) :
    elaborateBlock mode inLoop before [] = pure before := by
  rw [elaborateBlock]

theorem Stmt.elaborate_pass (mode : RunMode) : Stmt.pass.elaborate mode = pure .skip := by
  rw [Stmt.elaborate]

/-- The claim statement of a program. -/
def elaborate (mode : RunMode) (program : Program) : Logged Term := do
  return asBlock (← elaborateBlock mode false none program)

/-- The claim statement of a program text. -/
def elaborateText (mode : RunMode) (text : String) : Logged Term :=
  match parse text with
  | .ok program => elaborate mode program
  | .error fault => throw fault

/-- The term of an expression text. -/
def elaborateExpression (mode : RunMode) (text : String) : Logged Term :=
  match parseExpression text with
  | .ok expression => expression.elaborate mode
  | .error fault => throw fault

end HoareCheck.Source
