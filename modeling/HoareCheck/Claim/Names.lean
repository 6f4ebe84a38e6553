import HoareCheck.Claim.Fault

/-!
# Names in terms

The names that an expression reads, that a statement assigns, and that a
statement leaves open.  Names are collected in order of appearance;
`ascending` turns them into a set, listed by code points.
-/

namespace HoareCheck

/-- Puts a name into an ascending list, once. -/
def insertName (name : String) : List String → List String
  | [] => [name]
  | head :: rest =>
    if name = head then head :: rest
    else if name < head then name :: head :: rest
    else head :: insertName name rest

/-- The names of a list in ascending order, each once. -/
def ascending (names : List String) : List String :=
  names.foldr insertName []

namespace Term

/-- The names of the variables of an expression.  Slices and quantified claims
contribute none; statements and missing operands have no such names. -/
def variableNames : Term → Except Fault (List String)
  | .var name => pure [name]
  | .literal _ => pure []
  | .slice .. => pure []
  | .subscript _ array index => do
      return (← array.variableNames) ++ (← index.variableNames)
  | .unary _ operand => operand.variableNames
  | .binary left _ right => do
      return (← left.variableNames) ++ (← right.variableNames)
  | .quantified .. => pure []
  | _ => throw .noSuchPart

/-- The names that a statement assigns.  An assignment to an array element
counts the names of its index too. -/
def assigned : Term → Except Fault (List String)
  | .skip | .assume _ | .assert _ | .havoc .. => pure []
  | .assign target _ _ => target.variableNames
  | .ifElse _ thenBranch elseBranch => do
      return (← thenBranch.assigned) ++ (← elseBranch.assigned)
  | .seq first second => do
      return (← first.assigned) ++ (← second.assigned)
  | .loop _ _ body => body.assigned
  | _ => throw .noSuchPart

/-- The names that the havocs of a statement leave open; those inside
conditionals and loops are not counted. -/
def havoced : Term → Except Fault (List String)
  | .skip | .assume _ | .assert _ | .assign .. | .ifElse .. | .loop .. => pure []
  | .havoc name _ => pure [name]
  | .seq first second => do
      return (← first.havoced) ++ (← second.havoced)
  | _ => throw .noSuchPart

end Term

end HoareCheck
