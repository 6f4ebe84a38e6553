import HoareCheck.Typing.TypeEnv

/-!
# Type resolution

`Term.resolveType` finds the type of an expression and `Term.resolveStatement`
types the variables that a statement assigns.  Both also tell whether they
touched the environment.  The type of an operand is compared with what its
operator expects: the declared type of a variable, and for any other operand
the type that the operator works on.
-/

namespace HoareCheck

namespace Term

/-- The operand of a unary operator, or the claim of an assumption or
assertion. -/
def operand? : Term → Option Term
  | .unary _ operand => some operand
  | .assume claim => some claim
  | .assert claim => some claim
  | _ => none

/-- Compares the type of a term with the expected one.  A term of unknown type
takes the expected one if it applies an operator to a variable and carries a
name, here `label`, to note it under. -/
def checkType (term : Term) (label : Option String) (actual expected : TypeEntry) :
    Typing (TypeEntry × Bool) := do
  let appliesToVariable ←
    if actual = .unknown then
      match term.operand? with
      | some (.var _) => pure true
      | some _ => pure false
      | none => throw .noSuchPart
    else
      pure false
  if appliesToVariable then
    Typing.insert (← Typing.ofOption .noSuchPart label) expected
    return (expected, true)
  else if actual = expected ∨ expected = .unknown then
    return (actual, false)
  else
    throw (.typeMismatch expected actual)

/-- What an operator expects of an operand: the declared type of a variable,
otherwise the default. -/
def expectedType (term : Term) (default : TypeEntry) : Typing TypeEntry := do
  match term with
  | .var name =>
    match ← Typing.find? name with
    | some entry => return entry
    | none => return (← Typing.find? (plainName name)).getD .unknown
  | _ => return default

/-- The declared type of a variable; a copy has the type of the variable it
copies. -/
def variableType (name : String) : Typing TypeEntry := do
  match ← get with
  | none => throw (.untypedVariable name)
  | some env =>
    match (env.find? name).or (env.find? (plainName name)) with
    | some entry => return entry
    | none => throw (.untypedVariable name)

/-- Resolves an operand by `resolve` and compares it with what the operator
expects. -/
def checkOperand (resolve : Typing (TypeEntry × Bool)) (operand : Term) (default : TypeEntry) :
    Typing (TypeEntry × Bool) := do
  let (actual, touched) ← resolve
  let expected ← operand.expectedType default
  let (type, noted) ← operand.checkType none actual expected
  return (type, touched || noted)

/-- The type that the operators of a family work on. -/
def operandType : Operator.Family → TypeEntry
  | .arithmetic => .known .int
  | .comparison => .known .int
  | .logical => .known .bool

/-- The type that a unary operator works on and gives. -/
def unaryType? : Operator → Option Ty
  | .not => some .bool
  | .minus => some .int
  | .abs => some .int
  | _ => none

/-- The type of an expression. -/
def resolveType : Term → Typing (TypeEntry × Bool)
  | .literal (.bool _) => return (.known .bool, false)
  | .literal (.int _) => return (.known .int, false)
  | .literal value => throw (.untypedLiteral value)
  | .subscript _ array _ => do
      let name ← Typing.ofOption .noSuchPart array.name?
      let element ← Typing.ofOption .noSuchIndex (← Typing.entry name).element?
      return (element, false)
  | .var name => do
      return (← variableType name, false)
  | .unary operator operand =>
    match unaryType? operator with
    | none => throw .noResult
    | some expected => do
        let (actual, touched) ← operand.resolveType
        let (type, noted) ←
          (Term.unary operator operand).checkType none actual (.known expected)
        return (type, touched || noted)
  | .binary left operator right => do
      let default := operandType operator.family
      let (_, leftTouched) ← checkOperand left.resolveType left default
      let (rightType, rightTouched) ← checkOperand right.resolveType right default
      let type := if operator.family = .comparison then .known .bool else rightType
      return (type, leftTouched || rightTouched)
  | .slice lower upper => do
      let (actual, lowerTouched) ← lower.resolveType
      let (_, lowerNoted) ← lower.checkType none actual (.known .int)
      if upper.isMissing then
        if lowerTouched || lowerNoted then return (.unknown, true) else throw .noResult
      else
        let (actual, upperTouched) ← upper.resolveType
        let (_, upperNoted) ← lower.checkType none actual (.known .int)
        return (.unknown, lowerTouched || lowerNoted || upperTouched || upperNoted)
  | .quantified _ binder type written body _ => do
      let name ← Typing.ofOption .noSuchPart binder.name?
      Typing.insert name (TypeEntry.ofBinder type written)
      let (actual, _) ← body.resolveType
      let _ ← body.checkType none actual (.known .bool)
      if (← Typing.entry name) = .unknown then
        throw (.untypedBinder name)
      Typing.erase name
      return (.known .bool, true)
  | term => throw (.untypedTerm term)

/-- Resolves a claim, which has to be a truth value. -/
def resolveClaim (term : Term) : Typing Bool := do
  let (actual, touched) ← term.resolveType
  let (_, noted) ← term.checkType none actual (.known .bool)
  return touched || noted

/-- The name that an assignment to a target types: the variable itself, or the
variable inside an array read or a quantifier. -/
def assignedName? : Term → Option String
  | .var name => some name
  | .subscript _ array _ => array.name?
  | .quantified _ binder _ _ _ _ => binder.name?
  | .assign target _ _ => target.name?
  | _ => none

/-- Types the target of an assignment by the type of its value. -/
def resolveTarget (target : Term) (type : TypeEntry) (touched : Bool) : Typing Bool := do
  let name ← Typing.ofOption .noSuchPart target.assignedName?
  match ← Typing.find? name with
  | none | some .unknown =>
    Typing.insert name type
    return true
  | some entry =>
    match target with
    | .subscript .. =>
      let element ← Typing.ofOption .noSuchIndex entry.element?
      if element = type then return true
      else throw (.assignmentMismatch name element type)
    | _ =>
      if entry = type then return touched
      else throw (.assignmentMismatch name entry type)

/-- Types the variables that a statement assigns and checks its claims. -/
def resolveStatement : Term → Typing Bool
  | .skip | .havoc .. => return false
  | .seq first second => do
      let firstTouched ← first.resolveStatement
      let secondTouched ← second.resolveStatement
      return firstTouched || secondTouched
  | .assign target value _ => do
      let (type, touched) ← value.resolveType
      target.resolveTarget type touched
  | .ifElse condition thenBranch elseBranch => do
      let conditionTouched ← condition.resolveClaim
      let thenTouched ← thenBranch.resolveStatement
      let elseTouched ← elseBranch.resolveStatement
      return conditionTouched || thenTouched || elseTouched
  | .assert claim => claim.resolveClaim
  | .assume claim => claim.resolveClaim
  | .loop invariant condition body => do
      let conditionTouched ← condition.resolveClaim
      let invariantTouched ← invariant.resolveClaim
      let bodyTouched ← body.resolveStatement
      return conditionTouched || invariantTouched || bodyTouched
  | term => throw (.unsupportedStatement term)

end Term

end HoareCheck
