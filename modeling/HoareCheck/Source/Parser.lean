import HoareCheck.Claim.Fault
import HoareCheck.Source.Syntax
import HoareCheck.Source.Token

/-!
# Parser of source programs

Expressions follow the usual precedence, from `or` down to attribute, call and
subscript.  Each level is a function of the level below it; what nests inside
itself (brackets, unary operators, powers) is tied together by
`grammarAt depth`, where the number of tokens bounds the depth.

A statement that begins with an expression is an assignment if an equals sign,
an operator with one, or a colon follows; its target must be a name, an
attribute, a subscript, or a group of targets.
-/

namespace HoareCheck.Source

/-- A parser over the tokens that are left. -/
abbrev Parser := StateT (List Token) (Except Fault)

namespace Parser

def fail {α : Type} : Parser α := throw .illFormedSource

def peek? : Parser (Option Token) := do
  return (← get).head?

def skip : Parser Unit := modify List.tail

/-- Reads a token if it is next. -/
def accept (token : Token) : Parser Bool := do
  if (← peek?) = some token then
    skip
    return true
  else
    return false

def acceptSign (text : String) : Parser Bool := accept (.sign text)

def acceptKeyword (text : String) : Parser Bool := accept (.keyword text)

/-- Reads a token that has to be next. -/
def expect (token : Token) : Parser Unit := do
  if ← accept token then return () else fail

def expectSign (text : String) : Parser Unit := expect (.sign text)

def expectName : Parser String := do
  match ← peek? with
  | some (.name text) =>
    skip
    return text
  | _ => fail

/-- Reads the first of several signs that is next, and gives what it stands
for. -/
def signAmong? {α : Type} : List (String × α) → Parser (Option α)
  | [] => return none
  | (text, meaning) :: rest => do
      if ← acceptSign text then return some meaning else signAmong? rest

/-- A number of steps that no loop over the tokens exceeds. -/
def steps : Parser Nat := do
  return (← get).length + 1

/-- Operands joined by binary operators of one level, to the left. -/
def binaryFrom (operators : List (String × BinaryOp)) (operand : Parser Expr) :
    Nat → Expr → Parser Expr
  | 0, left => return left
  | steps + 1, left => do
      match ← signAmong? operators with
      | some operator => binaryFrom operators operand steps (.binary left operator (← operand))
      | none => return left

def binaryLevel (operators : List (String × BinaryOp)) (operand : Parser Expr) : Parser Expr := do
  let left ← operand
  binaryFrom operators operand (← steps) left

/-- The levels of binary operators, tightest first. -/
def binaryLevels : List (List (String × BinaryOp)) :=
  [[("*", .mult), ("/", .div), ("//", .floorDiv), ("%", .mod), ("@", .matMult)],
    [("+", .add), ("-", .sub)], [("<<", .leftShift), (">>", .rightShift)], [("&", .bitAnd)],
    [("^", .bitXor)], [("|", .bitOr)]]

/-- Operands joined by a logical operator, to the left. -/
def logicalFrom (word : String) (operator : LogicalOp) (operand : Parser Expr) :
    Nat → Expr → Parser Expr
  | 0, left => return left
  | steps + 1, left => do
      if ← acceptKeyword word then
        logicalFrom word operator operand steps (.logical operator left (← operand))
      else
        return left

def logicalLevel (word : String) (operator : LogicalOp) (operand : Parser Expr) : Parser Expr := do
  let left ← operand
  logicalFrom word operator operand (← steps) left

/-- A comparison operator, if one is next. -/
def compareOp? : Parser (Option CompareOp) := do
  match ← signAmong? [("==", .eq), ("!=", .notEq), ("<=", .ltE), ("<", .lt), (">=", .gtE),
      (">", .gt)] with
  | some operator => return some operator
  | none =>
    if ← acceptKeyword "in" then
      return some .isIn
    else if ← acceptKeyword "is" then
      if ← acceptKeyword "not" then return some .notSame else return some .same
    else
      match ← get with
      | .keyword "not" :: .keyword "in" :: rest =>
        set rest
        return some .notIn
      | _ => return none

/-- The further operators and operands of a chain of comparisons. -/
def compareChain (operand : Parser Expr) : Nat → Parser (List CompareOp × List Expr)
  | 0 => return ([], [])
  | steps + 1 => do
      match ← compareOp? with
      | some operator =>
        let right ← operand
        let (operators, operands) ← compareChain operand steps
        return (operator :: operators, right :: operands)
      | none => return ([], [])

def comparison (operand : Parser Expr) : Parser Expr := do
  let left ← operand
  match ← compareChain operand (← steps) with
  | (operator :: operators, right :: operands) =>
    return .compare left operator right operators operands
  | _ => return left

/-- Items separated by commas up to a closing sign, which is read too, and
whether a comma stood at the end or between them. -/
def itemsUntil (closing : String) (item : Parser Expr) : Nat → Parser (List Expr × Bool)
  | 0 => fail
  | steps + 1 => do
      if ← acceptSign closing then
        return ([], false)
      else
        let first ← item
        if ← acceptSign "," then
          let (rest, _) ← itemsUntil closing item steps
          return (first :: rest, true)
        else
          expectSign closing
          return ([first], false)

/-- What follows an opening parenthesis: an expression in parentheses, or a
tuple if it is empty or has a comma. -/
def parenthesized (expression : Parser Expr) : Parser Expr := do
  match ← itemsUntil ")" expression (← steps) with
  | ([only], false) => return only
  | (items, _) => return .tuple items

/-- Texts that stand side by side are one. -/
def adjacentTexts : Nat → String → Parser String
  | 0, text => return text
  | steps + 1, text => do
      match ← peek? with
      | some (.constant (.text more)) =>
        skip
        adjacentTexts steps (text ++ more)
      | _ => return text

def atom (expression : Parser Expr) : Parser Expr := do
  match ← peek? with
  | some (.name text) =>
    skip
    return .name text
  | some (.constant (.text text)) =>
    skip
    return .constant (.text (← adjacentTexts (← steps) text))
  | some (.constant value) =>
    skip
    return .constant value
  | some (.keyword "True") =>
    skip
    return .constant (.bool true)
  | some (.keyword "False") =>
    skip
    return .constant (.bool false)
  | some (.keyword "None") =>
    skip
    return .constant .nothing
  | some (.sign "(") =>
    skip
    parenthesized expression
  | some (.sign "[") =>
    skip
    return .list (← itemsUntil "]" expression (← steps)).1
  | _ => fail

/-- An expression, unless one of the signs that may follow a missing bound is
next. -/
def bound? (expression : Parser Expr) : Parser (Option Expr) := do
  match ← peek? with
  | some (.sign ":") | some (.sign ",") | some (.sign "]") => return none
  | _ => return some (← expression)

/-- One item in the brackets of a subscript: an index or a slice. -/
def sliceItem (expression : Parser Expr) : Parser Expr := do
  let lower ← bound? expression
  if ← acceptSign ":" then
    let upper ← bound? expression
    let step ← do
      if ← acceptSign ":" then bound? expression else pure none
    return .slice lower upper step
  else
    match lower with
    | some index => return index
    | none => fail

/-- What follows the opening bracket of a subscript. -/
def subscriptIndex (expression : Parser Expr) : Parser Expr := do
  match ← itemsUntil "]" (sliceItem expression) (← steps) with
  | ([], _) => fail
  | ([only], false) => return only
  | (items, _) => return .tuple items

/-- Attributes, calls and subscripts after an expression. -/
def trailers (expression : Parser Expr) : Nat → Expr → Parser Expr
  | 0, value => return value
  | steps + 1, value => do
      if ← acceptSign "." then
        trailers expression steps (.member value (← expectName))
      else if ← acceptSign "(" then
        let (arguments, _) ← itemsUntil ")" expression (← Parser.steps)
        trailers expression steps (.call value arguments)
      else if ← acceptSign "[" then
        trailers expression steps (.subscript value (← subscriptIndex expression))
      else
        return value

/-- An atom with its trailers, and the power it is raised to. -/
def power (expression factor : Parser Expr) : Parser Expr := do
  let value ← atom expression
  let base ← trailers expression (← steps) value
  if ← acceptSign "**" then
    return .binary base .pow (← factor)
  else
    return base

/-- A unary operator before a factor, or a power. -/
def factorOver (expression factor : Parser Expr) : Parser Expr := do
  match ← signAmong? [("-", UnaryOp.minus), ("+", .plus), ("~", .invert)] with
  | some operator => return .unary operator (← factor)
  | none => power expression factor

/-- A negation, or a comparison of what the binary operators join. -/
def inversionOver (factor inversion : Parser Expr) : Parser Expr := do
  if ← acceptKeyword "not" then
    return .unary .not (← inversion)
  else
    comparison (binaryLevels.foldl (fun operand operators => binaryLevel operators operand) factor)

def expressionOver (inversion : Parser Expr) : Parser Expr :=
  logicalLevel "or" .or (logicalLevel "and" .and inversion)

/-- The parsers for what nests inside itself. -/
structure Grammar where
  factor : Parser Expr
  inversion : Parser Expr
  expression : Parser Expr

/-- The grammar of expressions that nest at most `depth` deep. -/
def grammarAt : Nat → Grammar
  | 0 => { factor := fail, inversion := fail, expression := fail }
  | depth + 1 =>
    let inner := grammarAt depth
    let factor := factorOver inner.expression inner.factor
    let inversion := inversionOver factor inner.inversion
    { factor, inversion, expression := expressionOver inversion }

/-- A single expression. -/
def expression : Parser Expr := do
  (grammarAt (← steps)).expression

/-- Whether an expression may start here. -/
def startsExpression : Option Token → Bool
  | some (.name _) | some (.constant _) => true
  | some (.keyword text) => ["True", "False", "None", "not"].contains text
  | some (.sign text) => ["(", "[", "-", "+", "~"].contains text
  | _ => false

/-- More items of a tuple without parentheses, each after a comma. -/
def tupleFrom : Nat → Parser (List Expr)
  | 0 => return []
  | steps + 1 => do
      if startsExpression (← peek?) then
        let item ← expression
        if ← acceptSign "," then
          return item :: (← tupleFrom steps)
        else
          return [item]
      else
        return []

/-- One expression, or a tuple without parentheses. -/
def expressions : Parser Expr := do
  let first ← expression
  if ← acceptSign "," then
    return .tuple (first :: (← tupleFrom (← steps)))
  else
    return first

end Parser

mutual

/-- Whether an expression can be assigned to. -/
def Expr.isTarget : Expr → Bool
  | .name _ | .member .. | .subscript .. => true
  | .tuple items | .list items => areTargets items
  | _ => false

def areTargets : List Expr → Bool
  | [] => true
  | item :: rest => item.isTarget && areTargets rest

end

/-- Whether an expression can be the one target of an operator assignment or an
annotation. -/
def Expr.isSingleTarget : Expr → Bool
  | .name _ | .member .. | .subscript .. => true
  | _ => false

namespace Parser

/-- The signs of the assignments with an operator. -/
def augmentedSigns : List (String × BinaryOp) :=
  [("+=", .add), ("-=", .sub), ("*=", .mult), ("/=", .div), ("//=", .floorDiv), ("%=", .mod),
    ("@=", .matMult), ("&=", .bitAnd), ("|=", .bitOr), ("^=", .bitXor), ("<<=", .leftShift),
    (">>=", .rightShift), ("**=", .pow)]

/-- The right sides of a chain of assignments; the last one is the value. -/
def assignedTo : Nat → List Expr → Expr → Parser Stmt
  | 0, _, _ => fail
  | steps + 1, targets, target => do
      if !target.isTarget then
        fail
      let next ← expressions
      if ← acceptSign "=" then
        assignedTo steps (targets ++ [target]) next
      else
        return .assign (targets ++ [target]) next

/-- A statement that begins with an expression. -/
def expressionStatement : Parser Stmt := do
  let first ← expressions
  if ← acceptSign "=" then
    assignedTo (← steps) [] first
  else
    match ← signAmong? augmentedSigns with
    | some operator =>
      if first.isSingleTarget then return .augmented first operator (← expressions) else fail
    | none =>
      if ← acceptSign ":" then
        if !first.isSingleTarget then
          fail
        let type ← expression
        if ← acceptSign "=" then
          return .annotated first type (some (← expressions))
        else
          return .annotated first type none
      else
        return .expr first

/-- A statement that fits on one line. -/
def simpleStatement : Parser Stmt := do
  if ← acceptKeyword "pass" then
    return .pass
  else if ← acceptKeyword "break" then
    return .breakLoop
  else if ← acceptKeyword "continue" then
    return .continueLoop
  else if ← acceptKeyword "return" then
    if startsExpression (← peek?) then return .returned (some (← expressions))
    else return .returned none
  else if ← acceptKeyword "assert" then
    let test ← expression
    if ← acceptSign "," then return .assert test (some (← expression))
    else return .assert test none
  else
    expressionStatement

/-- The statements of one line. -/
def simpleStatements : Nat → Parser (List Stmt)
  | 0 => fail
  | steps + 1 => do
      let first ← simpleStatement
      if ← acceptSign ";" then
        if ← accept .newline then
          return [first]
        else
          return first :: (← simpleStatements steps)
      else
        expect .newline
        return [first]

/-- One parameter of a function, and whether it has a default. -/
def parameter : Parser Bool := do
  let _ ← expectName
  if ← acceptSign ":" then
    let _ ← expression
  if ← acceptSign "=" then
    let _ ← expression
    return true
  else
    return false

/-- The parameters of a function up to the closing parenthesis.  After one with
a default, all have one, until a star. -/
def parameters (needsDefault : Bool) : Nat → Parser Unit
  | 0 => fail
  | steps + 1 => do
      if ← acceptSign ")" then
        return ()
      else if ← acceptSign "**" then
        let _ ← parameter
        let _ ← acceptSign ","
        expectSign ")"
      else if ← acceptSign "*" then
        if (← peek?) ≠ some (.sign ",") then
          let _ ← parameter
        if ← acceptSign "," then parameters false steps else expectSign ")"
      else if ← acceptSign "/" then
        if ← acceptSign "," then parameters needsDefault steps else expectSign ")"
      else
        let hasDefault ← parameter
        if needsDefault && !hasDefault then
          fail
        if ← acceptSign "," then parameters hasDefault steps else expectSign ")"

/-- The decorators of a function, one to a line. -/
def decorators : Nat → Parser Unit
  | 0 => fail
  | steps + 1 => do
      if ← acceptSign "@" then
        let _ ← expression
        expect .newline
        decorators steps

/-- A function after its decorators, given the parser for a body. -/
def functionDef (block : Parser (List Stmt)) : Parser Stmt := do
  expect (.keyword "def")
  let name ← expectName
  expectSign "("
  parameters false (← steps)
  if ← acceptSign "->" then
    let _ ← expression
  return .functionDef name (← block)

/-- The body of a loop or conditional after `else`, if there is one. -/
def elseBlock (block : Parser (List Stmt)) : Parser (List Stmt) := do
  if ← acceptKeyword "else" then block else return []

/-- What follows `if` or `elif`, given the parser for a body. -/
def conditional (block : Parser (List Stmt)) : Nat → Parser Stmt
  | 0 => fail
  | steps + 1 => do
      let test ← expression
      let body ← block
      if ← acceptKeyword "elif" then
        return .ifElse test body [← conditional block steps]
      else
        return .ifElse test body (← elseBlock block)

/-- The target of a `for`: what stands before `in` must be assignable. -/
def forTarget : Nat → Parser Expr
  | 0 => fail
  | steps + 1 => do
      let operand ← binaryOperand
      if ← acceptSign "," then
        if (← peek?) = some (.keyword "in") then
          return .tuple [operand]
        else
          match ← forTarget steps with
          | .tuple items => return .tuple (operand :: items)
          | last => return .tuple [operand, last]
      else
        return operand
where
  /-- An operand of a comparison, which `in` does not extend. -/
  binaryOperand : Parser Expr := do
    (grammarAt (← Parser.steps)).factor

/-- A statement, given the parser for a body.  A compound statement gives one
statement, a line may give several. -/
def statement (block : Parser (List Stmt)) : Parser (List Stmt) := do
  match ← peek? with
  | some (.keyword "if") =>
    skip
    return [← conditional block (← steps)]
  | some (.keyword "while") =>
    skip
    let test ← expression
    let body ← block
    return [.whileLoop test body (← elseBlock block)]
  | some (.keyword "for") =>
    skip
    let target ← forTarget (← steps)
    if !target.isTarget then
      fail
    expect (.keyword "in")
    let iterated ← expressions
    let body ← block
    return [.forLoop target iterated body (← elseBlock block)]
  | some (.keyword "def") => return [← functionDef block]
  | some (.sign "@") =>
    decorators (← steps)
    return [← functionDef block]
  | _ => simpleStatements (← steps)

/-- Statements up to the end of their block. -/
def statements (block : Parser (List Stmt)) : Nat → Parser (List Stmt)
  | 0 => fail
  | steps + 1 => do
      match ← peek? with
      | none | some .dedent => return []
      | some _ =>
        let first ← statement block
        return first ++ (← statements block steps)

/-- A body: after a colon, a line of statements or an indented block. -/
def blockAt : Nat → Parser (List Stmt)
  | 0 => fail
  | depth + 1 => do
      expectSign ":"
      if ← accept .newline then
        expect .indent
        let body ← statements (blockAt depth) (← steps)
        expect .dedent
        return body
      else
        simpleStatements (← steps)

def program : Parser Program := do
  let count ← steps
  let body ← statements (blockAt count) count
  if (← peek?).isNone then return body else fail

end Parser

/-- The program that a text writes. -/
def parse (text : String) : Except Fault Program := do
  let tokens ← lex text
  let (program, _) ← Parser.program.run tokens
  return program

/-- The expression that a text writes. -/
def parseExpression (text : String) : Except Fault Expr := do
  match ← parse text with
  | [.expr value] => return value
  | _ => throw .illFormedSource

end HoareCheck.Source
