import HoareCheck.Claim.Substitution
import HoareCheck.Claim.Token
import HoareCheck.Text.Integer

/-!
# Parser of claims

```
expr       = ("forall" | "exists") primary [":" token primary] "::" expr | logical
logical    = "not" equality | equality (("and" | "or" | "==>" | "<==>") equality)*
equality   = relational (("==" | "!=" | "~") relational)*
relational = sum (("<" | "<=" | ">" | ">=") sum)*
sum        = product (("+" | "-") product)*
product    = unary (("*" | "/" | "%") unary)*
unary      = ["+" | "-" | "||"] primary
primary    = bool | int | "(" expr ")" | var ["[" index]
index      = sum "]" | sum ":" "]" | sum ":" sum | ":" sum
```

Binary operators of one level associate to the left.  Where a primary is
expected and none starts, the operand is missing and nothing is read; tokens
after a complete expression are left alone.

The state of the parser is the number of tokens read.  Each level is a function
of the parser for the level below; only the innermost level calls the outermost
one again, always after reading a token, so the number of tokens bounds the
nesting.
-/

namespace HoareCheck

/-- A parser over a fixed row of tokens.  The state is the number of tokens
read, and a failure keeps it. -/
abbrev Parser := ReaderT (Array Token) (ExceptT Fault (StateM Nat))

namespace Parser

/-- The position of the last token read, from zero; `-1` before the first. -/
def position : Parser Int := do
  let count : Nat ← get
  return (count : Int) - 1

/-- Reads the next token if it is of the given kind. -/
def consume (kind : TokenKind) : Parser Bool := do
  let count ← get
  match (← read)[count]? with
  | some token =>
    if token.kind = kind then
      set (count + 1)
      return true
    else
      return false
  | none => return false

/-- Passes over the next token, whatever it is; the parser may end up one past
the last token, and no further. -/
def advance : Parser Unit := do
  let count ← get
  if count ≤ (← read).size then
    set (count + 1)

/-- The last token read, or nothing past the end. -/
def current : Parser (Option Token) := do
  match ← get with
  | 0 => throw .beforeFirstToken
  | index + 1 => return (← read)[index]?

/-- The operators of one level, by the kind of their token. -/
abbrev Level := List (TokenKind × Operator)

def logicalLevel : Level := [(.and, .and), (.or, .or), (.implies, .implies), (.iff, .iff)]

def equalityLevel : Level := [(.eq, .eq), (.neq, .neq), (.adjacent, .adjacent)]

def relationalLevel : Level := [(.lt, .lt), (.le, .le), (.gt, .gt), (.ge, .ge)]

def sumLevel : Level := [(.plus, .add), (.minus, .minus)]

def productLevel : Level := [(.mult, .mult), (.div, .div), (.mod, .mod)]

def unaryLevel : Level := [(.plus, .add), (.minus, .minus), (.abs, .abs)]

/-- Reads one of the operators of a level, if one is next. -/
def operator? : Level → Parser (Option Operator)
  | [] => return none
  | (kind, operator) :: rest => do
      if ← consume kind then return some operator else operator? rest

/-- Extends `left` by as many operators of a level, with their operands, as
follow.  Each one is a token, so the number of tokens bounds the steps. -/
def chainFrom (level : Level) (operand : Parser Term) : Nat → Term → Parser Term
  | 0, left => return left
  | steps + 1, left => do
      match ← operator? level with
      | some operator =>
        let right ← operand
        chainFrom level operand steps (.binary left operator right)
      | none => return left

/-- Operands joined by the operators of a level, to the left. -/
def chain (level : Level) (operand : Parser Term) : Parser Term := do
  let left ← operand
  chainFrom level operand (← read).size left

def unaryOver (primary : Parser Term) : Parser Term := do
  match ← operator? unaryLevel with
  | some operator => return .unary operator (← primary)
  | none => primary

def productOver (primary : Parser Term) : Parser Term :=
  chain productLevel (unaryOver primary)

def sumOver (primary : Parser Term) : Parser Term :=
  chain sumLevel (productOver primary)

def relationalOver (primary : Parser Term) : Parser Term :=
  chain relationalLevel (sumOver primary)

def equalityOver (primary : Parser Term) : Parser Term :=
  chain equalityLevel (relationalOver primary)

def logicalOver (primary : Parser Term) : Parser Term := do
  if ← consume .not then
    return .unary .not (← equalityOver primary)
  else
    chain logicalLevel (equalityOver primary)

/-- Closes a quantifier that was just read.  Nothing has been recorded against
its reads. -/
def close (quantified : Term) : Parser Term :=
  match (quantified.closeBinder.run WriteLog.empty).1 with
  | .ok closed => return closed
  | .error fault => throw fault

/-- What follows the word `forall` or `exists`. -/
def quantifiedBy (quantifier : Quantifier) (primary expression : Parser Term) : Parser Term := do
  let binder ← primary
  let mut written := Term.missing
  if ← consume .colon then
    advance
    written ← primary
  if ← consume .doubleColon then
    let body ← expression
    close (.quantified quantifier binder none written body false)
  else
    throw (.expectedBody (← position))

/-- An expression, given parsers for a primary and for the expression below a
quantifier. -/
def expressionOver (primary expression : Parser Term) : Parser Term := do
  if ← consume .forallKind then
    quantifiedBy .universal primary expression
  else if ← consume .existsKind then
    quantifiedBy .existential primary expression
  else
    logicalOver primary

/-- What follows an opening parenthesis.  Any token is passed over in the place
of the closing one before it is looked at. -/
def parenthesized (expression : Parser Term) : Parser Term := do
  let inner ← expression
  advance
  match ← current with
  | none => throw .noSuchPart
  | some token =>
    if token.kind = .rparen then return inner
    else throw (.expectedParenthesis (← position))

/-- What follows the bracket after an array name. -/
def indexOf (array : Term) (sum : Parser Term) : Parser Term := do
  if ← consume .colon then
    return .subscript 0 array (Term.ofBounds .missing (← sum))
  else
    let lower ← sum
    if ← consume .colon then
      if ← consume .rbracket then
        return .subscript 0 array (Term.ofBounds lower .missing)
      else
        return .subscript 0 array (Term.ofBounds lower (← sum))
    else if ← consume .rbracket then
      return .subscript 0 array lower
    else
      throw (.expectedBracket (← position))

/-- The text of the last token read. -/
def currentText : Parser String := do
  match ← current with
  | some token => return token.text
  | none => throw .noSuchPart

/-- The literal that a run of digits writes. -/
def integerLiteral (digits : String) : Parser Term :=
  match Text.readInteger? digits with
  | some value => return .int value
  | none => throw .notAnInteger

/-- A primary, given parsers for the expression in parentheses and for the sum
in brackets. -/
def primaryOver (expression sum : Parser Term) : Parser Term := do
  if ← consume .lparen then
    parenthesized expression
  else if ← consume .int then
    integerLiteral (← currentText)
  else if ← consume .bool then
    return .bool ((← currentText) = "True")
  else if ← consume .var then
    let array := Term.var (← currentText)
    if ← consume .lbracket then indexOf array sum else return array
  else
    return .missing

/-- The parsers for a primary and for an expression. -/
structure Grammar where
  primary : Parser Term
  expression : Parser Term

/-- The grammar with at most `depth` parentheses, brackets and quantifiers
inside each other. -/
def grammarAt : Nat → Grammar
  | 0 => { primary := throw .nestedTooDeeply, expression := throw .nestedTooDeeply }
  | depth + 1 =>
    let inner := grammarAt depth
    let primary := primaryOver inner.expression (sumOver inner.primary)
    { primary, expression := expressionOver primary inner.expression }

/-- A parser over the grammar as deep as the tokens can nest. -/
def withGrammar {α : Type} (parser : Grammar → Parser α) : Parser α := do
  parser (grammarAt ((← read).size + 1))

def expression : Parser Term := withGrammar (·.expression)

def logical : Parser Term := withGrammar fun grammar => logicalOver grammar.primary

def equality : Parser Term := withGrammar fun grammar => equalityOver grammar.primary

def relational : Parser Term := withGrammar fun grammar => relationalOver grammar.primary

def sum : Parser Term := withGrammar fun grammar => sumOver grammar.primary

def product : Parser Term := withGrammar fun grammar => productOver grammar.primary

def unary : Parser Term := withGrammar fun grammar => unaryOver grammar.primary

def primary : Parser Term := withGrammar (·.primary)

/-- The outcome of a parser over a row of tokens, and how many of them were
read, starting after the first `count`. -/
def runFrom {α : Type} (parser : Parser α) (tokens : Array Token) (count : Nat) :
    Except Fault α × Nat :=
  ((parser.run tokens).run).run count

end Parser

/-- The term that a claim writes, its reads not yet placed. -/
def Term.ofClaim (text : String) : Except Fault Term :=
  (Parser.expression.runFrom (Token.scan text).toArray 0).1

/-- The term that a claim writes. -/
def Logged.parse (text : String) : Logged Term :=
  match Term.ofClaim text with
  | .ok term => Logged.place term
  | .error fault => throw fault

end HoareCheck
