import HoareCheck.Claim.Printer

/-!
# Faults

Everything that can go wrong between a program text and its verdict, by cause.
`Fault.message` gives the wording of those that have one.
-/

namespace HoareCheck

/-- What is known of the type of a name or term: nothing, a type, or the term
that was written in place of a type. -/
inductive TypeEntry
  | unknown
  | known (ty : Ty)
  | written (term : Term)
  deriving DecidableEq, Repr, Inhabited

namespace TypeEntry

def shown : TypeEntry → String
  | .unknown => "None"
  | .known ty => ty.shown
  | .written term => term.text

/-- The entry for the bound variable of a quantifier. -/
def ofBinder (type : Option Ty) (written : Term) : TypeEntry :=
  match written, type with
  | .missing, none => .unknown
  | .missing, some ty => .known ty
  | written, _ => .written written

/-- The two fields of a quantifier that hold an entry. -/
def toBinder : TypeEntry → Option Ty × Term
  | .unknown => (none, .missing)
  | .known ty => (some ty, .missing)
  | .written term => (none, term)

/-- The type of the elements, if this is a list type that names it. -/
def element? : TypeEntry → Option TypeEntry
  | .known ty => ty.element?.map .known
  | _ => none

end TypeEntry

inductive Fault
  /-- A part was asked of something that has no such part. -/
  | noSuchPart
  /-- An operation was applied to things of the wrong kind. -/
  | wrongKind
  /-- A table has no entry of the name. -/
  | noSuchEntry
  /-- A sequence is too short. -/
  | noSuchIndex
  /-- A text or number does not write an integer. -/
  | notAnInteger
  /-- No rule produced the result that is needed. -/
  | noResult
  | divisionByZero
  /-- A number is too large for the operation. -/
  | tooLarge
  /-- The solver cannot build the formula. -/
  | illSorted
  | illFormedSource
  | nestedTooDeeply
  /-- The parser has not read a token yet. -/
  | beforeFirstToken
  | expectedBody (position : Int)
  | expectedParenthesis (position : Int)
  | expectedBracket (position : Int)
  | unsupportedSourceOperator (shown : String)
  | typeMismatch (expected actual : TypeEntry)
  | assignmentMismatch (name : String) (left right : TypeEntry)
  | untypedVariable (name : String)
  | untypedBinder (name : String)
  | untypedLiteral (literal : Literal)
  | untypedTerm (term : Term)
  | unsupportedStatement (statement : Term)
  | unencodableTerm (term : Term)
  | unencodableOperator (operator : Operator)
  | unencodableBinder (entry : TypeEntry)
  | unknownName (name : String)
  /-- The solver found a state in which an invariant obligation fails. -/
  | invalidInvariant
  /-- The solver found a state in which another obligation fails. -/
  | violatedCondition
  deriving DecidableEq, Repr, Inhabited

/-- The wording of a fault, for those that carry one. -/
def Fault.message : Fault → Option String
  | .noSuchPart | .wrongKind | .noSuchEntry | .noSuchIndex | .notAnInteger | .noResult
  | .divisionByZero | .tooLarge | .illSorted | .illFormedSource | .nestedTooDeeply
  | .invalidInvariant | .violatedCondition => none
  | .beforeFirstToken => some "self.pos == -1"
  | .expectedBody position => some ("Expect `::` at pos=" ++ toString position)
  | .expectedParenthesis position => some ("Expect ')' at pos=" ++ toString position)
  | .expectedBracket position => some ("Expect `]` at pos=" ++ toString position)
  | .unsupportedSourceOperator shown => some (shown ++ " is not supported")
  | .typeMismatch expected actual =>
    some ("Expected Type:" ++ expected.shown ++ ", Actual Type:" ++ actual.shown)
  | .assignmentMismatch name left right =>
    some ("Type Mismatch of " ++ name ++ ": left=" ++ left.shown ++ ", right=" ++ right.shown)
  | .untypedVariable name => some ("Type of the variable `" ++ name ++ "` is unkonwn")
  | .untypedBinder name => some ("Type of the variable `" ++ name ++ "` cannot be inffered")
  | .untypedLiteral literal => some (literal.shownClass ++ " is not supported")
  | .untypedTerm term => some (term.shownClass ++ " is not suported")
  | .unsupportedStatement statement => some (statement.shownClass ++ " is not supported")
  | .unencodableTerm term => some ("`" ++ term.shownClass ++ " is not supported")
  | .unencodableOperator operator => some (operator.shown ++ " is not supported")
  | .unencodableBinder entry => some (entry.shown ++ " is not supported")
  | .unknownName name =>
    some (name ++ " is unkonwn in name_dict when converting Claim to Z3")

/-- A computation that reads and records writes and may fail; what was recorded
before a failure stays. -/
abbrev Logged := ExceptT Fault (StateM WriteLog)

namespace Logged

/-- The value, or a fault if there is none. -/
def ofOption {α : Type} (fault : Fault) : Option α → Logged α
  | some value => pure value
  | none => throw fault

/-- Gives the unplaced reads of a term sites of their own. -/
def place (term : Term) : Logged Term := do
  let (placed, log) := term.place (← get)
  set log
  return placed

end Logged

end HoareCheck
