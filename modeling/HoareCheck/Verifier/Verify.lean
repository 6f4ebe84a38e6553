import HoareCheck.Text.Blank
import HoareCheck.Verifier.Conditions

/-!
# Verification

Each condition of a task is negated, encoded and given to the solver.  A
state in which a negated condition holds ends the run; every other verdict, also
an undecided one, goes on to the next condition.

The solver is not part of this library: its verdicts are an input, in the order
in which they are asked for, and once they are used up nothing more is found.
-/

namespace HoareCheck

/-- What the solver says of a formula. -/
inductive Verdict
  | sat
  | unsat
  | unknown
  deriving DecidableEq, Repr, Inhabited

/-- What a run leaves behind: its outcome, the formulas that were asked, the
number of lines printed, the verdicts not used, and the verifier. -/
structure Report where
  outcome : Except Fault Unit
  queries : List Formula
  lines : Nat
  verdicts : List Verdict
  verifier : Verifier

/-- The fault of a condition that fails. -/
def Condition.failure (condition : Condition) : Fault :=
  if condition.aboutInvariant then .invalidInvariant else .violatedCondition

/-- What checking conditions leaves behind. -/
structure Checked where
  outcome : Except Fault Unit
  queries : List Formula
  verdicts : List Verdict
  state : EncodingState

/-- The formula whose solutions are the states in which a condition fails. -/
def Condition.query (condition : Condition) : Encoding Formula := do
  match ← (Term.unary .not condition.claim).encode with
  | .symbolic formula => return formula
  | .plain _ => throw .illSorted

/-- Checks conditions one after the other, up to the first that fails. -/
def checkAll (context : EncodingContext) (state : EncodingState) (verdicts : List Verdict) :
    List Condition → Checked
  | [] => { outcome := .ok (), queries := [], verdicts, state }
  | condition :: rest =>
    match (condition.query.run context).run.run state with
    | (.error fault, state) => { outcome := .error fault, queries := [], verdicts, state }
    | (.ok formula, state) =>
      if verdicts.head? = some .sat then
        { outcome := .error condition.failure, queries := [formula],
          verdicts := verdicts.tail, state }
      else
        let checked := checkAll context state verdicts.tail rest
        { checked with queries := formula :: checked.queries }

namespace Verifier

/-- Verifies a task with the verdicts of the solver. -/
def verify (verifier : Verifier) (task : Task) (verdicts : List Verdict) : Report :=
  match task.conditions.run { log := .empty, verifier } with
  | (.error fault, state) =>
    { outcome := .error fault, queries := [], lines := 0, verdicts, verifier := state.verifier }
  | (.ok conditions, state) =>
    match state.verifier.scopes.find? task.scope with
    | some (some env) =>
      let context := { log := state.log, lengths := task.lengths }
      let names := NameTable.ofEnv task.twoRuns env
      let checked := checkAll context { names, lines := 0 } verdicts conditions
      { outcome := checked.outcome, queries := checked.queries, lines := checked.state.lines,
        verdicts := checked.verdicts, verifier := state.verifier }
    | _ =>
      { outcome := .error .noSuchPart, queries := [], lines := 0, verdicts,
        verifier := state.verifier }

end Verifier

/-- A condition written above a function. -/
inductive Decorator
  | precondition (claim : String)
  | postcondition (claim : String)
  deriving DecidableEq, Repr, Inhabited

namespace Decorator

def precondition? : Decorator → Option String
  | .precondition claim => some claim
  | .postcondition _ => none

def postcondition? : Decorator → Option String
  | .postcondition claim => some claim
  | .precondition _ => none

end Decorator

/-- A function with the conditions above it, each on a line of its own. -/
structure DecoratedFunction where
  decorators : List Decorator
  code : String
  name : String
  deriving Inhabited

namespace DecoratedFunction

/-- The lines of a text. -/
def linesOf : List Char → List (List Char)
  | [] => [[]]
  | '\n' :: rest => [] :: linesOf rest
  | char :: rest =>
    match linesOf rest with
    | line :: lines => (char :: line) :: lines
    | [] => [[char]]

/-- The text that is verified: two lines are taken to be decorators whether they
are or not, and blanks in front are dropped. -/
def verifiedText (function : DecoratedFunction) : String :=
  let lines := (linesOf function.code.toList).drop (2 - function.decorators.length)
  let decoratorLines := function.decorators.drop 2
  let shown := decoratorLines.map fun decorator => match decorator with
    | .precondition claim => ("@precondition(\"" ++ claim ++ "\")").toList
    | .postcondition claim => ("@postcondition(\"" ++ claim ++ "\")").toList
  String.ofList (Text.dropBlanks (['\n'].intercalate (shown ++ lines)))

/-- The task of a function: of several conditions of one kind the topmost
counts, and a missing one is true. -/
def task (function : DecoratedFunction) (checksInvariants : Bool) : Task :=
  { code := function.verifiedText
    scope := function.name
    precondition := (function.decorators.findSome? Decorator.precondition?).getD "True"
    postcondition := (function.decorators.findSome? Decorator.postcondition?).getD "True"
    twoRuns := false
    checksInvariants
    lengths := [] }

/-- Verifies a function, which has to be a program of its own first. -/
def prove (function : DecoratedFunction) (env : Option TypeEnv) (checksInvariants : Bool)
    (verdicts : List Verdict) : Report :=
  match Source.parse function.code with
  | .error fault =>
    { outcome := .error fault, queries := [], lines := 0, verdicts, verifier := .new }
  | .ok _ =>
    (Verifier.new.register function.name env).verify (function.task checksInvariants) verdicts

end DecoratedFunction

end HoareCheck
