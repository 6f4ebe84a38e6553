import HoareCheck.Elaboration.Program
import HoareCheck.Hoare.LoopCut
import HoareCheck.Solver.Encode
import HoareCheck.Typing.Resolve

/-!
# The conditions of a verification task

A task is a program text with a pre- and a postcondition.  Its conditions are
the claims that have to hold in every state for the program to be right: that
the precondition implies the computed one, and the side conditions of the
loops.  If the invariants are to be checked too, the conditions of the program
with its loops cut stand in front.

Side conditions, and the invariants of the cut loops, form sets; they are
listed in the order of their printed form at the time they are computed.
-/

namespace HoareCheck

/-- The registered scopes, each with its environment unless it has none. -/
abbrev Scopes := List (String × Option TypeEnv)

namespace Scopes

def find? (scopes : Scopes) (scope : String) : Option (Option TypeEnv) :=
  (List.find? (fun entry => entry.1 = scope) scopes).map Prod.snd

def insert (scopes : Scopes) (scope : String) (env : Option TypeEnv) : Scopes :=
  match scopes with
  | [] => [(scope, env)]
  | head :: rest =>
    if head.1 = scope then (scope, env) :: rest else head :: insert rest scope env

end Scopes

/-- What a verifier keeps between tasks: the scopes, and the numbers of the
havocs. -/
structure Verifier where
  scopes : Scopes
  counts : HavocCounts
  deriving Inhabited

namespace Verifier

def new : Verifier := { scopes := [], counts := [] }

def register (verifier : Verifier) (scope : String) (env : Option TypeEnv) : Verifier :=
  { verifier with scopes := verifier.scopes.insert scope env }

end Verifier

/-- A program text and what is claimed of it.  `twoRuns` compares two runs of
the program, `checksInvariants` asks for the conditions of the cut program. -/
structure Task where
  code : String
  scope : String
  precondition : String
  postcondition : String
  twoRuns : Bool
  checksInvariants : Bool
  lengths : ArrayLengths
  deriving Inhabited

/-- A claim that has to hold in every state; `aboutInvariant` marks those of the
cut program. -/
structure Condition where
  claim : Term
  aboutInvariant : Bool
  deriving Repr, Inhabited

/-- The state while the conditions of a task are computed. -/
structure RunState where
  log : WriteLog
  verifier : Verifier
  deriving Inhabited

/-- A step of a task; what it changed before a failure stays. -/
abbrev Run := ExceptT Fault (StateM RunState)

namespace Run

def ofExcept {α : Type} : Except Fault α → Run α
  | .ok value => pure value
  | .error fault => throw fault

/-- Runs a computation on the log. -/
def logged {α : Type} (computation : Logged α) : Run α := do
  let state ← get
  let (outcome, log) := computation.run state.log
  set { state with log }
  ofExcept outcome

/-- The environment of a scope, which has to be registered. -/
def env (scope : String) : Run (Option TypeEnv) := do
  match (← get).verifier.scopes.find? scope with
  | some env => return env
  | none => throw .noSuchEntry

/-- Runs a computation on the environment of a scope. -/
def typing {α : Type} (scope : String) (computation : Typing α) : Run α := do
  let (outcome, env) := computation.run (← env scope)
  modify fun state => { state with verifier := state.verifier.register scope env }
  ofExcept outcome

/-- Runs a computation on the log and the numbers of the havocs. -/
def cutting {α : Type} (computation : Cutting α) : Run α := do
  let state ← get
  let (outcome, cut) := computation.run { log := state.log, counts := state.verifier.counts }
  set { state with log := cut.log, verifier := { state.verifier with counts := cut.counts } }
  ofExcept outcome

end Run

/-- Puts a term into a list that is ascending by printed form, after those of
the same form. -/
def insertByText (entry : String × Term) : List (String × Term) → List (String × Term)
  | [] => [entry]
  | head :: rest =>
    if entry.1 < head.1 then entry :: head :: rest else head :: insertByText entry rest

/-- Terms in the order of their printed form. -/
def sortByText (log : WriteLog) (terms : List Term) : List Term :=
  (terms.foldl (fun sorted term => insertByText (log.print term, term) sorted) []).map Prod.snd

namespace Task

/-- The statement of the program; for two runs it forks the names that the
program assigns, and starts with no privacy cost. -/
def statement (task : Task) : Run Term := do
  let program ← Run.ofExcept (Source.parse task.code)
  let single ← Run.logged (Source.elaborate .single program)
  if task.twoRuns then
    let names ← Run.ofExcept single.assigned
    let forked ← Run.logged (Source.elaborate (.forked (ascending names)) program)
    return (Term.assign (.var costName) (.int 0) false).andThen forked
  else
    return single

/-- The obligations of a statement, its side conditions in order. -/
def orderedObligations (scope : String) (statement post : Term) : Run Obligations := do
  let env ← Run.env scope
  match ← Run.logged (statement.obligations? env post) with
  | some obligations =>
    let log := (← get).log
    return { obligations with
      sideConditions := sortByText log obligations.sideConditions }
  | none => throw .wrongKind

/-- The conditions of a statement under a precondition. -/
def conditionsOf (scope : String) (pre statement post : Term) (aboutInvariant : Bool) :
    Run (List Condition) := do
  let obligations ← orderedObligations scope statement post
  let claims := .binary pre .implies obligations.precondition :: obligations.sideConditions
  return claims.map fun claim => { claim, aboutInvariant }

/-- The conditions of the program with its loops cut, for the first of its
invariants as postcondition. -/
def invariantConditions (scope : String) (pre statement : Term) : Run (List Condition) := do
  let cut ← Run.cutting statement.cutLoops
  let log := (← get).log
  match sortByText log cut.invariants with
  | invariant :: _ => conditionsOf scope pre cut.program invariant true
  | [] => throw .noSuchIndex

/-- All conditions of a task, in the order in which they are checked. -/
def conditions (task : Task) : Run (List Condition) := do
  let statement ← task.statement
  let pre ← Run.logged (Logged.parse task.precondition)
  let post ← Run.logged (Logged.parse task.postcondition)
  let _ ← Run.typing task.scope statement.resolveStatement
  let _ ← Run.typing task.scope pre.resolveClaim
  let _ ← Run.typing task.scope post.resolveClaim
  let ofInvariants ←
    if task.checksInvariants then invariantConditions task.scope pre statement else pure []
  let ofProgram ← conditionsOf task.scope pre statement post false
  return ofInvariants ++ ofProgram

end Task

/-- The names that a variable of a type adds to the table of the solver. -/
def NameTable.declare (names : NameTable) (twoRuns : Bool) (name : String) (sort : SolverSort) :
    NameTable :=
  let names := names.insert name sort
  if twoRuns then (names.insert (firstCopy name) sort).insert (secondCopy name) sort else names

/-- The table of the solver for an environment.  When two runs are compared,
integers and truth values have a copy for each. -/
def NameTable.ofEnv (twoRuns : Bool) (env : TypeEnv) : NameTable :=
  env.foldl (fun names entry => match entry.2 with
    | .known .int => names.declare twoRuns entry.1 .int
    | .known .bool => names.declare twoRuns entry.1 .bool
    | .known (.listOf .int) => names.insert entry.1 .array
    | _ => names) []

end HoareCheck
