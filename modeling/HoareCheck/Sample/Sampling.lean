import HoareCheck.Claim.Copy
import HoareCheck.Claim.Layout
import HoareCheck.Claim.Names
import HoareCheck.Verifier.Verify

/-!
# Runs of sample workloads

A sample workload exercises one part of the library and gives back items that
show what it did.  It may ask the solver, whose verdicts are given.
-/

namespace HoareCheck.Sample

/-- One item of a result. -/
inductive Item
  | nothing
  | flag (value : Bool)
  | count (value : Int)
  | text (value : String)
  | names (names : List String)
  | nameSet (names : List String)
  | type (entry : TypeEntry)
  | term (shown : String)
  | group (items : List Item)
  deriving Inhabited

/-- What a sample run reads and changes: the writes to arrays, the verdicts
left, the formulas asked and the number of lines printed. -/
structure SampleState where
  log : WriteLog := .empty
  verdicts : List Verdict := []
  queries : List Formula := []
  lines : Nat := 0

/-- A sample run; what it changed before a fault stays. -/
abbrev Sampling := ExceptT Fault (StateM SampleState)

namespace Sampling

def logged {α : Type} (computation : Logged α) : Sampling α := do
  let state ← get
  let (outcome, log) := (computation.run state.log : Except Fault α × WriteLog)
  set { state with log }
  ofExcept outcome

/-- Runs a computation on types in an environment, which it may change. -/
def typing {α : Type} (env : TypeEnv) (computation : Typing α) : Sampling (α × TypeEnv) := do
  let (outcome, changed) :=
    (computation.run (some env) : Except Fault α × Option TypeEnv)
  return (← ofExcept outcome, changed.getD [])

def encoding {α : Type} (names : NameTable) (lengths : ArrayLengths)
    (computation : Encoding α) : Sampling α := do
  let state ← get
  let (outcome, encoded) := ((computation.run { log := state.log, lengths }).run
    { names, lines := state.lines } : Except Fault α × EncodingState)
  set { state with lines := encoded.lines }
  ofExcept outcome

/-- Verifies a task and gives the verifier back with what came out. -/
def verify (verifier : Verifier) (task : Task) : Sampling (Except Fault Unit × Verifier) := do
  let state ← get
  let report := verifier.verify task state.verdicts
  set { state with verdicts := report.verdicts, queries := state.queries ++ report.queries
                   lines := state.lines + report.lines }
  return (report.outcome, report.verifier)

/-- An item, or a word if the computation fails. -/
def orWord (word : String) (computation : Sampling Item) : Sampling Item :=
  tryCatch computation fun _ => return .text word

/-- A term as it prints, or nothing for a missing one. -/
def shown (term : Term) : Sampling Item := do
  if term.isMissing then return .nothing else return .text ((← get).log.print term)

/-- The length of a term's text. -/
def shownLength (term : Term) : Sampling Item := do
  return .count ((← get).log.print term).length

def variableSet (term : Term) : Sampling Item := do
  return .nameSet (ascending (← ofExcept term.variableNames))

def assignedNames (term : Term) : Sampling Item := do
  return .names (ascending (← ofExcept term.assigned))

def havocedSet (term : Term) : Sampling Item := do
  return .nameSet (ascending (← ofExcept term.havoced))

end Sampling

/-- A workload: its name, the name of its parameter, the sizes it is measured
at, and its runs at a size. -/
structure Workload where
  name : String
  parameter : String
  sizes : List Nat
  run : Nat → Sampling (List Item)

end HoareCheck.Sample
