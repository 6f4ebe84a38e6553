import HoareCheck.Claim.Copy
import HoareCheck.Claim.Names
import HoareCheck.Hoare.Precondition

/-!
# Cutting loops

A loop is replaced by one arbitrary iteration of it:

```
assert invariant; havoc targets; assume invariant;
if (condition) { body; assert invariant; assume false } else skip
```

Every havoc of a variable `v` introduces a variable `v@n`, numbered by a table
of counters that outlives a single program.  What stands after the havocs
speaks of the new variables.  Along with the cut program comes the invariant of
each loop, over the new variables too.

Loops at the top level of a sequence are cut; a conditional is refused.
-/

namespace HoareCheck

/-- For each variable the number of its last havoc. -/
abbrev HavocCounts := List (String × Int)

namespace HavocCounts

def find? (counts : HavocCounts) (name : String) : Option Int :=
  (List.find? (fun entry => entry.1 = name) counts).map Prod.snd

def insert (counts : HavocCounts) (name : String) (count : Int) : HavocCounts :=
  match counts with
  | [] => [(name, count)]
  | head :: rest =>
    if head.1 = name then (name, count) :: rest else head :: insert rest name count

/-- The number of the next havoc of a name: they count from zero. -/
def next (counts : HavocCounts) (name : String) : Int :=
  match counts.find? name with
  | some count => count + 1
  | none => 0

end HavocCounts

/-- The log of writes and the table of counters. -/
structure CutState where
  log : WriteLog
  counts : HavocCounts
  deriving Inhabited

/-- A computation that numbers havocs; what was numbered before a failure
stays. -/
abbrev Cutting := ExceptT Fault (StateM CutState)

namespace Cutting

/-- Runs a computation on the log alone. -/
def logged {α : Type} (computation : Logged α) : Cutting α := do
  let state ← get
  let (outcome, log) := computation.run state.log
  set { state with log }
  match outcome with
  | .ok value => return value
  | .error fault => throw fault

/-- The number of a new havoc of a variable. -/
def count (name : String) : Cutting Int := do
  let state ← get
  let count := state.counts.next name
  set { state with counts := state.counts.insert name count }
  return count

/-- A new havoc for each variable, in order. -/
def havocs (targets : List String) : Cutting (List (String × Int)) :=
  targets.mapM fun name => do return (name, ← count name)

end Cutting

/-- A program without its top-level loops, and the invariants of these. -/
structure CutProgram where
  program : Term
  invariants : List Term
  deriving Inhabited

namespace Term

/-- Speaks of the variables of the havocs instead of those they are of. -/
def afterHavocs (havocs : List (String × Int)) (term : Term) : Logged Term :=
  term.renameAll (havocs.map fun havoc => (havoc.1, havocName havoc.1 havoc.2))

/-- A sequence that ends in a sequence of two: what comes next goes to the end
of the latter. -/
def extend : Term → Term → Term
  | .seq first second, next => .seq first (andThen second next)
  | term, next => andThen term next

/-- The cut form of a loop whose targets are enumerated in a given order. -/
def cutLoop (targets : List String) (invariant condition body : Term) : Cutting CutProgram := do
  let havocs ← Cutting.havocs targets
  Cutting.logged do
    let assumed ← invariant.copy
    let kept ← invariant.copy
    let iteration := branch condition
      (andThen (andThen body (.assert kept)) (.assume (.bool false))) .skip
    let assumption ← afterHavocs havocs (.assume assumed)
    let iteration ← afterHavocs havocs iteration
    let entered ← invariant.copy
    let parts := havocs.map (fun havoc => Term.havoc havoc.1 havoc.2) ++ [assumption, iteration]
    let program := match parts with
      | [] => .assert entered
      | first :: rest => rest.foldl extend (andThen (.assert entered) first)
    let havocedInvariant ← afterHavocs havocs (← invariant.copy)
    return ⟨program, [havocedInvariant]⟩

/-- The cut form of a loop; its targets are enumerated in ascending order. -/
def cutOneLoop (invariant condition body : Term) : Cutting CutProgram :=
  match body.assigned with
  | .ok targets => cutLoop (ascending targets) invariant condition body
  | .error fault => throw fault

/-- Cuts the loops of a copy of a program. -/
def cutCopy : Term → Cutting CutProgram
  | .seq first second => do
      let cutFirst ← first.cutCopy
      let cutSecond ← second.cutCopy
      return ⟨andThen cutFirst.program cutSecond.program,
        cutFirst.invariants ++ cutSecond.invariants⟩
  | .loop invariant condition body => do
      let invariant ← Cutting.logged invariant.copy
      let condition ← Cutting.logged condition.copy
      let body ← Cutting.logged body.copy
      cutOneLoop invariant condition body
  | .ifElse .. => throw .noSuchPart
  | term => do
      if term.isStatement then return ⟨← Cutting.logged term.copy, []⟩
      else throw (.unsupportedStatement term)

/-- Cuts the loops of a program.  The parts of a sequence are cut one after the
other, each only if all of it can be copied. -/
def cutLoops : Term → Cutting CutProgram
  | .seq first second => do
      let _ ← Cutting.logged first.copy
      let cutFirst ← first.cutCopy
      let _ ← Cutting.logged second.copy
      let cutSecond ← second.cutCopy
      return ⟨andThen cutFirst.program cutSecond.program,
        cutFirst.invariants ++ cutSecond.invariants⟩
  | .loop invariant condition body => cutOneLoop invariant condition body
  | .ifElse .. => throw .noSuchPart
  | term =>
    if term.isStatement then return ⟨term, []⟩
    else throw (.unsupportedStatement term)

end Term

end HoareCheck
