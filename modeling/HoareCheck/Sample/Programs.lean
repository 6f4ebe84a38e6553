import HoareCheck.Claim.ReadLiteral
import HoareCheck.Sample.Claims
import HoareCheck.Text.Column

/-!
# Workloads on programs

Elaboration of program texts, for one run and for two, the preconditions of
elaborated programs, and the types of statements.
-/

namespace HoareCheck.Sample

open Sampling

/-! ## Elaboration -/

/-- A function with every kind of statement and operator. -/
def programText (index : Nat) : String :=
  Text.lines
    ["def f" ++ toString index ++ "(x, y, z, arr):",
     "    a = x + y",
     "    b = x - y",
     "    c = x * y",
     "    d = x / y",
     "    e = x % y",
     "    f = -x",
     "    g = not z",
     "    h = x < y and x <= y and x > y and x >= y",
     "    i = x == y or x != y or True",
     "    j = arr[0]",
     "    k = arr[1:3]",
     "    l = arr[:2]",
     "    m = arr[2:]",
     "    arr[0] = x",
     "    assume('x > 0')",
     "    assert x > 0",
     "    if x > 0:",
     "        a = a + 1",
     "    if z:",
     "        a = a + 1",
     "    else:",
     "        a = a - 1",
     "    while a > 0:",
     "        invariant('a >= 0')",
     "        a = a - 1",
     "    pass"]

/-- Texts that cannot be elaborated. -/
def brokenPrograms : List String := ["x = y @ 2\n", "x = ~y\n", "x = y ** 2\n"]

def elaborated (mode : RunMode) (text : String) : Sampling Term :=
  logged (Source.elaborateText mode text)

def elaboratePrograms (count : Nat) : Sampling (List Item) := do
  let programs ← (List.range count).mapM fun index => do
    let term ← elaborated .single (programText index)
    return [← shown term, ← assignedNames term]
  let broken ← brokenPrograms.mapM fun text =>
    orWord "err" (do shown (← elaborated .single text))
  let five ← ofExcept (Literal.readInt (.int 5))
  return programs.flatten ++ broken ++ [← shown (.literal five),
    ← shown (.literal (Literal.readBool (.bool true))),
    ← shown (← logged (Source.elaborateExpression .single "1")),
    ← orWord "boolerr" (do shown (← elaborated .single "x = y is z\n"))]

/-- A function whose two runs are compared. -/
def comparedText (index : Nat) : String :=
  Text.lines
    ["def g" ++ toString index ++ "(x, y, arr):",
     "    a = x + y",
     "    b = -a",
     "    n = laplace(x)",
     "    c = arr[0]",
     "    d = a * b",
     "    e = a / b",
     "    r = a % 2",
     "    t = not c",
     "    if a > 0:",
     "        b = b + 1",
     "    else:",
     "        b = b - 1",
     "    while b > 0:",
     "        invariant('b >= 0')",
     "        b = b - 1",
     "    assert b >= 0"]

/-- The names that the function assigns. -/
def comparedNames : List String := ["a", "b", "c", "d", "e", "n", "r", "t"]

/-- The lengths of functions elaborated for two runs. -/
def elaborateTwoRuns (count : Nat) : Sampling (List Item) :=
  (List.range count).mapM fun index => do
    shownLength (← elaborated (.forked comparedNames) (comparedText index))

/-! ## Preconditions -/

def annotatedText (index : Nat) : String :=
  Text.lines
    ["def h" ++ toString index ++ "(x, y):",
     "    a = x + y",
     "    if x > 0:",
     "        a = a + 1",
     "    else:",
     "        a = a - 1",
     "    assume('x >= 0')",
     "    assert a >= 0",
     "    while a > 0:",
     "        invariant('a >= 0')",
     "        a = a - 1"]

def intEnv (names : List String) : TypeEnv := names.map fun name => (name, .known .int)

def notNegative (name : String) : Term := .binary (.var name) .ge (.int 0)

def preconditionOf (statement post : Term) : Sampling Obligations :=
  logged (statement.obligations (some (intEnv ["x", "y", "a"])) post)

/-- The loop that counts a variable down. -/
def countDown (name : String) : Term :=
  .loop (notNegative name) (.binary (.var name) .gt (.int 0))
    (.assign (.var name) (.binary (.var name) .minus (.int 1)) false)

/-- A program with its loops cut: the length of its text and the number of its
invariants. -/
def cut (term : Term) : Sampling (List Item) := do
  let state ← get
  let (outcome, cutState) :=
    (term.cutLoops.run { log := state.log, counts := [] } : Except Fault CutProgram × CutState)
  set { state with log := cutState.log }
  let program ← ofExcept outcome
  return [← shownLength program.program, .count program.invariants.length]

def preconditions (count : Nat) : Sampling (List Item) := do
  let programs ← (List.range count).mapM fun index => do
    let program ← elaborated .single (annotatedText index)
    let obligations ← preconditionOf program (notNegative "a")
    return Item.group [← shown obligations.precondition,
      .count obligations.sideConditions.length]
  let havoced ← preconditionOf (.havoc "x" 0) (notNegative "a")
  let unannotated ← preconditionOf
    (.loop .missing (.bool true) .skip) (notNegative "a")
  let raised := Term.assign (.var "x") (.binary (.var "x") .add (.int 1)) false
  return programs ++ [← shown havoced.precondition, ← shown unannotated.precondition] ++
    (← cut (.seq (.seq raised (countDown "a")) .skip)) ++
    [← orWord "ifbug" (.group <$> cut (.ifElse (.bool true) .skip .skip)),
     ← orWord "err" (.group <$> cut (.var "x"))]

/-! ## Types -/

def typedEnv (count : Nat) : TypeEnv :=
  intEnv ((List.range count).map (numbered "s")) ++ intEnv ["x", "y"] ++
    [("p", .known .bool), ("arr", .known (.listOf .int))]

/-- The type of an expression, and whether the environment changed. -/
def typePair (entry : TypeEntry) (touched : Bool) : Item := .group [.type entry, .flag touched]

def resolved (env : TypeEnv) (term : Term) : Sampling Item := do
  let ((entry, touched), _) ← typing env term.resolveType
  return typePair entry touched

def resolvedStatement (env : TypeEnv) (term : Term) : Sampling Item := do
  return .flag (← typing env term.resolveStatement).1

def resolveTypes (count : Nat) : Sampling (List Item) := do
  let env := typedEnv count
  let x := Term.var "x"
  let positive := Term.binary x .gt (.int 0)
  let element (index : Int) : Term := .subscript 0 (.var "arr") (.int index)
  let set (target value : Term) : Term := .assign target value false
  let statements ← [bigStatement count, .skip, .havoc "x" 0, set (.var "fresh") (.int 1),
    set (element 0) (.int 1), .assert positive].mapM (resolvedStatement env)
  let expressions ← [.bool true, .int 1, element 0, x, .unary .not (.var "p"), positive,
    .slice (.int 0) (.int 2), .unary .minus x, .unary .abs x,
    quantify .universal (.binary (.var "q") .ge (.int 0)) false].mapM (resolved env)
  let expected ← [x, .var "y", .int 1].mapM fun term => do
    return Item.type (← typing env (term.expectedType (.known .int))).1
  let check (term : Term) (label : Option String) (actual expected : TypeEntry) :
      Sampling Item := do
    let ((entry, touched), _) ← typing env (term.checkType label actual expected)
    return typePair entry touched
  let checked := [← check x none (.known .int) (.known .int),
    ← check (.unary .not (.var "p")) (some "p") .unknown (.known .bool)]
  let broken ← [("err", resolved env (.var "nobody")),
    ("err", resolved env (.literal (.general (.int 1)))), ("err", resolvedStatement env x),
    ("terr", resolved env (.unary .not x)), ("serr", resolvedStatement env (set x (.bool true))),
    ("terr2", resolvedStatement env (set (element 0) (.bool true))),
    ("terr3", resolvedStatement env (.assert x)),
    ("qerr", resolved env (.quantified .universal (.var "q") none .missing (.bool true) false))].mapM
      fun (word, computation) => orWord word computation
  return statements ++ expressions ++ expected ++ checked ++ broken

end HoareCheck.Sample
