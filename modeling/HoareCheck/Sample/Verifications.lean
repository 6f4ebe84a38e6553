import HoareCheck.Sample.Programs

/-!
# Workloads that verify programs

Verification of straight programs, of loops with invariants, and of programs
whose two runs are compared, and the list of all workloads.
-/

namespace HoareCheck.Sample

open Sampling

/-- Lines that are repeated with a number in them. -/
def repeatedLines (count : Nat) (line : Nat → String) : String :=
  Text.lines ((List.range count).map line)

def taskOn (scope code pre post : String) : Task :=
  { code, scope, precondition := pre, postcondition := post, twoRuns := false
    checksInvariants := false, lengths := [] }

/-- A verification that has to succeed. -/
def verified (verifier : Verifier) (task : Task) : Sampling Verifier := do
  let (outcome, verifier) ← verify verifier task
  ofExcept outcome
  return verifier

/-- A verification that may fail: a word if it does. -/
def verifiedOr (word : String) (verifier : Verifier) (task : Task) : Sampling Item := do
  orWord word do
    let _ ← verified verifier task
    return .flag true

def typesIn (verifier : Verifier) (scope : String) : Item :=
  match verifier.scopes.find? scope with
  | some (some env) => .count env.length
  | _ => .count 0

/-- A function with its conditions. -/
def addition : DecoratedFunction :=
  { decorators := [.precondition "x >= 0 and y >= 0", .postcondition "z >= 0"]
    code := "def _proved_add(x, y):\n    z = x + y\n"
    name := "_proved_add" }

/-- Proves a function, and names the scopes that the verifier then knows. -/
def proved (function : DecoratedFunction) (env : TypeEnv) : Sampling Item := do
  let state ← get
  let report := function.prove (some env) false state.verdicts
  set { state with verdicts := report.verdicts, queries := state.queries ++ report.queries
                   lines := state.lines + report.lines }
  ofExcept report.outcome
  return .group [.flag true, .names (report.verifier.scopes.map Prod.fst)]

def verifyStraight (count : Nat) : Sampling (List Item) := do
  let code := "y = x\nz = y\n" ++ repeatedLines count fun index => "t = x + " ++ toString index
  let verifier := Verifier.new.register "main" (some (intEnv ["x"]))
  let verifier ← verified verifier (taskOn "main" code "x >= 0" "x >= 0")
  return [.flag true, typesIn verifier "main",
    ← verifiedOr "fail" verifier (taskOn "main" code "x >= 0" "x < 0"),
    ← proved addition (intEnv ["x", "y"])]

/-- Division by repeated subtraction, with the invariant given. -/
def divisionText (count : Nat) (invariant : String) : String :=
  "res = 0\nm = M\n" ++ repeatedLines count (fun index => "t = M + " ++ toString index) ++
    Text.lines ["while m >= N:", "    invariant('" ++ invariant ++ "')", "    m = m - N",
      "    res = res + 1"]

def divisionTask (count : Nat) (invariant : String) : Task :=
  { taskOn "main" (divisionText count invariant) "N > 0 and M >= 0" invariant with
    checksInvariants := true }

def verifyLoop (count : Nat) : Sampling (List Item) := do
  let verifier := Verifier.new.register "main" (some (intEnv ["M", "N"]))
  let _ ← verified verifier (divisionTask count "M == res * N + m")
  return [.flag true, ← verifiedOr "inv" verifier (divisionTask count "M == res * N + m + 1")]

def verifyTwoRuns (count : Nat) : Sampling (List Item) := do
  let code := "a = x + y\nb = a - x\nc = b\n" ++
    repeatedLines count fun index => "c = c + " ++ toString index
  let verifier := Verifier.new.register "main" (some (intEnv ["x", "y", "eps#"]))
  let verifier ← verified verifier
    { taskOn "main" code "eps# >= 0" "True" with twoRuns := true }
  return [.flag true, typesIn verifier "main"]

/-- All workloads, in the order of their names. -/
def workloads : List Workload :=
  [⟨"bench_claim_parser", "n_exprs", [60, 300, 1200], parseClaims⟩,
   ⟨"bench_claim_to_z3", "n_exprs", [40, 150, 600], encodeClaims⟩,
   ⟨"bench_dp_visitor", "n_funcs", [5, 20, 80], elaborateTwoRuns⟩,
   ⟨"bench_expr_operations", "tree_depth", [6, 8, 10], expressionOperations⟩,
   ⟨"bench_prover_dp_mode", "body_len", [60, 250, 800], verifyTwoRuns⟩,
   ⟨"bench_prover_verify", "prog_len", [100, 400, 1200], verifyStraight⟩,
   ⟨"bench_prover_while_invariant", "body_len", [100, 400, 1200], verifyLoop⟩,
   ⟨"bench_py_to_claim", "n_funcs", [6, 30, 120], elaboratePrograms⟩,
   ⟨"bench_stmt_operations", "n_stmts", [20, 80, 300], statementOperations⟩,
   ⟨"bench_type_resolution", "n_stmts", [100, 400, 1500], resolveTypes⟩,
   ⟨"bench_weakest_precondition", "n_funcs", [5, 20, 80], preconditions⟩]

end HoareCheck.Sample
