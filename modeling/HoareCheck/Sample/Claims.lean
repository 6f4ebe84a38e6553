import HoareCheck.Claim.Parser
import HoareCheck.Sample.Sampling
import HoareCheck.Sample.Tree

/-!
# Workloads on claims and terms

Parsing of claims, the operations on expressions and on statements, and the
encoding of claims for the solver.
-/

namespace HoareCheck.Sample

open Sampling

/-- The first `count` entries of a list that is repeated. -/
def repeated {α : Type} (entries : List α) (count : Nat) : List α :=
  (List.range count).filterMap fun index => entries[index % entries.length]?

/-! ## Parsing -/

def claimTexts : List String :=
  ["x + y * 2 - z / 3 % 4",
   "x >= 0 and y >= 0 and z > 1",
   "x == y or x != z",
   "a == b and c != d",
   "x < y and y <= z and z > 0 and z >= -1",
   "x == 1 ==> y == 2",
   "x == 1 <==> y == 2",
   "a ~ b",
   "True and False or not True",
   "forall q :: q > 0 ==> q >= 1",
   "exists q :: q == x",
   "arr[0]",
   "arr[1:3]",
   "arr[:5]",
   "arr[2:]",
   "+x - -y + ||z",
   "((x + 1) * 2 - 3) / 4 % 5"]

/-- Texts that are no claims. -/
def brokenTexts : List String :=
  ["(x + 1", "arr[0", "forall q q > 0", "exists q q > 0"]

def parsed (claim : String) : Sampling Item := do
  shown (← logged (Logged.parse claim))

/-- The token of a parser that has read none. -/
def tokenBeforeFirst : Sampling Item := do
  let (outcome, _) := Parser.current.runFrom (Token.scan "x").toArray 0
  match ← ofExcept outcome with
  | some token => return .text token.text
  | none => return .nothing

def parseClaims (count : Nat) : Sampling (List Item) := do
  let claims ← (repeated claimTexts count).mapM parsed
  let broken ← brokenTexts.mapM fun claim => orWord "err" (parsed claim)
  return claims ++ broken ++ [← orWord "rterr" tokenBeforeFirst]

/-! ## Operations on expressions -/

def quantify (quantifier : Quantifier) (body : Term) (closed : Bool) : Term :=
  .quantified quantifier (.var "q") (some .int) .missing body closed

def expressionOperations (depth : Nat) : Sampling (List Item) := do
  let tree := bigExpression depth
  let copied ← logged tree.copy
  let renamed ← logged (tree.substitute (.var "v0") (.var "w0"))
  let forAll := quantify .universal tree false
  let forAllRenamed ← logged (forAll.substitute (.var "v0") (.var "w0"))
  let forAllClosed ← logged forAll.closeBinder
  let existsClosed ← logged (quantify .existential (.var "q") false).closeBinder
  let closedAgain ← logged forAllClosed.closeBinder
  let read ← logged (Logged.place (.subscript 0 (.var "arr") (.var "v0")))
  let written ← logged (read.substitute read (.var "w"))
  let readCopied ← logged read.copy
  let readAgain ← logged (written.substitute (.var "v0") (.var "w0"))
  let slice := Term.ofBounds .missing (.int 5)
  let negated := Term.unary .not (.var "x")
  let kept ← logged ((Term.var "x").substitute read (.var "w"))
  return [.count (← ofExcept tree.variableNames).eraseDups.length,
    ← shownLength copied, ← shownLength renamed, ← shown forAll, ← shown forAllRenamed,
    ← shown forAllClosed, ← shown existsClosed, ← shown closedAgain, ← variableSet forAll,
    ← shown written, ← variableSet read, ← shown readCopied, ← shown readAgain,
    ← shown slice, ← variableSet slice,
    ← shown (← logged (slice.substitute (.var "v0") (.var "w0"))),
    ← shown (← logged slice.copy), ← shown (.int 1), ← variableSet (.int 1),
    ← shown negated, ← variableSet negated, .term kept.text,
    .text (Literal.int 3).shown, .text (Literal.int 3).shown,
    .text (Literal.bool true).shown, .text (Literal.bool false).shown,
    .text Operator.add.sign]

/-! ## Operations on statements -/

def statementOperations (count : Nat) : Sampling (List Item) := do
  let tree := bigStatement count
  let renamed ← logged (tree.substitute (.var "s0") (.var "t0"))
  let always := Term.bool true
  let havoc := Term.havoc "h" 0
  let positive := Term.binary (.var "x") .gt (.int 0)
  let emptyBranch := always.branch .missing .missing
  let emptyLoop := always.repeatWhile always .missing
  let layout := (← get).log.layout 0 tree
  return [.count layout.length, ← shownLength tree, ← assignedNames tree,
    .names (ascending (← ofExcept tree.havoced)), ← shownLength renamed,
    ← shown emptyBranch, ← shown (Term.missing.andThen .missing), ← shown emptyLoop,
    ← havocedSet .skip, ← havocedSet (.assign (.var "x") (.int 1) false),
    ← assignedNames .skip, ← assignedNames havoc, ← havocedSet havoc,
    ← shown (← logged (havoc.substitute (.var "h") (.var "x"))), ← shown (← logged havoc.copy),
    ← shown (← logged (Term.skip.substitute (.var "h") (.var "x"))),
    ← havocedSet emptyBranch, ← havocedSet emptyLoop, ← havocedSet (.assume positive),
    ← havocedSet (.assert positive)]

/-! ## Encoding for the solver -/

def solverNames : NameTable :=
  [("x", .int), ("y", .int), ("z", .int), ("p", .bool), ("q", .bool), ("a", .array),
   ("b", .array), ("arr", .array)]

/-- The claim can be encoded. -/
def encodes (term : Term) : Sampling Item := do
  let _ ← encoding solverNames [("a", .int 3)] term.encode
  return .flag true

def solverClaims : List String :=
  ["x + y * 2 - z >= 0", "x == y or x != z", "x < y ==> y > x", "p <==> q", "p and q",
   "x / 2 <= y % 3"]

def encodeClaims (count : Nat) : Sampling (List Item) := do
  let claims ← (repeated solverClaims count).mapM fun claim => do
    encodes (← logged (Logged.parse claim))
  let written ← logged do
    let read ← Logged.place (.subscript 0 (.var "arr") (.int 0))
    read.substitute read (.int 1)
  let single ← [quantify .universal (.binary (.var "q") .ge (.var "q")) false,
    .binary (.var "a") .adjacent (.var "b"), .unary .minus (.var "x"), .unary .abs (.var "x"),
    .binary written .eq (.int 1), .unary .not (.var "p")].mapM encodes
  let broken ← [("err", Term.skip), ("err2", .slice (.int 0) (.int 1)), ("kerr", .var "nobody"),
    ("berr", .binary (.var "x") .not (.var "y")), ("uerr", .unary .mult (.var "x"))].mapM
      fun (word, term) => orWord word (encodes term)
  return claims ++ single ++ broken

end HoareCheck.Sample
