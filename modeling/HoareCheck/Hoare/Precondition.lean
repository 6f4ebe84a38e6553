import HoareCheck.Claim.Substitution
import HoareCheck.Typing.TypeEnv

/-!
# Weakest preconditions

`Term.precondition` computes the precondition of a statement for a given
postcondition, together with the side conditions that its loops leave behind:
an invariant is kept by the body, and implies the postcondition on exit.

Substitution records writes against the array reads of the postcondition, so
the two branches of a conditional, which share the postcondition, share what is
recorded against its reads.
-/

namespace HoareCheck

/-- A precondition and the side conditions under which it is one. -/
structure Obligations where
  precondition : Term
  sideConditions : List Term
  deriving Repr, Inhabited

/-- The variable that a havoc of `name` introduces. -/
def havocName (name : String) (count : Int) : String :=
  name ++ "@" ++ toString count

namespace Term

/-- Whether a term is a statement. -/
def isStatement : Term → Bool
  | .skip | .assign .. | .ifElse .. | .seq .. | .assume _ | .assert _ | .loop ..
  | .havoc .. => true
  | _ => false

/-- The invariant of a loop; a missing one is true. -/
def invariantOrTrue : Term → Term
  | .missing => .bool true
  | invariant => invariant

/-- The declared type of a variable that a havoc leaves open. -/
def havocType (env : Option TypeEnv) (name : String) : Logged TypeEntry :=
  match env with
  | none => throw .wrongKind
  | some env => Logged.ofOption .noSuchEntry (env.find? name)

/-- The precondition of a statement for a postcondition. -/
def obligations (env : Option TypeEnv) : Term → Term → Logged Obligations
  | .skip, post => return ⟨post, []⟩
  | .assign target value _, post => do
      return ⟨← post.substitute target value, []⟩
  | .seq first second, post => do
      let after ← second.obligations env post
      let before ← first.obligations env after.precondition
      return ⟨before.precondition, before.sideConditions ++ after.sideConditions⟩
  | .ifElse condition thenBranch elseBranch, post => do
      let whenTrue ← thenBranch.obligations env post
      let whenFalse ← elseBranch.obligations env post
      let precondition := .binary
        (.binary condition .implies whenTrue.precondition)
        .and
        (.binary (.unary .not condition) .implies whenFalse.precondition)
      return ⟨precondition, whenTrue.sideConditions ++ whenFalse.sideConditions⟩
  | .loop invariant condition body, post => do
      let invariant := invariant.invariantOrTrue
      let kept ← body.obligations env invariant
      let preserved := .binary (.binary invariant .and condition) .implies kept.precondition
      let established := .binary (.binary invariant .and (.unary .not condition)) .implies post
      return ⟨invariant, kept.sideConditions ++ [preserved, established]⟩
  | .havoc name count, post => do
      let bound := .var (havocName name count)
      let body ← post.substitute (.var name) bound
      let (type, written) := (← havocType env name).toBinder
      return ⟨.quantified .universal bound type written body false, []⟩
  | .assume claim, post => return ⟨.binary claim .implies post, []⟩
  | .assert claim, post => return ⟨.binary post .implies claim, []⟩
  | _, _ => throw .wrongKind

/-- The obligations of a term, or nothing for a term that is no statement. -/
def obligations? (env : Option TypeEnv) (statement post : Term) : Logged (Option Obligations) := do
  if statement.isStatement then
    return some (← statement.obligations env post)
  else
    return none

end Term

end HoareCheck
