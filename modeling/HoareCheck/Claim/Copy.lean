import HoareCheck.Claim.Fault

/-!
# Copies

A copy has the same shape as its model, and new sites for its reads, so what is
recorded against one is not seen by the other.  Nothing is copied of a missing
part, the number of a havoc, and the mark of a privacy charge.
-/

namespace HoareCheck

namespace Term

def copy : Term → Logged Term
  | .missing => throw .noSuchPart
  | .var name => pure (.var name)
  | .literal value => pure (.literal value)
  | .slice lower upper => do
      return .slice (← lower.copy) (← upper.copy)
  | .subscript _ array index => do
      let array ← array.copy
      let index ← index.copy
      Logged.place (.subscript 0 array index)
  | .unary operator operand => do
      return .unary operator (← operand.copy)
  | .binary left operator right => do
      return .binary (← left.copy) operator (← right.copy)
  | .quantified quantifier binder type written body closed => do
      return .quantified quantifier (← binder.copy) type written (← body.copy) closed
  | .skip => pure .skip
  | .assign target value _ => do
      return .assign (← target.copy) (← value.copy) false
  | .ifElse condition thenBranch elseBranch => do
      return .ifElse (← condition.copy) (← thenBranch.copy) (← elseBranch.copy)
  | .seq first second => do
      return .seq (← first.copy) (← second.copy)
  | .assume claim => do
      return .assume (← claim.copy)
  | .assert claim => do
      return .assert (← claim.copy)
  | .loop invariant condition body => do
      return .loop (← invariant.copy) (← condition.copy) (← body.copy)
  | .havoc name _ => pure (.havoc name 0)

end Term

end HoareCheck
