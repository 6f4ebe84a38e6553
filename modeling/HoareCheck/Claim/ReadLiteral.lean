import HoareCheck.Claim.Fault
import HoareCheck.Text.Integer

/-!
# Literals from data

An integer literal is read from any datum that stands for an integer: a truth
value as one or zero, a double without its fraction, a text as it writes one.
-/

namespace HoareCheck.Literal

def readInt : Datum → Except Fault Literal
  | .bool value => pure (.int (if value then 1 else 0))
  | .int value => pure (.int value)
  | .real value =>
    match value.truncate? with
    | some whole => pure (.int whole)
    | none => throw (if value = .nan then .notAnInteger else .tooLarge)
  | .text text =>
    match Text.readInteger? text with
    | some value => pure (.int value)
    | none => throw .notAnInteger
  | .nothing | .collection .. => throw .wrongKind

/-- Only the text `True`, the truth value, and the number one are true. -/
def readBool : Datum → Literal
  | .bool value => .bool value
  | .int value => .bool (value = 1)
  | .real value => .bool (value.toRat? = some 1)
  | .text text => .bool (text = "True")
  | .nothing | .collection .. => .bool false

end HoareCheck.Literal
