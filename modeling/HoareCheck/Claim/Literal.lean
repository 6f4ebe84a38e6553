import HoareCheck.Number.Decimal
import HoareCheck.Text.Quoted

/-!
# Literals

Claims hold integers and truth values.  A literal may also hold a bare datum,
which prints but has no type and no meaning to the solver.
-/

namespace HoareCheck

open HoareCheck.Number (Binary64)

/-- A value from outside the claim language.  Of a collection only its class
and its printed form are kept. -/
inductive Datum
  | nothing
  | bool (value : Bool)
  | int (value : Int)
  | real (value : Binary64)
  | text (value : String)
  | collection (className shown : String)
  deriving DecidableEq, Repr, Inhabited

/-- The printed form of a truth value. -/
def shownBool (value : Bool) : String :=
  if value then "True" else "False"

namespace Datum

def className : Datum → String
  | .nothing => "NoneType"
  | .bool _ => "bool"
  | .int _ => "int"
  | .real _ => "float"
  | .text _ => "str"
  | .collection className _ => className

/-- The printed form; text stands as it is. -/
def shown : Datum → String
  | .nothing => "None"
  | .bool value => shownBool value
  | .int value => toString value
  | .real value => value.toText
  | .text value => value
  | .collection _ shown => shown

/-- The printed form inside a collection; text is quoted. -/
def quoted : Datum → String
  | .text value => Text.quoted value
  | datum => datum.shown

def ofList (items : List Datum) : Datum :=
  .collection "list" ("[" ++ ", ".intercalate (items.map quoted) ++ "]")

def ofFields (fields : List (String × Datum)) : Datum :=
  .collection "dict" ("\x7b" ++
    ", ".intercalate (fields.map fun field => Text.quoted field.1 ++ ": " ++ field.2.quoted) ++
    "\x7d")

/-- A collection without members is written as an empty pair of brackets. -/
def isEmptyCollection (shown : String) : Bool :=
  shown == "[]" || shown == "\x7b\x7d"

/-- The truth value of a datum: zero, nothing and emptiness are false. -/
def truth : Datum → Bool
  | .nothing => false
  | .bool value => value
  | .int value => value != 0
  | .real value => !value.isZero
  | .text value => value != ""
  | .collection _ shown => !isEmptyCollection shown

end Datum

/-- The literals of the claim language: integers, truth values, a datum wrapped
as a value of no known kind, and a bare datum. -/
inductive Literal
  | int (value : Int)
  | bool (value : Bool)
  | general (datum : Datum)
  | bare (datum : Datum)
  deriving DecidableEq, Repr, Inhabited

namespace Literal

def shown : Literal → String
  | .int value => "IntValue " ++ toString value
  | .bool value => "BoolValue " ++ shownBool value
  | .general _ => "<myprover.claim.value.GeneralValue object>"
  | .bare datum => datum.shown

/-- The class of a literal's value as messages print it. -/
def shownClass : Literal → String
  | .int _ => "<class 'myprover.claim.value.IntValue'>"
  | .bool _ => "<class 'myprover.claim.value.BoolValue'>"
  | .general _ => "<class 'myprover.claim.value.GeneralValue'>"
  | .bare datum => "<class '" ++ datum.className ++ "'>"

end Literal

end HoareCheck
