/-!
# Types of program variables
-/

namespace HoareCheck

inductive Ty
  | int
  | bool
  | float
  | text
  | list
  | listOf (element : Ty)
  deriving DecidableEq, Repr, Inhabited

namespace Ty

/-- The name of a type as a list's element type. -/
def name : Ty → String
  | .int => "int"
  | .bool => "bool"
  | .float => "float"
  | .text => "str"
  | .list => "list"
  | .listOf element => "list[" ++ element.name ++ "]"

/-- The type of a name, if one has it; list types are nested at most twice. -/
def ofName? (name : String) : Option Ty :=
  let plain : List Ty := [.int, .bool, .float, .text, .list]
  let lists := plain.map listOf
  (plain ++ lists ++ lists.map listOf).find? fun ty => ty.name = name

/-- The form in messages. -/
def shown : Ty → String
  | .listOf element => "list[" ++ element.name ++ "]"
  | ty => "<class '" ++ ty.name ++ "'>"

/-- The type of the elements, for a list type that names it. -/
def element? : Ty → Option Ty
  | .listOf element => some element
  | _ => none

end Ty

end HoareCheck
