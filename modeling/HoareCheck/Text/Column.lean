/-!
# Text in columns

Text padded with blanks to a width; longer text stands as it is.
-/

namespace HoareCheck.Text

def blanks (count : Nat) : String := String.ofList (List.replicate count ' ')

/-- Text at the left of a column. -/
def leftIn (width : Nat) (text : String) : String := text ++ blanks (width - text.length)

/-- Text at the right of a column. -/
def rightIn (width : Nat) (text : String) : String := blanks (width - text.length) ++ text

/-- The first characters of a text. -/
def cutTo (width : Nat) (text : String) : String := String.ofList (text.toList.take width)

/-- Lines, each with its end. -/
def lines (parts : List String) : String := String.join (parts.map fun part => part ++ "\n")

end HoareCheck.Text
