import HoareCheck.Claim.WriteLog

/-!
# Printed form of terms

Every term prints in parentheses with the name of its form first.  A read
prints the writes recorded against it after its index; where a read occurs in
its own writes, dots stand for them.
-/

namespace HoareCheck

namespace Term

/-- The printed form, given what to print after the index of a read. -/
def printWith (note : Site → String) : Term → String
  | .missing => "None"
  | .var name => "(Var " ++ name ++ ")"
  | .literal value => "(Literal " ++ value.shown ++ ")"
  | .slice lower upper =>
    "(Slice " ++ lower.printWith note ++ " -> " ++ upper.printWith note ++ ")"
  | .subscript site array index =>
    "(Subscript " ++ array.printWith note ++ " " ++ index.printWith note ++ note site ++ ")"
  | .unary operator operand =>
    "(UnOp " ++ operator.shown ++ " " ++ operand.printWith note ++ ")"
  | .binary left operator right =>
    "(BinOp " ++ left.printWith note ++ " " ++ operator.shown ++ " " ++
      right.printWith note ++ ")"
  | .quantified _ binder type written body _ =>
    let typeText :=
      if written.isMissing then (type.map Ty.shown).getD "None" else written.printWith note
    "(forall  " ++ binder.printWith note ++ ":" ++ typeText ++ ". " ++
      body.printWith note ++ ")"
  | .skip => "(Skip)"
  | .assign target value _ =>
    "(Assign " ++ target.printWith note ++ " " ++ value.printWith note ++ ")"
  | .ifElse condition thenBranch elseBranch =>
    "(If " ++ condition.printWith note ++ " " ++ thenBranch.printWith note ++ " " ++
      elseBranch.printWith note ++ ")"
  | .seq first second =>
    "(Seq " ++ first.printWith note ++ " " ++ second.printWith note ++ ")"
  | .assume claim => "(Assume " ++ claim.printWith note ++ ")"
  | .assert claim => "(Assert " ++ claim.printWith note ++ ")"
  | .loop _ condition body =>
    "(While " ++ condition.printWith note ++ " " ++ body.printWith note ++ ")"
  | .havoc name _ => "(Havoc " ++ name ++ ")"

/-- The printed form of a term whose reads have no writes. -/
def text (term : Term) : String :=
  term.printWith fun _ => ""

end Term

namespace WriteLog

/-- What stands for writes inside themselves. -/
def elided : String := " [\x7b...\x7d]"

/-- The writes of a site as they print after an index.  `path` holds the sites
whose writes are being printed; it grows with each step and holds no site
twice, so as many steps as there are sites suffice. -/
def note (log : WriteLog) : Nat → List Site → Site → String
  | 0, _, _ => elided
  | steps + 1, path, site =>
    match log.writesAt site with
    | [] => ""
    | writes =>
      if path.contains site then
        elided
      else
        " [\x7b" ++
          ", ".intercalate (writes.map fun entry => Text.quoted entry.1 ++ ": " ++
              entry.2.printWith (log.note steps (site :: path))) ++
          "\x7d]"

/-- The printed form of a term with the writes of a log. -/
def print (log : WriteLog) (term : Term) : String :=
  term.printWith (log.note (log.sites.size + 1) [])

end WriteLog

end HoareCheck
