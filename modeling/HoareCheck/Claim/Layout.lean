import HoareCheck.Claim.Printer

/-!
# Statements laid out over lines

Conditionals and loops spread over several lines and indent their parts by one
tab; everything else prints on one line.
-/

namespace HoareCheck

/-- The indentation of a level; there is none below level one. -/
def tabs (level : Int) : String :=
  String.ofList (List.replicate level.toNat '\t')

/-- Lays a statement out at a level of indentation. -/
def WriteLog.layout (log : WriteLog) (level : Int) : Term → String
  | .ifElse condition thenBranch elseBranch =>
    tabs level ++ "if (" ++ log.print condition ++ ")\n" ++
      log.layout (level + 1) thenBranch ++ ";\n" ++ tabs level ++ "ELSE\n" ++
      log.layout (level + 1) elseBranch
  | .loop invariant condition body =>
    tabs level ++ "while (" ++ log.print condition ++ ")\n" ++
      tabs (level + 1) ++ "@invariant: " ++ log.print invariant ++ ";\n" ++
      log.layout (level + 1) body
  | .seq first second =>
    log.layout level first ++ ";\n" ++ log.layout level second
  | term => tabs level ++ log.print term

end HoareCheck
