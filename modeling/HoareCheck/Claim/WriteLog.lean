import HoareCheck.Claim.Term

/-!
# Writes recorded against array reads

When the precondition of an assignment to an array element is taken, the
assigned term is recorded against every read of that array, under the printed
form of the written index.  The log keeps these records by site, so they are
shared by all occurrences of a read, and the last write under a key wins.
-/

namespace HoareCheck

/-- The writes recorded against one read: index text and term, oldest first. -/
abbrev Writes := List (String × Term)

namespace Writes

/-- The term recorded under a key. -/
def find? (writes : Writes) (key : String) : Option Term :=
  (List.find? (fun entry => entry.1 = key) writes).map Prod.snd

/-- Records a term under a key; a key that is there keeps its place. -/
def record (writes : Writes) (key : String) (term : Term) : Writes :=
  match writes with
  | [] => [(key, term)]
  | entry :: rest =>
    if entry.1 = key then (key, term) :: rest else entry :: record rest key term

end Writes

/-- All recorded writes, by site. -/
structure WriteLog where
  sites : Array Writes
  deriving Repr, Inhabited

namespace WriteLog

/-- The log in which no read has been placed. -/
def empty : WriteLog := { sites := #[[]] }

/-- The writes recorded against a site. -/
def writesAt (log : WriteLog) (site : Site) : Writes :=
  (log.sites[site]?).getD []

/-- A new site, with nothing recorded against it. -/
def fresh (log : WriteLog) : Site × WriteLog :=
  (log.sites.size, { sites := log.sites.push [] })

/-- Replaces what is recorded against a site. -/
def set (log : WriteLog) (site : Site) (writes : Writes) : WriteLog :=
  { sites := log.sites.setIfInBounds site writes }

end WriteLog

namespace Term

/-- Gives every read that has not been placed a site of its own, from left to
right. -/
def place (log : WriteLog) : Term → Term × WriteLog
  | .slice lower upper =>
    let (lower, log) := lower.place log
    let (upper, log) := upper.place log
    (.slice lower upper, log)
  | .subscript site array index =>
    let (array, log) := array.place log
    let (index, log) := index.place log
    let (site, log) := if site = 0 then log.fresh else (site, log)
    (.subscript site array index, log)
  | .unary operator operand =>
    let (operand, log) := operand.place log
    (.unary operator operand, log)
  | .binary left operator right =>
    let (left, log) := left.place log
    let (right, log) := right.place log
    (.binary left operator right, log)
  | .quantified quantifier binder type written body closed =>
    let (binder, log) := binder.place log
    let (written, log) := written.place log
    let (body, log) := body.place log
    (.quantified quantifier binder type written body closed, log)
  | .assign target value charge =>
    let (target, log) := target.place log
    let (value, log) := value.place log
    (.assign target value charge, log)
  | .ifElse condition thenBranch elseBranch =>
    let (condition, log) := condition.place log
    let (thenBranch, log) := thenBranch.place log
    let (elseBranch, log) := elseBranch.place log
    (.ifElse condition thenBranch elseBranch, log)
  | .seq first second =>
    let (first, log) := first.place log
    let (second, log) := second.place log
    (.seq first second, log)
  | .assume claim =>
    let (claim, log) := claim.place log
    (.assume claim, log)
  | .assert claim =>
    let (claim, log) := claim.place log
    (.assert claim, log)
  | .loop invariant condition body =>
    let (invariant, log) := invariant.place log
    let (condition, log) := condition.place log
    let (body, log) := body.place log
    (.loop invariant condition body, log)
  | term => (term, log)

end Term

end HoareCheck
