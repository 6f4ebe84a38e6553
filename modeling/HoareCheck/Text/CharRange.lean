/-!
# Sets of characters as ranges of code points

A character class is a list of inclusive ranges of code points, in ascending
order.  Membership is a search through the list.
-/

namespace HoareCheck.Text

/-- Inclusive ranges of code points, ascending and disjoint. -/
abbrev CharRanges := List (Nat × Nat)

namespace CharRanges

/-- The range that holds a character, if there is one. -/
def rangeOf? (ranges : CharRanges) (char : Char) : Option (Nat × Nat) :=
  List.find? (fun range => range.1 ≤ char.toNat && char.toNat ≤ range.2) ranges

def holds (ranges : CharRanges) (char : Char) : Bool :=
  (ranges.rangeOf? char).isSome

end CharRanges

end HoareCheck.Text
