import HoareCheck.Text.Blank
import HoareCheck.Text.Digit

/-!
# Integers in text

An integer is written as an optional sign and decimal digits of any script,
with single underscores between digits and blanks around the whole.  More than
4300 digits are refused, leading zeros included.
-/

namespace HoareCheck.Text

/-- The longest run of digits that is read as a number. -/
def maxDigits : Nat := 4300

/-- The number that digits write, most significant first. -/
def ofDigits (digits : List Nat) : Nat :=
  digits.foldl (fun value digit => 10 * value + digit) 0

/-- The digits of a text in which single underscores may stand between two
digits. -/
def groupedDigits? : List Char → Option (List Nat)
  | [] => none
  | [char] => (digitValue? char).map ([·])
  | char :: '_' :: rest => do
      let digit ← digitValue? char
      let digits ← groupedDigits? rest
      return digit :: digits
  | char :: rest => do
      let digit ← digitValue? char
      let digits ← groupedDigits? rest
      return digit :: digits

/-- The number that a run of digits writes, unless the run is too long. -/
def readNatural? (text : List Char) : Option Nat := do
  let digits ← groupedDigits? text
  if maxDigits < digits.length then none else return ofDigits digits

/-- Blanks that may surround a number: all but the information separators. -/
def surroundsNumber (char : Char) : Bool :=
  isBlank char && !(0x1C ≤ char.toNat && char.toNat ≤ 0x1F)

/-- The integer that a text writes. -/
def readInteger? (text : String) : Option Int :=
  let front := text.toList.dropWhile surroundsNumber
  let core := (front.reverse.dropWhile surroundsNumber).reverse
  match core with
  | '-' :: digits => (readNatural? digits).map fun value => -(value : Int)
  | '+' :: digits => (readNatural? digits).map Int.ofNat
  | digits => (readNatural? digits).map Int.ofNat

end HoareCheck.Text
