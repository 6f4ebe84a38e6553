import HoareCheck.Number.Decimal
import HoareCheck.Text.Quoted

/-!
# Results of workloads

A workload gives a value back.  What is kept of it is what a fingerprint reads:
its shape, its numbers and texts, and for values that are read through their
printed form that form alone.
-/

namespace HoareCheck.Measure

open Number (Binary64)

/-- The value that a workload gives back. -/
inductive Value
  | nothing
  | bool (value : Bool)
  | int (value : Int)
  | real (value : Binary64)
  | complex (real imaginary : Binary64)
  | text (value : String)
  | bytes (className : String) (content : List UInt8)
  | sequence (className : String) (items : List Value)
  | unordered (className : String) (items : List Value)
  | mapping (className : String) (keys values : List Value)
  | matrix (elementCode : String) (shape : List Nat) (content : List UInt8)
  | printed (className shown : String)
  | object (moduleName className : String)

namespace Value

/-- The name of the class of a value. -/
def className : Value → String
  | .nothing => "NoneType"
  | .bool _ => "bool"
  | .int _ => "int"
  | .real _ => "float"
  | .complex _ _ => "complex"
  | .text _ => "str"
  | .bytes name _ | .sequence name _ | .unordered name _ | .mapping name _ _ => name
  | .matrix .. => "ndarray"
  | .printed name _ => name
  | .object _ name => name

def list (items : List Value) : Value := .sequence "list" items

/-! ## Values that are read through their printed form -/

def commas (parts : List String) : String := ", ".intercalate parts

def numbers (parts : List Int) : String := commas (parts.map toString)

/-- The parts of a time of day without zeros at the end, but at least two. -/
def timeParts (parts : List Int) : List Int :=
  let parts := parts ++ List.replicate (4 - parts.length) 0
  parts.take 2 ++ ((parts.drop 2).reverse.dropWhile (· = 0)).reverse

def date (parts : List Int) : Value :=
  .printed "date" ("datetime.date(" ++ numbers parts ++ ")")

def time (parts : List Int) : Value :=
  .printed "time" ("datetime.time(" ++ numbers (timeParts parts) ++ ")")

def dateTime (parts : List Int) : Value :=
  .printed "datetime" ("datetime.datetime(" ++
    numbers (parts.take 3 ++ timeParts (parts.drop 3)) ++ ")")

/-- The microseconds of one unit of each part of a duration: days, seconds,
microseconds, milliseconds, minutes, hours and weeks. -/
def durationUnits : List Int :=
  [86400000000, 1000000, 1, 1000, 60000000, 3600000000, 604800000000]

/-- A duration, shown by its days, seconds and microseconds. -/
def duration (parts : List Int) : Value :=
  let total := (List.zipWith (· * ·) parts durationUnits).foldl (· + ·) 0
  let days := Int.fdiv total 86400000000
  let rest := Int.fmod total 86400000000
  let named := [("days", days), ("seconds", Int.fdiv rest 1000000),
    ("microseconds", Int.fmod rest 1000000)].filter fun part => part.2 ≠ 0
  let shown := if named.isEmpty then "0"
    else commas (named.map fun part => part.1 ++ "=" ++ toString part.2)
  .printed "timedelta" ("datetime.timedelta(" ++ shown ++ ")")

def decimal (text : String) : Value :=
  .printed "Decimal" ("Decimal('" ++ text ++ "')")

/-- A fraction in lowest terms. -/
def fraction (numerator denominator : Int) : Value :=
  let exact : Rat := (numerator : Rat) / (denominator : Rat)
  .printed "Fraction" ("Fraction(" ++ numbers [exact.num, exact.den] ++ ")")

/-- A path without empty and dot parts; two slashes at its start are kept. -/
def path (text : String) : Value :=
  let slashes := (text.toList.takeWhile (· = '/')).length
  let root := if slashes = 2 then "//" else if slashes = 0 then "" else "/"
  let parts := (text.splitOn "/").filter fun part => part ≠ "" && part ≠ "."
  let shown := root ++ "/".intercalate parts
  .printed "PurePosixPath"
    ("PurePosixPath(" ++ Text.quoted (if shown.isEmpty then "." else shown) ++ ")")

/-- An identifier of thirty-two hexadecimal digits. -/
def identifier (text : String) : Value :=
  let digits := text.toList.filter Char.isAlphanum
  let part (start width : Nat) : String := String.ofList ((digits.drop start).take width)
  .printed "UUID" ("UUID('" ++ "-".intercalate
    [part 0 8, part 8 4, part 12 4, part 16 4, part 20 12] ++ "')")

/-! ## Matrices of numbers -/

/-- The eight bytes of a word, the lowest first. -/
def littleEndian (word : Nat) : List UInt8 :=
  (List.range 8).map fun index => (word / Nat.pow 256 index).toUInt8

/-- The sixty-four bits of a double. -/
def bitsOf : Binary64 → Nat
  | .nan => 0x7ff8000000000000
  | .infinite negative => (if negative then Nat.pow 2 63 else 0) + 0x7ff0000000000000
  | .finite negative mantissa exponent =>
    (if negative then Nat.pow 2 63 else 0) +
      if mantissa < Nat.pow 2 52 then mantissa
      else (exponent + 1075).toNat * Nat.pow 2 52 + (mantissa - Nat.pow 2 52)

def matrixOfInts (shape : List Nat) (items : List Int) : Value :=
  .matrix "<i8" shape (items.flatMap fun item => littleEndian (item % Int.pow 2 64).toNat)

def matrixOfReals (shape : List Nat) (items : List Binary64) : Value :=
  .matrix "<f8" shape (items.flatMap fun item => littleEndian (bitsOf item))

end Value

end HoareCheck.Measure
