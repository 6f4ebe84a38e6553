import HoareCheck.Number.Decimal

/-!
# JSON texts

Values of JSON, their text, and the reader.  A text that is not JSON is refused
with the reason and the place of the first character that does not fit.
-/

namespace HoareCheck.Measure

open Number (Binary64)

inductive Json
  | null
  | bool (value : Bool)
  | int (value : Int)
  | real (value : Binary64)
  | text (value : String)
  | array (items : List Json)
  | object (names : List String) (values : List Json)
  deriving Inhabited

namespace Json

def ofFields (fields : List (String × Json)) : Json :=
  .object (fields.map Prod.fst) (fields.map Prod.snd)

/-- The fields of an object; other values have none. -/
def fields : Json → List (String × Json)
  | .object names values => names.zip values
  | _ => []

def items : Json → List Json
  | .array items => items
  | _ => []

/-- A field of an object. -/
def field? (json : Json) (name : String) : Option Json :=
  (json.fields.find? fun field => field.1 = name).map Prod.snd

/-- Sets a field: in its place if there is one of this name, and else at the
end. -/
def setField (fields : List (String × Json)) (name : String) (value : Json) :
    List (String × Json) :=
  if fields.any fun field => field.1 = name then
    fields.map fun field => if field.1 = name then (name, value) else field
  else
    fields ++ [(name, value)]

/-- The number of a value, if it is one. -/
def number? : Json → Option Binary64
  | .int value => some (.ofRat value)
  | .real value => some value
  | _ => none

/-! ## Writing -/

def hexDigits (value : Nat) : String :=
  let digits := Nat.toDigits 16 value
  String.ofList (List.replicate (4 - digits.length) '0' ++ digits)

/-- A number; those that are not finite have names. -/
def writeReal : Binary64 → String
  | .nan => "NaN"
  | .infinite negative => if negative then "-Infinity" else "Infinity"
  | value => value.toText

/-- A character inside quotes. -/
def writeChar (char : Char) : String :=
  if char = '"' then "\\\""
  else if char = '\\' then "\\\\"
  else if char = '\n' then "\\n"
  else if char = '\r' then "\\r"
  else if char = '\t' then "\\t"
  else if char.toNat < 0x20 then "\\u" ++ hexDigits char.toNat
  else char.toString

def writeText (text : String) : String :=
  "\"" ++ String.join (text.toList.map writeChar) ++ "\""

def openBrace : String := "\x7b"

def closeBrace : String := "\x7d"

mutual

/-- The text of a value. -/
def write : Json → String
  | .null => "null"
  | .bool value => if value then "true" else "false"
  | .int value => toString value
  | .real value => writeReal value
  | .text value => writeText value
  | .array items => "[" ++ ", ".intercalate (writeAll items) ++ "]"
  | .object names values =>
    openBrace ++ ", ".intercalate (List.zipWith (fun name value => writeText name ++ ": " ++ value)
      names (writeAll values)) ++ closeBrace

def writeAll : List Json → List String
  | [] => []
  | value :: rest => write value :: writeAll rest

end

/-! ## Reading -/

/-- Why a text is not JSON. -/
inductive Problem
  | value
  | name
  | colon
  | comma
  | unterminated
  | control
  | escape
  | unicodeEscape
  | extra

def Problem.message : Problem → String
  | .value => "Expecting value"
  | .name => "Expecting property name enclosed in double quotes"
  | .colon => "Expecting ':' delimiter"
  | .comma => "Expecting ',' delimiter"
  | .unterminated => "Unterminated string starting at"
  | .control => "Invalid control character at"
  | .escape => "Invalid \\escape"
  | .unicodeEscape => "Invalid \\uXXXX escape"
  | .extra => "Extra data"

/-- A problem, and how much of the text was left where it was found. -/
structure Refusal where
  problem : Problem
  left : Nat

/-- The place of a refusal in a text: its line, its column and its index. -/
def Refusal.message (refusal : Refusal) (text : String) : String :=
  let index := text.length - refusal.left
  let before := text.toList.take index
  let line := before.count '\n' + 1
  let column := (before.reverse.takeWhile (· ≠ '\n')).length + 1
  refusal.problem.message ++ ": line " ++ toString line ++ " column " ++ toString column ++
    " (char " ++ toString index ++ ")"

/-- A reader gives a result and the rest of the text. -/
abbrev Reader (α : Type) := List Char → Except Refusal (α × List Char)

def refuse {α : Type} (problem : Problem) (text : List Char) : Except Refusal α :=
  .error { problem, left := text.length }

def isSpace (char : Char) : Bool :=
  char = ' ' || char = '\t' || char = '\n' || char = '\r'

def skipSpaces (text : List Char) : List Char := text.dropWhile isSpace

def hexValue? (char : Char) : Option Nat :=
  if '0' ≤ char ∧ char ≤ '9' then some (char.toNat - '0'.toNat)
  else if 'a' ≤ char ∧ char ≤ 'f' then some (char.toNat - 'a'.toNat + 10)
  else if 'A' ≤ char ∧ char ≤ 'F' then some (char.toNat - 'A'.toNat + 10)
  else none

/-- The number of four hexadecimal digits at the start of a text. -/
def fourDigits? (text : List Char) : Option Nat :=
  match (text.take 4).mapM hexValue? with
  | some [first, second, third, fourth] => some (((first * 16 + second) * 16 + third) * 16 + fourth)
  | _ => none

/-- The character of a one-letter escape. -/
def simpleEscape? : Char → Option Char
  | '"' => some '"'
  | '\\' => some '\\'
  | '/' => some '/'
  | 'b' => some (Char.ofNat 8)
  | 'f' => some (Char.ofNat 12)
  | 'n' => some '\n'
  | 'r' => some '\r'
  | 't' => some '\t'
  | _ => none

/-- The character of a pair of escapes for its two halves. -/
def paired? (high : Nat) (rest : List Char) : Option (Char × List Char) :=
  match rest with
  | '\\' :: 'u' :: digits =>
    match fourDigits? digits with
    | some low =>
      if 0xd800 ≤ high ∧ high < 0xdc00 ∧ 0xdc00 ≤ low ∧ low < 0xe000 then
        some (Char.ofNat (0x10000 + (high - 0xd800) * 0x400 + (low - 0xdc00)), digits.drop 4)
      else
        none
    | none => none
  | _ => none

/-- Reads the characters up to the closing quote.  `start` is how much text was
left at the opening one. -/
def readChars (start : Nat) : Nat → List Char → Reader String
  | 0, _, _ => .error { problem := .unterminated, left := start }
  | fuel + 1, taken, input =>
    match input with
    | [] => .error { problem := .unterminated, left := start }
    | '"' :: rest => .ok (String.ofList taken.reverse, rest)
    | '\\' :: 'u' :: rest =>
      match fourDigits? rest with
      | none => refuse .unicodeEscape ('u' :: rest)
      | some code =>
        match paired? code (rest.drop 4) with
        | some (char, rest) => readChars start fuel (char :: taken) rest
        | none => readChars start fuel (Char.ofNat code :: taken) (rest.drop 4)
    | '\\' :: letter :: rest =>
      match simpleEscape? letter with
      | some char => readChars start fuel (char :: taken) rest
      | none => refuse .escape input
    | ['\\'] => .error { problem := .unterminated, left := start }
    | char :: rest =>
      if char.toNat < 0x20 then refuse .control input
      else readChars start fuel (char :: taken) rest

/-- Reads a text whose opening quote was read. -/
def readText (text : List Char) : Except Refusal (String × List Char) :=
  readChars (text.length + 1) (text.length + 1) [] text

def isPlainDigit (char : Char) : Bool := '0' ≤ char && char ≤ '9'

def digitsValue (digits : List Char) : Nat :=
  digits.foldl (fun value digit => value * 10 + (digit.toNat - '0'.toNat)) 0

/-- The digits of the fraction at the start of a text, and the rest. -/
def splitFraction (text : List Char) : List Char × List Char :=
  match text with
  | '.' :: rest =>
    let digits := rest.takeWhile isPlainDigit
    if digits.isEmpty then ([], text) else (digits, rest.drop digits.length)
  | _ => ([], text)

/-- The exponent at the start of a text, and the rest. -/
def splitExponent (text : List Char) : Option Int × List Char :=
  match text with
  | mark :: rest =>
    if mark = 'e' ∨ mark = 'E' then
      let (negative, digitsOn) := match rest with
        | '-' :: digitsOn => (true, digitsOn)
        | '+' :: digitsOn => (false, digitsOn)
        | digitsOn => (false, digitsOn)
      let digits := digitsOn.takeWhile isPlainDigit
      if digits.isEmpty then (none, text)
      else
        let value : Int := digitsValue digits
        (some (if negative then -value else value), digitsOn.drop digits.length)
    else (none, text)
  | [] => (none, text)

/-- Reads a number, if one starts the text. -/
def readNumber? (text : List Char) : Option (Json × List Char) :=
  let (negative, unsigned) := match text with
    | '-' :: rest => (true, rest)
    | rest => (false, rest)
  let whole := match unsigned with
    | '0' :: _ => ['0']
    | rest => rest.takeWhile isPlainDigit
  if whole.isEmpty then
    none
  else
    let rest := unsigned.drop whole.length
    let (fraction, rest) := splitFraction rest
    let (exponent, rest) := splitExponent rest
    if fraction.isEmpty && exponent.isNone then
      let value : Int := digitsValue whole
      some (.int (if negative then -value else value), rest)
    else
      some (.real (.ofScientific negative (digitsValue (whole ++ fraction))
        (exponent.getD 0 - fraction.length)), rest)

/-- The words that stand for values. -/
def words : List (List Char × Json) :=
  [("null".toList, .null), ("true".toList, .bool true), ("false".toList, .bool false),
   ("NaN".toList, .real .nan), ("Infinity".toList, .real (.infinite false)),
   ("-Infinity".toList, .real (.infinite true))]

def readWord? (text : List Char) : Option (Json × List Char) :=
  words.findSome? fun word =>
    if word.1.isPrefixOf text then some (word.2, text.drop word.1.length) else none

/-- The items of an array after an item, with the reader of values given. -/
def readItems (readValue : Reader Json) : Nat → List Json → Reader Json
  | 0, _, input => refuse .comma input
  | fuel + 1, taken, input => do
      let (item, rest) ← readValue input
      match skipSpaces rest with
      | ']' :: rest => .ok (.array (item :: taken).reverse, rest)
      | ',' :: rest => readItems readValue fuel (item :: taken) (skipSpaces rest)
      | rest => refuse .comma rest

/-- The fields of an object from a name on, with the reader of values given. -/
def readFields (readValue : Reader Json) : Nat → List (String × Json) → Reader Json
  | 0, _, input => refuse .name input
  | fuel + 1, taken, input =>
    match input with
    | '"' :: rest => do
        let (name, rest) ← readText rest
        match skipSpaces rest with
        | ':' :: rest => do
            let (value, rest) ← readValue (skipSpaces rest)
            let taken := setField taken name value
            match skipSpaces rest with
            | '\x7d' :: rest => .ok (ofFields taken, rest)
            | ',' :: rest => readFields readValue fuel taken (skipSpaces rest)
            | rest => refuse .comma rest
        | rest => refuse .colon rest
    | input => refuse .name input

/-- Reads a value nested at most `depth` deep. -/
def readValue : Nat → Reader Json
  | 0, input => refuse .value input
  | depth + 1, input =>
    match input with
    | '"' :: rest => do
        let (value, rest) ← readText rest
        return (.text value, rest)
    | '[' :: rest =>
      match skipSpaces rest with
      | ']' :: rest => .ok (.array [], rest)
      | rest => readItems (readValue depth) (rest.length + 1) [] rest
    | '\x7b' :: rest =>
      match skipSpaces rest with
      | '\x7d' :: rest => .ok (.object [] [], rest)
      | rest => readFields (readValue depth) (rest.length + 1) [] rest
    | input =>
      match (readWord? input).orElse fun _ => readNumber? input with
      | some result => .ok result
      | none => refuse .value input

/-- The value of a text. -/
def read (text : String) : Except Refusal Json := do
  let (value, rest) ← readValue (text.length + 1) (skipSpaces text.toList)
  match skipSpaces rest with
  | [] => return value
  | rest => refuse .extra rest

end Json

end HoareCheck.Measure
