import HoareCheck.Measure.Json
import HoareCheck.Measure.Value

/-!
# Values written as JSON

Numbers, texts, lists and maps are written as JSON has them.  A value that JSON
has no form for is an object with its kind in the field `t` and its content in
the field `v`.
-/

namespace HoareCheck.Measure

open Number (Binary64)

namespace Json

/-- The integers of an array. -/
def ints (json : Json) : List Int :=
  json.items.filterMap fun item => match item with
    | .int value => some value
    | _ => none

def string : Json → String
  | .text value => value
  | _ => ""

def strings (json : Json) : List String := json.items.map string

mutual

/-- The sizes of nested arrays, read along their first items. -/
def shape : Json → List Nat
  | .array items => items.length :: firstShape items
  | _ => []

def firstShape : List Json → List Nat
  | [] => []
  | item :: _ => shape item

end

mutual

/-- What nested arrays hold, in order. -/
def leaves : Json → List Json
  | .array items => allLeaves items
  | leaf => [leaf]

def allLeaves : List Json → List Json
  | [] => []
  | item :: rest => leaves item ++ allLeaves rest

end

end Json

/-- The double of a decimal text, of an infinity or of not-a-number; any other
text gives zero. -/
def realOfText (text : String) : Binary64 :=
  match text with
  | "inf" => .infinite false
  | "-inf" => .infinite true
  | "nan" => .nan
  | text =>
    (((Json.readNumber? text.toList).map Prod.fst).bind Json.number?).getD (.zero false)

/-- The bytes of a text of hexadecimal digits. -/
def bytesOfHex : List Char → List UInt8
  | high :: low :: rest =>
    (((Json.hexValue? high).getD 0) * 16 + (Json.hexValue? low).getD 0).toUInt8 ::
      bytesOfHex rest
  | _ => []

namespace Value

def items : Value → List Value
  | .sequence _ items => items
  | _ => []

/-- The value of a kind with its content, which is also given as a value.  A kind
without a rule stands for `other`. -/
def ofKind (other : Value) (kind : String) (content : Json) (value : Value) (count : Int) : Value :=
  match kind with
  | "float" => .real (realOfText content.string)
  | "bytes" | "bytearray" | "memoryview" => .bytes kind (bytesOfHex content.string.toList)
  | "tuple" => .sequence kind value.items
  | "set" | "frozenset" => .unordered kind value.items
  | "dict" =>
    let pairs := value.items.map items
    .mapping kind (pairs.map fun pair => pair.headD .nothing)
      (pairs.map fun pair => (pair.drop 1).headD .nothing)
  | "complex" =>
    match content.strings with
    | [first, second] => .complex (realOfText first) (realOfText second)
    | _ => .nothing
  | "data" => .mapping "Data" [.text "fields"] [value]
  | "date" => .date content.ints
  | "time" => .time content.ints
  | "datetime" => .dateTime content.ints
  | "timedelta" => .duration content.ints
  | "decimal" => .decimal content.string
  | "fraction" => .fraction (content.ints.headD 0) ((content.ints.drop 1).headD 1)
  | "path" => .path content.string
  | "uuid" => .identifier content.string
  | "ints" => .matrixOfInts content.shape (Json.ints (.array content.leaves))
  | "floats" => .matrixOfReals content.shape (content.leaves.filterMap Json.number?)
  | "range" =>
    match content with
    | .int size => list ((List.range size.toNat).map fun (index : Nat) => .int index)
    | _ => list []
  | "nest" => (List.range count.toNat).foldl (fun inner _ => list [inner]) value
  | "class" => .object "builtins" "type"
  | _ => other

/-- The value of an object, given its fields as values too. -/
def ofObject (other : Value) (names : List String) (contents : List Json) (values : List Value) : Value :=
  let object := Json.object names contents
  match object.field? "t" with
  | some (.text kind) =>
    let value := ((names.zip values).find? fun field => field.1 = "v").map Prod.snd
    let count := match object.field? "n" with
      | some (.int count) => count
      | _ => 0
    ofKind other kind ((object.field? "v").getD .null) (value.getD .nothing) count
  | _ => .mapping "dict" (names.map .text) values

mutual

/-- The value that is written, with `other` for the kinds without a rule. -/
def ofJson (other : Value) : Json → Value
  | .null => .nothing
  | .bool value => .bool value
  | .int value => .int value
  | .real value => .real value
  | .text value => .text value
  | .array items => list (ofJsons other items)
  | .object names contents => ofObject other names contents (ofJsons other contents)

def ofJsons (other : Value) : List Json → List Value
  | [] => []
  | item :: rest => ofJson other item :: ofJsons other rest

end

end Value

end HoareCheck.Measure
