import HoareCheck.Measure.Sha256
import HoareCheck.Measure.Value

/-!
# Fingerprints of results

The fingerprint of a value is the digest of bytes that describe it.  Numbers
are rounded to six significant digits, so that a result may differ in its last
places; sets and maps are described in the order of their elements'
fingerprints, so that their own order does not matter.
-/

namespace HoareCheck.Measure

open Number (Binary64)

/-- A number to six significant digits; the two zeros are one. -/
def rounded (value : Binary64) : Binary64 :=
  if value.isZero then .zero false else value.roundSignificant 6

def hexOf (bytes : List UInt8) : String :=
  String.join (bytes.map fun byte => Text.hexadecimal 2 byte.toNat)

def utf8 (text : String) : List UInt8 := text.toUTF8.toList

/-- The digest of bytes in hexadecimal. -/
def fingerprintOf (bytes : List UInt8) : String := hexOf (Sha256.digest bytes)

def shownShape : List Nat → String
  | [size] => "(" ++ toString size ++ ",)"
  | sizes => "(" ++ ", ".intercalate (sizes.map toString) ++ ")"

/-- The descriptions of entries, in the order of the fingerprints of their
keys. -/
def inKeyOrder (entries : List (List UInt8 × List UInt8)) : List UInt8 :=
  let keyed := entries.map fun entry => (fingerprintOf entry.1, entry)
  (keyed.mergeSort fun first second => !(second.1 < first.1)).flatMap fun entry =>
    entry.2.1 ++ entry.2.2

/-- A sign for the kind of a collection, and its size. -/
def sized (sign : String) (size : Nat) : List UInt8 := utf8 (sign ++ toString size)

namespace Value

mutual

/-- The bytes that describe a value. -/
def description : Value → List UInt8
  | .nothing => utf8 "None"
  | .bool value => utf8 (if value then "True" else "False")
  | .int value => utf8 (toString value)
  | .real value => utf8 (rounded value).toText
  | .complex realPart imaginaryPart =>
    utf8 ("c" ++ (rounded realPart).toText ++ (rounded imaginaryPart).toText)
  | .text value => utf8 ("s" ++ value)
  | .bytes _ content => utf8 "s" ++ content
  | .sequence _ items => sized "L" items.length ++ (descriptions items).flatten
  | .unordered _ items =>
    let fingerprints := (descriptions items).map fingerprintOf
    sized "S" items.length ++
      (fingerprints.mergeSort fun first second => !(second < first)).flatMap utf8
  | .mapping _ keys values =>
    sized "D" keys.length ++ inKeyOrder ((descriptions keys).zip (descriptions values))
  | .matrix elementCode shape content => utf8 (elementCode ++ shownShape shape) ++ content
  | .printed _ shown => utf8 shown
  | .object moduleName className => utf8 ("<" ++ moduleName ++ "." ++ className ++ ">")

def descriptions : List Value → List (List UInt8)
  | [] => []
  | item :: rest => description item :: descriptions rest

end

def fingerprint (value : Value) : String := fingerprintOf value.description

end Value

end HoareCheck.Measure
