import HoareCheck.Text.Printable

/-!
# Quoted text

Text in quotes as it stands in printed maps: single quotes, or double ones if
that saves escaping a single quote, and an escape for every character that is
not printable.
-/

namespace HoareCheck.Text

/-- A natural in hexadecimal with at least `width` digits. -/
def hexadecimal (width value : Nat) : String :=
  let digits := Nat.toDigits 16 value
  String.ofList (List.replicate (width - digits.length) '0' ++ digits)

/-- One character of a text quoted by `quote`. -/
def quotedChar (quote char : Char) : String :=
  if char = quote then
    String.ofList ['\\', char]
  else if char = '\\' then
    "\\\\"
  else if char = '\n' then
    "\\n"
  else if char = '\r' then
    "\\r"
  else if char = '\t' then
    "\\t"
  else if isPrintable char then
    char.toString
  else if char.toNat < 0x100 then
    "\\x" ++ hexadecimal 2 char.toNat
  else if char.toNat < 0x10000 then
    "\\u" ++ hexadecimal 4 char.toNat
  else
    "\\U" ++ hexadecimal 8 char.toNat

/-- The quote that a text takes. -/
def quoteFor (text : String) : Char :=
  if text.toList.contains '\'' && !text.toList.contains '"' then '"' else '\''

def quoted (text : String) : String :=
  let quote := quoteFor text
  quote.toString ++ String.join (text.toList.map (quotedChar quote)) ++ quote.toString

end HoareCheck.Text
