import HoareCheck.Claim.Fault
import HoareCheck.Text.Identifier
import HoareCheck.Text.NormalForm
import HoareCheck.Text.Integer

/-!
# Tokens of source programs

The lexer splits a program into names, numbers, texts and signs, and marks the
ends of logical lines and every change of indentation.  Names are given in
normal form; whether a word is a keyword is decided on its spelling before.
Inside brackets line ends do not count.  Indentation is measured twice, with
tabs up to the next multiple of eight and with tabs of width one; where the two
measures disagree about the nesting of two lines the program is refused.
-/

namespace HoareCheck.Source

open HoareCheck.Number (Binary64)

inductive Token
  | name (text : String)
  | keyword (text : String)
  | constant (value : Datum)
  | sign (text : String)
  | newline
  | indent
  | dedent
  deriving DecidableEq, Repr, Inhabited

/-- The words that cannot be names. -/
def keywords : List String :=
  ["False", "None", "True", "and", "as", "assert", "async", "await", "break", "class",
    "continue", "def", "del", "elif", "else", "except", "finally", "for", "from", "global",
    "if", "import", "in", "is", "lambda", "nonlocal", "not", "or", "pass", "raise", "return",
    "try", "while", "with", "yield"]

/-- The signs, longer ones first. -/
def signs : List String :=
  ["**=", "//=", ">>=", "<<=", "...", "**", "//", ">>", "<<", "<=", ">=", "==", "!=", "->",
    "+=", "-=", "*=", "/=", "%=", "@=", "&=", "|=", "^=", ":=", "+", "-", "*", "/", "%", "@",
    "&", "|", "^", "~", "<", ">", "(", ")", "[", "]", "\x7b", "\x7d", ",", ":", ".", ";", "="]

/-- The closing bracket that answers an opening one. -/
def closing? (sign : String) : Option String :=
  if sign = "(" then some ")"
  else if sign = "[" then some "]"
  else if sign = "\x7b" then some "\x7d"
  else none

def isClosing (sign : String) : Bool :=
  sign = ")" || sign = "]" || sign = "\x7d"

/-- A line end is a line feed, whichever way it was written. -/
def unifyLineEnds : List Char → List Char
  | '\r' :: '\n' :: rest => '\n' :: unifyLineEnds rest
  | '\r' :: rest => '\n' :: unifyLineEnds rest
  | char :: rest => char :: unifyLineEnds rest
  | [] => []

/-- The depth of an indentation by its two measures. -/
structure Indentation where
  column : Nat
  tabColumn : Nat
  deriving DecidableEq, Repr, Inhabited

/-- Measures the blanks at the start of a line and gives the rest of it.  Where
the line goes on after a backslash, the blanks before the first backslash count
alone, if there are any; `fixed` is their column, or zero. -/
def measureIndentation (depth : Indentation) (fixed : Nat) : List Char → Indentation × List Char
  | ' ' :: rest => measureIndentation ⟨depth.column + 1, depth.tabColumn + 1⟩ fixed rest
  | '\t' :: rest =>
    measureIndentation ⟨(depth.column / 8 + 1) * 8, depth.tabColumn + 1⟩ fixed rest
  | '\x0c' :: rest => measureIndentation ⟨0, 0⟩ fixed rest
  | '\\' :: '\n' :: next :: rest =>
    measureIndentation depth (if fixed = 0 then depth.column else fixed) (next :: rest)
  | rest => (if fixed = 0 then depth else ⟨fixed, fixed⟩, rest)

/-- The state of the lexer: open indentations, innermost first, the closing
brackets that are awaited, and the tokens found, latest first. -/
structure LexerState where
  indentations : List Indentation
  awaited : List String
  tokens : List Token
  deriving Inhabited

namespace LexerState

def start : LexerState := { indentations := [⟨0, 0⟩], awaited := [], tokens := [] }

def push (state : LexerState) (token : Token) : LexerState :=
  { state with tokens := token :: state.tokens }

/-- Closes indentations deeper than a line; the line must match one that is
open. -/
def closeTo (depth : Indentation) (tokens : List Token) :
    List Indentation → Except Fault (List Indentation × List Token)
  | [] => throw .illFormedSource
  | open' :: rest =>
    if open'.column = depth.column then
      if open'.tabColumn = depth.tabColumn then pure (open' :: rest, tokens)
      else throw .illFormedSource
    else if depth.column < open'.column then
      closeTo depth (.dedent :: tokens) rest
    else
      throw .illFormedSource

/-- Takes note of the indentation of a line. -/
def indentTo (state : LexerState) (depth : Indentation) : Except Fault LexerState := do
  match state.indentations with
  | current :: _ =>
    if current.column < depth.column then
      if current.tabColumn < depth.tabColumn then
        return { state with
          indentations := depth :: state.indentations, tokens := .indent :: state.tokens }
      else
        throw .illFormedSource
    else
      let (indentations, tokens) ← closeTo depth state.tokens state.indentations
      return { state with indentations, tokens }
  | [] => throw .illFormedSource

/-- Takes note of a sign; brackets must pair. -/
def addSign (state : LexerState) (sign : String) : Except Fault LexerState :=
  let state := state.push (.sign sign)
  match closing? sign with
  | some awaited => pure { state with awaited := awaited :: state.awaited }
  | none =>
    if isClosing sign then
      match state.awaited with
      | awaited :: rest =>
        if awaited = sign then pure { state with awaited := rest }
        else throw .illFormedSource
      | [] => throw .illFormedSource
    else
      pure state

/-- The tokens of a program whose end has been reached. -/
def finish (state : LexerState) (inLine : Bool) : Except Fault (List Token) :=
  if state.awaited.isEmpty then
    let ended := if inLine then .newline :: state.tokens else state.tokens
    let dedents := List.replicate (state.indentations.length - 1) Token.dedent
    pure ((dedents ++ ended).reverse)
  else
    throw .illFormedSource

end LexerState

/-- A run of characters between two quotes on one line. -/
def quotedRun (quote : Char) : List Char → Option (List Char × List Char)
  | [] => none
  | char :: rest =>
    if char = quote then some ([], rest)
    else if char = '\n' || char = '\\' then none
    else (quotedRun quote rest).map fun (run, after) => (char :: run, after)

/-- A run of characters between tripled quotes, over any number of lines. -/
def tripleQuotedRun (quote : Char) : List Char → Option (List Char × List Char)
  | [] => none
  | char :: rest =>
    if char = '\\' then none
    else if [quote, quote, quote].isPrefixOf (char :: rest) then some ([], rest.drop 2)
    else (tripleQuotedRun quote rest).map fun (run, after) => (char :: run, after)

/-- A text and what follows it.  There are no escapes. -/
def lexText (quote : Char) (text : List Char) : Except Fault (Token × List Char) :=
  let run :=
    if [quote, quote].isPrefixOf text then tripleQuotedRun quote (text.drop 2)
    else quotedRun quote text
  match run with
  | some (run, rest) => pure (.constant (.text (String.ofList run)), rest)
  | none => throw .illFormedSource

/-- Digits of a base with single underscores between them, and the rest. -/
def digitRun (isDigit : Char → Bool) : List Char → List Char × List Char
  | '_' :: char :: rest =>
    if isDigit char then
      let (digits, after) := digitRun isDigit rest
      (char :: digits, after)
    else
      ([], '_' :: char :: rest)
  | char :: rest =>
    if isDigit char then
      let (digits, after) := digitRun isDigit rest
      (char :: digits, after)
    else
      ([], char :: rest)
  | [] => ([], [])

/-- Digits that do not start with an underscore. -/
def leadingDigits (isDigit : Char → Bool) (text : List Char) : List Char × List Char :=
  match text with
  | '_' :: _ => ([], text)
  | text => digitRun isDigit text

/-- The value of a hexadecimal digit, and of any smaller base. -/
def hexValue (char : Char) : Nat :=
  if char.isDigit then char.toNat - '0'.toNat
  else char.toLower.toNat - 'a'.toNat + 10

def ofBase (base : Nat) (digits : List Char) : Nat :=
  digits.foldl (fun value digit => base * value + hexValue digit) 0

/-- The words that may follow a number without a blank. -/
def wordsAfterNumber : List String :=
  ["and", "else", "for", "if", "in", "is", "or", "not"]

/-- Whether a number may end before a text. -/
def endsNumber (text : List Char) : Bool :=
  match text with
  | [] => true
  | char :: _ =>
    !Text.continuesIdentifier char ||
      wordsAfterNumber.any fun word => word.toList.isPrefixOf text

/-- A number in a base other than ten, after its mark. -/
def lexBase (base : Nat) (isDigit : Char → Bool) (text : List Char) :
    Except Fault (Token × List Char) :=
  let (digits, rest) := digitRun isDigit text
  if digits.isEmpty || !endsNumber rest then throw .illFormedSource
  else pure (.constant (.int (ofBase base digits)), rest)

/-- The exponent of a decimal number, and the rest. -/
def lexExponent (text : List Char) : Option (Int × List Char) :=
  match text with
  | mark :: rest =>
    if mark = 'e' || mark = 'E' then
      let (negative, unsigned) :=
        match rest with
        | '-' :: rest => (true, rest)
        | '+' :: rest => (false, rest)
        | rest => (false, rest)
      let (digits, after) := leadingDigits Char.isDigit unsigned
      if digits.isEmpty then
        none
      else
        let value : Int := ofBase 10 digits
        some (if negative then -value else value, after)
    else
      none
  | [] => none

/-- An integer in decimal: it has no needless zeros in front and not too many
digits. -/
def decimalInteger (digits : List Char) : Except Fault Datum :=
  if digits.head? = some '0' && digits.any (· ≠ '0') then throw .illFormedSource
  else if Text.maxDigits < digits.length then throw .illFormedSource
  else pure (.int (ofBase 10 digits))

/-- A decimal number. -/
def lexDecimal (text : List Char) : Except Fault (Token × List Char) := do
  let (whole, rest) := leadingDigits Char.isDigit text
  let (hasPoint, fraction, rest) :=
    match rest with
    | '.' :: afterPoint =>
      let (fraction, rest) := leadingDigits Char.isDigit afterPoint
      (true, fraction, rest)
    | rest => (false, [], rest)
  let (hasExponent, exponent, rest) :=
    match lexExponent rest with
    | some (exponent, rest) => (true, exponent, rest)
    | none => (false, 0, rest)
  if !endsNumber rest then
    throw .illFormedSource
  if hasPoint || hasExponent then
    let value := Binary64.ofScientific false (ofBase 10 (whole ++ fraction))
      (exponent - (fraction.length : Int))
    return (.constant (.real value), rest)
  else
    return (.constant (← decimalInteger whole), rest)

def lexNumber (text : List Char) : Except Fault (Token × List Char) :=
  match text with
  | '0' :: mark :: rest =>
    if mark = 'x' || mark = 'X' then
      lexBase 16 (fun char => char.isDigit || ('a' ≤ char.toLower && char.toLower ≤ 'f')) rest
    else if mark = 'o' || mark = 'O' then
      lexBase 8 (fun char => '0' ≤ char && char ≤ '7') rest
    else if mark = 'b' || mark = 'B' then
      lexBase 2 (fun char => char = '0' || char = '1') rest
    else
      lexDecimal text
  | text => lexDecimal text

/-- Whether a number starts here: a digit, or a point before a digit. -/
def startsNumber : List Char → Bool
  | '.' :: char :: _ => char.isDigit
  | char :: _ => char.isDigit
  | [] => false

/-- The token at the front of a text that starts with none of blank, line end
or comment. -/
def lexToken (state : LexerState) (text : List Char) : Except Fault (LexerState × List Char) := do
  match text with
  | [] => return (state, [])
  | char :: rest =>
    if startsNumber text then
      let (token, rest) ← lexNumber text
      return (state.push token, rest)
    else if char = '\'' || char = '"' then
      let (token, rest) ← lexText char rest
      return (state.push token, rest)
    else if Text.startsIdentifier char then
      let word := String.ofList (char :: rest.takeWhile Text.continuesIdentifier)
      let token :=
        if keywords.contains word then .keyword word else .name (Text.normalForm word)
      return (state.push token, rest.dropWhile Text.continuesIdentifier)
    else
      match signs.find? fun sign => sign.toList.isPrefixOf text with
      | some sign => return (← state.addSign sign, text.drop sign.length)
      | none => throw .illFormedSource

/-- The tokens of the rest of a program.  `inLine` tells that a logical line has
begun.  Each step reads a character or begins a line, so twice as many steps as
characters suffice. -/
def lexFrom (state : LexerState) (inLine : Bool) (text : List Char) :
    Nat → Except Fault (List Token)
  | 0 => throw .illFormedSource
  | steps + 1 =>
    match text with
    | [] => state.finish inLine
    | char :: rest =>
      if !inLine then
        let (depth, line) := measureIndentation ⟨0, 0⟩ 0 text
        match line with
        | [] => state.finish false
        | '\n' :: after => lexFrom state false after steps
        | '#' :: comment => lexFrom state false (comment.dropWhile (· ≠ '\n')) steps
        | line => do lexFrom (← state.indentTo depth) true line steps
      else if char = ' ' || char = '\t' || char = '\x0c' then
        lexFrom state true rest steps
      else if char = '#' then
        lexFrom state true (rest.dropWhile (· ≠ '\n')) steps
      else if char = '\n' then
        if state.awaited.isEmpty then lexFrom (state.push .newline) false rest steps
        else lexFrom state true rest steps
      else if char = '\\' then
        match rest with
        | '\n' :: after =>
          if after.isEmpty then throw .illFormedSource
          else lexFrom state true after steps
        | _ => throw .illFormedSource
      else do
        let (state, rest) ← lexToken state text
        lexFrom state true rest steps

/-- The tokens of a program.  The character NUL is allowed nowhere, not even in
texts and comments. -/
def lex (program : String) : Except Fault (List Token) :=
  let text := unifyLineEnds program.toList
  if text.contains '\x00' then throw .illFormedSource
  else lexFrom .start false text (2 * text.length + 2)

end HoareCheck.Source
