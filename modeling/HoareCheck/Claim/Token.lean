import HoareCheck.Text.Blank
import HoareCheck.Text.Digit
import HoareCheck.Text.Word

/-!
# Tokens of claims

A claim is read as a sequence of tokens.  Blanks separate tokens, and a
character that starts no token is passed over.  A keyword counts only where a
word starts and ends: neither the character before it nor the one after it is
a word character.
-/

namespace HoareCheck

inductive TokenKind
  | int | bool
  | plus | minus | mult | div | mod | abs
  | and | or | not | iff | implies | forallKind | existsKind
  | le | lt | ge | gt | eq | neq | adjacent
  | lparen | rparen | lbracket | rbracket | comma | doubleColon | colon
  | var
  deriving DecidableEq, Repr, Inhabited

namespace TokenKind

def all : List TokenKind :=
  [.int, .bool, .plus, .minus, .mult, .div, .mod, .abs, .and, .or, .not, .iff, .implies,
    .forallKind, .existsKind, .le, .lt, .ge, .gt, .eq, .neq, .adjacent, .lparen, .rparen,
    .lbracket, .rbracket, .comma, .doubleColon, .colon, .var]

def name : TokenKind → String
  | .int => "INT"
  | .bool => "BOOL"
  | .plus => "PLUS"
  | .minus => "MINUS"
  | .mult => "MULT"
  | .div => "DIV"
  | .mod => "MOD"
  | .abs => "ABS"
  | .and => "AND"
  | .or => "OR"
  | .not => "NOT"
  | .iff => "IFF"
  | .implies => "IMPLIES"
  | .forallKind => "FORALL"
  | .existsKind => "EXISTS"
  | .le => "LE"
  | .lt => "LT"
  | .ge => "GE"
  | .gt => "GT"
  | .eq => "EQ"
  | .neq => "NEQ"
  | .adjacent => "ADJACENT"
  | .lparen => "LPAREN"
  | .rparen => "RPAREN"
  | .lbracket => "LBRACKET"
  | .rbracket => "RBRACKET"
  | .comma => "COMMA"
  | .doubleColon => "DOUBLECOLON"
  | .colon => "COLON"
  | .var => "VAR"

def ofName? (name : String) : Option TokenKind :=
  all.find? fun kind => kind.name = name

end TokenKind

structure Token where
  kind : TokenKind
  text : String
  deriving DecidableEq, Repr, Inhabited

namespace Token

/-- The words that are tokens of their own. -/
def keywords : List (List Char × TokenKind) :=
  [("True".toList, .bool), ("False".toList, .bool), ("and".toList, .and), ("or".toList, .or),
    ("not".toList, .not), ("forall".toList, .forallKind), ("exists".toList, .existsKind)]

/-- The signs, each before those that it starts with. -/
def signs : List (List Char × TokenKind) :=
  [(['+'], .plus), (['-'], .minus), (['*'], .mult), (['/'], .div), (['%'], .mod),
    (['|', '|'], .abs), (['<', '=', '=', '>'], .iff), (['=', '=', '>'], .implies),
    (['<', '='], .le), (['<'], .lt), (['>', '='], .ge), (['>'], .gt), (['=', '='], .eq),
    (['!', '='], .neq), (['~'], .adjacent), (['('], .lparen), ([')'], .rparen),
    (['['], .lbracket), ([']'], .rbracket), ([','], .comma), ([':', ':'], .doubleColon),
    ([':'], .colon)]

/-- Whether a word character stands at an end of a word. -/
def isWordAt (char : Option Char) : Bool :=
  char.any Text.isWord

/-- The spelling that a text starts with, and its kind. -/
def spelled? (spellings : List (List Char × TokenKind)) (text : List Char) :
    Option (List Char × TokenKind) :=
  spellings.find? fun spelling => spelling.1.isPrefixOf text

/-- The keyword at the front of a text, as a whole word. -/
def keyword? (before : Option Char) (text : List Char) : Option (List Char × TokenKind) :=
  if isWordAt before then
    none
  else
    keywords.find? fun keyword =>
      keyword.1.isPrefixOf text && !isWordAt (text.drop keyword.1.length).head?

def startsVariable (char : Char) : Bool :=
  char.isAlpha || char = '_'

def continuesVariable (char : Char) : Bool :=
  Text.isWord char || char = '#'

/-- The spelling and kind of the token at the front of a text. -/
def first? (before : Option Char) (text : List Char) : Option (List Char × TokenKind) :=
  match text with
  | [] => none
  | char :: rest =>
    if Text.isDigit char then
      some (char :: rest.takeWhile Text.isDigit, .int)
    else
      (keyword? before text).or <|
        (spelled? signs text).or <|
          if startsVariable char then some (char :: rest.takeWhile continuesVariable, .var)
          else none

/-- The tokens of a text, given the character before it. -/
def scanFrom (before : Option Char) (text : List Char) : List Token :=
  match text with
  | [] => []
  | char :: rest =>
    match first? before (char :: rest) with
    | none => scanFrom (some char) rest
    | some (spelling, kind) =>
      { kind, text := String.ofList spelling } ::
        scanFrom (spelling.getLast?.or (some char)) (rest.drop (spelling.length - 1))
termination_by text.length
decreasing_by
  · exact Nat.lt_succ_self rest.length
  · simp only [List.length_drop, List.length_cons]
    omega

/-- The tokens of a claim. -/
def scan (text : String) : List Token :=
  scanFrom none text.toList

end Token

end HoareCheck
