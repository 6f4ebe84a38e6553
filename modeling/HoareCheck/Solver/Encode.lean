import HoareCheck.Solver.Operand

/-!
# From claims to formulas

A claim is encoded with a table of the sorts of its names.  A quantifier
adds its variable to the table, for good.  A read of an array element against
which a write at the same printed index is recorded gives the written term; it
also leaves a line of ones on the output.
-/

namespace HoareCheck

/-- Names and the sorts of the constants that they stand for. -/
abbrev NameTable := List (String × SolverSort)

namespace NameTable

def find? (names : NameTable) (name : String) : Option SolverSort :=
  (List.find? (fun entry => entry.1 = name) names).map Prod.snd

def insert (names : NameTable) (name : String) (sort : SolverSort) : NameTable :=
  match names with
  | [] => [(name, sort)]
  | head :: rest =>
    if head.1 = name then (name, sort) :: rest else head :: insert rest name sort

end NameTable

/-- The lengths of arrays, by the text of what stands left of `~`. -/
abbrev ArrayLengths := List (String × Datum)

/-- What an encoding reads: recorded writes and array lengths. -/
structure EncodingContext where
  log : WriteLog
  lengths : ArrayLengths

/-- What an encoding changes: the table of names, and the number of lines
printed. -/
structure EncodingState where
  names : NameTable
  lines : Nat
  deriving Inhabited

/-- An encoding; what it changed before a failure stays. -/
abbrev Encoding := ReaderT EncodingContext (ExceptT Fault (StateM EncodingState))

/-- What is printed when a written element is read. -/
def writtenReadLine : String := "11111111111111\n"

def EncodingState.output (state : EncodingState) : String :=
  String.join (List.replicate state.lines writtenReadLine)

namespace Encoding

def ofExcept {α : Type} : Except Fault α → Encoding α
  | .ok value => pure value
  | .error fault => throw fault

def ofOption {α : Type} (fault : Fault) : Option α → Encoding α
  | some value => pure value
  | none => throw fault

/-- The constant of a name in the table; a copy of a variable may stand for the
variable itself. -/
def constant (name : String) : Encoding Operand := do
  let names := (← get).names
  match names.find? name with
  | some sort => return .symbolic (.const name sort)
  | none =>
    let base := String.ofList (name.toList.takeWhile (· ≠ '#'))
    match names.find? base with
    | some sort => return .symbolic (.const base sort)
    | none => throw (.unknownName name)

/-- The constant of an array, which must be in the table under its full name. -/
def array (array : Term) : Encoding Operand := do
  let name ← ofOption .noSuchPart array.name?
  let sort ← ofOption .noSuchEntry ((← get).names.find? name)
  return .symbolic (.const name sort)

/-- The text under which the length of an array is kept: the name of a constant,
or a plain value. -/
def lengthKey? : Operand → Option String
  | .symbolic (.const name _) => some name
  | .plain datum => some datum.shown
  | .symbolic _ => none

/-- The registered length of an operand. -/
def lengthOf (operand : Operand) : Encoding Int := do
  let key ← ofOption .noSuchEntry (lengthKey? operand)
  let length ← ofOption .noSuchEntry
    ((List.find? (fun entry => entry.1 = key) (← read).lengths).map Prod.snd)
  match length with
  | .int value => return value
  | .bool value => return if value then 1 else 0
  | _ => throw .wrongKind

/-- A binary operation on encoded operands. -/
def binary (operator : Operator) (left right : Operand) : Encoding Operand :=
  match operator with
  | .add => ofExcept (Operand.arithmetic .add left right)
  | .minus => ofExcept (Operand.arithmetic .sub left right)
  | .mult => ofExcept (Operand.arithmetic .mul left right)
  | .div => ofExcept (Operand.arithmetic .div left right)
  | .mod => ofExcept (Operand.arithmetic .mod left right)
  | .and => ofExcept (Operand.logicalAnd left right)
  | .or => ofExcept (Operand.logicalOr left right)
  | .implies => ofExcept (Operand.logicalImplies left right)
  | .iff => ofExcept (Operand.logicalIff left right)
  | .eq => ofExcept (Operand.equal left right)
  | .neq => ofExcept (Operand.equal left right >>= Operand.logicalNot)
  | .gt => ofExcept (Operand.compare .gt left right)
  | .ge => ofExcept (Operand.compare .ge left right)
  | .lt => ofExcept (Operand.compare .lt left right)
  | .le => ofExcept (Operand.compare .le left right)
  | .adjacent => do ofExcept (Operand.adjacent left right (← lengthOf left))
  | .abs | .not => throw (.unencodableOperator operator)

/-- A unary operation on an encoded operand. -/
def unary (operator : Operator) (operand : Operand) : Encoding Operand :=
  match operator with
  | .minus => ofExcept (Operand.negate operand)
  | .not => ofExcept (Operand.logicalNot operand)
  | .abs => ofExcept (Operand.absolute operand)
  | _ => throw (.unencodableOperator operator)

/-- The sort of a bound variable. -/
def binderSort (entry : TypeEntry) : Encoding SolverSort :=
  match entry with
  | .known .int => pure .int
  | .known .bool => pure .bool
  | .known (.listOf .int) => pure .array
  | entry => throw (.unencodableBinder entry)

/-- Makes a name stand for a constant of a sort. -/
def declare (name : String) (sort : SolverSort) : Encoding Unit :=
  modify fun state => { state with names := state.names.insert name sort }

end Encoding

namespace Term

/-- The value that a literal stands for. -/
def literalDatum : Literal → Encoding Datum
  | .int value => pure (.int value)
  | .bool value => pure (.bool value)
  | .general datum => pure datum
  | .bare _ => throw .noSuchPart

/-- Encoding, given the encoding of what is recorded against a site under
an index text. -/
def encodeWith (written? : Site → String → Option (Encoding Operand)) : Term → Encoding Operand
  | .literal value => do
      return .plain (← literalDatum value)
  | .var name => Encoding.constant name
  | .binary left operator right => do
      let left ← left.encodeWith written?
      let right ← right.encodeWith written?
      Encoding.binary operator left right
  | .unary operator operand => do
      let operand ← operand.encodeWith written?
      Encoding.unary operator operand
  | .quantified _ binder type written body _ => do
      let sort ← Encoding.binderSort (TypeEntry.ofBinder type written)
      let name ← Encoding.ofOption .noSuchPart binder.name?
      Encoding.declare name sort
      let body ← body.encodeWith written?
      Encoding.ofExcept (Operand.forAll name sort body)
  | .subscript site array index => do
      match written? site ((← read).log.print index) with
      | some written =>
        modify fun state => { state with lines := state.lines + 1 }
        written
      | none =>
        let array ← Encoding.array array
        let index ← index.encodeWith written?
        Encoding.ofExcept (Operand.select array index)
  | term => throw (.unencodableTerm term)

/-- The encoding of what is recorded against a site.  Recorded terms may
hold further reads; only those that hold themselves nest deeper than there are
sites. -/
def encodeWritten (log : WriteLog) : Nat → Site → String → Option (Encoding Operand)
  | 0, _, _ => some (throw .nestedTooDeeply)
  | steps + 1, site, key =>
    ((log.writesAt site).find? key).map fun term => term.encodeWith (encodeWritten log steps)

/-- The formula of a claim. -/
def encode (term : Term) : Encoding Operand := do
  let log := (← read).log
  term.encodeWith (encodeWritten log (log.sites.size + 1))

end Term

end HoareCheck
