import HoareCheck.Claim.Fault

/-!
# Substitution

`Term.substitute old new` replaces a variable by a term.  It reaches neither
into slices nor into the base or the index of an array read: a read keeps its
site, and instead the replacement is carried out in the writes recorded against
it.  If `old` is itself a read, the replacement is recorded against every read
of the same array under the printed index of `old`.
-/

namespace HoareCheck

namespace Term

/-- The name of the array that a read is of. -/
def arrayName (array : Term) : Logged String :=
  Logged.ofOption .noSuchPart array.name?

/-- Substitution, given what to do at a read. -/
def substituteWith (atRead : Site → Term → Logged Unit) (old new : Term) : Term → Logged Term
  | .missing => throw .noSuchPart
  | .var name =>
    match old with
    | .var oldName => pure (if name = oldName then new else .var name)
    | _ => pure (.var name)
  | .literal value => pure (.literal value)
  | .slice lower upper => pure (.slice lower upper)
  | .subscript site array index => do
      atRead site array
      return .subscript site array index
  | .unary operator operand => do
      return .unary operator (← substituteWith atRead old new operand)
  | .binary left operator right => do
      let left ← substituteWith atRead old new left
      let right ← substituteWith atRead old new right
      return .binary left operator right
  | .quantified quantifier binder type written body closed => do
      return .quantified quantifier binder type written
        (← substituteWith atRead old new body) closed
  | .skip => pure .missing
  | .assign target value _ => do
      let target ← substituteWith atRead old new target
      let value ← substituteWith atRead old new value
      return .assign target value false
  | .ifElse condition thenBranch elseBranch => do
      let condition ← substituteWith atRead old new condition
      let thenBranch ← substituteWith atRead old new thenBranch
      let elseBranch ← substituteWith atRead old new elseBranch
      return branch condition thenBranch elseBranch
  | .seq first second => do
      let first ← substituteWith atRead old new first
      let second ← substituteWith atRead old new second
      return andThen first second
  | .assume claim => do
      return .assume (← substituteWith atRead old new claim)
  | .assert claim => do
      return .assert (← substituteWith atRead old new claim)
  | .loop invariant condition body => do
      let invariant ← substituteWith atRead old new invariant
      let condition ← substituteWith atRead old new condition
      let body ← substituteWith atRead old new body
      return repeatWhile invariant condition body
  | .havoc _ _ => pure .missing

/-- Whether a replacement for `old` is recorded against a read of `array`, and
under which key. -/
def writeKey? (old array : Term) : Logged (Option String) :=
  match old with
  | .subscript _ oldArray oldIndex => do
      let name ← arrayName array
      let oldName ← arrayName oldArray
      if name = oldName then return some ((← get).print oldIndex) else return none
  | _ => pure none

/-- What substitution does to the writes of a read.  Writes may hold further
reads; `steps` bounds how deep they nest, and only writes that hold themselves
nest deeper than there are sites. -/
def substituteAt (old new : Term) : Nat → Site → Term → Logged Unit
  | 0, _, _ => throw .nestedTooDeeply
  | steps + 1, site, array => do
      match ← writeKey? old array with
      | some key => modify fun log => log.set site ((log.writesAt site).record key new)
      | none =>
        ((← get).writesAt site).forM fun entry => do
          let term ← substituteWith (substituteAt old new steps) old new entry.2
          modify fun log => log.set site ((log.writesAt site).record entry.1 term)

/-- Replaces `old`, a variable or an array read, by `new`. -/
def substitute (term old new : Term) : Logged Term := do
  substituteWith (substituteAt old new ((← get).sites.size + 1)) old new term

/-- What substitution gives back: the term as it was, the replacement, or a
term built anew. -/
inductive SubstitutionResult
  | itself
  | replacement
  | rebuilt
  deriving DecidableEq, Repr

/-- Where the result of a substitution comes from. -/
def substitutionResult (term old : Term) : SubstitutionResult :=
  match term, old with
  | .var name, .var oldName => if name = oldName then .replacement else .itself
  | .var _, _ | .literal _, _ | .slice .., _ | .subscript .., _ => .itself
  | _, _ => .rebuilt

/-- Replaces one variable by another, for each pair in turn. -/
def renameAll (renamings : List (String × String)) (term : Term) : Logged Term :=
  renamings.foldlM (fun term pair => term.substitute (.var pair.1) (.var pair.2)) term

/-- The name of a bound variable after it has been renamed apart. -/
def boundName (name : String) : String :=
  name ++ "$$0"

/-- Renames the bound variable of a quantifier apart and writes an existential
quantifier by a universal one.  A quantifier that is closed already gives
nothing. -/
def closeBinder : Term → Logged Term
  | .quantified quantifier binder type written body closed => do
      if closed then
        return .missing
      let name ← Logged.ofOption .noSuchPart binder.name?
      let bound := .var (boundName name)
      let body ← body.substitute binder bound
      match quantifier with
      | .existential =>
        return .unary .not
          (.quantified .universal bound type written (.unary .not body) true)
      | .universal => return .quantified .universal bound type written body true
  | _ => throw .noSuchPart

end Term

end HoareCheck
