import HoareCheck.Elaboration.Program
import HoareCheck.Proofs.SourceLexing
import HoareCheck.Proofs.Unjudged

/-!
# Properties of elaboration, step by step

Elaboration reads claims, copies, places and renames terms, and may fail.  What
holds of these steps, and of sequences of computations it holds of, holds of the
elaboration of every program (`Stepwise.program`).  A property may also say of what
kind the results are; the kind of terms that the steps make of such terms is then the
kind of the term of a program (`Tracker.Follows.program`).
-/

namespace HoareCheck

namespace Source

/-- The text of the claim that a call of `assume` or `invariant` holds. -/
def claimText? : Expr → List Expr → Option String
  | .name id, .constant (.text text) :: _ =>
    if id = "assume" ∨ id = "invariant" then some text else none
  | _, _ => none

mutual

/-- No element and no slice of an array is written in an expression, and its claims
are of a kind. -/
def Expr.IsScalar (claim : String → Prop) : Expr → Prop
  | .name _ | .constant _ => True
  | .logical _ left right | .binary left _ right => left.IsScalar claim ∧ right.IsScalar claim
  | .compare left _ right _ others =>
    left.IsScalar claim ∧ right.IsScalar claim ∧ scalarItems claim others
  | .unary _ operand => operand.IsScalar claim
  | .call function arguments =>
    (∀ text, claimText? function arguments = some text → claim text) ∧
      function.IsScalar claim ∧ scalarItems claim arguments
  | .member value _ => value.IsScalar claim
  | .subscript .. | .slice .. => False
  | .tuple items | .list items => scalarItems claim items

@[inherit_doc Expr.IsScalar]
def scalarItems (claim : String → Prop) : List Expr → Prop
  | [] => True
  | first :: rest => first.IsScalar claim ∧ scalarItems claim rest

end

@[inherit_doc Expr.IsScalar]
def scalarPart (claim : String → Prop) : Option Expr → Prop
  | some part => part.IsScalar claim
  | none => True

mutual

/-- No element and no slice of an array is written in a statement, and its claims
are of a kind.  The type in an annotation is not looked at. -/
def Stmt.IsScalar (claim : String → Prop) : Stmt → Prop
  | .functionDef _ body => scalarBlock claim body
  | .assign targets value => scalarItems claim targets ∧ value.IsScalar claim
  | .augmented target _ value => target.IsScalar claim ∧ value.IsScalar claim
  | .annotated target _ value => target.IsScalar claim ∧ scalarPart claim value
  | .ifElse test body orElse | .whileLoop test body orElse =>
    test.IsScalar claim ∧ scalarBlock claim body ∧ scalarBlock claim orElse
  | .forLoop target iterated body orElse =>
    target.IsScalar claim ∧ iterated.IsScalar claim ∧ scalarBlock claim body ∧
      scalarBlock claim orElse
  | .assert test message => test.IsScalar claim ∧ scalarPart claim message
  | .returned value => scalarPart claim value
  | .pass | .breakLoop | .continueLoop => True
  | .expr value => value.IsScalar claim

@[inherit_doc Stmt.IsScalar]
def scalarBlock (claim : String → Prop) : List Stmt → Prop
  | [] => True
  | first :: rest => first.IsScalar claim ∧ scalarBlock claim rest

end

end Source

/-- The property holds of the steps of elaboration, and sequences inherit it. -/
@[grind cases]
structure Stepwise (Holds : {α : Type} → Logged α → Prop) : Prop where
  pure : ∀ {α : Type} (value : α), Holds (pure value : Logged α)
  throw : ∀ {α : Type} (fault : Fault), ¬ fault.IsVerdict → Holds (throw fault : Logged α)
  bind : ∀ {α β : Type} (first : Logged α) (next : α → Logged β), Holds first →
    (∀ value, Holds (next value)) → Holds (first >>= next)
  place : ∀ term : Term, Holds (Logged.place term)
  rename : ∀ (term : Term) (old new : String), Holds (term.substitute (.var old) (.var new))
  parse : ∀ text : String, Holds (Logged.parse text)

theorem stepwise_true : Stepwise fun _ => True := by
  constructor <;> intros <;> trivial

namespace Stepwise

variable {Holds : {α : Type} → Logged α → Prop} (hsteps : Stepwise Holds)

include hsteps

theorem copy (term : Term) : Holds term.copy := by
  fun_induction Term.copy <;> grind

theorem renameAll (renamings : List (String × String)) (term : Term) :
    Holds (term.renameAll renamings) := by
  induction renamings generalizing term with
  | nil => exact hsteps.pure term
  | cons _ _ ih => exact hsteps.bind _ _ (hsteps.rename _ _ _) ih

theorem fork (names : List String) (term : Term) : Holds (term.fork names) := by
  apply hsteps.bind _ _ (hsteps.copy term)
  intro first
  apply hsteps.bind _ _ (hsteps.copy term)
  intro second
  apply hsteps.bind _ _ (hsteps.renameAll _ first)
  intro first
  apply hsteps.bind _ _ (hsteps.renameAll _ second)
  intro second
  exact hsteps.pure _

theorem forkedAssignment (names : List String) (target value : Term) :
    Holds (Source.forkedAssignment names target value) := by
  have hfork := hsteps.fork
  have hname (term : Term) : Holds (Logged.ofOption .noSuchPart term.name?) := by
    cases term.name? with
    | none => exact hsteps.throw _ (by decide)
    | some name => exact hsteps.pure name
  cases target <;> grind [Source.forkedAssignment]

end Stepwise

theorem spared_readInt (value : Datum) : Spared (Literal.readInt value) := by
  fun_cases Literal.readInt <;> grind

/-! ## Results -/

/-- The terms in what a step of elaboration gives: terms that were made, or the copies
of a term for the two runs. -/
class Carrier (α : Type) where
  All : (Term → Prop) → (Term → Prop) → α → Prop

instance : Carrier Term := ⟨fun made _ => made⟩
instance : Carrier (Option Term) := ⟨fun made _ block => ∀ term, block = some term → made term⟩
instance : Carrier (List Term) := ⟨fun made _ terms => ∀ term ∈ terms, made term⟩
instance : Carrier (Term × Term) := ⟨fun _ copied copies => copied copies.1 ∧ copied copies.2⟩
instance : Carrier String := ⟨fun _ _ _ => True⟩
instance : Carrier PUnit := ⟨fun _ _ _ => True⟩

section Values

variable (made copied : Term → Prop)

@[grind =]
theorem all_term (term : Term) : Carrier.All made copied term = made term := rfl

@[grind =]
theorem all_option (block : Option Term) :
    Carrier.All made copied block = ∀ term, block = some term → made term := rfl

@[grind =]
theorem all_list (terms : List Term) :
    Carrier.All made copied terms = ∀ term ∈ terms, made term := rfl

@[grind =]
theorem all_copies (copies : Term × Term) :
    Carrier.All made copied copies = (copied copies.1 ∧ copied copies.2) := rfl

@[grind =]
theorem all_string (text : String) : Carrier.All made copied text = True := rfl

@[grind =]
theorem all_unit (value : PUnit) : Carrier.All made copied value = True := rfl

theorem all_none : Carrier.All made copied (none : Option Term) :=
  fun _ hnone => absurd hnone.symm (Option.some_ne_none _)

end Values

/-- A property of the steps of elaboration, and what it ensures of the terms they make:
from names and claims of a kind, and from terms that fit, terms that fit again.  Copies
may be known better.  Without arrays nothing is asked of elements and slices. -/
structure Tracking (mode : RunMode) where
  Holds : {α : Type} → Logged α → Prop
  Ensures : {α : Type} → [Carrier α] → Logged α → Prop
  name : String → Prop
  claim : String → Prop
  arrays : Prop
  Fits : Term → Prop
  Copied : Term → Prop
  steps : Stepwise Holds
  pure : ∀ {α : Type} [Carrier α] (value : α), Carrier.All Fits Copied value →
    Ensures (pure value : Logged α)
  throw : ∀ {α : Type} [Carrier α] (fault : Fault), Ensures (throw fault : Logged α)
  bind : ∀ {α β : Type} [Carrier α] [Carrier β] (first : Logged α) (next : α → Logged β),
    Holds first → Ensures first →
    (∀ value, Holds (next value) ∧ (Carrier.All Fits Copied value → Ensures (next value))) →
    Ensures (first >>= next)
  ignore : ∀ {α β : Type} [Carrier β] (first : Logged α) (next : α → Logged β),
    ¬ arrays → (∀ value, Ensures (next value)) → Ensures (first >>= next)
  parse : ∀ text, (¬ arrays → claim text) → Ensures (Logged.parse text)
  place : ∀ array index, arrays → Fits array → Fits index →
    Ensures (Logged.place (.subscript 0 array index))
  unforked : ∀ term, mode = .single → Fits term → Copied term
  fork : ∀ names, mode = .forked names → ∀ term, Fits term → Ensures (term.fork names)
  forkedAssignment : ∀ names, mode = .forked names → ∀ target value,
    arrays ∨ (∃ id, target = .var id ∧ name id) → Fits target → Fits value →
    Ensures (Source.forkedAssignment names target value)
  var : ∀ id, name id → Fits (.var id)
  literal : ∀ value, Fits (.literal value)
  missing : Fits .missing
  unary : ∀ operator operand, Fits operand → Fits (.unary operator operand)
  binary : ∀ left operator right, operator ≠ .adjacent → Fits left → Fits right →
    Fits (.binary left operator right)
  ofBounds : ∀ lower upper, arrays → Fits lower → Fits upper → Fits (.ofBounds lower upper)
  charge : ∀ first second, Copied first → Copied second → Fits (.charge first second)
  skip : Fits .skip
  assume : ∀ claim, Fits claim → Fits (.assume claim)
  assert : ∀ claim, Fits claim → Fits (.assert claim)
  assign : ∀ target value, mode = .single → arrays ∨ (∃ id, target = .var id ∧ name id) →
    Fits target → Fits value → Fits (.assign target value false)
  agreement : ∀ first second, Copied first → Copied second →
    Fits (Source.agreement first second)
  andThen : ∀ first second, Fits first → Fits second → Fits (first.andThen second)
  branch : ∀ condition thenBranch elseBranch, Copied condition → Fits thenBranch →
    Fits elseBranch → Fits (condition.branch thenBranch elseBranch)
  repeatWhile : ∀ invariant condition body, Fits invariant → Copied condition → Fits body →
    Fits (invariant.repeatWhile condition body)

namespace Tracking

variable {mode : RunMode} (tracking : Tracking mode) {α β : Type}

@[grind ←]
theorem holds_pure (value : α) : tracking.Holds (Pure.pure value : Logged α) :=
  tracking.steps.pure value

@[grind ←]
theorem holds_throw (fault : Fault) (hfault : ¬ fault.IsVerdict) :
    tracking.Holds (MonadExcept.throw fault : Logged α) :=
  tracking.steps.throw fault hfault

@[grind ←]
theorem holds_bind (first : Logged α) (next : α → Logged β) (hfirst : tracking.Holds first)
    (hnext : ∀ value, tracking.Holds (next value)) : tracking.Holds (first >>= next) :=
  tracking.steps.bind first next hfirst hnext

@[grind ←]
theorem holds_ofOption (fault : Fault) (hfault : ¬ fault.IsVerdict) (value : Option α) :
    tracking.Holds (Logged.ofOption fault value) := by
  cases value <;> grind [Logged.ofOption]

@[grind ←]
theorem ensures_name (fault : Fault) (name : Option String) :
    tracking.Ensures (Logged.ofOption fault name) := by
  cases name with
  | none => exact tracking.throw fault
  | some name => exact tracking.pure name trivial

@[grind ←]
theorem holds_place (term : Term) : tracking.Holds (Logged.place term) := tracking.steps.place term

@[grind ←]
theorem holds_parse (text : String) : tracking.Holds (Logged.parse text) := tracking.steps.parse text

@[grind ←]
theorem holds_fork (names : List String) (term : Term) : tracking.Holds (term.fork names) :=
  tracking.steps.fork names term

attribute [grind ←] Tracking.pure Tracking.throw Tracking.bind Tracking.ignore Tracking.parse
  Tracking.place Tracking.unforked Tracking.fork Tracking.var Tracking.literal Tracking.missing Tracking.unary
  Tracking.binary Tracking.ofBounds Tracking.charge Tracking.skip Tracking.assume Tracking.assert
  Tracking.assign Tracking.forkedAssignment Tracking.agreement Tracking.andThen
  Tracking.branch Tracking.repeatWhile

@[grind ←]
theorem holds_forkedAssignment (names : List String) (target value : Term) :
    tracking.Holds (Source.forkedAssignment names target value) :=
  tracking.steps.forkedAssignment names target value

end Tracking

/-- The property holds, and ensures what it does if the names and the claims in a part of
the source are of the kinds. -/
abbrev Tracking.Follows {mode : RunMode} (tracking : Tracking mode) {α : Type} [Carrier α]
    (names scalar : Prop) (computation : Logged α) : Prop :=
  tracking.Holds computation ∧
    (names → (¬ tracking.arrays → scalar) → tracking.Ensures computation)

namespace Source

variable {mode : RunMode} {arguments : List Expr} {operator : Operator}

attribute [local grind =] Expr.elaborate elaborateBound elaborateFirst elaborateItems Stmt.elaborate
  elaborateBlock Expr.NamesAre namesOfAll Stmt.NamesAre namesOfBlock Expr.IsScalar scalarItems
  Stmt.IsScalar scalarBlock

@[local grind →]
theorem operator_of_compare {source : CompareOp} (hoperator : source.operator? = some operator) :
    operator ≠ .adjacent := by
  cases source <;> cases hoperator <;> decide

@[local grind →]
theorem operator_of_binary {source : BinaryOp} (hoperator : source.operator? = some operator) :
    operator ≠ .adjacent := by
  cases source <;> cases hoperator <;> decide

@[local grind .]
theorem operator_of_logical (source : LogicalOp) : source.operator ≠ .adjacent := by
  cases source <;> decide

variable (tracking : Tracking mode)

theorem tracks_claimArgument (id : String) (arguments : List Expr) :
    tracking.Holds (claimArgument arguments) ∧
    (id = "assume" ∨ id = "invariant" →
      (¬ tracking.arrays →
        ∀ text, claimText? (.name id) arguments = some text → tracking.claim text) →
      tracking.Ensures (claimArgument arguments)) := by
  fun_cases claimArgument <;> grind [claimText?]

mutual

theorem tracks_elaborate : ∀ expr : Expr,
    tracking.Follows (expr.NamesAre tracking.name) (expr.IsScalar tracking.claim)
      (expr.elaborate mode)
  | .name id => by grind
  | .constant value => by
    have hread := spared_readInt value
    rw [Expr.elaborate]
    split <;> grind [Spared]
  | .logical _ left right | .compare left _ right _ _ | .binary left _ right
  | .subscript left right => by
    have hleft := tracks_elaborate left
    have hright := tracks_elaborate right
    grind
  | .unary _ operand | .member operand _ => by
    have hoperand := tracks_elaborate operand
    grind
  | .call function arguments => by
    have hfirst := tracks_elaborateFirst arguments
    cases function with
    | name id =>
      have hclaim := tracks_claimArgument tracking id arguments
      rw [Expr.elaborate, Expr.calledName, pure_bind]
      grind
    | _ =>
      rw [Expr.elaborate]
      exact ⟨tracking.holds_throw .noSuchPart (by decide), fun _ _ => tracking.throw .noSuchPart⟩
  | .slice lower upper _ => by
    have hlower := tracks_elaborateBound lower
    have hupper := tracks_elaborateBound upper
    grind
  | .tuple items | .list items => by
    have hitems := tracks_elaborateItems items
    grind

theorem tracks_elaborateBound : ∀ bound : Option Expr,
    tracking.Follows (namesOfBound tracking.name bound) (scalarPart tracking.claim bound)
      (elaborateBound mode bound)
  | some bound => tracks_elaborate bound
  | none => by grind

theorem tracks_elaborateFirst : ∀ items : List Expr,
    tracking.Follows (namesOfAll tracking.name items) (scalarItems tracking.claim items)
      (elaborateFirst mode items)
  | [] => by grind
  | first :: _ => by
    have hfirst := tracks_elaborate first
    grind

theorem tracks_elaborateItems : ∀ items : List Expr,
    tracking.Follows (namesOfAll tracking.name items) (scalarItems tracking.claim items)
      (elaborateItems mode items)
  | [] => by grind
  | first :: rest => by
    have hfirst := tracks_elaborate first
    have hrest := tracks_elaborateItems rest
    grind

end

/-- The call that is all of a statement has a claim of the kind, if it has one. -/
theorem claims_of_call {statement : Stmt} {claim : String → Prop}
    (hscalar : statement.IsScalar claim) {function : Expr}
    (hcall : statement.call? = some (function, arguments)) :
    ∀ text, claimText? function arguments = some text → claim text := by
  cases statement with
  | expr value =>
    cases value with
    | call =>
      cases hcall
      exact hscalar.1
    | _ => cases hcall
  | _ => cases hcall

theorem tracks_invariants (body : List Stmt) : tracking.Holds (invariants body) ∧
    ((¬ tracking.arrays → scalarBlock tracking.claim body) →
      tracking.Ensures (invariants body)) := by
  induction body with
  | nil => grind [invariants]
  | cons statement _ ih =>
    rw [invariants]
    cases hcall : statement.call? with
    | none => grind
    | some call =>
      obtain ⟨function, arguments⟩ := call
      have hclaims (hscalar : statement.IsScalar tracking.claim) := claims_of_call hscalar hcall
      cases function with
      | name id =>
        have hclaim := tracks_claimArgument tracking id arguments
        simp only [Expr.calledName, pure_bind]
        grind
      | _ =>
        exact ⟨tracking.holds_throw .noSuchPart (by decide), fun _ => tracking.throw .noSuchPart⟩

@[grind ←]
theorem fits_conjunction {claims : List Term} (hclaims : Carrier.All tracking.Fits tracking.Copied claims) :
    tracking.Fits (conjunction claims) := by
  cases claims with
  | nil => exact tracking.literal _
  | cons first rest =>
    rw [all_list, List.forall_mem_cons] at hclaims
    obtain ⟨hfirst, hrest⟩ := hclaims
    rw [conjunction]
    induction rest generalizing first with
    | nil => exact hfirst
    | cons next _ ih =>
      rw [List.forall_mem_cons] at hrest
      exact ih _ (tracking.binary first .and next (by decide) hfirst hrest.1) hrest.2

@[grind ←]
theorem fits_asBlock {block : Option Term} (hblock : Carrier.All tracking.Fits tracking.Copied block) :
    tracking.Fits (asBlock block) := by
  cases block with
  | none => exact tracking.skip
  | some term =>
    have hterm : tracking.Fits term := hblock term rfl
    cases term with
    | seq => exact hterm
    | _ => exact tracking.andThen _ _ hterm tracking.skip

@[grind ←]
theorem holds_assignmentTarget (targets : List Expr) :
    tracking.Holds (assignmentTarget mode targets) := by
  have helaborate := tracks_elaborate tracking
  fun_cases assignmentTarget <;> grind

/-- What is done with the target of an assignment, which is a variable unless there are
arrays. -/
theorem ensures_assignmentTarget {targets : List Expr} {next : Term → Logged Term}
    (hnames : namesOfAll tracking.name targets)
    (hscalar : ¬ tracking.arrays → scalarItems tracking.claim targets)
    (hnext : ∀ target, tracking.Holds (next target) ∧
      (tracking.arrays ∨ (∃ id, target = .var id ∧ tracking.name id) → tracking.Fits target →
        tracking.Ensures (next target))) :
    tracking.Ensures (assignmentTarget mode targets >>= next) := by
  have helaborate := tracks_elaborate tracking
  fun_cases assignmentTarget with
  | case1 id =>
    have hid : tracking.name id := hnames.1
    exact (hnext (.var id)).2 (.inr ⟨id, rfl, hid⟩) (tracking.var id hid)
  | case2 => grind
  | _ => grind

mutual

theorem tracks_elaborate_stmt : ∀ statement : Stmt,
    tracking.Follows (statement.NamesAre tracking.name) (statement.IsScalar tracking.claim)
      (statement.elaborate mode)
  | .functionDef _ body => by
    have hbody := tracks_elaborateBlock false none body
    grind
  | .assign targets value => by
    have hvalue := tracks_elaborate tracking value
    cases mode with
    | single =>
      rw [Stmt.elaborate]
      refine ⟨by grind, fun hnames hscalar => ?_⟩
      apply ensures_assignmentTarget tracking hnames.1 fun harrays => (hscalar harrays).1
      grind
    | forked names =>
      rw [Stmt.elaborate]
      constructor
      · apply tracking.holds_bind _ _ (holds_assignmentTarget tracking targets)
        intro target
        cases target <;> grind
      · intro hnames hscalar
        apply ensures_assignmentTarget tracking hnames.1 fun harrays => (hscalar harrays).1
        intro target
        cases target <;> grind
  | .augmented target _ value => by
    have htarget := tracks_elaborate tracking target
    have hvalue := tracks_elaborate tracking value
    grind
  | .annotated target type value => by
    have htarget := tracks_elaborate tracking target
    have htype := tracks_elaborate tracking type
    have hvalue := tracks_elaborateBound tracking value
    by_cases harrays : tracking.arrays
    · grind
    · grind
  | .ifElse test body orElse => by
    have htest := tracks_elaborate tracking test
    have hbody := tracks_elaborateBlock false none body
    have horElse := tracks_elaborateBlock false none orElse
    cases mode with
    | single => grind
    | forked names =>
      rw [Stmt.elaborate]
      refine ⟨by grind, fun hnames hscalar => ?_⟩
      apply tracking.bind _ _ htest.1 (htest.2 hnames.1 fun harrays => (hscalar harrays).1)
      intro condition
      refine ⟨by grind, fun hcondition => ?_⟩
      apply tracking.bind _ _ (tracking.holds_fork names condition)
        (tracking.fork names rfl condition hcondition)
      grind
  | .whileLoop test body _ => by
    have htest := tracks_elaborate tracking test
    have hbody := tracks_elaborateBlock true none body
    have hinvariants := tracks_invariants tracking body
    cases mode with
    | single => grind
    | forked names =>
      rw [Stmt.elaborate]
      refine ⟨by grind, fun hnames hscalar => ?_⟩
      apply tracking.bind _ _ htest.1 (htest.2 hnames.1 fun harrays => (hscalar harrays).1)
      intro condition
      refine ⟨by grind, fun hcondition => ?_⟩
      apply tracking.bind _ _ (tracking.holds_fork names condition)
        (tracking.fork names rfl condition hcondition)
      intro copies
      refine ⟨by grind, fun hcopies => ?_⟩
      have hagreement := tracking.agreement _ _ hcopies.1 hcopies.2
      apply tracking.bind _ _ hinvariants.1 (hinvariants.2 fun harrays => (hscalar harrays).2.1)
      intro claims
      refine ⟨by grind, fun hclaims => ?_⟩
      apply tracking.bind _ _ hbody.1
        (hbody.2 hnames.2.1 (fun harrays => (hscalar harrays).2.1) (all_none _ _))
      intro block
      refine ⟨by grind, fun hblock => tracking.pure _ (tracking.andThen _ _ hagreement ?_)⟩
      exact tracking.repeatWhile _ _ _ (fits_conjunction tracking hclaims) hcopies.1
        (tracking.andThen _ _ (fits_asBlock tracking hblock) hagreement)
  | .forLoop target iterated body orElse => by
    have htarget := tracks_elaborate tracking target
    have hiterated := tracks_elaborate tracking iterated
    have hbody := tracks_elaborateBlock false none body
    have horElse := tracks_elaborateBlock false none orElse
    grind
  | .assert test _ => by
    have htest := tracks_elaborate tracking test
    grind
  | .returned _ | .pass | .breakLoop | .continueLoop => by
    grind
  | .expr value => by
    rw [Stmt.elaborate]
    exact tracks_elaborate tracking value

theorem tracks_elaborateBlock (inLoop : Bool) (before : Option Term) : ∀ block : List Stmt,
    tracking.Holds (elaborateBlock mode inLoop before block) ∧
    (namesOfBlock tracking.name block → (¬ tracking.arrays → scalarBlock tracking.claim block) →
      Carrier.All tracking.Fits tracking.Copied before →
      tracking.Ensures (elaborateBlock mode inLoop before block))
  | [] => by
    grind
  | statement :: rest => by
    have hstatement := tracks_elaborate_stmt statement
    have hrest := fun before => tracks_elaborateBlock inLoop before rest
    grind

end

end Source

/-- The term of a program fits, if its names and claims are of the kinds. -/
theorem Tracking.program {mode : RunMode} (tracking : Tracking mode) (program : Source.Program) :
    tracking.Follows (Source.namesOfBlock tracking.name program)
      (Source.scalarBlock tracking.claim program) (Source.elaborate mode program) := by
  have hblock := Source.tracks_elaborateBlock tracking false none program
  grind [Source.elaborate]

/-- A property of the steps of elaboration holds of elaboration. -/
theorem Stepwise.program {Holds : {α : Type} → Logged α → Prop} (hsteps : Stepwise Holds)
    (mode : RunMode) (program : Source.Program) : Holds (Source.elaborate mode program) := by
  have htracking : ∃ tracking : Tracking mode, @tracking.Holds = @Holds := by
    refine ⟨⟨Holds, fun _ => True, fun _ => True, fun _ => True, True, fun _ => True, fun _ => True,
      hsteps, ?_, ?_, ?_, ?_, ?_, ?_, ?_, ?_, ?_, ?_, ?_, ?_, ?_, ?_, ?_, ?_, ?_, ?_, ?_, ?_, ?_, ?_, ?_, ?_⟩, rfl⟩
    all_goals
      intros
      exact trivial
  obtain ⟨tracking, rfl⟩ := htracking
  exact (tracking.program program).1

end HoareCheck
