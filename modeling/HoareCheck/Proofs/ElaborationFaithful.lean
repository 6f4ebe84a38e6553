import HoareCheck.Proofs.LoopCutSoundness
import HoareCheck.Proofs.VerifySoundness

/-!
# Faithful elaboration

Programs over integers and truth values run from stores to stores
(`Source.Completes`); where a number is asked for, a truth value counts as one
or zero.  `Source.Kinded` describes the programs of the core language whose
tests are truth values.  Such a program elaborates to a statement that ends in
exactly the stores in which the program ends, and the invariant of each loop is
the conjunction of the claims written in its body.
-/

namespace HoareCheck

open Term

variable {store final : Store} {expr test : Expr} {operator : Operator} {terms : List Term}
  {source : CompareOp} {inLoop : Bool}

/-! ## Truth values as numbers -/

namespace Value

/-- The number that an integer or a truth value counts as. -/
def number? : Value → Option Int
  | .int value => some value
  | .bool value => some (if value then 1 else 0)
  | _ => none

/-- Whether an integer or a truth value passes a test. -/
def passes? : Value → Option Bool
  | .int value => some (value ≠ 0)
  | .bool value => some value
  | _ => none

end Value

namespace Interpretation

/-- The standard interpretation, except that truth values count as numbers. -/
def counting : Interpretation where
  datum := standard.datum
  unary operator operand :=
    match operand.number? with
    | some number => standard.unary operator (.int number)
    | none => .nothing
  binary operator left right :=
    match left.number?, right.number? with
    | some left, some right => operator.onInts left right
    | _, _ => .nothing
  range := standard.range
  untyped := standard.untyped

theorem counting_onInts {left right : Value} {first second : Int}
    (hoperator : operator.connective? = none) (hleft : left.number? = some first)
    (hright : right.number? = some second) :
    counting.applyBinary operator left right = operator.onInts first second := by
  simp only [applyBinary, hoperator, counting, hleft, hright]

end Interpretation

/-- What a variable holds: integers or truth values. -/
inductive Kind
  | number
  | truth

def Kind.values : Kind → Set Value
  | .number => Set.range .int
  | .truth => Set.range .bool

theorem Kind.number?_of_mem {kind : Kind} {value : Value} (hvalue : value ∈ kind.values) :
    ∃ number, value.number? = some number := by
  cases kind with
  | number =>
    obtain ⟨number, rfl⟩ := hvalue
    exact ⟨number, rfl⟩
  | truth =>
    obtain ⟨_, rfl⟩ := hvalue
    exact ⟨_, rfl⟩

/-- Every variable holds a value of its kind. -/
def Store.HasKinds (store : Store) (kinds : String → Kind) : Prop :=
  ∀ name, store name ∈ (kinds name).values

theorem Store.HasKinds.update {store : Store} {kinds : String → Kind} {name : String}
    {value : Value} (hstore : store.HasKinds kinds) (hvalue : value ∈ (kinds name).values) :
    Store.HasKinds (Function.update store name value) kinds := by
  intro other
  by_cases hother : other = name
  · subst hother
    rwa [Function.update_self]
  · rw [Function.update_of_ne hother]
    exact hstore other

/-! ## Statements in a row -/

section Rows

variable {interp : Interpretation} {havoc : HavocRule} {store final : Store}

/-- A sequence nested to the left runs through its parts. -/
theorem exec_foldl_iff {head : Term} {rest : List Term} :
    Exec interp havoc (rest.foldl andThen head).orSkip store (.done final) ↔
      RunsThrough interp havoc (head :: rest) store (.done final) := by
  rw [runsThrough_cons_iff]
  constructor
  · intro hexec
    induction rest generalizing head with
    | nil => exact ⟨final, hexec, .nil⟩
    | cons _ _ ih =>
      obtain ⟨_, hpair, hrest⟩ := ih hexec
      obtain ⟨between, hhead, hstatement⟩ := exec_seq_iff.mp hpair
      exact ⟨between, hhead, .cons hstatement hrest⟩
  · rintro ⟨_, hhead, hrest⟩
    exact hrest.exec hhead

end Rows

/-- The invariants of the loops of a statement, outer loops first. -/
def Term.loopInvariants : Term → List Term
  | .seq first second => first.loopInvariants ++ second.loopInvariants
  | .ifElse _ thenBranch elseBranch =>
    thenBranch.loopInvariants ++ elseBranch.loopInvariants
  | .loop invariant _ body => invariant :: body.loopInvariants
  | _ => []

theorem Term.loopInvariants_orSkip (term : Term) :
    term.orSkip.loopInvariants = term.loopInvariants := by
  cases term <;> rfl

theorem Term.loopInvariants_foldl (head : Term) (rest : List Term) :
    (rest.foldl andThen head).loopInvariants =
      (head :: rest).flatMap Term.loopInvariants := by
  induction rest generalizing head with
  | nil => simp
  | cons _ _ ih =>
    rw [List.foldl_cons, ih]
    simp [andThen, loopInvariants, loopInvariants_orSkip]

namespace Source

/-- The terms of the statements of a block, after what stands before it. -/
def joined (terms : List Term) (before : Option Term) : Option Term :=
  terms.foldl (fun before term => some (following before term)) before

theorem joined_cons_none (head : Term) (rest : List Term) :
    joined (head :: rest) none = some (rest.foldl andThen head) := by
  rw [joined, List.foldl_cons]
  change rest.foldl _ (some head) = _
  induction rest generalizing head with
  | nil => rfl
  | cons statement _ ih => exact ih (head.andThen statement)

theorem orSkip_asBlock (block : Option Term) : (asBlock block).orSkip = asBlock block := by
  fun_cases asBlock block <;> rfl

theorem exec_asBlock_iff {interp : Interpretation} {havoc : HavocRule} :
    Exec interp havoc (asBlock (joined terms none)) store (.done final) ↔
      RunsThrough interp havoc terms store (.done final) := by
  cases terms with
  | nil => exact exec_skip_iff.trans runsThrough_nil_iff.symm
  | cons head rest =>
    rw [joined_cons_none, ← exec_foldl_iff]
    generalize rest.foldl andThen head = term
    have hskip : Exec interp havoc (.seq term.orSkip .skip) store (.done final) ↔
        Exec interp havoc term.orSkip store (.done final) := by
      simp only [exec_seq_iff, exec_skip_iff, exists_eq_right]
    cases term with
    | seq => rfl
    | _ => exact hskip

theorem loopInvariants_asBlock (terms : List Term) :
    (asBlock (joined terms none)).loopInvariants = terms.flatMap Term.loopInvariants := by
  cases terms with
  | nil => rfl
  | cons head rest =>
    rw [joined_cons_none, ← loopInvariants_foldl]
    generalize rest.foldl andThen head = term
    cases term <;> simp [asBlock, andThen, Term.loopInvariants, Term.orSkip]

/-! ## Values and runs -/

/-- The value of an expression.  As in the source language, arithmetic and
comparisons take truth values for numbers, and a logical operator gives the
operand that decides. -/
def Expr.evaluate? (store : Store) : Expr → Option Value
  | .name id => some (store id)
  | .constant (.int value) => some (.int value)
  | .binary left operator right => do
      let operation ← operator.onInts?
      let left ← (← left.evaluate? store).number?
      let right ← (← right.evaluate? store).number?
      return .int (operation left right)
  | .unary .minus operand => do
      return .int (-(← (← operand.evaluate? store).number?))
  | .compare left operator right [] [] => do
      let relation ← operator.onInts?
      let left ← (← left.evaluate? store).number?
      let right ← (← right.evaluate? store).number?
      return .bool (relation left right)
  | .logical .and left right => do
      let left ← left.evaluate? store
      if ← left.passes? then right.evaluate? store else return left
  | .logical .or left right => do
      let left ← left.evaluate? store
      if ← left.passes? then return left else right.evaluate? store
  | .unary .not operand => do
      return .bool !(← (← operand.evaluate? store).passes?)
  | _ => none

/-- Whether an expression passes as a test. -/
def Expr.passes? (store : Store) (expr : Expr) : Option Bool := do
  (← expr.evaluate? store).passes?

/-- Runs of the statements of a block.  A call of `invariant` does nothing. -/
inductive Completes : List Stmt → Store → Ending → Store → Prop
  | done {store : Store} : Completes [] store .normal store
  | pass {rest : List Stmt} {store final : Store} {ending : Ending} :
      Completes rest store ending final → Completes (.pass :: rest) store ending final
  | invariant {arguments : List Expr} {rest : List Stmt} {store final : Store}
      {ending : Ending} :
      Completes rest store ending final →
      Completes (.expr (.call (.name "invariant") arguments) :: rest) store ending final
  | assign {name : String} {value : Expr} {result : Value} {rest : List Stmt}
      {store final : Store} {ending : Ending} :
      value.evaluate? store = some result →
      Completes rest (Function.update store name result) ending final →
      Completes (.assign [.name name] value :: rest) store ending final
  | returned {value : Option Expr} {rest : List Stmt} {store : Store} :
      (∀ expr ∈ value, ∃ result, expr.evaluate? store = some result) →
      Completes (.returned value :: rest) store .returned store
  | ifElse {test : Expr} {flag : Bool} {body orElse rest : List Stmt}
      {store between final : Store} {ending : Ending} :
      test.passes? store = some flag →
      Completes (if flag then body else orElse) store .normal between →
      Completes rest between ending final →
      Completes (.ifElse test body orElse :: rest) store ending final
  | ifReturned {test : Expr} {flag : Bool} {body orElse rest : List Stmt}
      {store final : Store} :
      test.passes? store = some flag →
      Completes (if flag then body else orElse) store .returned final →
      Completes (.ifElse test body orElse :: rest) store .returned final
  | loopEnd {test : Expr} {body orElse rest : List Stmt} {store final : Store}
      {ending : Ending} :
      test.passes? store = some false →
      Completes (orElse ++ rest) store ending final →
      Completes (.whileLoop test body orElse :: rest) store ending final
  | loopAgain {test : Expr} {body orElse rest : List Stmt} {store between final : Store}
      {ending : Ending} :
      test.passes? store = some true →
      Completes body store .normal between →
      Completes (.whileLoop test body orElse :: rest) between ending final →
      Completes (.whileLoop test body orElse :: rest) store ending final
  | loopReturned {test : Expr} {body orElse rest : List Stmt} {store final : Store} :
      test.passes? store = some true →
      Completes body store .returned final →
      Completes (.whileLoop test body orElse :: rest) store .returned final

/-! ## The core language with truth values -/

/-- An expression over variables of given kinds.  Logical operators are used on
truth values only. -/
inductive Expr.HasKind (kinds : String → Kind) : Expr → Kind → Prop
  | name {id : String} : HasKind kinds (.name id) (kinds id)
  | constant {value : Int} : HasKind kinds (.constant (.int value)) .number
  | arithmetic {left right : Expr} {operator : BinaryOp} {leftKind rightKind : Kind} :
      operator ∈ [.add, .sub, .mult] →
      HasKind kinds left leftKind → HasKind kinds right rightKind →
      HasKind kinds (.binary left operator right) .number
  | negative {operand : Expr} {kind : Kind} :
      HasKind kinds operand kind → HasKind kinds (.unary .minus operand) .number
  | comparison {left right : Expr} {operator : CompareOp} {leftKind rightKind : Kind} :
      operator ∈ [.eq, .notEq, .lt, .ltE, .gt, .gtE] →
      HasKind kinds left leftKind → HasKind kinds right rightKind →
      HasKind kinds (.compare left operator right [] []) .truth
  | logical {left right : Expr} {operator : LogicalOp} :
      HasKind kinds left .truth → HasKind kinds right .truth →
      HasKind kinds (.logical operator left right) .truth
  | not {operand : Expr} :
      HasKind kinds operand .truth → HasKind kinds (.unary .not operand) .truth

/-- Blocks of the core language over variables of given kinds.  Only the body of
a loop holds invariants, which are claims that can be read, and only the body of
the function ends with a return. -/
inductive Kinded (kinds : String → Kind) : (inLoop returns : Bool) → List Stmt → Prop
  | done {inLoop returns : Bool} : Kinded kinds inLoop returns []
  | returned {inLoop : Bool} {value : Option Expr} :
      (∀ expr ∈ value, ∃ kind, expr.HasKind kinds kind) →
      Kinded kinds inLoop true [.returned value]
  | pass {inLoop returns : Bool} {rest : List Stmt} :
      Kinded kinds inLoop returns rest → Kinded kinds inLoop returns (.pass :: rest)
  | assign {inLoop returns : Bool} {name : String} {value : Expr} {rest : List Stmt} :
      value.HasKind kinds (kinds name) → Kinded kinds inLoop returns rest →
      Kinded kinds inLoop returns (.assign [.name name] value :: rest)
  | ifElse {inLoop returns : Bool} {test : Expr} {body orElse rest : List Stmt} :
      test.HasKind kinds .truth → Kinded kinds false false body →
      Kinded kinds false false orElse → Kinded kinds inLoop returns rest →
      Kinded kinds inLoop returns (.ifElse test body orElse :: rest)
  | whileLoop {inLoop returns : Bool} {test : Expr} {body rest : List Stmt} :
      test.HasKind kinds .truth → Kinded kinds true false body →
      Kinded kinds inLoop returns rest →
      Kinded kinds inLoop returns (.whileLoop test body [] :: rest)
  | invariant {returns : Bool} {text : String} {claim : Term} {rest : List Stmt} :
      Term.ofClaim text = .ok claim → Kinded kinds true returns rest →
      Kinded kinds true returns
        (.expr (.call (.name "invariant") [.constant (.text text)]) :: rest)

/-! ## Expressions -/

/-- An operator on numbers has a counterpart that computes the same. -/
theorem BinaryOp.counterpart {source : BinaryOp} (hsource : source ∈ [.add, .sub, .mult]) :
    ∃ operation operator, source.onInts? = some operation ∧
      source.operator? = some operator ∧ operator.connective? = none ∧
      ∀ first second, operator.onInts first second = .int (operation first second) := by
  simp only [List.mem_cons, List.not_mem_nil, or_false] at hsource
  rcases hsource with rfl | rfl | rfl <;> exact ⟨_, _, rfl, rfl, rfl, fun _ _ => rfl⟩

theorem CompareOp.counterpart (hsource : source ∈ [.eq, .notEq, .lt, .ltE, .gt, .gtE]) :
    ∃ relation operator, source.onInts? = some relation ∧
      source.operator? = some operator ∧ operator.connective? = none ∧
      ∀ first second, operator.onInts first second = .bool (relation first second) := by
  simp only [List.mem_cons, List.not_mem_nil, or_false] at hsource
  rcases hsource with rfl | rfl | rfl | rfl | rfl | rfl <;>
    exact ⟨_, _, rfl, rfl, rfl, fun _ _ => rfl⟩

/-- The term has the value of the expression in every store of the kinds. -/
def Expr.Denotes (kinds : String → Kind) (expr : Expr) (kind : Kind) (term : Term) : Prop :=
  ∀ store : Store, store.HasKinds kinds →
    expr.evaluate? store = some (term.eval .counting store) ∧
      term.eval .counting store ∈ kind.values

section Expressions

variable {kinds : String → Kind} {left right operand : Expr}
  {leftKind rightKind kind : Kind} {leftTerm rightTerm term : Term}

/-- A test passes if the claim that it becomes is true. -/
theorem Expr.Denotes.passes?_iff (hdenotes : expr.Denotes kinds .truth term)
    (hstore : store.HasKinds kinds) {flag : Bool} :
    expr.passes? store = some flag ↔ (term.Holds .counting store ↔ flag = true) := by
  obtain ⟨hvalue, held, hheld⟩ := hdenotes store hstore
  have hpasses : expr.passes? store = some held := by
    rw [Expr.passes?, hvalue, ← hheld]
    rfl
  rw [hpasses, Term.Holds, ← hheld, Value.truth_bool, Option.some.injEq, Bool.eq_iff_iff]

theorem Expr.Denotes.arithmetic {source : BinaryOp} {operation : Int → Int → Int}
    (hoperation : source.onInts? = some operation) (hconnective : operator.connective? = none)
    (hsame : ∀ first second, operator.onInts first second = .int (operation first second))
    (hleft : left.Denotes kinds leftKind leftTerm)
    (hright : right.Denotes kinds rightKind rightTerm) :
    (Expr.binary left source right).Denotes kinds .number
      (.binary leftTerm operator rightTerm) := by
  intro store hstore
  obtain ⟨hleftValue, hleftKind⟩ := hleft store hstore
  obtain ⟨hrightValue, hrightKind⟩ := hright store hstore
  obtain ⟨first, hfirst⟩ := Kind.number?_of_mem hleftKind
  obtain ⟨second, hsecond⟩ := Kind.number?_of_mem hrightKind
  have heval : (Term.binary leftTerm operator rightTerm).eval .counting store =
      .int (operation first second) := by
    rw [eval_binary, Interpretation.counting_onInts hconnective hfirst hsecond, hsame]
  rw [heval]
  exact ⟨by simp [evaluate?, hoperation, hleftValue, hfirst, hrightValue, hsecond], _, rfl⟩

theorem Expr.Denotes.comparison {relation : Int → Int → Bool}
    (hrelation : source.onInts? = some relation) (hconnective : operator.connective? = none)
    (hsame : ∀ first second, operator.onInts first second = .bool (relation first second))
    (hleft : left.Denotes kinds leftKind leftTerm)
    (hright : right.Denotes kinds rightKind rightTerm) :
    (Expr.compare left source right [] []).Denotes kinds .truth
      (.binary leftTerm operator rightTerm) := by
  intro store hstore
  obtain ⟨hleftValue, hleftKind⟩ := hleft store hstore
  obtain ⟨hrightValue, hrightKind⟩ := hright store hstore
  obtain ⟨first, hfirst⟩ := Kind.number?_of_mem hleftKind
  obtain ⟨second, hsecond⟩ := Kind.number?_of_mem hrightKind
  have heval : (Term.binary leftTerm operator rightTerm).eval .counting store =
      .bool (relation first second) := by
    rw [eval_binary, Interpretation.counting_onInts hconnective hfirst hsecond, hsame]
  rw [heval]
  exact ⟨by simp [evaluate?, hrelation, hleftValue, hfirst, hrightValue, hsecond], _, rfl⟩

theorem Expr.Denotes.negative (hoperand : operand.Denotes kinds kind term) :
    (Expr.unary .minus operand).Denotes kinds .number (.unary .minus term) := by
  intro store hstore
  obtain ⟨hvalue, hkind⟩ := hoperand store hstore
  obtain ⟨number, hnumber⟩ := Kind.number?_of_mem hkind
  have heval : (Term.unary .minus term).eval .counting store = .int (-number) := by
    simp only [eval_unary, Interpretation.applyUnary, Interpretation.counting] at hnumber ⊢
    rw [hnumber]
    rfl
  rw [heval]
  exact ⟨by simp [evaluate?, hvalue, hnumber], _, rfl⟩

/-- The operand that decides is the truth value of the connective. -/
theorem Expr.Denotes.logical (operator : LogicalOp)
    (hleft : left.Denotes kinds .truth leftTerm)
    (hright : right.Denotes kinds .truth rightTerm) :
    (Expr.logical operator left right).Denotes kinds .truth
      (.binary leftTerm operator.operator rightTerm) := by
  intro store hstore
  obtain ⟨hleftValue, first, hfirst⟩ := hleft store hstore
  obtain ⟨hrightValue, _, hsecond⟩ := hright store hstore
  rw [← hfirst] at hleftValue
  rw [← hsecond] at hrightValue
  rw [eval_binary, ← hfirst, ← hsecond]
  refine ⟨?_, by cases operator <;> exact ⟨_, rfl⟩⟩
  cases operator <;> cases first <;>
    simp [evaluate?, hleftValue, hrightValue, Value.passes?, Interpretation.applyBinary,
      LogicalOp.operator, Operator.connective?]

theorem Expr.Denotes.not (hoperand : operand.Denotes kinds .truth term) :
    (Expr.unary .not operand).Denotes kinds .truth (.unary .not term) := by
  intro store hstore
  obtain ⟨hvalue, _, hflag⟩ := hoperand store hstore
  rw [← hflag] at hvalue
  rw [eval_unary, ← hflag]
  exact ⟨by simp [evaluate?, hvalue, Value.passes?, Interpretation.applyUnary], _, rfl⟩

/-- An expression of a kind elaborates to a term that has its values. -/
theorem Expr.HasKind.elaborates (hkind : expr.HasKind kinds kind) :
    ∃ term, (∀ log, Gives (expr.elaborate .single) log term log) ∧
      expr.Denotes kinds kind term := by
  induction hkind with
  | @name id =>
    exact ⟨.var id, fun log => gives_pure.mpr ⟨rfl, rfl⟩, fun store hstore => ⟨rfl, hstore id⟩⟩
  | @constant value =>
    exact ⟨.literal (.int value), fun log => gives_pure.mpr ⟨rfl, rfl⟩,
      fun store hstore => ⟨rfl, value, rfl⟩⟩
  | arithmetic hsource _ _ ihleft ihright =>
    obtain ⟨_, operator, hoperation, hoperator, hconnective, hsame⟩ := BinaryOp.counterpart hsource
    obtain ⟨leftTerm, hleft, hleftDenotes⟩ := ihleft
    obtain ⟨rightTerm, hright, hrightDenotes⟩ := ihright
    refine ⟨.binary leftTerm operator rightTerm, fun log => ?_,
      .arithmetic hoperation hconnective hsame hleftDenotes hrightDenotes⟩
    simp only [elaborate, hoperator, gives_bind, gives_pure]
    exact ⟨leftTerm, log, hleft log, rightTerm, log, hright log, rfl, rfl⟩
  | negative _ ih =>
    obtain ⟨term, hterm, hdenotes⟩ := ih
    refine ⟨.unary .minus term, fun log => ?_, hdenotes.negative⟩
    simp only [elaborate, UnaryOp.operator?, gives_bind, gives_pure]
    exact ⟨term, log, hterm log, rfl, rfl⟩
  | comparison hsource _ _ ihleft ihright =>
    obtain ⟨_, operator, hrelation, hoperator, hconnective, hsame⟩ := CompareOp.counterpart hsource
    obtain ⟨leftTerm, hleft, hleftDenotes⟩ := ihleft
    obtain ⟨rightTerm, hright, hrightDenotes⟩ := ihright
    refine ⟨.binary leftTerm operator rightTerm, fun log => ?_,
      .comparison hrelation hconnective hsame hleftDenotes hrightDenotes⟩
    simp only [elaborate, hoperator, gives_bind, gives_pure]
    exact ⟨leftTerm, log, hleft log, rightTerm, log, hright log, rfl, rfl⟩
  | @logical _ _ operator _ _ ihleft ihright =>
    obtain ⟨leftTerm, hleft, hleftDenotes⟩ := ihleft
    obtain ⟨rightTerm, hright, hrightDenotes⟩ := ihright
    refine ⟨.binary leftTerm operator.operator rightTerm, fun log => ?_,
      .logical operator hleftDenotes hrightDenotes⟩
    simp only [elaborate, gives_bind, gives_pure]
    exact ⟨leftTerm, log, hleft log, rightTerm, log, hright log, rfl, rfl⟩
  | not _ ih =>
    obtain ⟨term, hterm, hdenotes⟩ := ih
    refine ⟨.unary .not term, fun log => ?_, hdenotes.not⟩
    simp only [elaborate, UnaryOp.operator?, gives_bind, gives_pure]
    exact ⟨term, log, hterm log, rfl, rfl⟩

end Expressions

/-! ## Statements -/

/-- Without a return, a run goes to the end of its block. -/
theorem Kinded.ending_eq {kinds : String → Kind} {block : List Stmt} {ending : Ending}
    (hkinded : Kinded kinds inLoop false block) (hcompletes : Completes block store ending final) :
    ending = .normal := by
  induction hcompletes generalizing inLoop with
  | done => rfl
  | pass _ ih =>
    cases hkinded with
    | pass hrest => exact ih hrest
  | invariant _ ih =>
    cases hkinded with
    | invariant _ hrest => exact ih hrest
  | assign _ _ ih =>
    cases hkinded with
    | assign _ hrest => exact ih hrest
  | returned => cases hkinded
  | ifElse _ _ _ _ ihrest =>
    cases hkinded with
    | ifElse _ _ _ hrest => exact ihrest hrest
  | @ifReturned _ flag _ _ _ _ _ _ _ ihbranch =>
    cases hkinded with
    | ifElse _ hbody horElse =>
      cases flag with
      | true => exact ihbranch hbody
      | false => exact ihbranch horElse
  | loopEnd _ _ ih =>
    cases hkinded with
    | whileLoop _ _ hrest => exact ih hrest
  | loopAgain _ _ _ _ ihloop => exact ihloop hkinded
  | loopReturned _ _ ihbody =>
    cases hkinded with
    | whileLoop _ hbody => exact ihbody hbody

section Statements

variable (kinds : String → Kind) (havoc : HavocRule)

/-- The term makes exactly the steps that the statement makes before the rest of
its block, and stays within the kinds. -/
structure Performs (statement : Stmt) (term : Term) : Prop where
  keeps : ∀ {store after : Store}, store.HasKinds kinds →
    Exec .counting havoc term.orSkip store (.done after) → after.HasKinds kinds
  completes_iff : ∀ {rest : List Stmt} {store final : Store} {ending : Ending},
    store.HasKinds kinds →
    (Completes (statement :: rest) store ending final ↔
      ∃ between, Exec .counting havoc term.orSkip store (.done between) ∧
        Completes rest between ending final)

/-- The terms, one after the other, end in exactly the stores in which the block
ends. -/
structure PerformsAll (block : List Stmt) (terms : List Term) : Prop where
  keeps : ∀ {store after : Store}, store.HasKinds kinds →
    RunsThrough .counting havoc terms store (.done after) → after.HasKinds kinds
  completes_iff : ∀ {store final : Store}, store.HasKinds kinds →
    ((∃ ending, Completes block store ending final) ↔
      RunsThrough .counting havoc terms store (.done final))

variable {kinds havoc} {statement : Stmt} {term : Term} {rest block : List Stmt}
  {terms : List Term}

theorem PerformsAll.cons (hstatement : Performs kinds havoc statement term)
    (hrest : PerformsAll kinds havoc rest terms) :
    PerformsAll kinds havoc (statement :: rest) (term :: terms) where
  keeps hstore hruns := by
    obtain ⟨_, hstep, hruns⟩ := runsThrough_cons_iff.mp hruns
    exact hrest.keeps (hstatement.keeps hstore hstep) hruns
  completes_iff {store final} hstore := by
    rw [runsThrough_cons_iff]
    constructor
    · rintro ⟨ending, hcompletes⟩
      obtain ⟨between, hstep, hcompletes⟩ := (hstatement.completes_iff hstore).mp hcompletes
      have hbetween := hstatement.keeps hstore hstep
      exact ⟨between, hstep, (hrest.completes_iff hbetween).mp ⟨ending, hcompletes⟩⟩
    · rintro ⟨between, hstep, hruns⟩
      have hbetween := hstatement.keeps hstore hstep
      obtain ⟨ending, hcompletes⟩ := (hrest.completes_iff hbetween).mpr hruns
      exact ⟨ending, (hstatement.completes_iff hstore).mpr ⟨between, hstep, hcompletes⟩⟩

/-- A block without a return, as the body of a statement. -/
theorem PerformsAll.exec_iff (hkinded : Kinded kinds inLoop false block)
    (hblock : PerformsAll kinds havoc block terms) (hstore : store.HasKinds kinds) :
    Exec .counting havoc (asBlock (joined terms none)).orSkip store (.done final) ↔
      Completes block store .normal final := by
  rw [orSkip_asBlock, exec_asBlock_iff, ← hblock.completes_iff hstore]
  constructor
  · rintro ⟨_, hcompletes⟩
    rwa [← hkinded.ending_eq hcompletes]
  · exact fun hcompletes => ⟨.normal, hcompletes⟩

theorem PerformsAll.keeps_exec (hblock : PerformsAll kinds havoc block terms)
    (hstore : store.HasKinds kinds)
    (hexec : Exec .counting havoc (asBlock (joined terms none)).orSkip store (.done final)) :
    final.HasKinds kinds := by
  rw [orSkip_asBlock, exec_asBlock_iff] at hexec
  exact hblock.keeps hstore hexec

theorem performs_pass : Performs kinds havoc .pass .skip where
  keeps hstore hexec := by
    obtain rfl := exec_skip_iff.mp hexec
    exact hstore
  completes_iff {rest store final ending} _ := by
    constructor
    · rintro (_ | hrest)
      exact ⟨store, .skip, hrest⟩
    · rintro ⟨_, hstep, hrest⟩
      obtain rfl := exec_skip_iff.mp hstep
      exact .pass hrest

theorem performs_assign {name : String} {value : Expr}
    (hvalue : value.Denotes kinds (kinds name) term) :
    Performs kinds havoc (.assign [.name name] value) (.assign (.var name) term false) where
  keeps {store after} hstore hexec := by
    cases hexec
    exact hstore.update (hvalue store hstore).2
  completes_iff {rest store final ending} hstore := by
    have hresult := (hvalue store hstore).1
    constructor
    · intro hcompletes
      cases hcompletes with
      | assign hother hrest =>
        obtain rfl := Option.some.inj (hresult.symm.trans hother)
        exact ⟨_, .assign, hrest⟩
    · rintro ⟨_, hstep, hrest⟩
      cases hstep
      exact .assign hresult hrest

theorem performs_ifElse {body orElse : List Stmt} {thenTerms elseTerms : List Term}
    (htest : test.Denotes kinds .truth term) (hbodyKinded : Kinded kinds false false body)
    (horElseKinded : Kinded kinds false false orElse)
    (hbody : PerformsAll kinds havoc body thenTerms)
    (horElse : PerformsAll kinds havoc orElse elseTerms) :
    Performs kinds havoc (.ifElse test body orElse)
      (term.branch (asBlock (joined thenTerms none)) (asBlock (joined elseTerms none))) where
  keeps hstore hexec := by
    cases hexec with
    | ifTrue _ hexec => exact hbody.keeps_exec hstore hexec
    | ifFalse _ hexec => exact horElse.keeps_exec hstore hexec
  completes_iff {rest store final ending} hstore := by
    constructor
    · intro hcompletes
      cases hcompletes with
      | @ifElse _ flag _ _ _ _ between _ _ hflag hbranch hrest =>
        refine ⟨between, ?_, hrest⟩
        have hholds := (htest.passes?_iff hstore).mp hflag
        cases flag with
        | true =>
          exact .ifTrue (hholds.mpr rfl) ((hbody.exec_iff hbodyKinded hstore).mpr hbranch)
        | false =>
          exact .ifFalse (by simp [hholds]) ((horElse.exec_iff horElseKinded hstore).mpr hbranch)
      | @ifReturned _ flag _ _ _ _ _ _ hbranch =>
        cases flag with
        | true => cases hbodyKinded.ending_eq hbranch
        | false => cases horElseKinded.ending_eq hbranch
    · rintro ⟨_, hstep, hrest⟩
      cases hstep with
      | ifTrue htrue hexec =>
        exact .ifElse ((htest.passes?_iff hstore).mpr (iff_of_true htrue rfl))
          ((hbody.exec_iff hbodyKinded hstore).mp hexec) hrest
      | ifFalse hfalse hexec =>
        exact .ifElse ((htest.passes?_iff hstore).mpr (iff_of_false hfalse Bool.false_ne_true))
          ((horElse.exec_iff horElseKinded hstore).mp hexec) hrest

theorem performs_whileLoop {body : List Stmt} {bodyTerms : List Term} (invariant : Term)
    (htest : test.Denotes kinds .truth term) (hbodyKinded : Kinded kinds true false body)
    (hbody : PerformsAll kinds havoc body bodyTerms) :
    Performs kinds havoc (.whileLoop test body [])
      (invariant.repeatWhile term (asBlock (joined bodyTerms none))) where
  keeps {store after} hstore hexec := by
    generalize hloop : (invariant.repeatWhile term (asBlock (joined bodyTerms none))).orSkip =
      loop at hexec
    generalize hdone : Outcome.done after = outcome at hexec
    induction hexec with
    | loopEnd =>
      cases hdone
      exact hstore
    | loopAgain _ hiteration _ _ ihloop =>
      cases hloop
      exact ihloop (hbody.keeps_exec hstore hiteration) rfl hdone
    | loopFailed => cases hdone
    | _ => cases hloop
  completes_iff {rest store final ending} hstore := by
    constructor
    · intro hcompletes
      generalize hblock : Stmt.whileLoop test body [] :: rest = block at hcompletes
      induction hcompletes with
      | loopEnd hflag hrest =>
        cases hblock
        have hholds := (htest.passes?_iff hstore).mp hflag
        exact ⟨_, .loopEnd (by simp [hholds]), hrest⟩
      | loopAgain hflag hiteration _ _ ihloop =>
        cases hblock
        have htrue := ((htest.passes?_iff hstore).mp hflag).mpr rfl
        have hexec := (hbody.exec_iff hbodyKinded hstore).mpr hiteration
        obtain ⟨between, hloop, hrest⟩ := ihloop (hbody.keeps_exec hstore hexec) rfl
        exact ⟨between, .loopAgain htrue hexec hloop, hrest⟩
      | loopReturned _ hiteration =>
        cases hblock
        cases hbodyKinded.ending_eq hiteration
      | _ => cases hblock
    · rintro ⟨between, hstep, hrest⟩
      generalize hloop :
        (invariant.repeatWhile term (asBlock (joined bodyTerms none))).orSkip = loop at hstep
      generalize hdone : Outcome.done between = outcome at hstep
      induction hstep with
      | loopEnd hfalse =>
        cases hloop
        cases hdone
        exact .loopEnd ((htest.passes?_iff hstore).mpr (iff_of_false hfalse Bool.false_ne_true)) hrest
      | loopAgain htrue hiteration _ _ ihloop =>
        cases hloop
        have hpasses := (htest.passes?_iff hstore).mpr (iff_of_true htrue rfl)
        exact .loopAgain hpasses ((hbody.exec_iff hbodyKinded hstore).mp hiteration)
          (ihloop (hbody.keeps_exec hstore hiteration) rfl hdone)
      | loopFailed => cases hdone
      | _ => cases hloop

end Statements

/-! ## Invariants -/

/-- The texts of the invariants among the statements of a block, in order. -/
def invariantTexts : List Stmt → List String
  | .expr (.call (.name "invariant") (.constant (.text text) :: _)) :: rest =>
    text :: invariantTexts rest
  | _ :: rest => invariantTexts rest
  | [] => []

mutual

/-- The texts of the invariants of each loop, outer loops first. -/
def Stmt.loopTexts : Stmt → List (List String)
  | .functionDef _ body => loopTexts body
  | .ifElse _ body orElse => loopTexts body ++ loopTexts orElse
  | .whileLoop _ body orElse => invariantTexts body :: loopTexts body ++ loopTexts orElse
  | .forLoop _ _ body orElse => loopTexts body ++ loopTexts orElse
  | _ => []

@[inherit_doc Stmt.loopTexts]
def loopTexts : List Stmt → List (List String)
  | [] => []
  | statement :: rest => statement.loopTexts ++ loopTexts rest

end

/-- The invariant is the conjunction of the claims that the texts write, in
order. -/
def ReadFrom (texts : List String) (invariant : Term) : Prop :=
  ∃ claims log next, Gives (texts.mapM Logged.parse) log claims next ∧
    invariant = conjunction claims

section Invariants

variable {kinds : String → Kind} {inLoop returns : Bool} {block : List Stmt}

/-- The invariants of a block are read from their texts. -/
theorem Kinded.gives_invariants (hkinded : Kinded kinds inLoop returns block)
    (log : WriteLog) :
    ∃ claims next, Gives (invariants block) log claims next ∧
      Gives ((invariantTexts block).mapM Logged.parse) log claims next := by
  induction hkinded generalizing log with
  | done => exact ⟨[], log, gives_pure.mpr ⟨rfl, rfl⟩, gives_pure.mpr ⟨rfl, rfl⟩⟩
  | returned => exact ⟨[], log, gives_pure.mpr ⟨rfl, rfl⟩, gives_pure.mpr ⟨rfl, rfl⟩⟩
  | pass _ ih | assign _ _ ih | ifElse _ _ _ _ _ _ ih | whileLoop _ _ _ _ ih => exact ih log
  | @invariant _ text claim _ hparse _ ih =>
    obtain ⟨claims, next, hclaims, htexts⟩ := ih (claim.place log).2
    have hclaim : Gives (Logged.parse text) log (claim.place log).1 (claim.place log).2 := by
      rw [Logged.parse, hparse]
      exact gives_place.mpr ⟨rfl, rfl⟩
    refine ⟨(claim.place log).1 :: claims, next, ?_, ?_⟩
    · simp only [invariants, Stmt.call?, Expr.calledName, claimArgument, pure_bind, if_true,
        gives_bind, gives_pure]
      exact ⟨_, _, hclaim, claims, next, hclaims, rfl, rfl⟩
    · rw [invariantTexts, List.mapM_cons]
      simp only [gives_bind, gives_pure]
      exact ⟨_, _, hclaim, claims, next, htexts, rfl, rfl⟩

end Invariants

/-! ## Blocks and programs -/

section Blocks

variable (kinds : String → Kind) (havoc : HavocRule)

/-- A block elaborates, and the terms of its statements do what it does. -/
structure Translated (inLoop : Bool) (block : List Stmt) (log : WriteLog)
    (terms : List Term) (next : WriteLog) : Prop where
  gives : ∀ before,
    Gives (elaborateBlock .single inLoop before block) log (joined terms before) next
  performs : PerformsAll kinds havoc block terms
  readFrom : List.Forall₂ ReadFrom (loopTexts block) (terms.flatMap Term.loopInvariants)

variable {kinds havoc} {inLoop returns : Bool} {statement : Stmt} {block rest : List Stmt}
  {log between next : WriteLog} {term : Term} {terms : List Term}

theorem Translated.cons (hplain : (inLoop && statement.isInvariant) = false)
    (hgives : Gives (statement.elaborate .single) log term between)
    (hperforms : Performs kinds havoc statement term)
    (hreadFrom : List.Forall₂ ReadFrom statement.loopTexts term.loopInvariants)
    (hrest : Translated kinds havoc inLoop rest between terms next) :
    Translated kinds havoc inLoop (statement :: rest) log (term :: terms) next where
  gives before := (gives_elaborateBlock_cons hplain).mpr
    ⟨term, between, hgives, hrest.gives (some (following before term))⟩
  performs := hrest.performs.cons hperforms
  readFrom := by
    rw [loopTexts, List.flatMap_cons]
    exact List.rel_append hreadFrom hrest.readFrom

theorem Translated.asBlock (hblock : Translated kinds havoc inLoop block log terms next) :
    List.Forall₂ ReadFrom (loopTexts block)
      (Source.asBlock (joined terms none)).orSkip.loopInvariants := by
  rw [orSkip_asBlock, loopInvariants_asBlock]
  exact hblock.readFrom

theorem translated_nil : Translated kinds havoc inLoop [] log [] log where
  gives before := gives_pure.mpr ⟨rfl, rfl⟩
  performs := {
    keeps := fun hstore hruns => by
      obtain rfl := runsThrough_nil_iff.mp hruns
      exact hstore
    completes_iff := fun {store final} _ => by
      rw [runsThrough_nil_iff]
      constructor
      · rintro ⟨_, ⟨⟩⟩
        rfl
      · rintro rfl
        exact ⟨.normal, .done⟩ }
  readFrom := .nil

/-- An expression of a kind has a value. -/
theorem evaluates_of_hasKind {value : Option Expr} {store : Store}
    (hvalue : ∀ expr ∈ value, ∃ kind, expr.HasKind kinds kind) (hstore : store.HasKinds kinds) :
    ∀ expr ∈ value, ∃ result, expr.evaluate? store = some result := by
  intro expr hexpr
  obtain ⟨_, hkind⟩ := hvalue expr hexpr
  obtain ⟨_, -, hdenotes⟩ := hkind.elaborates
  exact ⟨_, (hdenotes store hstore).1⟩

/-- A return ends the program where it stands. -/
theorem translated_returned {value : Option Expr}
    (hvalue : ∀ expr ∈ value, ∃ kind, expr.HasKind kinds kind) :
    Translated kinds havoc inLoop [.returned value] log [.skip] log where
  gives before := (gives_elaborateBlock_cons (Bool.and_false _)).mpr
    ⟨.skip, log, gives_pure.mpr ⟨rfl, rfl⟩, gives_pure.mpr ⟨rfl, rfl⟩⟩
  performs := {
    keeps := fun hstore hruns => by
      obtain ⟨_, hskip, hruns⟩ := runsThrough_cons_iff.mp hruns
      obtain rfl := exec_skip_iff.mp hskip
      obtain rfl := runsThrough_nil_iff.mp hruns
      exact hstore
    completes_iff := fun {store final} hstore => by
      rw [runsThrough_cons_iff]
      constructor
      · rintro ⟨_, ⟨⟩⟩
        exact ⟨store, .skip, .nil⟩
      · rintro ⟨_, hskip, hruns⟩
        obtain rfl := exec_skip_iff.mp hskip
        obtain rfl := runsThrough_nil_iff.mp hruns
        exact ⟨.returned, .returned (evaluates_of_hasKind hvalue hstore)⟩ }
  readFrom := .nil

theorem Translated.invariant {text : String}
    (hrest : Translated kinds havoc true rest log terms next) :
    Translated kinds havoc true
      (.expr (.call (.name "invariant") [.constant (.text text)]) :: rest) log terms next where
  gives before := hrest.gives before
  performs := {
    keeps := hrest.performs.keeps
    completes_iff := fun hstore => by
      rw [← hrest.performs.completes_iff hstore]
      constructor
      · rintro ⟨ending, hcompletes⟩
        cases hcompletes with
        | invariant hcompletes => exact ⟨ending, hcompletes⟩
      · rintro ⟨ending, hcompletes⟩
        exact ⟨ending, .invariant hcompletes⟩ }
  readFrom := hrest.readFrom

/-- Every block of the core language is translated. -/
theorem Kinded.translated (hkinded : Kinded kinds inLoop returns block) (log : WriteLog) :
    ∃ terms next, Translated kinds havoc inLoop block log terms next := by
  induction hkinded generalizing log with
  | done => exact ⟨[], log, translated_nil⟩
  | returned hvalue => exact ⟨[.skip], log, translated_returned hvalue⟩
  | pass _ ih =>
    obtain ⟨_, next, hrest⟩ := ih log
    exact ⟨_, next, hrest.cons (Bool.and_false _) (gives_pure.mpr ⟨rfl, rfl⟩) performs_pass .nil⟩
  | assign hvalue _ ih =>
    obtain ⟨term, hterm, hdenotes⟩ := hvalue.elaborates
    obtain ⟨_, next, hrest⟩ := ih log
    refine ⟨_, next, hrest.cons (Bool.and_false _) ?_ (performs_assign hdenotes) .nil⟩
    simp only [Stmt.elaborate, assignmentTarget, pure_bind, gives_bind, gives_pure]
    exact ⟨term, log, hterm log, rfl, rfl⟩
  | ifElse htest hbody horElse _ ihbody ihorElse ih =>
    obtain ⟨term, hterm, hdenotes⟩ := htest.elaborates
    obtain ⟨_, afterThen, hthen⟩ := ihbody log
    obtain ⟨_, afterElse, helse⟩ := ihorElse afterThen
    obtain ⟨_, next, hrest⟩ := ih afterElse
    refine ⟨_, next, hrest.cons (Bool.and_false _) ?_
      (performs_ifElse hdenotes hbody horElse hthen.performs helse.performs) ?_⟩
    · simp only [Stmt.elaborate, gives_bind, gives_pure]
      exact ⟨term, log, hterm log, _, _, hthen.gives none, _, _, helse.gives none, rfl, rfl⟩
    · exact List.rel_append hthen.asBlock helse.asBlock
  | whileLoop htest hbody _ ihbody ih =>
    obtain ⟨term, hterm, hdenotes⟩ := htest.elaborates
    obtain ⟨claims, afterClaims, hclaims, htexts⟩ := hbody.gives_invariants log
    obtain ⟨_, afterBody, hbodyTerms⟩ := ihbody afterClaims
    obtain ⟨_, next, hrest⟩ := ih afterBody
    refine ⟨_, next, hrest.cons (Bool.and_false _) ?_
      (performs_whileLoop (conjunction claims) hdenotes hbody hbodyTerms.performs) ?_⟩
    · simp only [Stmt.elaborate, gives_bind, gives_pure]
      exact ⟨term, log, hterm log, claims, _, hclaims, _, _, hbodyTerms.gives none, rfl, rfl⟩
    · rw [Stmt.loopTexts, loopTexts, List.append_nil]
      exact .cons ⟨claims, log, afterClaims, htexts, rfl⟩ hbodyTerms.asBlock
  | invariant _ _ ih =>
    obtain ⟨terms, next, hrest⟩ := ih log
    exact ⟨terms, next, hrest.invariant⟩

end Blocks

/-- The block of a function is the only statement of its program. -/
theorem gives_elaborate {mode : RunMode} {program : Program} {log next : WriteLog}
    (hgives : Gives (elaborateBlock mode false none (statements program)) log
      (joined terms none) next) :
    ∃ statement, Gives (elaborate mode program) log statement next ∧
      (∀ interp havoc store final, Exec interp havoc statement store (.done final) ↔
        RunsThrough interp havoc terms store (.done final)) ∧
      statement.loopInvariants = terms.flatMap Term.loopInvariants := by
  revert hgives
  fun_cases statements program with
  | case1 =>
    intro hgives
    have hfunction : (asBlock (joined [asBlock (joined terms none)] none)).loopInvariants =
        (asBlock (joined terms none)).loopInvariants := by
      rw [loopInvariants_asBlock, List.flatMap_singleton]
    refine ⟨asBlock (joined [asBlock (joined terms none)] none), ?_, ?_, ?_⟩
    · simp only [elaborate, gives_bind, gives_pure]
      refine ⟨_, next, (gives_elaborateBlock_cons (by simp)).mpr ⟨_, next, ?_,
        gives_pure.mpr ⟨rfl, rfl⟩⟩, rfl, rfl⟩
      simp only [Stmt.elaborate, gives_bind, gives_pure]
      exact ⟨_, next, hgives, rfl, rfl⟩
    · intro interp havoc store final
      simp only [exec_asBlock_iff, runsThrough_cons_iff, runsThrough_nil_iff,
        orSkip_asBlock, exists_eq_right]
    · rw [hfunction, loopInvariants_asBlock]
  | case2 =>
    intro hgives
    refine ⟨asBlock (joined terms none), ?_, fun _ _ _ _ => exec_asBlock_iff,
      loopInvariants_asBlock terms⟩
    simp only [elaborate, gives_bind, gives_pure]
    exact ⟨_, next, hgives, rfl, rfl⟩

/-- A program of the core language elaborates to the terms of its block. -/
theorem Kinded.gives_elaborate {kinds : String → Kind} {program : Program}
    (havoc : HavocRule) (log : WriteLog)
    (hkinded : Kinded kinds false true (statements program)) :
    ∃ terms next statement, Translated kinds havoc false (statements program) log terms next ∧
      Gives (elaborate .single program) log statement next ∧
      (∀ store final, Exec .counting havoc statement store (.done final) ↔
        RunsThrough .counting havoc terms store (.done final)) ∧
      statement.loopInvariants = terms.flatMap Term.loopInvariants := by
  obtain ⟨terms, next, htranslated⟩ := hkinded.translated log
  obtain ⟨statement, hgives, hexec, hinvariants⟩ := Source.gives_elaborate (htranslated.gives none)
  exact ⟨terms, next, statement, htranslated, hgives, hexec _ _, hinvariants⟩

/-- A program of the core language elaborates.  The statement ends in exactly the
stores in which the program ends, and the invariant of each of its loops is the
conjunction of the claims written in the body of that loop. -/
theorem elaborate_exec_iff {kinds : String → Kind} {program : Program} (havoc : HavocRule)
    (log : WriteLog) (hkinded : Kinded kinds false true (statements program)) :
    ∃ statement next, Gives (elaborate .single program) log statement next ∧
      (∀ store : Store, store.HasKinds kinds → ∀ final,
        Exec .counting havoc statement store (.done final) ↔
          ∃ ending, Completes (statements program) store ending final) ∧
      List.Forall₂ ReadFrom (loopTexts (statements program)) statement.loopInvariants := by
  obtain ⟨terms, next, statement, htranslated, hgives, hexec, hinvariants⟩ :=
    hkinded.gives_elaborate havoc log
  refine ⟨statement, next, hgives, fun store hstore final => ?_, ?_⟩
  · rw [hexec, htranslated.performs.completes_iff hstore]
  · rw [hinvariants]
    exact htranslated.readFrom

/-- The body of a loop with two invariants and a branch. -/
def searchBody : List Stmt :=
  [.expr (.call (.name "invariant") [.constant (.text "x >= 0")]),
    .assign [.name "i"] (.binary (.name "i") .add (.constant (.int 1))),
    .expr (.call (.name "invariant") [.constant (.text "i <= n")]),
    .ifElse (.compare (.binary (.name "i") .mult (.name "i")) .eq (.name "x") [] [])
      [.assign [.name "found"] (.compare (.name "i") .gt (.unary .minus (.name "n")) [] [])]
      [.pass]]

/-- A function with a truth value, which it also counts with. -/
def searchSource : Program :=
  [.functionDef "search" [
    .assign [.name "found"] (.compare (.name "x") .gt (.name "n") [] []),
    .whileLoop (.logical .and (.unary .not (.name "found"))
      (.compare (.name "i") .lt (.name "n") [] [])) searchBody [],
    .returned (some (.binary (.name "i") .mult (.name "found")))]]

theorem elaborate_exec_iff_searchSource :
    let kinds : String → Kind := fun name => if name = "found" then .truth else .number
    ∃ statement next,
      Gives (elaborate .single searchSource) .empty statement next ∧
      (∀ store : Store, store.HasKinds kinds → ∀ final,
        Exec .counting (fun _ _ _ _ => False) statement store (.done final) ↔
          ∃ ending, Completes (statements searchSource) store ending final) ∧
      List.Forall₂ ReadFrom [["x >= 0", "i <= n"]] statement.loopInvariants := by
  intro kinds
  have hi : Expr.HasKind kinds (.name "i") .number := .name
  have hfound : Expr.HasKind kinds (.name "found") .truth := .name
  have hupper : Term.ofClaim "i <= n" = .ok (.binary (.var "i") .le (.var "n")) := by
    decide +kernel
  have hbody : Kinded kinds true false searchBody :=
    .invariant ofClaim_countdownInvariant
      (.assign (.arithmetic (by decide) hi .constant)
        (.invariant hupper
          (.ifElse (.comparison (by decide) (.arithmetic (by decide) hi hi) .name)
            (.assign (.comparison (by decide) hi (.negative .name)) .done) (.pass .done)
            .done)))
  have hreturned : ∀ expr ∈ some (Expr.binary (.name "i") .mult (.name "found")),
      ∃ kind, expr.HasKind kinds kind := by
    rintro _ ⟨⟩
    exact ⟨_, .arithmetic (by decide) hi hfound⟩
  exact elaborate_exec_iff _ _ (.assign (.comparison (by decide) .name .name)
    (.whileLoop (.logical (.not hfound) (.comparison (by decide) hi .name)) hbody
      (.returned hreturned)))

end Source

end HoareCheck
