import HoareCheck.Elaboration.Program
import HoareCheck.Proofs.Acceptance

/-!
# Meaning of source programs

Integer expressions and tests have a value in a store of integers, and the
statements of a program take such a store to another (`Source.Runs`).
`Source.Core` describes the programs made of assignments, conditionals, loops
with invariants, `pass` and a final `return`.  Every run of such a program is a
run of the statement that it elaborates to (`Core.elaborated`).
-/

namespace HoareCheck

open Term

variable {left right expr test : Expr} {store final : String → Int} {source : CompareOp}
  {operator : Operator} {mode : RunMode} {returns : Bool} {ending : Ending}
  {interp : Interpretation} {claims : List Term}

/-- The store in which every variable holds its integer. -/
def Store.ofInts (store : String → Int) : Store :=
  fun name => .int (store name)

theorem Store.ofInts_isInteger (store : String → Int) : (ofInts store).IsInteger :=
  fun name => ⟨store name, rfl⟩

theorem Store.ofInts_update (store : String → Int) (name : String) (value : Int) :
    ofInts (Function.update store name value) = Function.update (ofInts store) name (.int value) :=
  funext fun other => by by_cases hother : other = name <;> simp [ofInts, hother]

namespace Source

/-! ## Values and runs -/

def BinaryOp.onInts? : BinaryOp → Option (Int → Int → Int)
  | .add => some (· + ·)
  | .sub => some (· - ·)
  | .mult => some (· * ·)
  | _ => none

def CompareOp.onInts? : CompareOp → Option (Int → Int → Bool)
  | .eq => some fun left right => left = right
  | .notEq => some fun left right => left ≠ right
  | .lt => some fun left right => left < right
  | .ltE => some fun left right => left ≤ right
  | .gt => some fun left right => left > right
  | .gtE => some fun left right => left ≥ right
  | _ => none

/-- The value of an integer expression. -/
def Expr.value? (store : String → Int) : Expr → Option Int
  | .name id => some (store id)
  | .constant (.int value) => some value
  | .binary left operator right => do
      let operation ← operator.onInts?
      return operation (← left.value? store) (← right.value? store)
  | .unary .minus operand => do
      return -(← operand.value? store)
  | _ => none

/-- The outcome of a test.  The right side of a logical operator is looked at
only if the left side leaves the outcome open. -/
def Expr.test? (store : String → Int) : Expr → Option Bool
  | .compare left operator right [] [] => do
      let relation ← operator.onInts?
      return relation (← left.value? store) (← right.value? store)
  | .logical .and left right => do
      if ← left.test? store then right.test? store else return false
  | .logical .or left right => do
      if ← left.test? store then return true else right.test? store
  | .unary .not operand => do
      return !(← operand.test? store)
  | _ => none

/-- How the run of a block ends: after its last statement, or by a return from
the function. -/
inductive Ending
  | normal
  | returned

/-- Runs of the statements of a block.  A call of `invariant` does nothing. -/
inductive Runs : List Stmt → (String → Int) → Ending → (String → Int) → Prop
  | done {store : String → Int} : Runs [] store .normal store
  | pass {rest : List Stmt} {store final : String → Int} {ending : Ending} :
      Runs rest store ending final → Runs (.pass :: rest) store ending final
  | invariant {arguments : List Expr} {rest : List Stmt} {store final : String → Int}
      {ending : Ending} :
      Runs rest store ending final →
      Runs (.expr (.call (.name "invariant") arguments) :: rest) store ending final
  | assign {name : String} {value : Expr} {result : Int} {rest : List Stmt}
      {store final : String → Int} {ending : Ending} :
      value.value? store = some result →
      Runs rest (Function.update store name result) ending final →
      Runs (.assign [.name name] value :: rest) store ending final
  | returned {value : Option Expr} {rest : List Stmt} {store : String → Int} :
      Runs (.returned value :: rest) store .returned store
  | ifElse {test : Expr} {flag : Bool} {body orElse rest : List Stmt}
      {store between final : String → Int} {ending : Ending} :
      test.test? store = some flag →
      Runs (if flag then body else orElse) store .normal between →
      Runs rest between ending final →
      Runs (.ifElse test body orElse :: rest) store ending final
  | ifReturned {test : Expr} {flag : Bool} {body orElse rest : List Stmt}
      {store final : String → Int} :
      test.test? store = some flag →
      Runs (if flag then body else orElse) store .returned final →
      Runs (.ifElse test body orElse :: rest) store .returned final
  | loopEnd {test : Expr} {body orElse rest : List Stmt} {store final : String → Int}
      {ending : Ending} :
      test.test? store = some false →
      Runs (orElse ++ rest) store ending final →
      Runs (.whileLoop test body orElse :: rest) store ending final
  | loopAgain {test : Expr} {body orElse rest : List Stmt}
      {store between final : String → Int} {ending : Ending} :
      test.test? store = some true →
      Runs body store .normal between →
      Runs (.whileLoop test body orElse :: rest) between ending final →
      Runs (.whileLoop test body orElse :: rest) store ending final
  | loopReturned {test : Expr} {body orElse rest : List Stmt}
      {store final : String → Int} :
      test.test? store = some true →
      Runs body store .returned final →
      Runs (.whileLoop test body orElse :: rest) store .returned final

/-! ## The core of the language -/

/-- An integer expression over names and integers.  No name holds a number sign,
which would start a comment. -/
def Expr.isArithmetic : Expr → Bool
  | .name id => '#' ∉ id.toList
  | .constant (.int _) => true
  | .binary left operator right =>
    operator ∈ [.add, .sub, .mult] && left.isArithmetic && right.isArithmetic
  | .unary .minus operand => operand.isArithmetic
  | _ => false

/-- A test: single comparisons of integer expressions under logical operators. -/
def Expr.isTest : Expr → Bool
  | .compare left _ right [] [] => left.isArithmetic && right.isArithmetic
  | .logical _ left right => left.isTest && right.isTest
  | .unary .not operand => operand.isTest
  | _ => false

/-- Blocks of the core language.  Only the body of a loop holds invariants, and
only the body of the function ends with a return. -/
inductive Core : (inLoop returns : Bool) → List Stmt → Prop
  | done {inLoop returns : Bool} : Core inLoop returns []
  | returned {inLoop : Bool} {value : Option Expr} : Core inLoop true [.returned value]
  | pass {inLoop returns : Bool} {rest : List Stmt} :
      Core inLoop returns rest → Core inLoop returns (.pass :: rest)
  | assign {inLoop returns : Bool} {name : String} {value : Expr} {rest : List Stmt} :
      value.isArithmetic = true → Core inLoop returns rest →
      Core inLoop returns (.assign [.name name] value :: rest)
  | ifElse {inLoop returns : Bool} {test : Expr} {body orElse rest : List Stmt} :
      test.isTest = true → Core false false body → Core false false orElse →
      Core inLoop returns rest → Core inLoop returns (.ifElse test body orElse :: rest)
  | whileLoop {inLoop returns : Bool} {test : Expr} {body rest : List Stmt} :
      test.isTest = true → Core true false body → Core inLoop returns rest →
      Core inLoop returns (.whileLoop test body [] :: rest)
  | invariant {returns : Bool} {text : String} {claim : Term} {rest : List Stmt} :
      Term.ofClaim text = .ok claim → claim.isElementary = true →
      Core true returns rest →
      Core true returns
        (.expr (.call (.name "invariant") [.constant (.text text)]) :: rest)

/-! ## Elaboration of expressions -/

section Expressions

variable {term : Term} {before after : WriteLog} {store : String → Int}

/-- The counterpart of an operator on integers is on integers what the operator
is. -/
theorem BinaryOp.onInts_of_operator? {source : BinaryOp} {operation : Int → Int → Int}
    (hoperator : source.operator? = some operator) (hoperation : source.onInts? = some operation)
    (left right : Int) :
    Interpretation.standard.applyBinary operator (.int left) (.int right) =
      .int (operation left right) := by
  cases source <;> cases hoperation <;> cases hoperator <;> rfl

theorem CompareOp.onInts_of_operator? {relation : Int → Int → Bool}
    (hoperator : source.operator? = some operator) (hrelation : source.onInts? = some relation)
    (left right : Int) :
    Interpretation.standard.applyBinary operator (.int left) (.int right) =
      .bool (relation left right) := by
  cases source <;> cases hrelation <;> cases hoperator <;> rfl

theorem BinaryOp.operator?_mem {source : BinaryOp} (hsource : source ∈ [BinaryOp.add, .sub, .mult])
    (hoperator : source.operator? = some operator) : operator ∈ [Operator.add, .minus, .mult] := by
  cases source <;> cases hoperator <;> simp at hsource ⊢

theorem CompareOp.operator?_not_mem (hoperator : source.operator? = some operator) :
    operator ∉ [Operator.div, .mod, .adjacent] := by
  cases source <;> cases hoperator <;> simp

theorem Expr.gives_elaborate_binary {source : BinaryOp}
    (hgives : Gives ((Expr.binary left source right).elaborate mode) before term after) :
    ∃ leftTerm between rightTerm operator, Gives (left.elaborate mode) before leftTerm between ∧
      Gives (right.elaborate mode) between rightTerm after ∧
      source.operator? = some operator ∧ term = .binary leftTerm operator rightTerm := by
  simp only [elaborate, gives_bind] at hgives
  obtain ⟨leftTerm, between, hleft, rightTerm, _, hright, hterm⟩ := hgives
  cases hoperator : source.operator? with
  | none => simp [hoperator] at hterm
  | some operator =>
    simp only [hoperator, gives_pure] at hterm
    obtain ⟨rfl, rfl⟩ := hterm
    exact ⟨leftTerm, between, rightTerm, operator, hleft, hright, rfl, rfl⟩

theorem Expr.gives_elaborate_compare {moreOperators : List CompareOp} {moreOperands : List Expr}
    (hgives : Gives
      ((Expr.compare left source right moreOperators moreOperands).elaborate mode)
      before term after) : ∃ leftTerm between rightTerm operator,
      Gives (left.elaborate mode) before leftTerm between ∧
      Gives (right.elaborate mode) between rightTerm after ∧
      source.operator? = some operator ∧ term = .binary leftTerm operator rightTerm := by
  simp only [elaborate, gives_bind] at hgives
  obtain ⟨leftTerm, between, hleft, rightTerm, _, hright, hterm⟩ := hgives
  cases hoperator : source.operator? with
  | none => simp [hoperator] at hterm
  | some operator =>
    simp only [hoperator, gives_pure] at hterm
    obtain ⟨rfl, rfl⟩ := hterm
    exact ⟨leftTerm, between, rightTerm, operator, hleft, hright, rfl, rfl⟩

/-- An integer expression elaborates to one. -/
theorem Expr.isArithmetic_elaborate (harithmetic : expr.isArithmetic = true)
    (hgives : Gives (expr.elaborate .single) before term after) : term.isArithmetic = true := by
  fun_induction Expr.isArithmetic expr generalizing before term after with
  | case1 =>
    rw [elaborate_name, gives_pure] at hgives
    simpa [← hgives.1, Term.isArithmetic] using harithmetic
  | case2 =>
    obtain ⟨rfl, -⟩ := gives_pure.mp hgives
    rfl
  | case3 _ _ _ ihleft ihright =>
    simp only [Bool.and_eq_true, decide_eq_true_eq] at harithmetic
    obtain ⟨⟨hoperator, hleft⟩, hright⟩ := harithmetic
    obtain ⟨_, _, _, _, hleftTerm, hrightTerm, hcounterpart, rfl⟩ := gives_elaborate_binary hgives
    simp only [Term.isArithmetic, ihleft hleft hleftTerm, ihright hright hrightTerm,
      BinaryOp.operator?_mem hoperator hcounterpart, decide_true, Bool.and_self]
  | case4 _ ih =>
    simp only [elaborate, UnaryOp.operator?, gives_bind, gives_pure] at hgives
    obtain ⟨_, _, hoperand, rfl, -⟩ := hgives
    simpa only [Term.isArithmetic] using ih harithmetic hoperand
  | case5 => simp at harithmetic

/-- An integer expression has the value of the term that it elaborates to. -/
theorem Expr.eval_elaborate {value : Int} (hvalue : expr.value? store = some value)
    (hgives : Gives (expr.elaborate .single) before term after) :
    term.eval .standard (.ofInts store) = .int value := by
  fun_induction Expr.value? store expr generalizing before term after value with
  | case1 =>
    obtain ⟨rfl, -⟩ := gives_pure.mp hgives
    cases hvalue
    rfl
  | case2 =>
    obtain ⟨rfl, -⟩ := gives_pure.mp hgives
    cases hvalue
    rfl
  | case3 _ _ _ ihleft ihright =>
    simp only [Option.bind_eq_bind, Option.bind_eq_some_iff, Option.pure_def,
      Option.some.injEq] at hvalue
    obtain ⟨_, hoperation, leftValue, hleft, rightValue, hright, rfl⟩ := hvalue
    obtain ⟨_, _, _, _, hleftTerm, hrightTerm, hcounterpart, rfl⟩ := gives_elaborate_binary hgives
    rw [eval_binary, ihleft hleft hleftTerm, ihright hright hrightTerm]
    exact BinaryOp.onInts_of_operator? hcounterpart hoperation leftValue rightValue
  | case4 _ ih =>
    simp only [Option.bind_eq_bind, Option.bind_eq_some_iff, Option.pure_def,
      Option.some.injEq] at hvalue
    obtain ⟨_, hoperand, rfl⟩ := hvalue
    simp only [elaborate, UnaryOp.operator?, gives_bind, gives_pure] at hgives
    obtain ⟨_, _, hoperandTerm, rfl, -⟩ := hgives
    rw [eval_unary, ih hoperand hoperandTerm]
    rfl
  | case5 => cases hvalue

/-- A test elaborates to an elementary claim. -/
theorem Expr.isElementary_elaborate (htest : expr.isTest = true)
    (hgives : Gives (expr.elaborate .single) before term after) : term.isElementary = true := by
  fun_induction Expr.isTest expr generalizing before term after with
  | case1 =>
    simp only [Bool.and_eq_true] at htest
    obtain ⟨_, _, _, _, hleftTerm, hrightTerm, hcounterpart, rfl⟩ := gives_elaborate_compare hgives
    have hleft := isElementary_of_isArithmetic (isArithmetic_elaborate htest.1 hleftTerm)
    have hright := isElementary_of_isArithmetic (isArithmetic_elaborate htest.2 hrightTerm)
    simp only [isElementary, hleft, hright,
      CompareOp.operator?_not_mem hcounterpart, not_false_eq_true, decide_true, Bool.and_self]
  | case2 operator _ _ ihleft ihright =>
    simp only [Bool.and_eq_true] at htest
    simp only [elaborate, gives_bind, gives_pure] at hgives
    obtain ⟨_, _, hleftTerm, _, _, hrightTerm, rfl, -⟩ := hgives
    cases operator <;>
      simp [isElementary, LogicalOp.operator, ihleft htest.1 hleftTerm, ihright htest.2 hrightTerm]
  | case3 _ ih =>
    simp only [elaborate, UnaryOp.operator?, gives_bind, gives_pure] at hgives
    obtain ⟨_, _, hoperand, rfl, -⟩ := hgives
    simpa only [isElementary] using ih htest hoperand
  | case4 => simp at htest

/-- A test has the outcome of the claim that it elaborates to. -/
theorem Expr.holds_elaborate {flag : Bool} (hflag : expr.test? store = some flag)
    (hgives : Gives (expr.elaborate .single) before term after) :
    term.Holds .standard (.ofInts store) ↔ flag = true := by
  fun_induction Expr.test? store expr generalizing before term after flag with
  | case1 =>
    simp only [Option.bind_eq_bind, Option.bind_eq_some_iff, Option.pure_def,
      Option.some.injEq] at hflag
    obtain ⟨_, hrelation, _, hleft, _, hright, rfl⟩ := hflag
    obtain ⟨_, _, _, _, hleftTerm, hrightTerm, hcounterpart, rfl⟩ := gives_elaborate_compare hgives
    rw [Term.Holds, eval_binary, eval_elaborate hleft hleftTerm,
      eval_elaborate hright hrightTerm,
      CompareOp.onInts_of_operator? hcounterpart hrelation, Value.truth_bool]
  | case2 _ _ ihleft ihright =>
    simp only [Option.bind_eq_bind, Option.bind_eq_some_iff, Option.pure_def] at hflag
    obtain ⟨leftFlag, hleft, hflag⟩ := hflag
    simp only [elaborate, LogicalOp.operator, gives_bind, gives_pure] at hgives
    obtain ⟨_, _, hleftTerm, _, _, hrightTerm, rfl, -⟩ := hgives
    rw [holds_and, ihleft hleft hleftTerm]
    cases leftFlag with
    | false =>
      cases hflag
      simp
    | true => simp [ihright hflag hrightTerm]
  | case3 _ _ ihleft ihright =>
    simp only [Option.bind_eq_bind, Option.bind_eq_some_iff, Option.pure_def] at hflag
    obtain ⟨leftFlag, hleft, hflag⟩ := hflag
    simp only [elaborate, LogicalOp.operator, gives_bind, gives_pure] at hgives
    obtain ⟨_, _, hleftTerm, _, _, hrightTerm, rfl, -⟩ := hgives
    rw [holds_or, ihleft hleft hleftTerm]
    cases leftFlag with
    | false => simp [ihright hflag hrightTerm]
    | true =>
      cases hflag
      simp
  | case4 _ ih =>
    simp only [Option.bind_eq_bind, Option.bind_eq_some_iff, Option.pure_def,
      Option.some.injEq] at hflag
    obtain ⟨_, hoperand, rfl⟩ := hflag
    simp only [elaborate, UnaryOp.operator?, gives_bind, gives_pure] at hgives
    obtain ⟨_, _, hoperandTerm, rfl, -⟩ := hgives
    rw [holds_not, ih hoperand hoperandTerm]
    simp
  | case5 => cases hflag

end Expressions

/-! ## Elaboration of blocks -/

/-- Without a return, a run goes to the end of its block. -/
theorem Core.ending_eq {inLoop : Bool} {block : List Stmt} (hcore : Core inLoop false block)
    (hruns : Runs block store ending final) : ending = .normal := by
  induction hruns generalizing inLoop with
  | done => rfl
  | pass _ ih =>
    cases hcore with
    | pass hrest => exact ih hrest
  | invariant _ ih =>
    cases hcore with
    | invariant _ _ hrest => exact ih hrest
  | assign _ _ ih =>
    cases hcore with
    | assign _ hrest => exact ih hrest
  | returned => cases hcore
  | ifElse _ _ _ _ ihrest =>
    cases hcore with
    | ifElse _ _ _ hrest => exact ihrest hrest
  | @ifReturned _ flag _ _ _ _ _ _ _ ihbranch =>
    cases hcore with
    | ifElse _ hbody horElse =>
      cases flag with
      | true => exact ihbranch hbody
      | false => exact ihbranch horElse
  | loopEnd _ _ ih =>
    cases hcore with
    | whileLoop _ _ hrest => exact ih hrest
  | loopAgain _ _ _ _ ihloop => exact ihloop hcore
  | loopReturned _ _ ihbody =>
    cases hcore with
    | whileLoop _ hbody => exact ihbody hbody

/-- A term after those that stand before it. -/
def following : Option Term → Term → Term
  | some before, term => before.andThen term
  | none, term => term

section Blocks

variable {mode : RunMode} {inLoop : Bool} {before result : Option Term} {term : Term}
  {statement : Stmt} {rest block : List Stmt} {log next : WriteLog}

/-- Elaboration of a block goes on from its first statement. -/
theorem gives_elaborateBlock_cons (hstatement : (inLoop && statement.isInvariant) = false) :
    Gives (elaborateBlock mode inLoop before (statement :: rest)) log result next ↔
      ∃ term between, Gives (statement.elaborate mode) log term between ∧
        Gives (elaborateBlock mode inLoop (some (following before term)) rest) between
          result next := by
  rw [elaborateBlock, hstatement]
  cases before <;> simp [following]

theorem isElementaryProgram_orSkip (hterm : term.isElementaryProgram = true) :
    term.orSkip.isElementaryProgram = true := by
  rwa [orSkip_eq_self]
  rintro rfl
  simp [Term.isElementaryProgram] at hterm

theorem isElementaryProgram_andThen {first second : Term}
    (hfirst : first.isElementaryProgram = true) (hsecond : second.isElementaryProgram = true) :
    (first.andThen second).isElementaryProgram = true := by
  simp [andThen, Term.isElementaryProgram, isElementaryProgram_orSkip hfirst,
    isElementaryProgram_orSkip hsecond]

theorem isElementaryProgram_asBlock (hblock : (result.getD .skip).isElementaryProgram = true) :
    (asBlock result).isElementaryProgram = true := by
  fun_cases asBlock result with
  | case1 | case2 => exact hblock
  | case3 => exact isElementaryProgram_andThen hblock rfl

theorem exec_asBlock {havoc : HavocRule} {start final : Store}
    (hexec : Exec interp havoc (result.getD .skip) start (.done final)) :
    Exec interp havoc (asBlock result) start (.done final) := by
  fun_cases asBlock result with
  | case1 | case2 => exact hexec
  | case3 => exact .seq hexec.orSkip .skip

/-- The invariants of a block of the core language are elementary claims. -/
theorem Core.isElementary_invariants (hcore : Core inLoop returns block)
    (hgives : Gives (invariants block) log claims next) :
    ∀ claim ∈ claims, claim.isElementary = true := by
  induction hcore generalizing log claims next with
  | done | returned =>
    obtain ⟨rfl, -⟩ := gives_pure.mp hgives
    simp
  | pass _ ih | assign _ _ ih | ifElse _ _ _ _ _ _ ih | whileLoop _ _ _ _ ih => exact ih hgives
  | invariant hparse helementary _ ih =>
    simp only [invariants, Stmt.call?, Expr.calledName, claimArgument, pure_bind, if_true,
      gives_bind, Term.gives_parse hparse helementary, gives_pure] at hgives
    obtain ⟨_, _, ⟨rfl, rfl⟩, _, _, hothers, rfl, -⟩ := hgives
    intro claim hclaim
    rcases List.mem_cons.mp hclaim with rfl | hclaim
    · exact helementary
    · exact ih hothers claim hclaim

theorem isElementary_conjunction (hclaims : ∀ claim ∈ claims, claim.isElementary = true) :
    (conjunction claims).isElementary = true := by
  cases claims with
  | nil => rfl
  | cons first others =>
    rw [conjunction]
    induction others generalizing first with
    | nil => exact hclaims first (by simp)
    | cons _ _ ih =>
      apply ih
      intro claim hclaim
      rcases List.mem_cons.mp hclaim with rfl | hclaim
      · simp [isElementary, hclaims]
      · exact hclaims claim (by simp [hclaim])

variable (havoc : HavocRule)

/-- The term makes the step that the statement makes before the rest of its
block. -/
def Simulates (statement : Stmt) (term : Term) : Prop :=
  ∀ rest store ending final, Runs (statement :: rest) store ending final →
    ∃ between, Exec .standard havoc term (.ofInts store) (.done (.ofInts between)) ∧
      Runs rest between ending final

/-- The term of a block, elaborated after what stands before it, is a program
that goes on with the runs of the block. -/
structure Elaborated (block : List Stmt) (before result : Option Term) : Prop where
  isElementaryProgram : (before.getD .skip).isElementaryProgram = true →
    (result.getD .skip).isElementaryProgram = true
  exec : ∀ start store ending final,
    Exec .standard havoc (before.getD .skip) start (.done (.ofInts store)) →
    Runs block store ending final →
    Exec .standard havoc (result.getD .skip) start (.done (.ofInts final))

variable {havoc}

theorem isElementaryProgram_following (hbefore : (before.getD .skip).isElementaryProgram = true)
    (hterm : term.isElementaryProgram = true) :
    (following before term).isElementaryProgram = true := by
  cases before with
  | none => exact hterm
  | some => exact isElementaryProgram_andThen hbefore hterm

theorem exec_following {start between final : Store}
    (hbefore : Exec interp havoc (before.getD .skip) start (.done between))
    (hterm : Exec interp havoc term between (.done final)) :
    Exec interp havoc (following before term) start (.done final) := by
  cases before with
  | none =>
    cases hbefore
    exact hterm
  | some => exact .seq hbefore.orSkip hterm.orSkip

/-- A statement in front of a block. -/
theorem Elaborated.cons (hterm : term.isElementaryProgram = true)
    (hsimulates : Simulates havoc statement term)
    (hrest : Elaborated havoc rest (some (following before term)) result) :
    Elaborated havoc (statement :: rest) before result where
  isElementaryProgram hbefore :=
    hrest.isElementaryProgram (isElementaryProgram_following hbefore hterm)
  exec start store ending final hbefore hruns := by
    obtain ⟨between, hstep, hruns⟩ := hsimulates rest store ending final hruns
    exact hrest.exec start between ending final (exec_following hbefore hstep) hruns

/-- A block on its own. -/
theorem Elaborated.asBlock_exec (hblock : Elaborated havoc block none result)
    (hruns : Runs block store ending final) :
    Exec .standard havoc (asBlock result).orSkip (.ofInts store) (.done (.ofInts final)) :=
  (exec_asBlock (hblock.exec _ store ending final .skip hruns)).orSkip

theorem Elaborated.asBlock_isElementaryProgram (hblock : Elaborated havoc block none result) :
    (asBlock result).orSkip.isElementaryProgram = true :=
  isElementaryProgram_orSkip (isElementaryProgram_asBlock (hblock.isElementaryProgram rfl))

theorem simulates_pass : Simulates havoc .pass .skip := by
  rintro _ store _ _ (_ | hrest)
  exact ⟨store, .skip, hrest⟩

theorem simulates_assign {name : String} {value : Expr} {charge : Bool}
    (hvalue : Gives (value.elaborate .single) log term next) :
    Simulates havoc (.assign [.name name] value) (.assign (.var name) term charge) := by
  rintro _ store _ _ hruns
  cases hruns with
  | @assign _ _ result _ _ _ _ hresult hrest =>
    refine ⟨Function.update store name result, ?_, hrest⟩
    rw [Store.ofInts_update, ← Expr.eval_elaborate hresult hvalue]
    exact .assign

theorem simulates_ifElse {body orElse : List Stmt} {thenResult elseResult : Option Term}
    (htest : Gives (test.elaborate .single) log term next) (hbodyCore : Core false false body)
    (horElseCore : Core false false orElse) (hbody : Elaborated havoc body none thenResult)
    (horElse : Elaborated havoc orElse none elseResult) : Simulates havoc (.ifElse test body orElse)
      (term.branch (asBlock thenResult) (asBlock elseResult)) := by
  rintro _ _ _ _ hruns
  cases hruns with
  | @ifElse _ flag _ _ _ _ between _ _ hflag hbranch hrest =>
    refine ⟨between, ?_, hrest⟩
    have hholds := Expr.holds_elaborate hflag htest
    cases flag with
    | true => exact .ifTrue (hholds.mpr rfl) (hbody.asBlock_exec hbranch)
    | false => exact .ifFalse (by simp [hholds]) (horElse.asBlock_exec hbranch)
  | @ifReturned _ flag _ _ _ _ _ _ hbranch =>
    cases flag with
    | true => cases hbodyCore.ending_eq hbranch
    | false => cases horElseCore.ending_eq hbranch

theorem simulates_whileLoop {body : List Stmt} {bodyResult : Option Term} {invariant : Term}
    (htest : Gives (test.elaborate .single) log term next) (hbodyCore : Core true false body)
    (hbody : Elaborated havoc body none bodyResult) :
    Simulates havoc (.whileLoop test body [])
      (invariant.repeatWhile term (asBlock bodyResult)) := by
  intro rest store ending final hruns
  generalize hblock : Stmt.whileLoop test body [] :: rest = block at hruns
  induction hruns with
  | loopEnd hflag hrest =>
    cases hblock
    exact ⟨_, .loopEnd (by simp [Expr.holds_elaborate hflag htest]), hrest⟩
  | loopAgain hflag hiteration _ _ ihloop =>
    cases hblock
    obtain ⟨between, hloop, hrest⟩ := ihloop rfl
    exact ⟨between, .loopAgain ((Expr.holds_elaborate hflag htest).mpr rfl)
      (hbody.asBlock_exec hiteration) hloop, hrest⟩
  | loopReturned _ hiteration =>
    cases hblock
    cases hbodyCore.ending_eq hiteration
  | _ => cases hblock

/-- A block of the core language elaborates to a program that has its runs. -/
theorem Core.elaborated (hcore : Core inLoop returns block)
    (hgives : Gives (elaborateBlock .single inLoop before block) log result next) :
    Elaborated havoc block before result := by
  induction hcore generalizing before log result next with
  | done =>
    rw [elaborateBlock_nil, gives_pure] at hgives
    obtain ⟨rfl, -⟩ := hgives
    refine ⟨id, fun start store ending final hexec hruns => ?_⟩
    cases hruns
    exact hexec
  | returned =>
    obtain ⟨_, _, hterm, hrest⟩ := (gives_elaborateBlock_cons (Bool.and_false _)).mp hgives
    obtain ⟨rfl, -⟩ := gives_pure.mp hterm
    obtain ⟨rfl, -⟩ := gives_pure.mp hrest
    refine ⟨fun hbefore => isElementaryProgram_following hbefore rfl,
      fun start store ending final hexec hruns => ?_⟩
    cases hruns
    exact exec_following hexec .skip
  | pass _ ih =>
    obtain ⟨_, _, hterm, hrest⟩ := (gives_elaborateBlock_cons (Bool.and_false _)).mp hgives
    rw [Stmt.elaborate_pass, gives_pure] at hterm
    obtain ⟨rfl, -⟩ := hterm
    exact .cons rfl simulates_pass (ih hrest)
  | assign hvalue _ ih =>
    obtain ⟨_, _, hterm, hrest⟩ := (gives_elaborateBlock_cons (Bool.and_false _)).mp hgives
    simp only [Stmt.elaborate, assignmentTarget, pure_bind, gives_bind, gives_pure] at hterm
    obtain ⟨_, _, hvalueTerm, rfl, -⟩ := hterm
    refine .cons ?_ (simulates_assign hvalueTerm) (ih hrest)
    simpa only [Term.isElementaryProgram] using
      Expr.isArithmetic_elaborate hvalue hvalueTerm
  | ifElse htest hbody horElse _ ihbody ihorElse ih =>
    obtain ⟨_, _, hterm, hrest⟩ := (gives_elaborateBlock_cons (Bool.and_false _)).mp hgives
    simp only [Stmt.elaborate, gives_bind, gives_pure] at hterm
    obtain ⟨_, _, htestTerm, _, _, hthen, _, _, helse, rfl, -⟩ := hterm
    refine .cons ?_ (simulates_ifElse htestTerm hbody horElse (ihbody hthen)
      (ihorElse helse)) (ih hrest)
    simp only [Term.branch, Term.isElementaryProgram, Expr.isElementary_elaborate htest htestTerm,
      (ihbody hthen).asBlock_isElementaryProgram,
      (ihorElse helse).asBlock_isElementaryProgram, Bool.and_self]
  | whileLoop htest hbody _ ihbody ih =>
    obtain ⟨_, _, hterm, hrest⟩ := (gives_elaborateBlock_cons (Bool.and_false _)).mp hgives
    simp only [Stmt.elaborate, gives_bind, gives_pure] at hterm
    obtain ⟨_, _, htestTerm, _, _, hclaims, _, _, hbodyTerm, rfl, -⟩ := hterm
    refine .cons ?_ (simulates_whileLoop htestTerm hbody (ihbody hbodyTerm)) (ih hrest)
    simp only [repeatWhile, Term.isElementaryProgram,
      isElementary_conjunction (hbody.isElementary_invariants hclaims),
      Expr.isElementary_elaborate htest htestTerm,
      (ihbody hbodyTerm).asBlock_isElementaryProgram, Bool.and_self]
  | invariant _ _ _ ih =>
    have hrest := ih hgives
    refine ⟨hrest.isElementaryProgram, fun start store ending final hexec hruns => ?_⟩
    cases hruns with
    | invariant hruns => exact hrest.exec start store ending final hexec hruns

end Blocks

/-! ## Programs -/

/-- The statements that are run: those of the function, if the program is one. -/
def statements : Program → List Stmt
  | [.functionDef _ body] => body
  | program => program

/-- A program of the core language elaborates to a statement that has its runs. -/
theorem elaborate_core {program : Program} {statement : Term} {log next : WriteLog}
    (havoc : HavocRule) (hcore : Core false true (statements program))
    (hgives : Gives (elaborate .single program) log statement next) :
    statement.isElementaryProgram = true ∧
      ∀ store ending final, Runs (statements program) store ending final →
        Exec .standard havoc statement (.ofInts store) (.done (.ofInts final)) := by
  simp only [elaborate, gives_bind, gives_pure] at hgives
  obtain ⟨result, _, hresult, rfl, -⟩ := hgives
  revert hcore
  fun_cases statements program with
  | case1 _ body =>
    intro hcore
    rw [gives_elaborateBlock_cons rfl] at hresult
    obtain ⟨_, _, hterm, hrest⟩ := hresult
    obtain ⟨rfl, -⟩ := gives_pure.mp hrest
    simp only [Stmt.elaborate, gives_bind, gives_pure] at hterm
    obtain ⟨block, _, hblock, rfl, -⟩ := hterm
    have helaborated : Elaborated havoc body none block := hcore.elaborated hblock
    refine ⟨isElementaryProgram_asBlock
      (isElementaryProgram_asBlock (helaborated.isElementaryProgram rfl)), ?_⟩
    intro store ending final hruns
    exact exec_asBlock (exec_asBlock (helaborated.exec _ store ending final .skip hruns))
  | case2 =>
    intro hcore
    have helaborated : Elaborated havoc program none result := hcore.elaborated hresult
    refine ⟨isElementaryProgram_asBlock (helaborated.isElementaryProgram rfl), ?_⟩
    intro store ending final hruns
    exact exec_asBlock (helaborated.exec _ store ending final .skip hruns)

end Source

end HoareCheck
