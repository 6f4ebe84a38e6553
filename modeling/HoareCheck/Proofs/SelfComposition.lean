import HoareCheck.Proofs.ForkedClaims
import HoareCheck.Proofs.TracedRuns

/-!
# Two runs in one statement

The statement that a program elaborates to when some names are forked works on
a joint store, which holds the variables of two runs of the program under
`v#1` and `v#2`.  If the forked names are those that the program assigns, the
statement ends without a failed assertion exactly if both runs end after tests
with the same outcomes, and it ends in the joint store of their ends.
-/

namespace HoareCheck

open Store

variable {base first second store final : Store} {firstTerm secondTerm : Term}
  {thenTerms elseTerms : List Term} {body orElse : List Stmt} {name : String} {value : Value}
  {interp : Interpretation} {test : Expr}

namespace Source

/-! ## Names of programs -/

/-- The names that an expression of the core language reads. -/
def Expr.names : Expr → List String
  | .name id => [id]
  | .binary left _ right | .logical _ left right | .compare left _ right _ _ =>
    left.names ++ right.names
  | .unary _ operand => operand.names
  | _ => []

mutual

/-- The names that a statement of the core language assigns. -/
def Stmt.assigned : Stmt → List String
  | .assign [.name name] _ => [name]
  | .ifElse _ body orElse => assignedNames body ++ assignedNames orElse
  | .whileLoop _ body orElse => assignedNames body ++ assignedNames orElse
  | _ => []

@[inherit_doc Stmt.assigned]
def assignedNames : List Stmt → List String
  | [] => []
  | statement :: rest => statement.assigned ++ assignedNames rest

end

mutual

/-- The names that the values and tests of a statement read. -/
def Stmt.reads : Stmt → List String
  | .assign _ value => value.names
  | .ifElse test body orElse => test.names ++ readNames body ++ readNames orElse
  | .whileLoop test body orElse => test.names ++ readNames body ++ readNames orElse
  | _ => []

@[inherit_doc Stmt.reads]
def readNames : List Stmt → List String
  | [] => []
  | statement :: rest => statement.reads ++ readNames rest

end

/-! ## Forked expressions -/

section Expressions

variable {kinds : String → Kind} {kind : Kind} {expr : Expr} {names : List String}

/-- Expressions of the core language do not tell how many runs there are. -/
theorem Expr.HasKind.elaborate_eq (hkind : expr.HasKind kinds kind) (mode : RunMode) :
    expr.elaborate mode = expr.elaborate .single := by
  induction hkind with
  | name | constant => simp only [Expr.elaborate]
  | arithmetic _ _ _ ihleft ihright | comparison _ _ _ ihleft ihright
  | logical _ _ ihleft ihright => simp only [Expr.elaborate, ihleft, ihright]
  | negative _ ih | not _ ih => simp only [Expr.elaborate, ih]

/-- The term of an expression is a claim without binders over its names. -/
theorem Expr.HasKind.isOver (hkind : expr.HasKind kinds kind) {term : Term}
    {before after : WriteLog} (hgives : Gives (expr.elaborate .single) before term after) :
    term.IsOver expr.names := by
  induction hkind generalizing term before after with
  | name =>
    simp only [Expr.elaborate, gives_pure] at hgives
    obtain ⟨rfl, -⟩ := hgives
    exact ⟨rfl, rfl, rfl⟩
  | constant =>
    simp only [Expr.elaborate, Literal.readInt] at hgives
    obtain ⟨rfl, -⟩ := hgives
    exact ⟨rfl, rfl, rfl⟩
  | arithmetic hsource _ _ ihleft ihright =>
    obtain ⟨_, operator, -, hoperator, -⟩ := BinaryOp.counterpart hsource
    simp only [Expr.elaborate, hoperator, gives_bind, gives_pure] at hgives
    obtain ⟨_, _, hleft, _, _, hright, rfl, -⟩ := hgives
    exact (ihleft hleft).binary (ihright hright) operator
  | comparison hsource _ _ ihleft ihright =>
    obtain ⟨_, operator, -, hoperator, -⟩ := CompareOp.counterpart hsource
    simp only [Expr.elaborate, hoperator, gives_bind, gives_pure] at hgives
    obtain ⟨_, _, hleft, _, _, hright, rfl, -⟩ := hgives
    exact (ihleft hleft).binary (ihright hright) operator
  | logical _ _ ihleft ihright =>
    simp only [Expr.elaborate, gives_bind, gives_pure] at hgives
    obtain ⟨_, _, hleft, _, _, hright, rfl, -⟩ := hgives
    exact (ihleft hleft).binary (ihright hright) _
  | negative _ ih | not _ ih =>
    simp only [Expr.elaborate, UnaryOp.operator?, gives_bind, gives_pure] at hgives
    obtain ⟨_, _, hoperand, rfl, -⟩ := hgives
    exact (ih hoperand).unary _

/-- The stores of two runs that started from one store `base`, but for the forked
names. -/
structure Paired (kinds : String → Kind) (names : List String) (base first second : Store) :
    Prop where
  firstKinds : first.HasKinds kinds
  secondKinds : second.HasKinds kinds
  firstAgrees : ∀ name ∉ names, first name = base name
  secondAgrees : ∀ name ∉ names, second name = base name

section

variable (hpaired : Paired kinds names base first second)

include hpaired

/-- A joint store tells the stores of its runs. -/
theorem Paired.eq_of_joint {otherFirst otherSecond : Store}
    (hother : Paired kinds names base otherFirst otherSecond)
    (hsame : joint names base first second = joint names base otherFirst otherSecond) :
    first = otherFirst ∧ second = otherSecond := by
  constructor
  · funext name
    by_cases hname : name ∈ names
    · have hcopy := congrFun hsame (firstCopy name)
      rwa [joint_firstCopy hname, joint_firstCopy hname] at hcopy
    · rw [hpaired.firstAgrees name hname, hother.firstAgrees name hname]
  · funext name
    by_cases hname : name ∈ names
    · have hcopy := congrFun hsame (secondCopy name)
      rwa [joint_secondCopy hname, joint_secondCopy hname] at hcopy
    · rw [hpaired.secondAgrees name hname, hother.secondAgrees name hname]

theorem Paired.update_first (hname : name ∈ names) (hvalue : value ∈ (kinds name).values) :
    Paired kinds names base (Function.update first name value) second where
  firstKinds := hpaired.firstKinds.update hvalue
  secondKinds := hpaired.secondKinds
  firstAgrees other hother := by
    rw [Function.update_of_ne (ne_of_mem_of_not_mem hname hother).symm]
    exact hpaired.firstAgrees other hother
  secondAgrees := hpaired.secondAgrees

theorem Paired.update_second (hname : name ∈ names) (hvalue : value ∈ (kinds name).values) :
    Paired kinds names base first (Function.update second name value) where
  firstKinds := hpaired.firstKinds
  secondKinds := hpaired.secondKinds.update hvalue
  firstAgrees := hpaired.firstAgrees
  secondAgrees other hother := by
    rw [Function.update_of_ne (ne_of_mem_of_not_mem hname hother).symm]
    exact hpaired.secondAgrees other hother

end

/-- Two terms that have, in a joint store, the values of an expression in the two
runs. -/
structure Forks (kinds : String → Kind) (names : List String) (expr : Expr) (kind : Kind)
    (firstTerm secondTerm : Term) : Prop where
  first : ∀ {base first second : Store}, Paired kinds names base first second →
    expr.evaluate? first =
      some (firstTerm.eval .counting (Store.joint names base first second)) ∧
    firstTerm.eval .counting (Store.joint names base first second) ∈ kind.values
  second : ∀ {base first second : Store}, Paired kinds names base first second →
    expr.evaluate? second =
      some (secondTerm.eval .counting (Store.joint names base first second)) ∧
    secondTerm.eval .counting (Store.joint names base first second) ∈ kind.values

/-- An expression elaborates to a term whose copies have its values in the two
runs. -/
theorem Expr.HasKind.forks (hkind : expr.HasKind kinds kind)
    (hexpr : ∀ name ∈ expr.names, IsUnmarked name)
    (hnames : ∀ name ∈ names, IsUnmarked name) :
    ∃ term first second, (∀ log, Gives (expr.elaborate (.forked names)) log term log) ∧
      isCharge term = false ∧ (∀ log, Gives (term.fork names) log (first, second) log) ∧
      Forks kinds names expr kind first second := by
  obtain ⟨term, hterm, hdenotes⟩ := hkind.elaborates
  have hover := hkind.isOver (hterm WriteLog.empty)
  obtain ⟨first, second, hfork, hfirst, hsecond⟩ := Term.gives_fork hover.isClaim hnames
  refine ⟨term, first, second, fun log => ?_, ?_, hfork, ?_, ?_⟩
  · rw [hkind.elaborate_eq]
    exact hterm log
  · cases term with
    | assign => cases hover.isClaim
    | _ => rfl
  · intro base left right hpaired
    have heval : first.eval .counting (joint names base left right) =
        term.eval .counting left := by
      apply hfirst.eval_of_unmarked firstCopy_injective not_isUnmarked_firstCopy hover hexpr
      intro name hname
      by_cases hmem : name ∈ names
      · rw [copied, if_pos hmem, joint_firstCopy hmem]
      · rw [copied, if_neg hmem, joint_unmarked hname, hpaired.firstAgrees name hmem]
    rw [heval]
    exact hdenotes left hpaired.firstKinds
  · intro base left right hpaired
    have heval : second.eval .counting (joint names base left right) =
        term.eval .counting right := by
      apply hsecond.eval_of_unmarked secondCopy_injective not_isUnmarked_secondCopy hover hexpr
      intro name hname
      by_cases hmem : name ∈ names
      · rw [copied, if_pos hmem, joint_secondCopy hmem]
      · rw [copied, if_neg hmem, joint_unmarked hname, hpaired.secondAgrees name hmem]
    rw [heval]
    exact hdenotes right hpaired.secondKinds

section Tests

variable {base first second : Store} {firstTerm secondTerm : Term}

/-- A test of the first run, and whether the second run agrees on it. -/
theorem Forks.passes (hforks : Forks kinds names expr .truth firstTerm secondTerm)
    (hpaired : Paired kinds names base first second) :
    ∃ firstFlag secondFlag, expr.passes? first = some firstFlag ∧
      expr.passes? second = some secondFlag ∧
      (firstTerm.Holds .counting (joint names base first second) ↔ firstFlag = true) ∧
      ((Term.binary firstTerm .iff secondTerm).Holds .counting
        (joint names base first second) ↔ firstFlag = secondFlag) := by
  obtain ⟨hfirstValue, firstFlag, hfirst⟩ := hforks.first hpaired
  obtain ⟨hsecondValue, secondFlag, hsecond⟩ := hforks.second hpaired
  refine ⟨firstFlag, secondFlag, ?_, ?_, ?_, ?_⟩
  · rw [Expr.passes?, hfirstValue, ← hfirst]
    rfl
  · rw [Expr.passes?, hsecondValue, ← hsecond]
    rfl
  · rw [Term.Holds, ← hfirst, Value.truth_bool]
  · rw [Term.Holds, Term.eval_binary, ← hfirst, ← hsecond]
    cases firstFlag <;> cases secondFlag <;> simp [Interpretation.applyBinary, Operator.connective?]

theorem Forks.holds_iff (hforks : Forks kinds names expr .truth firstTerm secondTerm)
    (hpaired : Paired kinds names base first second) :
    firstTerm.Holds .counting (joint names base first second) ↔
      expr.passes? first = some true := by
  obtain ⟨_, -, hfirst, -, hholds, -⟩ := hforks.passes hpaired
  rw [hholds, hfirst, Option.some.injEq]

theorem exec_agreement_iff {havoc : HavocRule} :
    Exec interp havoc (agreement firstTerm secondTerm) store (.done final) ↔
      (Term.binary firstTerm .iff secondTerm).Holds interp store ∧ store = final := by
  constructor
  · rintro ⟨⟩
    exact ⟨‹_›, rfl⟩
  · rintro ⟨hholds, rfl⟩
    exact .assertTrue hholds

/-- The assertion does not fail if the runs agree on the test. -/
theorem Forks.exec_agreement_iff
    (hforks : Forks kinds names expr .truth firstTerm secondTerm)
    (hpaired : Paired kinds names base first second) {havoc : HavocRule} {final : Store} :
    Exec .counting havoc (agreement firstTerm secondTerm)
        (joint names base first second) (.done final) ↔
      (∃ flag, expr.passes? first = some flag ∧ expr.passes? second = some flag) ∧
        joint names base first second = final := by
  obtain ⟨_, _, hfirst, hsecond, -, hagree⟩ := hforks.passes hpaired
  rw [Source.exec_agreement_iff, hagree, hfirst, hsecond]
  simp only [Option.some.injEq, exists_eq_left', eq_comm]

end Tests

end Expressions

/-! ## Statements -/

section Statements

variable (kinds : String → Kind) (havoc : HavocRule) (names : List String)

/-- The term takes joint stores to joint stores, and makes exactly the steps that
two runs of the statement make alike before the rest of their block. -/
structure Composes (statement : Stmt) (term : Term) : Prop where
  keeps : ∀ {base first second final : Store}, Paired kinds names base first second →
    Exec .counting havoc term.orSkip (Store.joint names base first second) (.done final) →
    ∃ firstFinal secondFinal, Paired kinds names base firstFinal secondFinal ∧
      Store.joint names base firstFinal secondFinal = final
  runAlike_iff : ∀ {base first second firstFinal secondFinal : Store} {rest : List Stmt},
    Paired kinds names base first second →
    (RunAlike (statement :: rest) first second firstFinal secondFinal ↔
      ∃ firstBetween secondBetween, Paired kinds names base firstBetween secondBetween ∧
        Exec .counting havoc term.orSkip (Store.joint names base first second)
          (.done (Store.joint names base firstBetween secondBetween)) ∧
        RunAlike rest firstBetween secondBetween firstFinal secondFinal)

/-- The terms, one after the other, take joint stores to joint stores, and make
exactly the runs that two runs of the block make alike. -/
structure ComposesAll (block : List Stmt) (terms : List Term) : Prop where
  keeps : ∀ {base first second final : Store}, Paired kinds names base first second →
    RunsThrough .counting havoc terms (Store.joint names base first second) (.done final) →
    ∃ firstFinal secondFinal, Paired kinds names base firstFinal secondFinal ∧
      Store.joint names base firstFinal secondFinal = final
  runAlike_iff : ∀ {base first second firstFinal secondFinal : Store},
    Paired kinds names base first second →
    (RunAlike block first second firstFinal secondFinal ↔
      Paired kinds names base firstFinal secondFinal ∧
        RunsThrough .counting havoc terms (Store.joint names base first second)
          (.done (Store.joint names base firstFinal secondFinal)))

variable {kinds havoc names} {statement : Stmt} {term : Term} {rest block : List Stmt}
  {terms : List Term}

theorem ComposesAll.cons (hstatement : Composes kinds havoc names statement term)
    (hrest : ComposesAll kinds havoc names rest terms) :
    ComposesAll kinds havoc names (statement :: rest) (term :: terms) where
  keeps hpaired hruns := by
    obtain ⟨_, hstep, hruns⟩ := runsThrough_cons_iff.mp hruns
    obtain ⟨_, _, hbetween, rfl⟩ := hstatement.keeps hpaired hstep
    exact hrest.keeps hbetween hruns
  runAlike_iff {base first second firstFinal secondFinal} hpaired := by
    rw [runsThrough_cons_iff, hstatement.runAlike_iff hpaired]
    constructor
    · rintro ⟨_, _, hbetween, hstep, halike⟩
      obtain ⟨hfinal, hruns⟩ := (hrest.runAlike_iff hbetween).mp halike
      exact ⟨hfinal, _, hstep, hruns⟩
    · rintro ⟨hfinal, _, hstep, hruns⟩
      obtain ⟨_, _, hbetween, rfl⟩ := hstatement.keeps hpaired hstep
      exact ⟨_, _, hbetween, hstep, (hrest.runAlike_iff hbetween).mpr ⟨hfinal, hruns⟩⟩

/-- A block as the body of a statement. -/
theorem ComposesAll.exec_iff (hblock : ComposesAll kinds havoc names block terms)
    (hpaired : Paired kinds names base first second) :
    Exec .counting havoc (asBlock (joined terms none)).orSkip
        (joint names base first second) (.done final) ↔
      ∃ firstFinal secondFinal, Paired kinds names base firstFinal secondFinal ∧
        RunAlike block first second firstFinal secondFinal ∧
        joint names base firstFinal secondFinal = final := by
  rw [orSkip_asBlock, exec_asBlock_iff]
  constructor
  · intro hruns
    obtain ⟨_, _, hfinal, rfl⟩ := hblock.keeps hpaired hruns
    exact ⟨_, _, hfinal, (hblock.runAlike_iff hpaired).mpr ⟨hfinal, hruns⟩, rfl⟩
  · rintro ⟨_, _, -, halike, rfl⟩
    exact ((hblock.runAlike_iff hpaired).mp halike).2

theorem composes_pass : Composes kinds havoc names .pass .skip where
  keeps hpaired hexec := by
    obtain rfl := exec_skip_iff.mp hexec
    exact ⟨_, _, hpaired, rfl⟩
  runAlike_iff {base first second firstFinal secondFinal rest} hpaired := by
    rw [runAlike_pass_iff]
    constructor
    · intro halike
      exact ⟨first, second, hpaired, .skip, halike⟩
    · rintro ⟨_, _, hbetween, hstep, halike⟩
      obtain ⟨rfl, rfl⟩ := hpaired.eq_of_joint hbetween (exec_skip_iff.mp hstep)
      exact halike

/-- Each copy is assigned the value of its run.  The first assignment does not
change the value of the second, which reads only the copies of its own run. -/
theorem Forks.exec_assign {value : Expr}
    (hforks : Forks kinds names value (kinds name) firstTerm secondTerm) (hname : name ∈ names)
    (hpaired : Paired kinds names base first second) :
    ∃ firstResult secondResult, value.evaluate? first = some firstResult ∧
      value.evaluate? second = some secondResult ∧
      Paired kinds names base (Function.update first name firstResult)
        (Function.update second name secondResult) ∧
      ∀ final, Exec .counting havoc ((Term.assign (.var (firstCopy name)) firstTerm false).andThen
          (.assign (.var (secondCopy name)) secondTerm false)).orSkip
          (joint names base first second) (.done final) ↔
        joint names base (Function.update first name firstResult)
          (Function.update second name secondResult) = final := by
  obtain ⟨hfirst, hfirstKind⟩ := hforks.first hpaired
  have hbetween := hpaired.update_first hname hfirstKind
  obtain ⟨hsecond, hsecondKind⟩ := hforks.second hbetween
  refine ⟨_, _, hfirst, hsecond, hbetween.update_second hname hsecondKind, fun final => ?_⟩
  constructor
  · rintro (_ | _ | _ | ⟨⟨⟩, ⟨⟩⟩)
    rw [update_joint_firstCopy hname, update_joint_secondCopy hname]
  · rintro rfl
    rw [← update_joint_secondCopy hname, ← update_joint_firstCopy hname]
    exact .seq .assign .assign

theorem composes_assign {value : Expr}
    (hforks : Forks kinds names value (kinds name) firstTerm secondTerm) (hname : name ∈ names) :
    Composes kinds havoc names (.assign [.name name] value)
      ((Term.assign (.var (firstCopy name)) firstTerm false).andThen
        (.assign (.var (secondCopy name)) secondTerm false)) where
  keeps hpaired hexec := by
    obtain ⟨_, _, -, -, hfinal, hiff⟩ := hforks.exec_assign hname hpaired
    exact ⟨_, _, hfinal, (hiff _).mp hexec⟩
  runAlike_iff {base first second firstFinal secondFinal rest} hpaired := by
    obtain ⟨_, _, hfirst, hsecond, hbetween, hiff⟩ := hforks.exec_assign hname hpaired
    rw [runAlike_assign_iff hfirst hsecond]
    constructor
    · intro halike
      exact ⟨_, _, hbetween, (hiff _).mpr rfl, halike⟩
    · rintro ⟨_, _, hother, hstep, halike⟩
      obtain ⟨rfl, rfl⟩ := hbetween.eq_of_joint hother ((hiff _).mp hstep)
      exact halike

theorem exec_andThen_iff {first second : Term} :
    Exec interp havoc (first.andThen second).orSkip store (.done final) ↔
      ∃ between, Exec interp havoc first.orSkip store (.done between) ∧
        Exec interp havoc second.orSkip between (.done final) :=
  exec_seq_iff

/-- Both runs take the branch that the first chooses, if they agree. -/
theorem Forks.exec_branch_iff (hforks : Forks kinds names test .truth firstTerm secondTerm)
    (hpaired : Paired kinds names base first second) :
    Exec .counting havoc
        ((agreement firstTerm secondTerm).andThen (firstTerm.branch
          (asBlock (joined thenTerms none)) (asBlock (joined elseTerms none)))).orSkip
        (joint names base first second) (.done final) ↔
      ∃ flag, test.passes? first = some flag ∧ test.passes? second = some flag ∧
        Exec .counting havoc
          (asBlock (joined (if flag then thenTerms else elseTerms) none)).orSkip
          (joint names base first second) (.done final) := by
  have hholds := hforks.holds_iff hpaired
  rw [exec_andThen_iff]
  constructor
  · rintro ⟨_, hagrees, hbranch⟩
    obtain ⟨⟨flag, hfirst, hsecond⟩, rfl⟩ := (hforks.exec_agreement_iff hpaired).mp hagrees
    refine ⟨flag, hfirst, hsecond, ?_⟩
    rw [hfirst, Option.some.injEq] at hholds
    cases hbranch with
    | ifTrue htrue => rwa [hholds.mp htrue]
    | ifFalse hfalse => rwa [Bool.eq_false_iff.mpr (mt hholds.mpr hfalse)]
  · rintro ⟨flag, hfirst, hsecond, hbranch⟩
    refine ⟨_, (hforks.exec_agreement_iff hpaired).mpr ⟨⟨flag, hfirst, hsecond⟩, rfl⟩, ?_⟩
    rw [hfirst, Option.some.injEq] at hholds
    cases flag with
    | true => exact .ifTrue (hholds.mpr rfl) hbranch
    | false => exact .ifFalse (by simp [hholds]) hbranch

theorem ComposesAll.branch (hbody : ComposesAll kinds havoc names body thenTerms)
    (horElse : ComposesAll kinds havoc names orElse elseTerms) (flag : Bool) :
    ComposesAll kinds havoc names (if flag then body else orElse)
      (if flag then thenTerms else elseTerms) := by
  cases flag with
  | true => exact hbody
  | false => exact horElse

theorem composes_ifElse (hforks : Forks kinds names test .truth firstTerm secondTerm)
    (hbodyKinded : Kinded kinds false false body) (horElseKinded : Kinded kinds false false orElse)
    (hbody : ComposesAll kinds havoc names body thenTerms)
    (horElse : ComposesAll kinds havoc names orElse elseTerms) :
    Composes kinds havoc names (.ifElse test body orElse)
      ((agreement firstTerm secondTerm).andThen (firstTerm.branch
        (asBlock (joined thenTerms none)) (asBlock (joined elseTerms none)))) where
  keeps hpaired hexec := by
    obtain ⟨flag, -, -, hexec⟩ := (hforks.exec_branch_iff hpaired).mp hexec
    obtain ⟨_, _, hfinal, -, hjoint⟩ := ((hbody.branch horElse flag).exec_iff hpaired).mp hexec
    exact ⟨_, _, hfinal, hjoint⟩
  runAlike_iff {base first second firstFinal secondFinal rest} hpaired := by
    rw [runAlike_ifElse_iff hbodyKinded horElseKinded]
    constructor
    · rintro ⟨flag, _, _, hfirst, hsecond, hinner, halike⟩
      have hbranch := hbody.branch horElse flag
      obtain ⟨hbetween, -⟩ := (hbranch.runAlike_iff hpaired).mp hinner
      have hexec := (hbranch.exec_iff hpaired).mpr ⟨_, _, hbetween, hinner, rfl⟩
      exact ⟨_, _, hbetween,
        (hforks.exec_branch_iff hpaired).mpr ⟨flag, hfirst, hsecond, hexec⟩, halike⟩
    · rintro ⟨_, _, hbetween, hstep, halike⟩
      obtain ⟨flag, hfirst, hsecond, hexec⟩ := (hforks.exec_branch_iff hpaired).mp hstep
      obtain ⟨_, _, hother, hinner, hjoint⟩ :=
        ((hbody.branch horElse flag).exec_iff hpaired).mp hexec
      obtain ⟨rfl, rfl⟩ := hother.eq_of_joint hbetween hjoint
      exact ⟨flag, _, _, hfirst, hsecond, hinner, halike⟩

/-- An iteration of a loop: both runs make it alike, and agree on the next test. -/
theorem ComposesAll.exec_iteration_iff (hblock : ComposesAll kinds havoc names block terms)
    (hforks : Forks kinds names test .truth firstTerm secondTerm)
    (hpaired : Paired kinds names base first second) :
    Exec .counting havoc
        ((asBlock (joined terms none)).andThen (agreement firstTerm secondTerm)).orSkip
        (joint names base first second) (.done final) ↔
      ∃ firstFinal secondFinal, Paired kinds names base firstFinal secondFinal ∧
        RunAlike block first second firstFinal secondFinal ∧
        (∃ flag, test.passes? firstFinal = some flag ∧ test.passes? secondFinal = some flag) ∧
        joint names base firstFinal secondFinal = final := by
  rw [exec_andThen_iff]
  constructor
  · rintro ⟨_, hbody, hagrees⟩
    obtain ⟨firstFinal, secondFinal, hfinal, halike, rfl⟩ := (hblock.exec_iff hpaired).mp hbody
    obtain ⟨hflag, rfl⟩ := (hforks.exec_agreement_iff hfinal).mp hagrees
    exact ⟨firstFinal, secondFinal, hfinal, halike, hflag, rfl⟩
  · rintro ⟨_, _, hfinal, halike, hflag, rfl⟩
    exact ⟨_, (hblock.exec_iff hpaired).mpr ⟨_, _, hfinal, halike, rfl⟩,
      (hforks.exec_agreement_iff hfinal).mpr ⟨hflag, rfl⟩⟩

section Loop

variable {test : Expr} {body : List Stmt} {bodyTerms : List Term}
  {invariant firstTerm secondTerm : Term} {base first second final firstFinal secondFinal : Store}

/-- What a loop does from a head where the runs agree on the test.  The agreement
is the invariant of the induction: each iteration asserts it for the next. -/
theorem ComposesAll.of_exec_loop (hbody : ComposesAll kinds havoc names body bodyTerms)
    (hbodyKinded : Kinded kinds true false body)
    (hforks : Forks kinds names test .truth firstTerm secondTerm)
    (hpaired : Paired kinds names base first second)
    (hagree : ∃ flag, test.passes? first = some flag ∧ test.passes? second = some flag)
    (hexec : Exec .counting havoc (invariant.repeatWhile firstTerm
      ((asBlock (joined bodyTerms none)).andThen (agreement firstTerm secondTerm))).orSkip
      (joint names base first second) (.done final)) :
    ∃ firstFinal secondFinal, Paired kinds names base firstFinal secondFinal ∧
      joint names base firstFinal secondFinal = final ∧
      ∀ {rest : List Stmt} {firstEnd secondEnd : Store},
        RunAlike rest firstFinal secondFinal firstEnd secondEnd →
        RunAlike (.whileLoop test body [] :: rest) first second firstEnd secondEnd := by
  generalize hloop : (invariant.repeatWhile firstTerm ((asBlock (joined bodyTerms none)).andThen
    (agreement firstTerm secondTerm))).orSkip = loop at hexec
  generalize hstart : joint names base first second = start at hexec
  generalize hdone : Outcome.done final = outcome at hexec
  induction hexec generalizing first second with
  | loopEnd hfalse =>
    cases hloop
    cases hdone
    subst hstart
    obtain ⟨_, hfirst, hsecond⟩ := hagree
    rw [hforks.holds_iff hpaired, hfirst, Option.some.injEq, Bool.not_eq_true] at hfalse
    subst hfalse
    exact ⟨first, second, hpaired, rfl, fun halike => halike.loopEnd hfirst hsecond⟩
  | loopAgain htrue hiteration _ _ ihloop =>
    cases hloop
    subst hstart
    obtain ⟨_, hfirst, hsecond⟩ := hagree
    rw [hforks.holds_iff hpaired, hfirst, Option.some.injEq] at htrue
    subst htrue
    obtain ⟨_, _, hbetween, hinner, hagree, hjoint⟩ :=
      (hbody.exec_iteration_iff hforks hpaired).mp hiteration
    obtain ⟨firstFinal, secondFinal, hfinal, hdone, hcontinue⟩ :=
      ihloop hbetween hagree rfl hjoint hdone
    exact ⟨firstFinal, secondFinal, hfinal, hdone, fun halike =>
      .loopAgain hbodyKinded hfirst hsecond hinner (hcontinue halike)⟩
  | loopFailed => cases hdone
  | _ => cases hloop

/-- Two runs of a loop that are alike are a run of the loop over their joint
store. -/
theorem ComposesAll.exec_loop (hbody : ComposesAll kinds havoc names body bodyTerms)
    (hbodyKinded : Kinded kinds true false body)
    (hforks : Forks kinds names test .truth firstTerm secondTerm)
    (hpaired : Paired kinds names base first second)
    (halike : RunAlike (.whileLoop test body [] :: rest) first second firstFinal secondFinal) :
    (∃ flag, test.passes? first = some flag ∧ test.passes? second = some flag) ∧
      ∃ firstBetween secondBetween, Paired kinds names base firstBetween secondBetween ∧
        Exec .counting havoc (invariant.repeatWhile firstTerm
          ((asBlock (joined bodyTerms none)).andThen (agreement firstTerm secondTerm))).orSkip
          (joint names base first second)
          (.done (joint names base firstBetween secondBetween)) ∧
        RunAlike rest firstBetween secondBetween firstFinal secondFinal := by
  revert hpaired
  refine RunAlike.loop_induction hbodyKinded ?_ ?_ halike
  · intro first second hfirst hsecond hrest hpaired
    refine ⟨⟨false, hfirst, hsecond⟩, first, second, hpaired, .loopEnd ?_, hrest⟩
    rw [hforks.holds_iff hpaired, hfirst]
    simp
  · intro first second firstBetween secondBetween hfirst hsecond hinner ih hpaired
    obtain ⟨hbetween, -⟩ := (hbody.runAlike_iff hpaired).mp hinner
    obtain ⟨hagree, _, _, hend, hloop, hrest⟩ := ih hbetween
    have hiteration := (hbody.exec_iteration_iff hforks hpaired).mpr
      ⟨_, _, hbetween, hinner, hagree, rfl⟩
    exact ⟨⟨true, hfirst, hsecond⟩, _, _, hend,
      .loopAgain ((hforks.holds_iff hpaired).mpr hfirst) hiteration hloop, hrest⟩

theorem composes_whileLoop (invariant : Term)
    (hforks : Forks kinds names test .truth firstTerm secondTerm)
    (hbodyKinded : Kinded kinds true false body)
    (hbody : ComposesAll kinds havoc names body bodyTerms) :
    Composes kinds havoc names (.whileLoop test body [])
      ((agreement firstTerm secondTerm).andThen (invariant.repeatWhile firstTerm
        ((asBlock (joined bodyTerms none)).andThen (agreement firstTerm secondTerm)))) where
  keeps hpaired hexec := by
    obtain ⟨_, hagrees, hloop⟩ := exec_andThen_iff.mp hexec
    obtain ⟨hagree, rfl⟩ := (hforks.exec_agreement_iff hpaired).mp hagrees
    obtain ⟨_, _, hfinal, hjoint, -⟩ := hbody.of_exec_loop hbodyKinded hforks hpaired hagree hloop
    exact ⟨_, _, hfinal, hjoint⟩
  runAlike_iff {base first second firstFinal secondFinal rest} hpaired := by
    constructor
    · intro halike
      obtain ⟨hagree, _, _, hbetween, hloop, hrest⟩ :=
        hbody.exec_loop hbodyKinded hforks hpaired halike
      exact ⟨_, _, hbetween, exec_andThen_iff.mpr
        ⟨_, (hforks.exec_agreement_iff hpaired).mpr ⟨hagree, rfl⟩, hloop⟩, hrest⟩
    · rintro ⟨_, _, hbetween, hstep, hrest⟩
      obtain ⟨_, hagrees, hloop⟩ := exec_andThen_iff.mp hstep
      obtain ⟨hagree, rfl⟩ := (hforks.exec_agreement_iff hpaired).mp hagrees
      obtain ⟨_, _, hother, hjoint, hcontinue⟩ :=
        hbody.of_exec_loop hbodyKinded hforks hpaired hagree hloop
      obtain ⟨rfl, rfl⟩ := hother.eq_of_joint hbetween hjoint
      exact hcontinue hrest

end Loop

end Statements

/-! ## Blocks and programs -/

section Blocks

variable (kinds : String → Kind) (havoc : HavocRule) (names : List String)

/-- A block elaborates, and the terms of its statements make two runs of it. -/
structure Composed (inLoop : Bool) (block : List Stmt) (log : WriteLog) (terms : List Term)
    (next : WriteLog) : Prop where
  gives : ∀ before,
    Gives (elaborateBlock (.forked names) inLoop before block) log (joined terms before) next
  composes : ComposesAll kinds havoc names block terms

variable {kinds havoc names} {inLoop returns : Bool} {statement : Stmt} {block rest : List Stmt}
  {log between next : WriteLog} {term : Term} {terms : List Term}

theorem Composed.cons (hplain : (inLoop && statement.isInvariant) = false)
    (hgives : Gives (statement.elaborate (.forked names)) log term between)
    (hcomposes : Composes kinds havoc names statement term)
    (hrest : Composed kinds havoc names inLoop rest between terms next) :
    Composed kinds havoc names inLoop (statement :: rest) log (term :: terms) next where
  gives before := (gives_elaborateBlock_cons hplain).mpr
    ⟨term, between, hgives, hrest.gives (some (following before term))⟩
  composes := hrest.composes.cons hcomposes

theorem composed_nil : Composed kinds havoc names inLoop [] log [] log where
  gives before := gives_pure.mpr ⟨rfl, rfl⟩
  composes := {
    keeps := fun hpaired hruns => ⟨_, _, hpaired, runsThrough_nil_iff.mp hruns⟩
    runAlike_iff := fun hpaired => by
      rw [runAlike_nil_iff, runsThrough_nil_iff]
      constructor
      · rintro ⟨rfl, rfl⟩
        exact ⟨hpaired, rfl⟩
      · rintro ⟨hfinal, hjoint⟩
        exact hpaired.eq_of_joint hfinal hjoint }

/-- A return ends both runs where it stands. -/
theorem composed_returned {value : Option Expr}
    (hvalue : ∀ expr ∈ value, ∃ kind, expr.HasKind kinds kind) :
    Composed kinds havoc names inLoop [.returned value] log [.skip] log where
  gives before := (gives_elaborateBlock_cons (Bool.and_false _)).mpr
    ⟨.skip, log, gives_pure.mpr ⟨rfl, rfl⟩, gives_pure.mpr ⟨rfl, rfl⟩⟩
  composes := {
    keeps := fun hpaired hruns => by
      obtain ⟨_, hskip, hruns⟩ := runsThrough_cons_iff.mp hruns
      obtain rfl := exec_skip_iff.mp hskip
      exact ⟨_, _, hpaired, runsThrough_nil_iff.mp hruns⟩
    runAlike_iff := fun {base first second firstFinal secondFinal} hpaired => by
      rw [runAlike_returned_iff (evaluates_of_hasKind hvalue hpaired.firstKinds)
        (evaluates_of_hasKind hvalue hpaired.secondKinds), runsThrough_cons_iff]
      constructor
      · rintro ⟨rfl, rfl⟩
        exact ⟨hpaired, _, .skip, .nil⟩
      · rintro ⟨hfinal, _, hskip, hruns⟩
        obtain rfl := exec_skip_iff.mp hskip
        exact hpaired.eq_of_joint hfinal (runsThrough_nil_iff.mp hruns) }

theorem Composed.invariant {text : String}
    (hrest : Composed kinds havoc names true rest log terms next) :
    Composed kinds havoc names true
      (.expr (.call (.name "invariant") [.constant (.text text)]) :: rest) log terms next where
  gives before := hrest.gives before
  composes := {
    keeps := hrest.composes.keeps
    runAlike_iff := fun hpaired => by
      rw [runAlike_invariant_iff]
      exact hrest.composes.runAlike_iff hpaired }

/-- Every block of the core language that assigns forked names only makes its two
runs. -/
theorem Kinded.composed (havoc : HavocRule) (hkinded : Kinded kinds inLoop returns block)
    (hnames : ∀ name ∈ names, IsUnmarked name)
    (hassigned : ∀ name ∈ assignedNames block, name ∈ names)
    (hreads : ∀ name ∈ readNames block, IsUnmarked name) (log : WriteLog) :
    ∃ terms next, Composed kinds havoc names inLoop block log terms next := by
  induction hkinded generalizing log with
  | done => exact ⟨[], log, composed_nil⟩
  | returned hvalue => exact ⟨[.skip], log, composed_returned hvalue⟩
  | pass _ ih =>
    obtain ⟨_, next, hrest⟩ := ih hassigned hreads log
    exact ⟨_, next, hrest.cons (Bool.and_false _) (gives_pure.mpr ⟨rfl, rfl⟩) composes_pass⟩
  | assign hvalue _ ih =>
    simp only [assignedNames, Stmt.assigned, List.singleton_append, List.forall_mem_cons]
      at hassigned
    simp only [readNames, Stmt.reads, List.forall_mem_append] at hreads
    obtain ⟨term, first, second, hterm, hcharge, hfork, hforks⟩ := hvalue.forks hreads.1 hnames
    obtain ⟨_, next, hrest⟩ := ih hassigned.2 hreads.2 log
    refine ⟨_, next, hrest.cons (Bool.and_false _) ?_ (composes_assign hforks hassigned.1)⟩
    simp only [Stmt.elaborate, assignmentTarget, pure_bind, forkedAssignment, Term.name?,
      Logged.ofOption, gives_bind]
    exact ⟨term, log, hterm log, (first, second), log, hfork log, by simp [hcharge]⟩
  | ifElse htest hbody horElse _ ihbody ihorElse ih =>
    simp only [assignedNames, Stmt.assigned, List.forall_mem_append] at hassigned
    simp only [readNames, Stmt.reads, List.forall_mem_append] at hreads
    obtain ⟨⟨hassignedBody, hassignedElse⟩, hassignedRest⟩ := hassigned
    obtain ⟨⟨⟨hreadsTest, hreadsBody⟩, hreadsElse⟩, hreadsRest⟩ := hreads
    obtain ⟨term, first, second, hterm, -, hfork, hforks⟩ := htest.forks hreadsTest hnames
    obtain ⟨_, afterThen, hthen⟩ := ihbody hassignedBody hreadsBody log
    obtain ⟨_, afterElse, helse⟩ := ihorElse hassignedElse hreadsElse afterThen
    obtain ⟨_, next, hrest⟩ := ih hassignedRest hreadsRest afterElse
    refine ⟨_, next, hrest.cons (Bool.and_false _) ?_
      (composes_ifElse hforks hbody horElse hthen.composes helse.composes)⟩
    simp only [Stmt.elaborate, gives_bind, gives_pure]
    exact ⟨term, log, hterm log, (first, second), log, hfork log, _, _, hthen.gives none,
      _, _, helse.gives none, rfl, rfl⟩
  | whileLoop htest hbody _ ihbody ih =>
    simp only [assignedNames, Stmt.assigned, List.append_nil, List.forall_mem_append] at hassigned
    simp only [readNames, Stmt.reads, List.append_nil, List.forall_mem_append] at hreads
    obtain ⟨hassignedBody, hassignedRest⟩ := hassigned
    obtain ⟨⟨hreadsTest, hreadsBody⟩, hreadsRest⟩ := hreads
    obtain ⟨term, first, second, hterm, -, hfork, hforks⟩ := htest.forks hreadsTest hnames
    obtain ⟨claims, afterClaims, hclaims, -⟩ := hbody.gives_invariants log
    obtain ⟨_, afterBody, hbodyTerms⟩ := ihbody hassignedBody hreadsBody afterClaims
    obtain ⟨_, next, hrest⟩ := ih hassignedRest hreadsRest afterBody
    refine ⟨_, next, hrest.cons (Bool.and_false _) ?_
      (composes_whileLoop (conjunction claims) hforks hbody hbodyTerms.composes)⟩
    simp only [Stmt.elaborate, gives_bind, gives_pure]
    exact ⟨term, log, hterm log, (first, second), log, hfork log, claims, _, hclaims, _, _,
      hbodyTerms.gives none, rfl, rfl⟩
  | invariant _ _ ih =>
    obtain ⟨terms, next, hrest⟩ := ih hassigned hreads log
    exact ⟨terms, next, hrest.invariant⟩

end Blocks

/-- A program of the core language, with the names that it assigns forked,
elaborates to a statement that makes two runs of it.  From the joint store of two
stores that agree on all other names, it ends without a failed assertion exactly
if the program ends from both after tests with the same outcomes, and then in the
joint store of the two ends. -/
theorem forked_exec_iff {kinds : String → Kind} {program : Program} {names : List String}
    (havoc : HavocRule) (log : WriteLog)
    (hkinded : Kinded kinds false true (statements program))
    (hreads : ∀ name ∈ readNames (statements program), IsUnmarked name)
    (hnames : ∀ name ∈ names, IsUnmarked name)
    (hassigned : ∀ name, name ∈ names ↔ name ∈ assignedNames (statements program)) :
    ∃ statement next, Gives (elaborate (.forked names) program) log statement next ∧
      ∀ first second : Store, first.HasKinds kinds → second.HasKinds kinds →
        (∀ name ∉ names, first name = second name) → ∀ final,
        Exec .counting havoc statement (Store.joint names first first second) (.done final) ↔
          ∃ firstFinal secondFinal,
            RunAlike (statements program) first second firstFinal secondFinal ∧
            final = Store.joint names first firstFinal secondFinal := by
  obtain ⟨terms, next, hcomposed⟩ := hkinded.composed havoc hnames
    (fun name hname => (hassigned name).mpr hname) hreads log
  obtain ⟨statement, hgives, hexec, -⟩ := gives_elaborate (hcomposed.gives none)
  refine ⟨statement, next, hgives, fun first second hfirst hsecond hagree final => ?_⟩
  have hpaired : Paired kinds names first first second :=
    ⟨hfirst, hsecond, fun _ _ => rfl, fun name hname => (hagree name hname).symm⟩
  rw [hexec]
  constructor
  · intro hruns
    obtain ⟨firstFinal, secondFinal, hfinal, rfl⟩ := hcomposed.composes.keeps hpaired hruns
    exact ⟨firstFinal, secondFinal,
      (hcomposed.composes.runAlike_iff hpaired).mpr ⟨hfinal, hruns⟩, rfl⟩
  · rintro ⟨firstFinal, secondFinal, halike, rfl⟩
    exact ((hcomposed.composes.runAlike_iff hpaired).mp halike).2

/-- A loop that adds the numbers below `n`, and takes `n` away from a sum that
has passed it. -/
def wrappingSum : Program :=
  [.functionDef "wrap" [
    .whileLoop (.compare (.name "i") .lt (.name "n") [] [])
      [.expr (.call (.name "invariant") [.constant (.text "i <= n")]),
        .assign [.name "s"] (.binary (.name "s") .add (.name "i")),
        .assign [.name "i"] (.binary (.name "i") .add (.constant (.int 1))),
        .ifElse (.compare (.name "s") .gt (.name "n") [] [])
          [.assign [.name "s"] (.binary (.name "s") .sub (.name "n"))] [.pass]] [],
    .returned (some (.name "s"))]]

theorem forked_exec_iff_wrappingSum :
    let kinds : String → Kind := fun _ => .number
    let names := ["s", "i"]
    ∃ statement next, Gives (elaborate (.forked names) wrappingSum) .empty statement next ∧
      ∀ first second : Store, first.HasKinds kinds → second.HasKinds kinds →
        (∀ name ∉ names, first name = second name) → ∀ final,
        Exec .counting (fun _ _ _ _ => False) statement
            (Store.joint names first first second) (.done final) ↔
          ∃ firstFinal secondFinal,
            RunAlike (statements wrappingSum) first second firstFinal secondFinal ∧
            final = Store.joint names first firstFinal secondFinal := by
  intro kinds names
  have hname : ∀ name, Expr.HasKind kinds (.name name) .number := fun _ => .name
  have hclaim : Term.ofClaim "i <= n" = .ok (.binary (.var "i") .le (.var "n")) := by
    decide +kernel
  refine forked_exec_iff _ _ ?_ ?_ ?_ ?_
  · exact .whileLoop (.comparison (by decide) (hname _) (hname _))
      (.invariant hclaim
        (.assign (.arithmetic (by decide) (hname _) (hname _))
          (.assign (.arithmetic (by decide) (hname _) .constant)
            (.ifElse (.comparison (by decide) (hname _) (hname _))
              (.assign (.arithmetic (by decide) (hname _) (hname _)) .done) (.pass .done)
              .done))))
      (.returned (by rintro _ ⟨⟩; exact ⟨_, hname _⟩))
  · simp [wrappingSum, statements, readNames, Stmt.reads, Expr.names, IsUnmarked]
  · simp [names, IsUnmarked]
  · intro name
    simp only [names, wrappingSum, statements, assignedNames, Stmt.assigned, List.mem_append,
      List.mem_cons, List.not_mem_nil]
    tauto

/-- A test between two bounds, and the same test with its two comparisons joined
by "and", which is what it means. -/
def chainedTest : Expr :=
  .compare (.constant (.int 0)) .lt (.name "x") [.lt] [.constant (.int 10)]

@[inherit_doc chainedTest]
def joinedTest : Expr :=
  .logical .and (.compare (.constant (.int 0)) .lt (.name "x") [] [])
    (.compare (.name "x") .lt (.constant (.int 10)) [] [])

/-- A conditional that tells by `y` which branch it took. -/
def tellBranch (test : Expr) : Program :=
  [.ifElse test [.assign [.name "y"] (.constant (.int 1))]
    [.assign [.name "y"] (.constant (.int 2))]]

/-- The statement for two runs of the conditional with the chain. -/
def tellBranchForked : Term :=
  let test : Term := .binary (.int 0) .lt (.var "x")
  let assignBoth (value : Int) : Term :=
    (Term.assign (.var (firstCopy "y")) (.int value) false).andThen
      (.assign (.var (secondCopy "y")) (.int value) false)
  (agreement test test).andThen (test.branch (assignBoth 1) (assignBoth 2))

/-- Of a chain of comparisons only the first is kept: where `x` is twenty, both
runs of the statement take the branch that the program does not take. -/
theorem chained_comparison_dropped :
    let store : Store := fun _ => .int 20
    Gives (elaborate (.forked ["y"]) (tellBranch chainedTest)) .empty tellBranchForked .empty ∧
      Exec .counting (fun _ _ _ _ => False) tellBranchForked
        (Store.joint ["y"] store store store)
        (.done (Store.joint ["y"] store (Function.update store "y" (.int 1))
          (Function.update store "y" (.int 1)))) ∧
      ∀ firstFinal secondFinal,
        RunAlike (tellBranch joinedTest) store store firstFinal secondFinal ↔
          firstFinal = Function.update store "y" (.int 2) ∧
            secondFinal = Function.update store "y" (.int 2) := by
  intro store
  have hy : "y" ∈ ["y"] := by simp
  have htest : joinedTest.passes? store = some false := rfl
  refine ⟨rfl, ?_, fun firstFinal secondFinal => ?_⟩
  · rw [← Store.update_joint_secondCopy hy, ← Store.update_joint_firstCopy hy]
    exact .seq (.assertTrue rfl) (.ifTrue rfl (.seq .assign .assign))
  · have hkinded : ∀ value, Kinded (fun _ => .number) false false
        [.assign [.name "y"] (.constant (.int value))] := fun value => .assign .constant .done
    rw [tellBranch, runAlike_ifElse_iff (hkinded 1) (hkinded 2)]
    simp [htest, runAlike_nil_iff, runAlike_assign_iff, Expr.evaluate?,
      eq_comm (b := firstFinal), eq_comm (b := secondFinal)]

end Source

end HoareCheck
