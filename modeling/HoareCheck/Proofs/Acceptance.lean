import HoareCheck.Claim.Parser
import HoareCheck.Proofs.EncodingMeaning
import HoareCheck.Proofs.PreconditionSoundness
import HoareCheck.Typing.Resolve

/-!
# Programs that type resolution accepts

In an environment of integers, type resolution accepts only typed claims, and
leaves an environment of integers behind.  The claims computed as obligations of
a typed program are typed in turn.
-/

namespace HoareCheck

variable {type expected default : TypeEntry} {term : Term} {name : String}
  {result : TypeEntry × Bool} {resolve : Typing (TypeEntry × Bool)} {touched : Bool}
  {sort : SolverSort}

namespace TypeEnv

/-- Every name is an integer. -/
def IsInteger (env : TypeEnv) : Prop :=
  ∀ entry ∈ env, entry.2 = .known .int

variable {env : TypeEnv} {name : String} {entry : TypeEntry}

theorem IsInteger.find? (henv : env.IsInteger) (hfind : env.find? name = some entry) :
    entry = .known .int := by
  simp only [TypeEnv.find?, Option.map_eq_some_iff] at hfind
  obtain ⟨found, hfound, rfl⟩ := hfind
  exact henv found (List.mem_of_find?_eq_some hfound)

theorem IsInteger.insert (henv : env.IsInteger) : (env.insert name (.known .int)).IsInteger := by
  induction env with
  | nil => simp [TypeEnv.insert, IsInteger]
  | cons _ rest ih =>
    have hrest : IsInteger rest := fun entry hentry => henv entry (by simp [hentry])
    intro entry hentry
    rw [TypeEnv.insert] at hentry
    split_ifs at hentry with hsame
    · rcases List.mem_cons.mp hentry with rfl | hmem
      · rfl
      · exact hrest entry hmem
    · rcases List.mem_cons.mp hentry with rfl | hmem
      · exact henv entry (by simp)
      · exact ih hrest entry hmem

end TypeEnv

namespace Term

/-- A claim of variables and literals under operators other than division, the
remainder and adjacency.  Operands may be missing. -/
def isElementary : Term → Bool
  | .missing | .literal _ => true
  | .var name => '#' ∉ name.toList
  | .unary _ operand => operand.isElementary
  | .binary left operator right =>
    operator ∉ [.div, .mod, .adjacent] && left.isElementary && right.isElementary
  | _ => false

/-- An elementary claim has no reads to be placed. -/
theorem place_of_isElementary (helementary : term.isElementary = true) (log : WriteLog) :
    term.place log = (term, log) := by
  induction term with
  | missing | literal | var => rfl
  | unary _ _ ih => simp [place, ih helementary]
  | binary _ _ _ ihleft ihright =>
    simp only [isElementary, Bool.and_eq_true] at helementary
    simp [place, ihleft helementary.1.2, ihright helementary.2]
  | _ => simp [isElementary] at helementary

theorem gives_parse {text : String} {claim result : Term} {before after : WriteLog}
    (hclaim : Term.ofClaim text = .ok claim) (helementary : claim.isElementary = true) :
    Gives (Logged.parse text) before result after ↔ claim = result ∧ before = after := by
  simp only [Logged.parse, hclaim, gives_place, place_of_isElementary helementary]

/-- What type resolution says of a claim: its type is that of its sort. -/
inductive Resolved (term : Term) : TypeEntry → Prop
  | int : Typed term .int → Resolved term (.known .int)
  | bool : Typed term .bool → Resolved term (.known .bool)

theorem Resolved.ne_unknown (hresolved : Resolved term type) : type ≠ .unknown := by
  cases hresolved <;> simp

theorem Resolved.typed_int (hresolved : Resolved term (.known .int)) : Typed term .int := by
  cases hresolved with
  | int htyped => exact htyped

theorem Resolved.typed_bool (hresolved : Resolved term (.known .bool)) : Typed term .bool := by
  cases hresolved with
  | bool htyped => exact htyped

theorem Resolved.typed (hresolved : Resolved term type) : ∃ sort, Typed term sort := by
  cases hresolved with
  | int htyped => exact ⟨_, htyped⟩
  | bool htyped => exact ⟨_, htyped⟩

/-- A variable is an integer, also where another type is expected. -/
theorem Resolved.eq_int (hresolved : Resolved term type)
    (hplain : term.name? = none → type = .known .int) : type = .known .int := by
  cases hresolved with
  | int => rfl
  | bool htyped =>
    cases term with
    | var => cases htyped
    | _ => simp [name?] at hplain

section Resolution

variable {env : TypeEnv} {term : Term} {after : Option TypeEnv}

/-- A known type passes a check if it is the expected one, or none is expected. -/
theorem gives_checkType {label : Option String} {actual : TypeEntry} {before : Option TypeEnv}
    (hactual : actual ≠ .unknown) :
    Gives (term.checkType label actual expected) before result after ↔
      (actual = expected ∨ expected = .unknown) ∧ (actual, false) = result ∧ before = after := by
  simp only [checkType, if_neg hactual, pure_bind]
  by_cases hexpected : actual = expected ∨ expected = .unknown
  · simp [hexpected]
  · simp [hexpected]

theorem gives_variableType (hname : '#' ∉ name.toList) (henv : env.IsInteger)
    (hgives : Gives (variableType name) (some env) type after) :
    type = .known .int ∧ after = some env := by
  simp only [variableType, gives_bind, gives_get, plainName_eq_self hname] at hgives
  obtain ⟨_, _, ⟨rfl, rfl⟩, hvariable⟩ := hgives
  cases hfind : env.find? name with
  | none => simp [hfind] at hvariable
  | some =>
    simp only [hfind, Option.some_or, gives_pure] at hvariable
    obtain ⟨rfl, rfl⟩ := hvariable
    exact ⟨henv.find? hfind, rfl⟩

@[simp]
theorem gives_find? {result : Option TypeEntry} :
    Gives (Typing.find? name) (some env) result after ↔
      env.find? name = result ∧ some env = after := by
  simp [Typing.find?, Typing.env, and_comm]

@[simp]
theorem gives_insert {entry : TypeEntry} {result : Unit} :
    Gives (Typing.insert name entry) (some env) result after ↔
      some (env.insert name entry) = after := by
  simp [Typing.insert, Typing.env]

/-- Of an operand that is no variable the default is expected. -/
theorem gives_expectedType (hgives : Gives (term.expectedType default) (some env) expected after) :
    after = some env ∧ (term.name? = none → expected = default) := by
  cases term with
  | var name =>
    simp only [expectedType, gives_bind, gives_find?] at hgives
    obtain ⟨_, _, ⟨rfl, rfl⟩, hexpected⟩ := hgives
    refine ⟨?_, by simp [name?]⟩
    cases hfind : env.find? name with
    | none =>
      simp only [hfind, gives_bind, gives_find?, gives_pure] at hexpected
      obtain ⟨_, _, ⟨_, rfl⟩, _, rfl⟩ := hexpected
      rfl
    | some =>
      simp only [hfind, gives_pure] at hexpected
      exact hexpected.2.symm
  | _ =>
    simp only [expectedType, gives_pure] at hgives
    exact ⟨hgives.2.symm, fun _ => hgives.1.symm⟩

/-- An operand that passes keeps its type, and has the type that its operator
works on unless it is a variable. -/
theorem of_gives_checkOperand (hdefault : default ≠ .unknown)
    (hresolve : ∀ {result after}, Gives resolve (some env) result after →
      result.1 ≠ .unknown ∧ after = some env)
    (hgives : Gives (checkOperand resolve term default) (some env) result after) :
    ∃ touched, Gives resolve (some env) (result.1, touched) (some env) ∧ after = some env ∧
      (term.name? = none → result.1 = default) := by
  simp only [checkOperand, gives_bind, gives_pure] at hgives
  obtain ⟨⟨actual, touched⟩, _, hactual, expected, _, hexpected, ⟨type, noted⟩, _, hcheck,
    rfl, rfl⟩ := hgives
  obtain ⟨hknown, rfl⟩ := hresolve hactual
  obtain ⟨rfl, hplain⟩ := gives_expectedType hexpected
  obtain ⟨hsame, hresult, rfl⟩ := (gives_checkType hknown).mp hcheck
  cases hresult
  refine ⟨touched, hactual, rfl, fun hname => ?_⟩
  rw [hplain hname] at hsame
  exact hsame.resolve_right hdefault

/-- An operand that passes is a variable, or of the type that its operator works
on. -/
theorem gives_checkOperand (hdefault : default ≠ .unknown)
    (hresolve : ∀ {result after}, Gives resolve (some env) result after →
      Resolved term result.1 ∧ after = some env)
    (hgives : Gives (checkOperand resolve term default) (some env) result after) :
    Resolved term result.1 ∧ after = some env ∧ (term.name? = none → result.1 = default) := by
  obtain ⟨_, hactual, hafter, hplain⟩ :=
    of_gives_checkOperand hdefault
      (fun hactual => ⟨(hresolve hactual).1.ne_unknown, (hresolve hactual).2⟩) hgives
  exact ⟨(hresolve hactual).1, hafter, hplain⟩

/-- Type resolution of a claim in an environment of integers changes nothing,
and accepts typed claims only. -/
theorem resolved_of_gives (helementary : term.isElementary = true) (henv : env.IsInteger)
    (hgives : Gives term.resolveType (some env) result after) :
    Resolved term result.1 ∧ after = some env := by
  induction term generalizing result after with
  | var name =>
    have hname : '#' ∉ name.toList := by simpa [isElementary] using helementary
    simp only [resolveType, gives_bind, gives_pure] at hgives
    obtain ⟨_, _, htype, rfl, rfl⟩ := hgives
    obtain ⟨rfl, rfl⟩ := gives_variableType hname henv htype
    exact ⟨.int (.var hname), rfl⟩
  | literal value =>
    cases value with
    | int =>
      obtain ⟨rfl, rfl⟩ := gives_pure.mp hgives
      exact ⟨.int .int, rfl⟩
    | bool =>
      obtain ⟨rfl, rfl⟩ := gives_pure.mp hgives
      exact ⟨.bool .bool, rfl⟩
    | general => cases hgives
    | bare => cases hgives
  | unary operator _ ih =>
    simp only [resolveType] at hgives
    cases hexpected : unaryType? operator with
    | none => simp [hexpected] at hgives
    | some =>
      simp only [hexpected, gives_bind, gives_pure] at hgives
      obtain ⟨⟨_, _⟩, _, hactual, ⟨_, _⟩, _, hcheck, rfl, rfl⟩ := hgives
      obtain ⟨hresolved, rfl⟩ := ih helementary hactual
      obtain ⟨hsame, hresult, rfl⟩ := (gives_checkType hresolved.ne_unknown).mp hcheck
      cases hresult
      obtain rfl := hsame.resolve_right (by simp)
      cases operator with
      | minus =>
        cases hexpected
        exact ⟨.int (.number (.inl rfl) hresolved.typed_int), rfl⟩
      | abs =>
        cases hexpected
        exact ⟨.int (.number (.inr rfl) hresolved.typed_int), rfl⟩
      | not =>
        cases hexpected
        exact ⟨.bool (.not hresolved.typed_bool), rfl⟩
      | _ => cases hexpected
  | binary _ operator _ ihleft ihright =>
    simp only [isElementary, Bool.and_eq_true, decide_eq_true_eq] at helementary
    obtain ⟨⟨hoperator, helementaryLeft⟩, helementaryRight⟩ := helementary
    simp only [List.mem_cons, List.not_mem_nil, or_false, not_or] at hoperator
    have hdefault : operandType operator.family ≠ .unknown := by
      cases operator.family <;> simp [operandType]
    simp only [resolveType, gives_bind, gives_pure] at hgives
    obtain ⟨⟨_, _⟩, _, hleft, ⟨_, _⟩, _, hright, rfl, rfl⟩ := hgives
    obtain ⟨hleftResolved, rfl, hleftPlain⟩ :=
      gives_checkOperand hdefault (ihleft helementaryLeft) hleft
    obtain ⟨hrightResolved, rfl, hrightPlain⟩ :=
      gives_checkOperand hdefault (ihright helementaryRight) hright
    refine ⟨?_, rfl⟩
    cases hfamily : operator.family with
    | arithmetic =>
      rw [hfamily] at hleftPlain hrightPlain
      obtain rfl := hleftResolved.eq_int hleftPlain
      obtain rfl := hrightResolved.eq_int hrightPlain
      exact .int (.arithmetic hfamily hoperator.1 hoperator.2.1 hleftResolved.typed_int
        hrightResolved.typed_int)
    | comparison =>
      rw [hfamily] at hleftPlain hrightPlain
      obtain rfl := hleftResolved.eq_int hleftPlain
      obtain rfl := hrightResolved.eq_int hrightPlain
      exact .bool (.comparison hfamily hoperator.2.2 hleftResolved.typed_int
        hrightResolved.typed_int)
    | logical =>
      obtain ⟨_, hleftTyped⟩ := hleftResolved.typed
      cases hrightResolved with
      | int hrightTyped => exact .int (.logical hfamily hleftTyped hrightTyped)
      | bool hrightTyped => exact .bool (.logical hfamily hleftTyped hrightTyped)
  | missing => cases hgives
  | _ => simp [isElementary] at helementary

/-- A claim that type resolution accepts is a truth value. -/
theorem typed_of_resolveClaim (helementary : term.isElementary = true) (henv : env.IsInteger)
    (hgives : Gives term.resolveClaim (some env) touched after) :
    Typed term .bool ∧ after = some env := by
  simp only [resolveClaim, gives_bind, gives_pure] at hgives
  obtain ⟨⟨_, _⟩, _, htype, _, _, hcheck, -, rfl⟩ := hgives
  obtain ⟨hresolved, rfl⟩ := resolved_of_gives helementary henv htype
  obtain ⟨hsame, -, rfl⟩ := (gives_checkType hresolved.ne_unknown).mp hcheck
  obtain rfl := hsame.resolve_right (by simp)
  exact ⟨hresolved.typed_bool, rfl⟩

/-- Type resolution of an integer variable that is assigned an integer. -/
theorem isInteger_of_resolveTarget {result : Bool} (henv : env.IsInteger)
    (hgives : Gives (resolveTarget (.var name) (.known .int) touched) (some env) result after) :
    ∃ next : TypeEnv, after = some next ∧ next.IsInteger := by
  simp only [resolveTarget, assignedName?, Typing.ofOption, pure_bind, gives_bind,
    gives_find?] at hgives
  obtain ⟨_, _, ⟨rfl, rfl⟩, htarget⟩ := hgives
  cases hfind : env.find? name with
  | none =>
    simp only [hfind, gives_bind, gives_insert, gives_pure] at htarget
    obtain ⟨_, _, rfl, -, rfl⟩ := htarget
    exact ⟨_, rfl, henv.insert⟩
  | some =>
    obtain rfl := henv.find? hfind
    simp only [hfind, if_true, gives_pure] at htarget
    exact ⟨env, htarget.2.symm, henv⟩

end Resolution

/-! ## Programs -/

/-- An integer expression: variables, integers, sums, differences, products and
negation. -/
def isArithmetic : Term → Bool
  | .var name => '#' ∉ name.toList
  | .literal (.int _) => true
  | .unary .minus operand => operand.isArithmetic
  | .binary left operator right =>
    operator ∈ [.add, .minus, .mult] && left.isArithmetic && right.isArithmetic
  | _ => false

/-- A program that assigns integer expressions, and whose claims are elementary. -/
def isElementaryProgram : Term → Bool
  | .skip => true
  | .assign (.var _) value _ => value.isArithmetic
  | .ifElse condition thenBranch elseBranch =>
    condition.isElementary && thenBranch.isElementaryProgram &&
      elseBranch.isElementaryProgram
  | .seq first second => first.isElementaryProgram && second.isElementaryProgram
  | .loop invariant condition body =>
    invariant.isElementary && condition.isElementary && body.isElementaryProgram
  | _ => false

/-- A program that assigns integer expressions, and whose claims are typed. -/
def TypedProgram : Term → Prop
  | .skip => True
  | .assign (.var _) value _ => value.isArithmetic = true
  | .ifElse condition thenBranch elseBranch =>
    Typed condition .bool ∧ thenBranch.TypedProgram ∧ elseBranch.TypedProgram
  | .seq first second => first.TypedProgram ∧ second.TypedProgram
  | .loop invariant condition body =>
    Typed invariant .bool ∧ Typed condition .bool ∧ body.TypedProgram
  | _ => False

section

variable (harithmetic : term.isArithmetic = true)

include harithmetic

theorem typed_of_isArithmetic : Typed term .int := by
  fun_induction isArithmetic term with
  | case1 => exact .var (by simpa using harithmetic)
  | case2 => exact .int
  | case3 _ ih => exact .number (.inl rfl) (ih harithmetic)
  | case4 _ _ _ ihleft ihright =>
    simp only [Bool.and_eq_true, decide_eq_true_eq] at harithmetic
    obtain ⟨⟨hoperator, hleft⟩, hright⟩ := harithmetic
    simp only [List.mem_cons, List.not_mem_nil, or_false] at hoperator
    refine .arithmetic ?_ ?_ ?_ (ihleft hleft) (ihright hright) <;>
      rcases hoperator with rfl | rfl | rfl <;> decide
  | case5 => simp at harithmetic

theorem isElementary_of_isArithmetic : term.isElementary = true := by
  fun_induction isArithmetic term with
  | case1 => simpa [isElementary] using harithmetic
  | case2 => rfl
  | case3 _ ih => exact ih harithmetic
  | case4 _ _ _ ihleft ihright =>
    simp only [Bool.and_eq_true, decide_eq_true_eq] at harithmetic
    obtain ⟨⟨hoperator, hleft⟩, hright⟩ := harithmetic
    simp only [List.mem_cons, List.not_mem_nil, or_false] at hoperator
    simp only [isElementary, ihleft hleft, ihright hright, Bool.and_true]
    rcases hoperator with rfl | rfl | rfl <;> decide
  | case5 => simp at harithmetic

/-- An integer expression has one sort. -/
theorem eq_int_of_isArithmetic (htyped : Typed term sort) : sort = .int := by
  cases htyped with
  | var | int | number | arithmetic => rfl
  | bool | not => simp [isArithmetic] at harithmetic
  | comparison hfamily | logical hfamily =>
    simp only [isArithmetic, Bool.and_eq_true, decide_eq_true_eq, List.mem_cons,
      List.not_mem_nil, or_false] at harithmetic
    rcases harithmetic.1.1 with rfl | rfl | rfl <;> cases hfamily

/-- The value of an integer expression is an integer where all variables are. -/
theorem exists_eval_of_isArithmetic {store : Store} (hstore : store.IsInteger) :
    ∃ value, term.eval .standard store = .int value := by
  fun_induction isArithmetic term with
  | case1 name => exact hstore name
  | case2 value => exact ⟨value, rfl⟩
  | case3 _ ih =>
    obtain ⟨value, hvalue⟩ := ih harithmetic
    exact ⟨-value, by rw [eval_unary, hvalue]; rfl⟩
  | case4 _ _ _ ihleft ihright =>
    simp only [Bool.and_eq_true, decide_eq_true_eq, List.mem_cons, List.not_mem_nil,
      or_false] at harithmetic
    obtain ⟨⟨hoperator, hleft⟩, hright⟩ := harithmetic
    obtain ⟨leftValue, hleftValue⟩ := ihleft hleft
    obtain ⟨rightValue, hrightValue⟩ := ihright hright
    rw [eval_binary, hleftValue, hrightValue]
    rcases hoperator with rfl | rfl | rfl
    · exact ⟨leftValue + rightValue, rfl⟩
    · exact ⟨leftValue - rightValue, rfl⟩
    · exact ⟨leftValue * rightValue, rfl⟩
  | case5 => simp at harithmetic

end

/-- Type resolution of a program in an environment of integers accepts typed
programs only, and leaves an environment of integers behind. -/
theorem typedProgram_of_resolveStatement {program : Term} {env : TypeEnv} {after : Option TypeEnv}
    (helementary : program.isElementaryProgram = true) (henv : env.IsInteger)
    (hgives : Gives program.resolveStatement (some env) touched after) :
    program.TypedProgram ∧ ∃ next : TypeEnv, after = some next ∧ next.IsInteger := by
  induction program generalizing env after touched with
  | skip =>
    obtain ⟨-, rfl⟩ := gives_pure.mp hgives
    exact ⟨trivial, env, rfl, henv⟩
  | assign target =>
    cases target with
    | var =>
      simp only [isElementaryProgram] at helementary
      simp only [resolveStatement, gives_bind] at hgives
      obtain ⟨⟨_, _⟩, _, htype, htarget⟩ := hgives
      obtain ⟨hresolved, rfl⟩ :=
        resolved_of_gives (isElementary_of_isArithmetic helementary) henv htype
      cases hresolved with
      | int => exact ⟨helementary, isInteger_of_resolveTarget henv htarget⟩
      | bool htyped => cases eq_int_of_isArithmetic helementary htyped
    | _ => simp [isElementaryProgram] at helementary
  | ifElse _ _ _ _ ihthen ihelse =>
    simp only [isElementaryProgram, Bool.and_eq_true] at helementary
    simp only [resolveStatement, gives_bind, gives_pure] at hgives
    obtain ⟨_, _, hcondition, _, _, hthen, _, _, helse, -, rfl⟩ := hgives
    obtain ⟨htyped, rfl⟩ := typed_of_resolveClaim helementary.1.1 henv hcondition
    obtain ⟨hthenTyped, _, rfl, hnext⟩ := ihthen helementary.1.2 henv hthen
    obtain ⟨helseTyped, hafter⟩ := ihelse helementary.2 hnext helse
    exact ⟨⟨htyped, hthenTyped, helseTyped⟩, hafter⟩
  | seq _ _ ihfirst ihsecond =>
    simp only [isElementaryProgram, Bool.and_eq_true] at helementary
    simp only [resolveStatement, gives_bind, gives_pure] at hgives
    obtain ⟨_, _, hfirst, _, _, hsecond, -, rfl⟩ := hgives
    obtain ⟨hfirstTyped, _, rfl, hnext⟩ := ihfirst helementary.1 henv hfirst
    obtain ⟨hsecondTyped, hafter⟩ := ihsecond helementary.2 hnext hsecond
    exact ⟨⟨hfirstTyped, hsecondTyped⟩, hafter⟩
  | loop _ _ _ _ _ ihbody =>
    simp only [isElementaryProgram, Bool.and_eq_true] at helementary
    simp only [resolveStatement, gives_bind, gives_pure] at hgives
    obtain ⟨_, _, hcondition, _, _, hinvariant, _, _, hbody, -, rfl⟩ := hgives
    obtain ⟨hconditionTyped, rfl⟩ := typed_of_resolveClaim helementary.1.2 henv hcondition
    obtain ⟨hinvariantTyped, rfl⟩ := typed_of_resolveClaim helementary.1.1 henv hinvariant
    obtain ⟨hbodyTyped, hafter⟩ := ihbody helementary.2 henv hbody
    exact ⟨⟨hinvariantTyped, hconditionTyped, hbodyTyped⟩, hafter⟩
  | _ => simp [isElementaryProgram] at helementary

/-! ## Obligations of typed programs -/

theorem Typed.isClaim {term : Term} {sort : SolverSort} (htyped : Typed term sort) :
    term.isClaim = true := by
  induction htyped with
  | var | int | bool => rfl
  | number _ _ ih | not _ ih => exact ih
  | arithmetic _ _ _ _ _ ihleft ihright | comparison _ _ _ _ ihleft ihright
  | logical _ _ _ ihleft ihright => simp [ihleft, ihright]

theorem Typed.boundNames_eq_nil (htyped : Typed term sort) : term.boundNames = [] := by
  induction htyped with
  | var | int | bool => rfl
  | number _ _ ih | not _ ih => exact ih
  | arithmetic _ _ _ _ _ ihleft ihright | comparison _ _ _ _ ihleft ihright
  | logical _ _ _ ihleft ihright => simp [ihleft, ihright]

/-- Replacing a variable by an integer expression keeps the sort. -/
theorem Typed.replacing {term new : Term} {sort : SolverSort} {name : String}
    (htyped : Typed term sort) (hnew : Typed new .int) :
    Typed (term.instantiate (replacing name new)) sort := by
  induction htyped with
  | @var other hother =>
    by_cases hname : other = name
    · simpa [Term.replacing, hname] using hnew
    · simpa [Term.replacing, hname] using Typed.var hother
  | int => exact .int
  | bool => exact .bool
  | number hoperator _ ih => exact .number hoperator ih
  | not _ ih => exact .not ih
  | arithmetic hfamily hdiv hmod _ _ ihleft ihright =>
    exact .arithmetic hfamily hdiv hmod ihleft ihright
  | comparison hfamily hadjacent _ _ ihleft ihright =>
    exact .comparison hfamily hadjacent ihleft ihright
  | logical hfamily _ _ ihleft ihright => exact .logical hfamily ihleft ihright

namespace TypedProgram

variable {program : Term}

/-- A typed program has no assertions, no havocs and no quantifiers. -/
theorem shape (htyped : program.TypedProgram) :
    program.isProgram = true ∧ program.isAssertFree = true ∧ program.havocs = [] ∧
      program.boundNames = [] := by
  induction program with
  | skip => exact ⟨rfl, rfl, rfl, rfl⟩
  | assign target =>
    cases target with
    | var =>
      have hvalue := typed_of_isArithmetic htyped
      exact ⟨hvalue.isClaim, rfl, rfl, hvalue.boundNames_eq_nil⟩
    | _ => exact htyped.elim
  | ifElse _ _ _ _ ihthen ihelse =>
    obtain ⟨hcondition, hthen, helse⟩ := htyped
    simp [Term.isProgram, isAssertFree, havocs, boundNames, hcondition.isClaim,
      hcondition.boundNames_eq_nil, ihthen hthen, ihelse helse]
  | seq _ _ ihfirst ihsecond =>
    simp [Term.isProgram, isAssertFree, havocs, boundNames, ihfirst htyped.1, ihsecond htyped.2]
  | loop _ _ _ _ _ ihbody =>
    obtain ⟨hinvariant, hcondition, hbody⟩ := htyped
    simp [Term.isProgram, isAssertFree, havocs, boundNames, hinvariant.isClaim,
      hinvariant.boundNames_eq_nil, hcondition.isClaim, hcondition.boundNames_eq_nil, ihbody hbody]
  | _ => exact htyped.elim

/-- Nothing is bound, so nothing is captured. -/
theorem apart {post : Term} (htyped : program.TypedProgram) (hpost : Typed post .bool) :
    Apart program post := by
  obtain ⟨-, -, hhavocs, hbound⟩ := htyped.shape
  refine ⟨?_, ?_, ?_⟩
  · simp [hbound, hpost.boundNames_eq_nil]
  · simp [havocNames, hhavocs]
  · simp [hhavocs]

/-- The precondition and the side conditions of a typed program are truth
values. -/
theorem obligations {env : Option TypeEnv} {post : Term} {computed : Obligations}
    {before after : WriteLog} (htyped : program.TypedProgram) (hpost : Typed post .bool)
    (hgives : Gives (program.obligations env post) before computed after) :
    Typed computed.precondition .bool ∧ ∀ claim ∈ computed.sideConditions, Typed claim .bool := by
  induction program generalizing post computed before after with
  | skip =>
    obtain ⟨rfl, -⟩ := gives_pure.mp hgives
    exact ⟨hpost, by simp⟩
  | assign target =>
    cases target with
    | var =>
      simp only [Term.obligations, bind_pure_comp, gives_map,
        gives_substitute hpost.isClaim] at hgives
      obtain ⟨_, rfl, rfl, -⟩ := hgives
      exact ⟨hpost.replacing (typed_of_isArithmetic htyped), by simp⟩
    | _ => exact htyped.elim
  | ifElse _ _ _ _ ihthen ihelse =>
    obtain ⟨hcondition, hthen, helse⟩ := htyped
    simp only [Term.obligations, gives_bind, gives_pure] at hgives
    obtain ⟨_, _, htrue, _, _, hfalse, rfl, -⟩ := hgives
    obtain ⟨hthenPre, hthenSide⟩ := ihthen hthen hpost htrue
    obtain ⟨helsePre, helseSide⟩ := ihelse helse hpost hfalse
    refine ⟨.logical rfl (.logical rfl hcondition hthenPre)
      (.logical rfl (.not hcondition) helsePre), fun claim hclaim => ?_⟩
    rcases List.mem_append.mp hclaim with hclaim | hclaim
    · exact hthenSide claim hclaim
    · exact helseSide claim hclaim
  | seq _ _ ihfirst ihsecond =>
    simp only [Term.obligations, gives_bind, gives_pure] at hgives
    obtain ⟨_, _, hrest, _, _, hwhole, rfl, -⟩ := hgives
    obtain ⟨hrestPre, hrestSide⟩ := ihsecond htyped.2 hpost hrest
    obtain ⟨hwholePre, hwholeSide⟩ := ihfirst htyped.1 hrestPre hwhole
    refine ⟨hwholePre, fun claim hclaim => ?_⟩
    rcases List.mem_append.mp hclaim with hclaim | hclaim
    · exact hwholeSide claim hclaim
    · exact hrestSide claim hclaim
  | loop invariant _ _ _ _ ihbody =>
    obtain ⟨hinvariant, hcondition, hbody⟩ := htyped
    have horTrue : invariant.invariantOrTrue = invariant := by
      cases hinvariant <;> rfl
    simp only [Term.obligations, gives_bind, gives_pure, horTrue] at hgives
    obtain ⟨_, _, hkept, rfl, -⟩ := hgives
    obtain ⟨hkeptPre, hkeptSide⟩ := ihbody hbody hinvariant hkept
    refine ⟨hinvariant, fun claim hclaim => ?_⟩
    simp only [List.mem_append, List.mem_cons, List.not_mem_nil, or_false] at hclaim
    rcases hclaim with hclaim | rfl | rfl
    · exact hkeptSide claim hclaim
    · exact .logical rfl (.logical rfl hinvariant hcondition) hkeptPre
    · exact .logical rfl (.logical rfl hinvariant (.not hcondition)) hpost
  | _ => exact htyped.elim

/-- A typed program assigns integers, so variables go on holding integers. -/
theorem preserves {havoc : HavocRule} (htyped : program.TypedProgram) :
    program.Preserves .standard havoc Store.IsInteger := by
  induction program with
  | skip => trivial
  | assign target =>
    cases target with
    | var name =>
      intro store hstore
      obtain ⟨result, hresult⟩ := exists_eval_of_isArithmetic htyped hstore
      rw [hresult]
      exact hstore.update name result
    | _ => exact htyped.elim
  | ifElse _ _ _ _ ihthen ihelse =>
    exact ⟨ihthen htyped.2.1, ihelse htyped.2.2⟩
  | seq _ _ ihfirst ihsecond => exact ⟨ihfirst htyped.1, ihsecond htyped.2⟩
  | loop _ _ _ _ _ ihbody => exact ihbody htyped.2.2
  | _ => exact htyped.elim

end TypedProgram

end Term

end HoareCheck
