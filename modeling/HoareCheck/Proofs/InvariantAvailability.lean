import HoareCheck.Proofs.AddedObligations
import HoareCheck.Proofs.SortedPrograms

/-!
# Where invariants can be checked

A task that is accepted without a check of its invariants may end with a fault when they
are checked: the cut refuses a conditional at the top level, and a program without a loop
there has no invariant to check.  These are the only obstacles for programs over
integers, truth values and arrays (`invariants_checkable_iff`).
-/

namespace HoareCheck

open Term NameTable

variable {name : String} {operator : Operator} {verdicts : List Verdict}

/-! ## Tables that know sorts -/

namespace NameTable

/-- The sort of the constant that a name stands for: a copy may stand for its variable. -/
def sorts (names : NameTable) : Sorts :=
  fun name => (names.find? name).or (names.find? (plainName name))

/-- What the table has for a name, or an array, is of its sort.  The variable of a havoc
has to be in the table itself. -/
def Knows (names : NameTable) (sorts : Sorts) : Lookup → Prop
  | .name name => ∃ sort, sorts (baseName name) = some sort ∧
      (names.find? name = some sort ∨
        IsPlain name ∧ names.find? name = none ∧ names.find? (plainName name) = some sort)
  | .element array => ∃ name, array = some name ∧ IsPlain name ∧ names.find? name = some .array
  | .length => False

variable {names : NameTable} {sorts : Sorts} {name : String} {sort : SolverSort}

/-- The variable of a havoc may be declared at any time. -/
theorem Knows.insert {lookup : Lookup} (hknows : names.Knows sorts lookup)
    (hname : ¬ IsPlain name) (hsort : sorts (baseName name) = some sort) :
    (names.insert name sort).Knows sorts lookup := by
  have hkept {other : String} (hother : IsPlain other) :
      (names.insert name sort).find? other = names.find? other := by
    rw [find?_insert, Function.update_of_ne]
    rintro rfl
    exact hname hother
  cases lookup with
  | name =>
    obtain ⟨found, hfound, hentry | ⟨hplain, hnone, hbase⟩⟩ := hknows
    · refine ⟨found, hfound, .inl ?_⟩
      rw [find?_insert, Function.update_apply]
      split
      · next heq =>
          subst heq
          exact hsort.symm.trans hfound
      · exact hentry
    · exact ⟨found, hfound, .inr ⟨hplain, (hkept hplain).trans hnone,
        (hkept (Encoding.isPlain_takeWhile hplain)).trans hbase⟩⟩
  | element =>
    obtain ⟨other, harray, hplain, hentry⟩ := hknows
    exact ⟨other, harray, hplain, (hkept hplain).trans hentry⟩
  | length => exact hknows

theorem knows_inserted (hsort : sorts (baseName name) = some sort) :
    (names.insert name sort).Knows sorts (.name name) :=
  ⟨sort, hsort, .inl (by rw [find?_insert, Function.update_self])⟩

end NameTable

/-- A claim of the program has its sort from what the table has. -/
theorem Term.IsOfSort.looksUp {names : NameTable} {term : Term} {sort : SolverSort} {bound : Nat}
    (hterm : term.IsOfSort names.sorts sort) (hframe : term.InFrame (.below bound)) :
    term.LooksUp (names.Knows names.sorts) := by
  induction hterm with
  | @var name sort hname =>
    have hplain : IsPlain name := hframe
    refine ⟨sort, hname, ?_⟩
    rw [baseName_eq_self hplain, NameTable.sorts, Option.or_eq_some_iff] at hname
    exact hname.imp_right fun hbase => ⟨hplain, hbase⟩
  | int | bool => trivial
  | number _ _ ih | not _ ih => exact ih hframe
  | binary htakes _ _ ihleft ihright =>
    refine ⟨ihleft hframe.1, ihright hframe.2, ?_⟩
    rintro rfl
    cases htakes <;> simp_all
  | equality hoperator _ _ ihleft ihright =>
    refine ⟨ihleft hframe.1, ihright hframe.2, ?_⟩
    rintro rfl
    simp at hoperator
  | @element _ name _ hcopy hname _ ih =>
    obtain ⟨-, hplain, hindex⟩ := hframe
    rw [NameTable.sorts, plainName_eq_self hcopy, Option.or_self] at hname
    exact ⟨⟨name, rfl, hplain, hname⟩, ih hindex⟩
  | all =>
    obtain ⟨⟨_, -, -, htype, -⟩, -⟩ := hframe
    cases htype

theorem Term.IsSorted.looksUp {names : NameTable} {statement : Term} {bound : Nat}
    (hstatement : statement.IsSorted names.sorts) (hframe : statement.InFrame (.below bound)) :
    statement.LooksUp (names.Knows names.sorts) := by
  induction hstatement with
  | skip => trivial
  | assign _ hvalue => exact hvalue.looksUp hframe.2.2
  | ifElse hcondition _ _ ihthen ihelse =>
    exact ⟨hcondition.looksUp hframe.2.1, ihthen hframe.2.2.1, ihelse hframe.2.2.2⟩
  | seq _ _ ihfirst ihsecond => exact ⟨ihfirst hframe.2.1, ihsecond hframe.2.2⟩
  | assume hclaim | assert hclaim => exact hclaim.looksUp hframe.2
  | loop hinvariant hcondition _ ihbody =>
    exact ⟨hinvariant.looksUp hframe.2.1, hcondition.looksUp hframe.2.2.1, ihbody hframe.2.2.2⟩

/-! ## Encoding -/

/-- The encoding succeeds with an operand of a sort, and the table then knows further
names. -/
def Encoding.Fits (encoding : Encoding Operand) (context : EncodingContext) (sorts : Sorts)
    (before : EncodingState) (sort : SolverSort) (bound : List String) : Prop :=
  ∃ operand after, Gives (encoding.run context) before operand after ∧ operand.HasSort sort ∧
    (∀ lookup, before.names.Knows sorts lookup → after.names.Knows sorts lookup) ∧
    ∀ name ∈ bound, after.names.Knows sorts (.name name)

section Encoding

variable {context : EncodingContext} {sorts : Sorts} {before : EncodingState} {term : Term}
  {sort inner outer : SolverSort} {written? : Site → String → Option (Encoding Operand)}

theorem fits_constant (hname : before.names.Knows sorts (.name name))
    (hsort : sorts (baseName name) = some sort) :
    (Encoding.constant name).Fits context sorts before sort [] := by
  obtain ⟨found, hfound, hentry⟩ := hname
  obtain rfl : found = sort := Option.some.inj (hfound.symm.trans hsort)
  have hgives : ∃ other, Gives ((Encoding.constant name).run context) before
      (.symbolic (.const other found)) before := by
    rcases hentry with hentry | ⟨-, hnone, hbase⟩
    · exact ⟨name, gives_constant hentry⟩
    · exact ⟨plainName name, gives_constant_plainName hnone hbase⟩
  obtain ⟨_, hgives⟩ := hgives
  exact ⟨_, before, hgives, .symbolic rfl, fun _ => id, List.forall_mem_nil _⟩

theorem fits_unary {operand : Term}
    (hoperand : (operand.encodeWith written?).Fits context sorts before inner operand.boundNames)
    (hmakes : ∀ encoded : Operand, encoded.HasSort inner →
      ∃ symbolic, (Encoding.unary operator encoded).Makes context outer symbolic) :
    ((Term.unary operator operand).encodeWith written?).Fits context sorts before outer
      operand.boundNames := by
  obtain ⟨encoded, after, hgives, hsort, hknows⟩ := hoperand
  obtain ⟨_, result, hresult, hresultSort, -⟩ := hmakes encoded hsort
  refine ⟨result, after, ?_, hresultSort, hknows⟩
  simp only [encodeWith, ReaderT.run_bind, gives_bind]
  exact ⟨encoded, after, hgives, hresult after⟩

theorem fits_binary {left right : Term}
    (hleft : (left.encodeWith written?).Fits context sorts before inner left.boundNames)
    (hright : ∀ between : EncodingState,
      (∀ lookup, before.names.Knows sorts lookup → between.names.Knows sorts lookup) →
        (right.encodeWith written?).Fits context sorts between inner right.boundNames)
    (hmakes : ∀ first second : Operand, first.HasSort inner → second.HasSort inner →
      ∃ symbolic, (Encoding.binary operator first second).Makes context outer symbolic) :
    ((Term.binary left operator right).encodeWith written?).Fits context sorts before outer
      (left.boundNames ++ right.boundNames) := by
  obtain ⟨first, between, hfirst, hfirstSort, hleftKnows, hleftBound⟩ := hleft
  obtain ⟨second, after, hsecond, hsecondSort, hrightKnows, hrightBound⟩ :=
    hright between hleftKnows
  obtain ⟨_, result, hresult, hresultSort, -⟩ := hmakes first second hfirstSort hsecondSort
  refine ⟨result, after, ?_, hresultSort, fun lookup hlookup =>
    hrightKnows lookup (hleftKnows lookup hlookup), List.forall_mem_append.mpr
      ⟨fun name hname => hrightKnows _ (hleftBound name hname), hrightBound⟩⟩
  simp only [encodeWith, ReaderT.run_bind, gives_bind]
  exact ⟨first, between, hfirst, second, after, hsecond, hresult after⟩

theorem fits_element {site : Site} {index : Term}
    (hunwritten : ∀ site key, written? site key = none)
    (hname : before.names.find? name = some .array)
    (hindex : (index.encodeWith written?).Fits context sorts before .int index.boundNames) :
    ((Term.subscript site (.var name) index).encodeWith written?).Fits context sorts before .int
      index.boundNames := by
  obtain ⟨operand, after, hgives, hsort, hknows⟩ := hindex
  obtain ⟨result, hresult, hresultSort, -⟩ := hsort.select
  refine ⟨result, after, ?_, hresultSort, hknows⟩
  simp only [encodeWith, ReaderT.run_bind, gives_bind]
  refine ⟨context, before, gives_pure.mpr ⟨rfl, rfl⟩, ?_⟩
  rw [hunwritten]
  simp only [ReaderT.run_bind, gives_bind]
  exact ⟨_, _, gives_array hname, operand, after, hgives, gives_ofExcept.mpr ⟨hresult, rfl⟩⟩

theorem Operand.HasSort.forAll {body : Operand} (hbody : body.HasSort .bool) (name : String)
    (sort : SolverSort) :
    ∃ result, Operand.forAll name sort body = .ok result ∧ result.HasSort .bool := by
  cases hbody with
  | bool => exact ⟨_, rfl, .symbolic rfl⟩
  | symbolic hsort => exact ⟨_, if_pos hsort, .symbolic rfl⟩

theorem fits_all {type : Ty} {body : Term} {closed : Bool} (hplain : ¬ IsPlain name)
    (htype : type.solverSort? = some sort) (hname : sorts (baseName name) = some sort)
    (hbody : (body.encodeWith written?).Fits context sorts
      { before with names := before.names.insert name sort } .bool body.boundNames) :
    ((Term.quantified .universal (.var name) (some type) .missing body closed).encodeWith
      written?).Fits context sorts before .bool (name :: body.boundNames) := by
  obtain ⟨operand, after, hgives, hsort, hknows, hbound⟩ := hbody
  obtain ⟨result, hresult, hresultSort⟩ := hsort.forAll name sort
  refine ⟨result, after, ?_, hresultSort, fun lookup hlookup =>
    hknows lookup (hlookup.insert hplain hname), List.forall_mem_cons.mpr
      ⟨hknows _ (NameTable.knows_inserted hname), hbound⟩⟩
  simp only [encodeWith, ReaderT.run_bind, gives_bind]
  exact ⟨sort, before, gives_binderSort htype, name, before, gives_pure.mpr ⟨rfl, rfl⟩,
    ⟨⟩, _, gives_modify.mpr rfl, operand, after, hgives, gives_ofExcept.mpr ⟨hresult, rfl⟩⟩

theorem Operator.Takes.makes {left right : Operand} (htakes : operator.Takes inner outer)
    (hleft : left.HasSort inner) (hright : right.HasSort inner) :
    ∃ symbolic, (Encoding.binary operator left right).Makes context outer symbolic := by
  cases htakes with
  | arithmetic =>
    have hdivides : operator ∉ [.div, .mod] := by grind
    exact ⟨_, makes_arithmetic (by grind) hleft hright fun hmem => absurd hmem hdivides⟩
  | comparison =>
    by_cases hequality : operator ∈ [.eq, .neq]
    · exact ⟨_, makes_equality hequality hleft hright⟩
    · exact ⟨_, makes_order (by grind) hleft hright⟩
  | connective hoperator => exact ⟨_, makes_connective hoperator hleft hright⟩

/-- A claim of a sort has a formula in every table that knows what it looks up. -/
theorem Term.IsOfSort.fits (hunwritten : ∀ site key, written? site key = none)
    (hterm : term.IsOfSort sorts sort) (hlooks : term.LooksUp (before.names.Knows sorts)) :
    (term.encodeWith written?).Fits context sorts before sort term.boundNames := by
  induction hterm generalizing before with
  | var hname => exact fits_constant hlooks hname
  | int => exact ⟨_, _, gives_pure.mpr ⟨rfl, rfl⟩, .int, fun _ => id, List.forall_mem_nil _⟩
  | bool => exact ⟨_, _, gives_pure.mpr ⟨rfl, rfl⟩, .bool, fun _ => id, List.forall_mem_nil _⟩
  | number hoperator _ ih =>
    have hint : Ty.int.solverSort? = some .int := rfl
    refine fits_unary (ih hlooks) fun encoded hsort => ⟨_, makes_unary ?_ hint hsort⟩
    rcases hoperator with rfl | rfl <;> rfl
  | not _ ih =>
    have hbool : Ty.bool.solverSort? = some .bool := rfl
    exact fits_unary (ih hlooks) fun encoded hsort => ⟨_, makes_unary rfl hbool hsort⟩
  | binary htakes _ _ ihleft ihright =>
    refine fits_binary (ihleft hlooks.1)
      (fun between hknows => ihright (hlooks.2.1.mono hknows)) fun first second => ?_
    exact htakes.makes
  | equality hoperator _ _ ihleft ihright =>
    refine fits_binary (ihleft hlooks.1)
      (fun between hknows => ihright (hlooks.2.1.mono hknows)) fun first second => ?_
    exact fun hfirst hsecond => ⟨_, makes_equality (by simpa using hoperator) hfirst hsecond⟩
  | element _ _ _ ih =>
    obtain ⟨⟨_, hname, -, hfind⟩, hindex⟩ := hlooks
    obtain rfl := Option.some.inj hname
    exact fits_element hunwritten hfind (ih hindex)
  | @all _ _ _ _ _ hplain htype hname _ ih =>
    refine fits_all hplain htype hname (ih ((hlooks rfl).mono ?_))
    rintro _ (hlookup | hlookup)
    · exact hlookup.insert hplain hname
    · cases hlookup
      exact NameTable.knows_inserted hname

theorem Operand.HasSort.logicalNot {operand : Operand} (hsort : operand.HasSort .bool) :
    ∃ formula, Operand.logicalNot operand = .ok (.symbolic formula) := by
  obtain ⟨_, hmeans⟩ := hsort.means Operand.anyModel
  obtain ⟨formula, hcast, -⟩ := hmeans.cast
  refine ⟨.not formula, ?_⟩
  rw [Operand.logicalNot, hcast]
  rfl

/-! ## Checks -/

theorem Condition.gives_query {condition : Condition} (hblank : context.log.IsBlank)
    (hclaim : condition.claim.IsOfSort sorts .bool)
    (hlooks : condition.claim.LooksUp (before.names.Knows sorts)) :
    ∃ formula after, Gives (condition.query.run context) before formula after ∧
      (∀ lookup, before.names.Knows sorts lookup → after.names.Knows sorts lookup) ∧
      ∀ name ∈ condition.claim.boundNames, after.names.Knows sorts (.name name) := by
  have hunwritten : ∀ site key,
      encodeWritten context.log (context.log.sites.size + 1) site key = none := by
    intro site key
    rw [encodeWritten, hblank site]
    rfl
  obtain ⟨operand, after, hgives, hsort, hknows⟩ :
      (condition.claim.encodeWith _).Fits context sorts before .bool _ :=
    hclaim.fits hunwritten hlooks
  obtain ⟨formula, hformula⟩ := hsort.logicalNot
  refine ⟨formula, after, ?_, hknows⟩
  simp only [Condition.query, encode, encodeWith, ReaderT.run_bind, gives_bind]
  refine ⟨.symbolic formula, after, ⟨context, before, gives_pure.mpr ⟨rfl, rfl⟩, operand, after,
    hgives, gives_ofExcept.mpr ⟨hformula, rfl⟩⟩, gives_pure.mpr ⟨rfl, rfl⟩⟩

variable {conditions rest : List Condition}

/-- Conditions of which each has a formula are followed by others that only need the plain
names of the table. -/
theorem exists_asks_append (hblank : context.log.IsBlank)
    (hframes : ∀ condition ∈ conditions, condition.claim.InFrame (.above 0))
    (hsorted : ∀ condition ∈ conditions, condition.claim.IsOfSort sorts .bool)
    (hlooks : LooksUpAll (before.names.Knows sorts) conditions)
    (hrest : ∀ next, before.AgreesPlainly next → ∃ formulas, Asks context next rest formulas) :
    ∃ formulas, Asks context before (conditions ++ rest) formulas := by
  have hlog : context.log.InFrame (.above 0) := by
    intro site _ entry hentry
    rw [hblank site] at hentry
    cases hentry
  induction conditions generalizing before with
  | nil => exact hrest before (.refl before)
  | cons _ conditions ih =>
    rw [List.forall_mem_cons] at hframes hsorted
    cases hlooks with
    | cons hclaim hlater =>
      obtain ⟨formula, next, hgives, hknows, hbound⟩ :=
        Condition.gives_query hblank hsorted.1 hclaim
      have hspares := Condition.spares_query hlog hframes.1 _ _ _ hgives
      have hnext : LooksUpAll (next.names.Knows sorts) conditions := by
        refine hlater.mono ?_
        rintro lookup (hlookup | ⟨name, hname, rfl⟩)
        · exact hknows lookup hlookup
        · exact hbound name hname
      obtain ⟨formulas, hasks⟩ := ih hframes.2 hsorted.2 hnext fun last hagrees =>
        hrest last (hspares.trans hagrees)
      exact ⟨formula :: formulas, .cons hgives hasks⟩

end Encoding

/-- The run ends with a verdict: the task is accepted, or one of its formulas has a
model. -/
def IsJudged (outcome : Except Fault Unit) : Prop :=
  ∀ fault, outcome = .error fault → fault.IsVerdict

theorem Asks.isJudged {context : EncodingContext} {state : EncodingState}
    {conditions : List Condition} {formulas : List Formula}
    (hasks : Asks context state conditions formulas) (verdicts : List Verdict) :
    IsJudged (checkAll context state verdicts conditions).outcome := by
  induction hasks generalizing verdicts with
  | nil =>
    intro fault hfault
    cases hfault
  | @cons state next condition _ formula _ hgives _ ih =>
    have hquery : (condition.query.run context).run.run state = (.ok formula, next) := hgives
    intro fault hfault
    by_cases hsat : verdicts.head? = some .sat
    · simp only [checkAll, hquery, if_pos hsat, Except.error.injEq] at hfault
      subst hfault
      cases habout : condition.aboutInvariant <;> simp [Condition.failure, habout, Fault.IsVerdict]
    · simp only [checkAll, hquery, if_neg hsat] at hfault
      exact ih verdicts.tail fault hfault

/-! ## Tasks -/

/-- The program can be cut into parts of which one is a loop: it has a loop at the top
level, and no conditional. -/
def Term.IsCuttable (statement : Term) : Prop :=
  (∀ part ∈ statement.topLevel, part.isConditional = false) ∧
    ∃ part ∈ statement.topLevel, part.isLoop = true

instance (statement : Term) : Decidable statement.IsCuttable :=
  inferInstanceAs (Decidable (_ ∧ _))

namespace Task

/-- The statement and the precondition of a task, and the environment in which they have
passed type resolution. -/
def resolved? (task : Task) (verifier : Verifier) : Option (Term × Term × TypeEnv) :=
  match outcomeOn task.prepared { log := .empty, verifier } with
  | (.ok (statement, pre, _), between) =>
    (between.verifier.scopes.find? task.scope).join.map fun env => (statement, pre, env)
  | (.error _, _) => none

variable {task : Task} {verifier : Verifier} {statement pre post : Term} {env : TypeEnv}
  {before between after : RunState}

theorem of_resolved? (hresolved : task.resolved? verifier = some (statement, pre, env)) :
    ∃ post between,
      Gives task.prepared { log := .empty, verifier } (statement, pre, post) between ∧
      between.verifier.scopes.find? task.scope = some (some env) := by
  rw [resolved?] at hresolved
  rcases hrun : outcomeOn task.prepared { log := .empty, verifier } with
    ⟨fault | ⟨found, foundPre, post⟩, between⟩
  · rw [hrun] at hresolved
    cases hresolved
  · rw [hrun] at hresolved
    obtain ⟨_, hscope, heq⟩ := Option.map_eq_some_iff.mp hresolved
    cases heq
    exact ⟨post, between, hrun, Option.join_eq_some_iff.mp hscope⟩

/-- The conditions of the cut program, for a sorted one that can be cut. -/
theorem exists_invariantConditions {sorts : Sorts} {scope : String}
    (hstatement : statement.IsSorted sorts) (hassigned : statement.AssignsSorted env sorts)
    (hcuttable : statement.IsCuttable) (hpre : pre.IsOfSort sorts .bool)
    (hblank : before.log.IsBlank)
    (hscope : before.verifier.scopes.find? scope = some (some env)) :
    ∃ conditions after, Gives (invariantConditions scope pre statement) before conditions after ∧
      after.log.IsBlank ∧ ∀ condition ∈ conditions, condition.claim.IsOfSort sorts .bool := by
  obtain ⟨cut, state, hcut, hstate, hsorted, hsome⟩ := yieldsCut_cutLoops hstatement hassigned
    hcuttable.1 ⟨before.log, before.verifier.counts⟩ hblank
  cases hlist : sortByText state.log cut.invariants with
  | nil =>
    obtain ⟨_, hinvariant⟩ := List.exists_mem_of_ne_nil _ (hsome hcuttable.2)
    rw [← @mem_sortByText state.log, hlist] at hinvariant
    cases hinvariant
  | cons invariant =>
    have hinvariant : invariant ∈ cut.invariants := by
      rw [← @mem_sortByText state.log, hlist]
      exact List.mem_cons_self
    obtain ⟨owed, log, howed, hlog, hprecondition, hsides⟩ :=
      hsorted.discharges invariant (hsorted.invariants _ hinvariant) state.log hstate
    refine ⟨listed pre true owed log,
      ⟨log, { before.verifier with counts := state.counts }⟩, ?_, hlog, ?_⟩
    · simp only [invariantConditions, gives_bind, Run.gives_cutting, gives_get]
      refine ⟨cut, _, ⟨state, hcut, rfl⟩, _, _, ⟨rfl, rfl⟩, ?_⟩
      simp only [hlist]
      exact gives_conditionsOf.mpr
        ⟨hsorted.isStatement, some env, owed, log, hscope, howed, rfl, rfl⟩
    · intro condition hcondition
      rcases (mem_listed.mp hcondition).2 with hclaim | hclaim
      · rw [hclaim]
        exact hpre.implies hprecondition
      · exact hsides _ hclaim

section

variable (hprepared : Gives task.prepared { log := .empty, verifier } (statement, pre, post) between)

include hprepared

/-- Invariants are checked only for programs that can be cut. -/
theorem isCuttable_of_isJudged
    (hjudged : IsJudged (verifier.verify { task with checksInvariants := true } verdicts).outcome) :
    statement.IsCuttable := by
  have hgives : ∃ conditions after, Gives { task with checksInvariants := true }.conditions
      { log := .empty, verifier } conditions after := by
    cases houtcome : (verifier.verify { task with checksInvariants := true } verdicts).outcome with
    | ok =>
      obtain ⟨conditions, after, _, hgives, -⟩ := exists_conditions_of_accepts houtcome
      exact ⟨conditions, after, hgives⟩
    | error fault =>
      obtain ⟨conditions, after, _, hgives, -⟩ :=
        exists_conditions_of_judged (.inr ⟨fault, houtcome, hjudged fault houtcome⟩)
      exact ⟨conditions, after, hgives⟩
  obtain ⟨_, _, hgives⟩ := hgives
  obtain ⟨_, _, _, _, _, hsame, hinvariants, -, -⟩ := of_gives_conditions hgives
  obtain ⟨rfl, rfl⟩ := Gives.unique hsame hprepared
  simp only [if_true] at hinvariants
  obtain ⟨_, _, _, hinvariant, hcut, -⟩ := exists_cut_of_gives_invariantConditions hinvariants
  obtain ⟨hstraight, hloop⟩ := isOfTopLevel_of_cutsInto (cutsInto_of_cutLoops hcut)
  exact ⟨hstraight, hloop (List.ne_nil_of_mem hinvariant)⟩

/-- The conditions of a task with those of its invariants in front, from the conditions
without. -/
theorem gives_checked_conditions {ofProgram ofInvariants : List Condition} {skipped next : RunState}
    (hskips : Gives { task with checksInvariants := false }.conditions
      { log := .empty, verifier } ofProgram skipped)
    (hinvariants : Gives (invariantConditions task.scope pre statement) between ofInvariants next) :
    ∃ log, Gives { task with checksInvariants := true }.conditions { log := .empty, verifier }
        (ofInvariants ++ ofProgram) { next with log } ∧
      ∃ env owed, Gives (statement.obligations env post) next.log owed log := by
  obtain ⟨_, _, _, _, program, hsame, hnone, hprogram, rfl⟩ := of_gives_conditions hskips
  obtain ⟨rfl, rfl⟩ := Gives.unique hsame hprepared
  obtain ⟨rfl, rfl⟩ := gives_pure.mp hnone
  have hfits := fits_of_gives_prepared hprepared
  obtain ⟨-, -, hapart⟩ := hfits.apart hinvariants
  obtain ⟨log, hfollows, -⟩ := hfits.exists_conditions hprogram hapart.scopes
    ⟨rfl, hapart.size_le, hapart.writesAt⟩
  obtain ⟨-, env, owed, _, -, howed, -, hafter⟩ := gives_conditionsOf.mp hfollows
  obtain rfl : log = _ := congrArg RunState.log hafter
  refine ⟨log, ?_, env, owed, howed⟩
  rw [conditions_eq]
  simp only [gives_bind, gives_pure, if_true]
  exact ⟨_, _, hprepared, ofInvariants, next, hinvariants, program, _, hfollows, rfl, rfl⟩

end

/-- The invariants of a sorted program that is accepted without them can be checked if the
program can be cut. -/
theorem isJudged_of_isCuttable
    (haccepts : (verifier.verify { task with checksInvariants := false } verdicts).outcome = .ok ())
    (hprepared : Gives task.prepared { log := .empty, verifier } (statement, pre, post) between)
    (hscope : between.verifier.scopes.find? task.scope = some (some env))
    (hstatement : statement.IsSorted (ofEnv task.twoRuns env).sorts)
    (hassigned : statement.AssignsSorted env (ofEnv task.twoRuns env).sorts)
    (hpre : pre.IsOfSort (ofEnv task.twoRuns env).sorts .bool)
    (hcuttable : statement.IsCuttable) (others : List Verdict) :
    IsJudged (verifier.verify { task with checksInvariants := true } others).outcome := by
  have hfits := fits_of_gives_prepared hprepared
  have hblank := isBlank_of_gives_prepared hprepared
  obtain ⟨⟨ofProgram, skipped, found, hskips, hfound, hasks⟩, -⟩ := verify_accepts_iff.mp haccepts
  obtain ⟨ofInvariants, next, hinvariants, hnext, hsorted⟩ :=
    exists_invariantConditions hstatement hassigned hcuttable hpre hblank hscope
  obtain ⟨log, hchecks, _, _, howed⟩ := gives_checked_conditions hprepared hskips hinvariants
  have hlog : log.IsBlank := recordsNothing_obligations hstatement.keepsTo _ _ _ _ _ hnext howed
  obtain ⟨added, hadded, -, -, hscopes, bound, hextends, hinLog, -, hclaims, hframes⟩ :=
    exists_added_conditions hskips hchecks
  obtain rfl : ofInvariants = added := List.append_cancel_right hadded
  have hchecked : next.verifier.scopes.find? task.scope = some (some env) := by
    rw [(hfits.apart hinvariants).2.2.scopes, hscope]
  obtain rfl : found = env := by
    have hsame : next.verifier.scopes = skipped.verifier.scopes := hscopes
    rw [hsame, hfound] at hchecked
    cases hchecked
    rfl
  have hlooks := looksUpAll_invariantConditions (hstatement.looksUp hfits.statement)
    (havocs_of_inFrame hfits.statement) (hpre.looksUp hfits.pre) hinvariants
  have hcontexts : EncodingContext.Extends bound
      { log := skipped.log, lengths := task.lengths } { log, lengths := task.lengths } :=
    ⟨hextends, hinLog, rfl⟩
  obtain ⟨formulas, hall⟩ : ∃ formulas, Asks { log, lengths := task.lengths }
      { names := ofEnv task.twoRuns found, lines := 0 } (ofInvariants ++ ofProgram)
      formulas :=
    exists_asks_append hlog hframes hsorted hlooks fun last hagrees =>
      ⟨_, Asks.follows hcontexts hclaims hagrees hasks⟩
  rw [(verify_eq_checkAll others hchecks hchecked).1]
  exact hall.isJudged others

end Task

/-- A task that is accepted without its invariants ends with a verdict when they are
checked only if its program has a loop at the top level and no conditional there.  If
variables are declared with the sorts of their values, this is enough. -/
theorem invariants_checkable_iff {verifier : Verifier} {task : Task} {verdicts : List Verdict}
    {statement pre : Term} {env : TypeEnv}
    (haccepts : (verifier.verify { task with checksInvariants := false } verdicts).outcome =
      .ok ())
    (hresolved : task.resolved? verifier = some (statement, pre, env)) :
    let checked := fun others =>
      (verifier.verify { task with checksInvariants := true } others).outcome
    let sorts := (NameTable.ofEnv task.twoRuns env).sorts
    (∀ others, IsJudged (checked others) → statement.IsCuttable) ∧
      (statement.IsSorted sorts → statement.AssignsSorted env sorts → pre.IsOfSort sorts .bool →
        ((∀ others, IsJudged (checked others)) ↔ statement.IsCuttable)) := by
  intro checked sorts
  obtain ⟨post, between, hprepared, hscope⟩ := Task.of_resolved? hresolved
  refine ⟨fun others => Task.isCuttable_of_isJudged hprepared, fun hstatement hassigned hpre => ?_⟩
  refine ⟨fun hjudged => Task.isCuttable_of_isJudged hprepared (hjudged []), ?_⟩
  exact Task.isJudged_of_isCuttable haccepts hprepared hscope hstatement hassigned hpre

theorem isOfSort_countdownInvariant {sorts : Sorts} (hx : sorts (baseName "x") = some .int) :
    countdownInvariant.IsOfSort sorts .bool :=
  .binary (.comparison (by simp)) (.var hx) .int

theorem isSorted_countdownStatement {sorts : Sorts} (hx : sorts (baseName "x") = some .int) :
    countdownStatement.IsSorted sorts := by
  have htest : countdownTest.IsOfSort sorts .bool := .binary (.comparison (by simp)) (.var hx) .int
  have hless : (Term.binary (.var "x") .minus (.int 1)).IsOfSort sorts .int :=
    .binary (.arithmetic (by simp)) (.var hx) .int
  exact .seq (.loop (isOfSort_countdownInvariant hx) htest (.seq (.assign hx hless) .skip)) .skip

theorem invariants_checkable_iff_countdownTask :
    (countdownVerifier.verify countdownTask (List.replicate 3 .unsat)).outcome = .ok () ∧
      countdownStatement.IsCuttable ∧
      ∀ others, IsJudged
        (countdownVerifier.verify { countdownTask with checksInvariants := true } others).outcome := by
  have haccepts := verify_countdownTask.1
  have hresolved : countdownTask.resolved? countdownVerifier =
      some (countdownStatement, countdownInvariant, [("x", .known .int)]) := by
    decide +kernel
  have hcuttable : countdownStatement.IsCuttable := by decide
  have hx : (NameTable.ofEnv false [("x", .known .int)]).sorts (baseName "x") = some .int := by
    decide +kernel
  have hassigned : countdownStatement.AssignsSorted [("x", .known .int)]
      (NameTable.ofEnv false [("x", .known .int)]).sorts :=
    ⟨["x"], rfl, List.forall_mem_singleton.mpr
      ⟨by simp [IsPlain], .int, .int, rfl, rfl, rfl⟩⟩
  obtain ⟨-, hchecks⟩ :=
    @invariants_checkable_iff countdownVerifier countdownTask _ _ _ _ haccepts hresolved
  exact ⟨haccepts, hcuttable, (hchecks (isSorted_countdownStatement hx) hassigned
    (isOfSort_countdownInvariant hx)).mpr hcuttable⟩

/-- A program without a loop. -/
def straightTask : Task :=
  { code := "x = 5\n"
    scope := "straight"
    precondition := "True"
    postcondition := "x > 0"
    twoRuns := false
    checksInvariants := true
    lengths := [] }

def conditionalTask : Task :=
  { straightTask with code := "if x > 0:\n  x = 1\nelse:\n  x = 2\n" }

/-- Programs that are accepted, and whose invariants cannot be checked. -/
theorem invariants_uncheckable_at_top_level :
    let verifier := Verifier.new.register "straight" (some [("x", .known .int)])
    (verifier.verify { straightTask with checksInvariants := false } []).outcome = .ok () ∧
      (verifier.verify straightTask []).outcome = .error .noSuchIndex ∧
      (verifier.verify { conditionalTask with checksInvariants := false } []).outcome = .ok () ∧
      (verifier.verify conditionalTask []).outcome = .error .noSuchPart := by
  refine ⟨?_, ?_, ?_, ?_⟩ <;> decide +kernel

end HoareCheck
