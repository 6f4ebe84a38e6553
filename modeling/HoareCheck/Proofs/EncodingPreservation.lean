import HoareCheck.Proofs.EncodingMeaning

/-!
# Encoding preserves meaning

`Term.WellTyped` is the usual typing of claims over integers, truth values and
integer arrays.  A well-typed claim has a formula, whichever of its parts are
literals and computed at once.  In every model that reads the store, the formula
has the value that the claim has in the store.

A quantifier leaves its variable in the table of names, so later parts of a
claim are encoded with a larger table.  That table still has the names that the
claim speaks of, as none of them is bound.
-/

namespace HoareCheck

open Function

variable {leftValue rightValue : Value} {first second : Int} {name : String} {sort : SolverSort}
  {context : EncodingContext} {state : EncodingState} {type : Ty}

/-! ## Typing -/

/-- What is known of the sorts of names. -/
abbrev Sorts := String → Option SolverSort

/-- The sort of the values of a type. -/
def Ty.solverSort? : Ty → Option SolverSort
  | .int => some .int
  | .bool => some .bool
  | .listOf .int => some .array
  | _ => none

/-- Between operands of one sort, a binary operator gives another. -/
inductive Operator.Takes : Operator → SolverSort → SolverSort → Prop
  | arithmetic {operator : Operator} :
      operator ∈ [.add, .minus, .mult] → Takes operator .int .int
  | comparison {operator : Operator} :
      operator ∈ [.eq, .neq, .lt, .le, .gt, .ge] → Takes operator .int .bool
  | connective {operator : Operator} :
      operator ∈ [.and, .or, .implies, .iff] → Takes operator .bool .bool

/-- A claim has a sort.  No write is recorded against its array reads. -/
inductive Term.WellTyped (log : WriteLog) : Sorts → Term → SolverSort → Prop
  | var {sorts : Sorts} {name : String} {sort : SolverSort} :
      sorts name = some sort → WellTyped log sorts (.var name) sort
  | int {sorts : Sorts} {value : Int} : WellTyped log sorts (.literal (.int value)) .int
  | bool {sorts : Sorts} {value : Bool} : WellTyped log sorts (.literal (.bool value)) .bool
  | number {sorts : Sorts} {operator : Operator} {operand : Term} :
      operator = .minus ∨ operator = .abs → WellTyped log sorts operand .int →
      WellTyped log sorts (.unary operator operand) .int
  | not {sorts : Sorts} {operand : Term} :
      WellTyped log sorts operand .bool → WellTyped log sorts (.unary .not operand) .bool
  | binary {sorts : Sorts} {operator : Operator} {left right : Term}
      {inner outer : SolverSort} :
      operator.Takes inner outer →
      WellTyped log sorts left inner → WellTyped log sorts right inner →
      WellTyped log sorts (.binary left operator right) outer
  | element {sorts : Sorts} {site : Site} {name : String} {index : Term} :
      log.writesAt site = [] → sorts name = some .array → WellTyped log sorts index .int →
      WellTyped log sorts (.subscript site (.var name) index) .int
  | all {sorts : Sorts} {name : String} {type : Ty} {sort : SolverSort} {body : Term}
      {closed : Bool} :
      type.solverSort? = some sort →
      WellTyped log (Function.update sorts name (some sort)) body .bool →
      WellTyped log sorts (.quantified .universal (.var name) (some type) .missing body closed)
        .bool

/-! ## Stores and models -/

/-- The names of a table hold values of their sorts. -/
def Store.Fits (store : Store) (sorts : Sorts) : Prop :=
  ∀ name sort, sorts name = some sort → store name ∈ sort.values

/-- Some value of a sort. -/
def SolverSort.default : SolverSort → Value
  | .int => .int 0
  | .bool => .bool false
  | .real => .real 0
  | .array => .array fun _ => 0

theorem SolverSort.default_mem (sort : SolverSort) : sort.default ∈ sort.values := by
  cases sort <;> exact ⟨_, rfl⟩

/-- Some store fits every table. -/
theorem Store.default_fits (sorts : Sorts) :
    Store.Fits (fun name => (sorts name).elim .nothing SolverSort.default) sorts := by
  intro name sort hname
  simp only [hname, Option.elim_some]
  exact sort.default_mem

namespace Model

open scoped Classical in
/-- A store as a model: a constant has the value of its name, if that is of its
sort. -/
noncomputable def givenBy (store : Store) : Model where
  constant name sort := if store name ∈ sort.values then store name else sort.default
  sorted name sort := by
    split_ifs with hvalue
    · exact hvalue
    · exact sort.default_mem
  quotientByZero _ := 0
  remainderByZero _ := 0
  ratioByZero _ := 0

/-- The constants of a table have the values that a store holds. -/
def Reads (model : Model) (sorts : Sorts) (store : Store) : Prop :=
  ∀ name sort, sorts name = some sort → model.constant name sort = store name

variable {model : Model} {sorts : Sorts} {store : Store}

theorem givenBy_reads (hfits : store.Fits sorts) : (givenBy store).Reads sorts store := by
  intro name sort hname
  exact if_pos (hfits name sort hname)

theorem Reads.mem_values (hreads : model.Reads sorts store) (hname : sorts name = some sort) :
    store name ∈ sort.values := by
  rw [← hreads name sort hname]
  exact model.sorted name sort

/-- A model may give a constant a value when the store gives it to the name. -/
theorem Reads.assign (hreads : model.Reads sorts store) (name : String)
    (sort : SolverSort) (value : sort.values) :
    (model.assign name sort value).Reads (Function.update sorts name (some sort))
      (Function.update store name value) := by
  intro other otherSort hother
  by_cases hname : other = name
  · subst hname
    rw [update_self] at hother ⊢
    cases hother
    simp [Model.assign]
  · rw [update_of_ne hname] at hother ⊢
    simp [Model.assign, hname, hreads other otherSort hother]

end Model

/-! ## The table of names -/

namespace NameTable

theorem find?_insert (names : NameTable) (name : String) (sort : SolverSort) :
    (names.insert name sort).find? = Function.update names.find? name (some sort) := by
  funext other
  induction names with
  | nil =>
    by_cases hother : other = name
    · simp [insert, find?, hother]
    · simp [insert, find?, hother, Ne.symm hother]
  | cons head _ ih =>
    simp only [find?, update_apply] at ih ⊢
    by_cases hhead : head.1 = name
    · by_cases hother : other = name
      · simp [insert, hhead, hother]
      · simp [insert, hhead, hother, Ne.symm hother]
    · by_cases hsame : head.1 = other
      · have hother : other ≠ name := fun hname => hhead (hsame.trans hname)
        simp [insert, hsame, hother]
      · simp [insert, hhead, hsame, ih]

end NameTable

/-- The table has every name of which a sort is known, with that sort. -/
def EncodingState.Knows (state : EncodingState) (sorts : Sorts) : Prop :=
  ∀ name sort, sorts name = some sort → state.names.find? name = some sort

/-- Apart from some names, the table is as before. -/
def EncodingState.KeptExcept (after before : EncodingState) (names : List String) : Prop :=
  ∀ name ∉ names, after.names.find? name = before.names.find? name

namespace EncodingState

variable {before between after : EncodingState} {sorts : Sorts} {names others : List String}

theorem KeptExcept.refl : before.KeptExcept before names := fun _ _ => rfl

theorem KeptExcept.trans (hsecond : after.KeptExcept between others)
    (hfirst : between.KeptExcept before names) : after.KeptExcept before (names ++ others) := by
  intro name hname
  rw [List.mem_append, not_or] at hname
  rw [hsecond name hname.2, hfirst name hname.1]

/-- Names that are not known may be overwritten. -/
theorem Knows.kept (hknows : before.Knows sorts) (hkept : after.KeptExcept before names)
    (hnew : ∀ name ∈ names, sorts name = none) : after.Knows sorts := by
  intro name sort hname
  have hnot : name ∉ names := by
    intro hmem
    rw [hnew name hmem] at hname
    cases hname
  rw [hkept name hnot]
  exact hknows name sort hname

theorem Knows.declare (hknows : before.Knows sorts) (name : String) (sort : SolverSort) :
    Knows { before with names := before.names.insert name sort }
      (Function.update sorts name (some sort)) := by
  intro other otherSort hother
  rw [NameTable.find?_insert]
  by_cases hname : other = name
  · subst hname
    rwa [update_self] at hother ⊢
  · rw [update_of_ne hname] at hother ⊢
    exact hknows other otherSort hother

end EncodingState

/-! ## Operators always succeed on operands of their sorts -/

namespace Operand

variable {model : Model} {left right operand : Operand} {leftValue rightValue value : Value}

section

variable (hleft : left.Means model .bool leftValue) (hright : right.Means model .bool rightValue)

include hleft hright

theorem Means.logicalImplies_ok : ∃ result, logicalImplies left right = .ok result := by
  obtain ⟨leftFormula, hleftCast, -⟩ := hleft.cast
  obtain ⟨rightFormula, hrightCast, -⟩ := hright.cast
  exact ⟨.symbolic (.implies leftFormula rightFormula), by
    rw [logicalImplies, hleftCast, hrightCast]; rfl⟩

theorem Means.logicalAnd_ok : ∃ result, logicalAnd left right = .ok result := by
  obtain ⟨leftFormula, rightFormula, hunify, hsort, -⟩ := hleft.unify hright
  exact ⟨.symbolic (.and leftFormula rightFormula), bind_eq_ok.mpr ⟨_, hunify, if_pos hsort⟩⟩

theorem Means.logicalOr_ok : ∃ result, logicalOr left right = .ok result := by
  obtain ⟨leftFormula, rightFormula, hunify, hsort, -⟩ := hleft.unify hright
  exact ⟨.symbolic (.or leftFormula rightFormula), bind_eq_ok.mpr ⟨_, hunify, if_pos hsort⟩⟩

theorem Means.logicalIff_ok : ∃ result, logicalIff left right = .ok result := by
  obtain ⟨_, hforward⟩ := hleft.logicalImplies_ok hright
  obtain ⟨_, hbackward⟩ := hright.logicalImplies_ok hleft
  obtain ⟨-, -, hforwardMeans⟩ := hleft.of_logicalImplies hright hforward
  obtain ⟨-, -, hbackwardMeans⟩ := hright.of_logicalImplies hleft hbackward
  obtain ⟨result, hresult⟩ := hforwardMeans.logicalAnd_ok hbackwardMeans
  exact ⟨result, bind_eq_ok.mpr ⟨_, hforward, bind_eq_ok.mpr ⟨_, hbackward, hresult⟩⟩⟩

end

/-- The element of an array that stands in the table. -/
theorem Means.select {name : String} {index : Int} {elements : Int → Int}
    (harray : model.constant name .array = .array elements)
    (hoperand : operand.Means model .int (.int index)) :
    ∃ result, select (.symbolic (.const name .array)) operand = .ok result ∧
      result.Means model .int (.int (elements index)) := by
  obtain ⟨formula, hcast, -, heval⟩ := hoperand.cast
  refine ⟨.symbolic (.select (.const name .array) formula), ?_, .symbolic rfl ?_⟩
  · simp [Operand.select, Formula.sort, hcast]
  · simp [harray, heval, Value.element]

/-- A body that stands for truth values, one for each value of the variable. -/
theorem Means.forAll {name : String} {sort : SolverSort} {body : Operand} (flag : Value → Bool)
    (hbody : ∀ value : sort.values,
      body.Means (model.assign name sort value) .bool (.bool (flag value))) :
    ∃ result, forAll name sort body = .ok result ∧
      result.Means model .bool (.bool (Quantifier.universal.over sort.values flag)) := by
  have hall : ∀ formula : Formula,
      (∀ value : sort.values, formula.eval (model.assign name sort value) = .bool (flag value)) →
      (Formula.all name sort formula).eval model =
        .bool (Quantifier.universal.over sort.values flag) := by
    intro formula heval
    have hbodies : (∀ value, (formula.eval (model.assign name sort value)).truth = true) ↔
        ∀ value ∈ sort.values, flag value = true := by
      simp only [heval, Value.truth_bool, Subtype.forall]
    exact congrArg Value.bool (decide_eq_decide.mpr hbodies)
  cases body with
  | plain =>
    refine ⟨_, rfl, .symbolic rfl (hall _ fun value => ?_)⟩
    cases hbody value
    rfl
  | symbolic formula =>
    have heval : ∀ value : sort.values,
        formula.sort = .bool ∧
          formula.eval (model.assign name sort value) = .bool (flag value) := by
      intro value
      cases hbody value with
      | symbolic hsort heval => exact ⟨hsort, heval⟩
    have hsort := (heval ⟨sort.default, sort.default_mem⟩).1
    exact ⟨_, if_pos hsort, .symbolic rfl (hall _ fun value => (heval value).2)⟩

end Operand

/-! ## Operations -/

section Operations

variable {model : Model} {left right operand : Operand} {context : EncodingContext}
  {operator : Operator}

theorem gives_of_ok {outcome : Except Fault Operand}
    (hok : ∃ result, outcome = .ok result) (state : EncodingState) :
    ∃ result, Gives ((Encoding.ofExcept outcome).run context) state result state := by
  obtain ⟨result, hresult⟩ := hok
  exact ⟨result, gives_ofExcept.mpr ⟨hresult, rfl⟩⟩

theorem computes_not {value : Value} (hoperand : operand.Means model .bool value) :
    (Encoding.unary .not operand).Computes context model .bool
      (Interpretation.standard.applyUnary .not value) := by
  intro state
  obtain ⟨result, hresult⟩ := hoperand.logicalNot_ok
  exact ⟨result, gives_ofExcept.mpr ⟨hresult, rfl⟩, ⟨_, rfl⟩, (hoperand.of_logicalNot hresult).2⟩

theorem computes_connective (hoperator : operator ∈ [.and, .or, .implies, .iff])
    (hleft : left.Means model .bool leftValue) (hright : right.Means model .bool rightValue) :
    (Encoding.binary operator left right).Computes context model .bool
      (Interpretation.standard.applyBinary operator leftValue rightValue) := by
  intro state
  have hfamily : operator.family = .logical := by
    revert hoperator
    cases operator <;> decide
  have hgives : ∃ result,
      Gives ((Encoding.binary operator left right).run context) state result state := by
    simp only [List.mem_cons, List.not_mem_nil, or_false] at hoperator
    rcases hoperator with rfl | rfl | rfl | rfl
    · exact gives_of_ok (hleft.logicalAnd_ok hright) state
    · exact gives_of_ok (hleft.logicalOr_ok hright) state
    · exact gives_of_ok (hleft.logicalImplies_ok hright) state
    · exact gives_of_ok (hleft.logicalIff_ok hright) state
  obtain ⟨result, hresult⟩ := hgives
  obtain ⟨-, -, flag, hflag, hmeans⟩ := binary_logical hfamily hleft hright hresult
  rw [hflag]
  exact ⟨result, hresult, ⟨flag, rfl⟩, hmeans⟩

theorem Operator.Takes.computes {inner outer : SolverSort} (htakes : operator.Takes inner outer)
    (hleftValue : leftValue ∈ inner.values) (hrightValue : rightValue ∈ inner.values)
    (hleft : left.Means model inner leftValue) (hright : right.Means model inner rightValue) :
    (Encoding.binary operator left right).Computes context model outer
      (Interpretation.standard.applyBinary operator leftValue rightValue) := by
  cases htakes with
  | arithmetic hoperator =>
    obtain ⟨_, rfl⟩ := hleftValue
    obtain ⟨_, rfl⟩ := hrightValue
    exact computes_arithmetic hoperator hleft hright
  | comparison hoperator =>
    obtain ⟨_, rfl⟩ := hleftValue
    obtain ⟨_, rfl⟩ := hrightValue
    exact computes_comparison hoperator hleft hright
  | connective hoperator => exact computes_connective hoperator hleft hright

end Operations

theorem gives_constant (hname : state.names.find? name = some sort) :
    Gives ((Encoding.constant name).run context) state (.symbolic (.const name sort)) state := by
  simp only [Encoding.constant, ReaderT.run_bind, gives_bind]
  refine ⟨state, state, gives_get.mpr ⟨rfl, rfl⟩, ?_⟩
  rw [hname]
  exact gives_pure.mpr ⟨rfl, rfl⟩

theorem gives_array (hname : state.names.find? name = some sort) :
    Gives ((Encoding.array (.var name)).run context) state (.symbolic (.const name sort))
      state := by
  simp only [Encoding.array, ReaderT.run_bind, gives_bind]
  refine ⟨name, state, gives_pure.mpr ⟨rfl, rfl⟩, state, state,
    gives_get.mpr ⟨rfl, rfl⟩, sort, state, ?_, gives_pure.mpr ⟨rfl, rfl⟩⟩
  rw [hname]
  exact gives_pure.mpr ⟨rfl, rfl⟩

/-- A quantifier ranges over the values of the sort of its variable. -/
theorem domain_of_solverSort? (hsort : type.solverSort? = some sort) :
    Interpretation.standard.domain (TypeEntry.ofBinder (some type) .missing) = sort.values := by
  unfold Ty.solverSort? at hsort
  split at hsort <;> cases hsort <;> rfl

theorem gives_binderSort (hsort : type.solverSort? = some sort) :
    Gives ((Encoding.binderSort (TypeEntry.ofBinder (some type) .missing)).run context)
      state sort state := by
  unfold Ty.solverSort? at hsort
  split at hsort <;> cases hsort <;> exact gives_pure.mpr ⟨rfl, rfl⟩

/-! ## Claims -/

namespace Term

/-- The encoding of a term succeeds, changes the table at the bound names only,
and gives an operand that stands for a value. -/
def EncodesAs (written? : Site → String → Option (Encoding Operand))
    (context : EncodingContext) (model : Model) (term : Term) (sort : SolverSort)
    (value : Value) (before : EncodingState) : Prop :=
  ∃ operand after, Gives ((term.encodeWith written?).run context) before operand after ∧
    after.KeptExcept before term.boundNames ∧ value ∈ sort.values ∧
    operand.Means model sort value

/-- The encoding of a term succeeds, changes the table at the bound names only,
and gives an operand that stands for the value of the term. -/
def Encodes (written? : Site → String → Option (Encoding Operand))
    (context : EncodingContext) (model : Model) (store : Store) (term : Term)
    (sort : SolverSort) (before : EncodingState) : Prop :=
  ∃ operand after, Gives ((term.encodeWith written?).run context) before operand after ∧
    after.KeptExcept before term.boundNames ∧
    term.eval .standard store ∈ sort.values ∧
    operand.Means model sort (term.eval .standard store)

variable {written? : Site → String → Option (Encoding Operand)} {context : EncodingContext}
  {model : Model} {store : Store} {sorts : Sorts} {before : EncodingState}

theorem EncodesAs.unary {operator : Operator} {operand : Term} {inner outer : SolverSort}
    {value : Value} (hoperand : operand.EncodesAs written? context model inner value before)
    (hcomputes : ∀ encoded : Operand, value ∈ inner.values → encoded.Means model inner value →
      (Encoding.unary operator encoded).Computes context model outer
        (Interpretation.standard.applyUnary operator value)) :
    (Term.unary operator operand).EncodesAs written? context model outer
      (Interpretation.standard.applyUnary operator value) before := by
  obtain ⟨encoded, after, hgives, hkept, hvalue, hmeans⟩ := hoperand
  obtain ⟨result, hresult, hresultValue, hresultMeans⟩ := hcomputes encoded hvalue hmeans after
  refine ⟨result, after, ?_, hkept, hresultValue, hresultMeans⟩
  simp only [encodeWith, ReaderT.run_bind, gives_bind]
  exact ⟨encoded, after, hgives, hresult⟩

/-- The right operand is encoded with what the left one has left behind. -/
theorem EncodesAs.binary {operator : Operator} {left right : Term} {inner outer : SolverSort}
    {first second : Value} (htakes : operator.Takes inner outer)
    (hleft : left.EncodesAs written? context model inner first before)
    (hright : ∀ between, between.KeptExcept before left.boundNames →
      right.EncodesAs written? context model inner second between) :
    (Term.binary left operator right).EncodesAs written? context model outer
      (Interpretation.standard.applyBinary operator first second) before := by
  obtain ⟨leftOperand, between, hfirst, hleftKept, hleftValue, hleftMeans⟩ := hleft
  obtain ⟨rightOperand, after, hsecond, hrightKept, hrightValue, hrightMeans⟩ :=
    hright between hleftKept
  obtain ⟨result, hresult, hvalue, hmeans⟩ :=
    htakes.computes hleftValue hrightValue hleftMeans hrightMeans after
  refine ⟨result, after, ?_, hrightKept.trans hleftKept, hvalue, hmeans⟩
  simp only [encodeWith, ReaderT.run_bind, gives_bind]
  exact ⟨leftOperand, between, hfirst, rightOperand, after, hsecond, hresult⟩

/-- An element against which nothing is recorded under the text of its index. -/
theorem EncodesAs.element {site : Site} {name : String} {index : Term} {value : Value}
    (hunwritten : written? site (context.log.print index) = none)
    (hreads : model.Reads sorts store) (hknows : before.Knows sorts)
    (hname : sorts name = some .array)
    (hindex : index.EncodesAs written? context model .int value before) :
    (Term.subscript site (.var name) index).EncodesAs written? context model .int
      ((store name).element value) before := by
  obtain ⟨operand, after, hoperand, hkept, ⟨_, rfl⟩, hmeans⟩ := hindex
  obtain ⟨elements, helements⟩ := hreads.mem_values hname
  have harray : model.constant name .array = .array elements :=
    (hreads name .array hname).trans helements.symm
  obtain ⟨result, hresult, hresultMeans⟩ := hmeans.select harray
  rw [← helements]
  refine ⟨result, after, ?_, hkept, ⟨_, rfl⟩, hresultMeans⟩
  simp only [encodeWith, ReaderT.run_bind, gives_bind]
  refine ⟨context, before, gives_pure.mpr ⟨rfl, rfl⟩, ?_⟩
  rw [hunwritten]
  simp only [ReaderT.run_bind, gives_bind]
  exact ⟨_, _, gives_array (hknows name .array hname), operand, after, hoperand,
    gives_ofExcept.mpr ⟨hresult, rfl⟩⟩

/-- The operand of a body is one and the same for all values of the variable. -/
theorem Encodes.all {body : Term} {closed : Bool} (hsort : type.solverSort? = some sort)
    (hbody : ∀ value : sort.values,
      body.Encodes written? context (model.assign name sort value)
        (Function.update store name value) .bool
        { before with names := before.names.insert name sort }) :
    (Term.quantified .universal (.var name) (some type) .missing body closed).Encodes
      written? context model store .bool before := by
  obtain ⟨operand, after, hoperand, hkept, -⟩ := hbody ⟨sort.default, sort.default_mem⟩
  have hmeans : ∀ value : sort.values,
      operand.Means (model.assign name sort value) .bool
        (.bool (body.eval .standard (Function.update store name value)).truth) := by
    intro value
    obtain ⟨_, _, hother, -, ⟨_, hflag⟩, hmeans⟩ := hbody value
    obtain ⟨rfl, -⟩ := hoperand.unique hother
    rw [← hflag] at hmeans ⊢
    exact hmeans
  obtain ⟨result, hresult, hresultMeans⟩ := Operand.Means.forAll
    (fun value => (body.eval .standard (Function.update store name value)).truth) hmeans
  refine ⟨result, after, ?_, ?_, ⟨_, rfl⟩, ?_⟩
  · simp only [encodeWith, ReaderT.run_bind, gives_bind]
    exact ⟨sort, before, gives_binderSort hsort, name, before, gives_pure.mpr ⟨rfl, rfl⟩,
      ⟨⟩, _, gives_modify.mpr rfl, operand, after, hoperand, gives_ofExcept.mpr ⟨hresult, rfl⟩⟩
  · intro other hother
    simp only [boundNames, name?, Option.toList_some, List.singleton_append,
      List.mem_cons, not_or] at hother
    rw [hkept other hother.2, NameTable.find?_insert, update_of_ne hother.1]
  · rw [eval_quantified, domain_of_solverSort? hsort]
    exact hresultMeans

/-- A well-typed claim is encoded in every state that knows its names. -/
theorem WellTyped.encodes {log : WriteLog} {term : Term} (htyped : WellTyped log sorts term sort)
    (hunwritten : ∀ site key, log.writesAt site = [] → written? site key = none)
    (hdistinct : term.boundNames.Nodup) (hnew : ∀ name ∈ term.boundNames, sorts name = none)
    (hreads : model.Reads sorts store) (hknows : before.Knows sorts) :
    term.Encodes written? context model store sort before := by
  induction htyped generalizing model store before with
  | @var _ name sort hname =>
    exact ⟨_, _, gives_constant (hknows name sort hname), .refl,
      hreads.mem_values hname, .symbolic rfl (hreads name sort hname)⟩
  | int => exact ⟨_, _, gives_pure.mpr ⟨rfl, rfl⟩, .refl, ⟨_, rfl⟩, .int⟩
  | bool => exact ⟨_, _, gives_pure.mpr ⟨rfl, rfl⟩, .refl, ⟨_, rfl⟩, .bool⟩
  | number hoperator _ ih =>
    apply EncodesAs.unary (ih hdistinct hnew hreads hknows)
    rintro _ ⟨_, hvalue⟩ hmeans
    rw [← hvalue] at hmeans ⊢
    exact computes_number hoperator hmeans
  | not _ ih =>
    apply EncodesAs.unary (ih hdistinct hnew hreads hknows)
    exact fun encoded _ hmeans => computes_not hmeans
  | binary htakes _ _ ihleft ihright =>
    simp only [boundNames, List.nodup_append, List.mem_append] at hdistinct hnew
    apply EncodesAs.binary htakes (ihleft hdistinct.1 (fun _ h => hnew _ (.inl h)) hreads hknows)
    intro between hkept
    have hbetween : between.Knows _ := hknows.kept hkept fun _ h => hnew _ (.inl h)
    exact ihright hdistinct.2.1 (fun _ h => hnew _ (.inr h)) hreads hbetween
  | element hsite hname _ ih =>
    exact EncodesAs.element (hunwritten _ _ hsite) hreads hknows hname
      (ih hdistinct hnew hreads hknows)
  | @all _ name _ sort _ _ hsort _ ih =>
    simp only [boundNames, name?, Option.toList_some, List.singleton_append,
      List.nodup_cons, List.mem_cons, forall_eq_or_imp] at hdistinct hnew
    apply Encodes.all hsort
    intro value
    apply ih hdistinct.2 ?_ (hreads.assign name sort value) (hknows.declare name sort)
    intro other hother
    have hname : other ≠ name := by
      rintro rfl
      exact hdistinct.1 hother
    rw [update_of_ne hname]
    exact hnew.2 other hother

end Term

/-- A well-typed claim whose bound names are new and distinct has a formula or
a plain value, which is of its sort and has its value in every store that fits
the table of names. -/
theorem encode_means_value {names : NameTable} {lines : Nat} {context : EncodingContext}
    {term : Term} {sort : SolverSort} (htyped : term.WellTyped context.log names.find? sort)
    (hdistinct : term.boundNames.Nodup) (hnew : ∀ name ∈ term.boundNames, names.find? name = none) :
    ∃ operand after, Gives (term.encode.run context) ⟨names, lines⟩ operand after ∧
      ∀ store : Store, store.Fits names.find? →
        operand.Means (.givenBy store) sort (term.eval .standard store) := by
  have hunwritten : ∀ site key, context.log.writesAt site = [] →
      Term.encodeWritten context.log (context.log.sites.size + 1) site key = none := by
    intro site key hsite
    rw [Term.encodeWritten, hsite]
    rfl
  have hgives : ∀ {operand after}, Gives ((term.encodeWith (Term.encodeWritten context.log
      (context.log.sites.size + 1))).run context) ⟨names, lines⟩ operand after →
      Gives (term.encode.run context) ⟨names, lines⟩ operand after := by
    intro operand after hoperand
    simp only [Term.encode, ReaderT.run_bind, gives_bind]
    exact ⟨context, _, gives_pure.mpr ⟨rfl, rfl⟩, hoperand⟩
  have hencodes : ∀ store : Store, store.Fits names.find? →
      term.Encodes _ context (.givenBy store) store sort ⟨names, lines⟩ :=
    fun store hfits => htyped.encodes hunwritten hdistinct hnew (Model.givenBy_reads hfits)
      fun _ _ hname => hname
  -- The encoding does not look at stores, so any that fits gives the operand.
  obtain ⟨operand, after, hoperand, -⟩ := hencodes _ (Store.default_fits names.find?)
  refine ⟨operand, after, hgives hoperand, fun store hfits => ?_⟩
  obtain ⟨other, _, hother, -, -, hmeans⟩ := hencodes store hfits
  obtain ⟨rfl, -⟩ := hoperand.unique hother
  exact hmeans

/-- An array with a bound index, a quantifier over truth values, and parts that
are computed at once: `(∀ k, A[k] * -2 ≤ |x - 3|) ⇒ (b ⇔ 1 < 2 ∧ ∀ c, c ∨ ¬c)`. -/
theorem encode_means_value_mixed :
    let names : NameTable := [("A", .array), ("x", .int), ("b", .bool)]
    let bounded := Term.quantified .universal (.var "k") (some .int) .missing
      (.binary (.binary (.subscript 0 (.var "A") (.var "k")) .mult (.literal (.int (-2)))) .le
        (.unary .abs (.binary (.var "x") .minus (.literal (.int 3))))) true
    let decided := Term.quantified .universal (.var "c") (some .bool) .missing
      (.binary (.var "c") .or (.unary .not (.var "c"))) true
    let term := Term.binary bounded .implies (.binary (.var "b") .iff
      (.binary (.binary (.literal (.int 1)) .lt (.literal (.int 2))) .and decided))
    ∃ operand after,
      Gives (term.encode.run ⟨.empty, []⟩) ⟨names, 0⟩ operand after ∧
        ∀ store : Store, store.Fits names.find? →
          operand.Means (.givenBy store) .bool (term.eval .standard store) := by
  intro names bounded decided term
  have hbounded : bounded.WellTyped .empty names.find? .bool :=
    .all rfl (.binary (.comparison (by decide))
      (.binary (.arithmetic (by decide)) (.element rfl rfl (.var rfl)) .int)
      (.number (.inr rfl) (.binary (.arithmetic (by decide)) (.var rfl) .int)))
  have hdecided : decided.WellTyped .empty names.find? .bool :=
    .all rfl (.binary (.connective (by decide)) (.var rfl) (.not (.var rfl)))
  have hterm : term.WellTyped .empty names.find? .bool :=
    .binary (.connective (by decide)) hbounded
      (.binary (.connective (by decide)) (.var rfl)
        (.binary (.connective (by decide))
          (.binary (.comparison (by decide)) .int .int) hdecided))
  exact encode_means_value hterm (by decide) (by decide)

end HoareCheck
