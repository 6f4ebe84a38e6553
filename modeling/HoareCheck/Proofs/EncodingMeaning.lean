import HoareCheck.Proofs.MarkedNames
import HoareCheck.Proofs.SolverMeaning
import HoareCheck.Solver.Encode

/-!
# Meaning of encoded claims

`Term.Typed` describes the claims that type resolution lets pass when all
variables are integers.  Below a connective it lets pass variables too, and
then the claim has no formula.  If a typed claim has a formula, the formula has
the value of the claim, in the model that a store of integers is
(`Typed.encodes`).
-/

namespace HoareCheck

variable {before after : EncodingState} {first second : Int} {context : EncodingContext}
  {term : Term} {name : String} {operand : Operand} {sort : SolverSort}

/-- A store of integers as a model; constants of other sorts have some value. -/
def Model.ofStore (store : Store) (hstore : store.IsInteger) : Model where
  constant name sort :=
    match sort with
    | .int => store name
    | .bool => .bool false
    | .real => .real 0
    | .array => .array fun _ => 0
  sorted name sort := by
    cases sort with
    | int =>
      obtain ⟨value, hvalue⟩ := hstore name
      exact ⟨value, hvalue.symm⟩
    | bool | real | array => exact ⟨_, rfl⟩
  quotientByZero _ := 0
  remainderByZero _ := 0
  ratioByZero _ := 0

/-- A claim about integers, and the sort that it has.  A connective takes the
sort of its right side. -/
inductive Term.Typed : Term → SolverSort → Prop
  | var {name : String} : '#' ∉ name.toList → Typed (.var name) .int
  | int {value : Int} : Typed (.literal (.int value)) .int
  | bool {value : Bool} : Typed (.literal (.bool value)) .bool
  | number {operator : Operator} {operand : Term} :
      operator = .minus ∨ operator = .abs → Typed operand .int →
      Typed (.unary operator operand) .int
  | not {operand : Term} : Typed operand .bool → Typed (.unary .not operand) .bool
  | arithmetic {left right : Term} {operator : Operator} :
      operator.family = .arithmetic → operator ≠ .div → operator ≠ .mod →
      Typed left .int → Typed right .int → Typed (.binary left operator right) .int
  | comparison {left right : Term} {operator : Operator} :
      operator.family = .comparison → operator ≠ .adjacent →
      Typed left .int → Typed right .int → Typed (.binary left operator right) .bool
  | logical {left right : Term} {operator : Operator} {leftSort rightSort : SolverSort} :
      operator.family = .logical → Typed left leftSort → Typed right rightSort →
      Typed (.binary left operator right) rightSort

theorem gives_ofExcept {α : Type} {outcome : Except Fault α} {value : α} :
    Gives ((Encoding.ofExcept outcome).run context) before value after ↔
      outcome = .ok value ∧ before = after := by
  cases outcome with
  | error =>
    constructor
    · intro hgives
      cases hgives
    · rintro ⟨hvalue, _⟩
      cases hvalue
  | ok =>
    rw [Except.ok.injEq]
    exact gives_pure

theorem Term.run_encode : term.encode.run context =
      (term.encodeWith (encodeWritten context.log (context.log.sites.size + 1))).run context := by
  rw [encode, ReaderT.run_bind]
  rfl

/-- A name without the mark of a copy stands for the constant of that name. -/
theorem constant_of_gives (hname : '#' ∉ name.toList)
    (hgives : Gives ((Encoding.constant name).run context) before operand after) :
    after = before ∧ ∃ sort, before.names.find? name = some sort ∧
      operand = .symbolic (.const name sort) := by
  simp only [Encoding.constant, ReaderT.run_bind, gives_bind, ofList_takeWhile_ne hname] at hgives
  obtain ⟨_, _, hget, hconstant⟩ := hgives
  obtain ⟨rfl, rfl⟩ := gives_get.mp hget
  cases hfind : before.names.find? name with
  | none =>
    rw [hfind] at hconstant
    cases hconstant
  | some sort =>
    rw [hfind] at hconstant
    obtain ⟨rfl, rfl⟩ := gives_pure.mp hconstant
    exact ⟨rfl, sort, rfl, rfl⟩

theorem NameTable.sort_of_find? {names : NameTable} (hnames : ∀ entry ∈ names, entry.2 = .int)
    (hfind : names.find? name = some sort) : sort = .int := by
  simp only [NameTable.find?, Option.map_eq_some_iff] at hfind
  obtain ⟨entry, hentry, rfl⟩ := hfind
  exact hnames entry (List.mem_of_find?_eq_some hentry)

section Operators

variable {model : Model} {left right operand result : Operand} {context : EncodingContext}
  {before after : EncodingState} {operator : Operator}

/-- An operation succeeds in every state, and its result stands for a value of a
sort. -/
def Encoding.Computes (operation : Encoding Operand) (context : EncodingContext)
    (model : Model) (sort : SolverSort) (value : Value) : Prop :=
  ∀ state, ∃ result, Gives (operation.run context) state result state ∧
    value ∈ sort.values ∧ result.Means model sort value

theorem Encoding.Computes.of_gives {operation : Encoding Operand} {value : Value}
    (hcomputes : operation.Computes context model sort value)
    (hgives : Gives (operation.run context) before result after) :
    after = before ∧ value ∈ sort.values ∧ result.Means model sort value := by
  obtain ⟨_, hother, hvalue, hmeans⟩ := hcomputes before
  obtain ⟨rfl, rfl⟩ := hgives.unique hother
  exact ⟨rfl, hvalue, hmeans⟩

theorem computes_ofExcept {outcome : Except Fault Operand} {value : Value}
    (hvalue : value ∈ sort.values)
    (hok : ∃ result, outcome = .ok result ∧ result.Means model sort value) :
    (Encoding.ofExcept outcome).Computes context model sort value := by
  intro state
  obtain ⟨result, hresult, hmeans⟩ := hok
  exact ⟨result, gives_ofExcept.mpr ⟨hresult, rfl⟩, hvalue, hmeans⟩

theorem computes_number {value : Int} (hoperator : operator = .minus ∨ operator = .abs)
    (hoperand : operand.Means model .int (.int value)) :
    (Encoding.unary operator operand).Computes context model .int
      (Interpretation.standard.applyUnary operator (.int value)) := by
  rcases hoperator with rfl | rfl
  · exact computes_ofExcept ⟨_, rfl⟩ hoperand.negate
  · exact computes_ofExcept ⟨_, rfl⟩ hoperand.absolute

theorem computes_arithmetic (hoperator : operator ∈ [.add, .minus, .mult])
    (hleft : left.Means model .int (.int first)) (hright : right.Means model .int (.int second)) :
    (Encoding.binary operator left right).Computes context model .int
      (Interpretation.standard.applyBinary operator (.int first) (.int second)) := by
  have hformula (arithmetic : ArithmeticOp) (hclosed : arithmetic ∉ [.div, .mod]) :
      ∃ result, Operand.arithmetic arithmetic left right = .ok result ∧
        result.Means model .int (model.arithmetic arithmetic (.int first) (.int second)) :=
    (hleft.arithmetic hright fun hopen => absurd hopen hclosed).imp
      fun _ hresult => ⟨hresult.1, hresult.2.1⟩
  simp only [List.mem_cons, List.not_mem_nil, or_false] at hoperator
  rcases hoperator with rfl | rfl | rfl
  · exact computes_ofExcept ⟨_, rfl⟩ (hformula .add (by decide))
  · exact computes_ofExcept ⟨_, rfl⟩ (hformula .sub (by decide))
  · exact computes_ofExcept ⟨_, rfl⟩ (hformula .mul (by decide))

theorem Operand.Means.logicalNot_ok {value : Value} (hoperand : operand.Means model .bool value) :
    ∃ result, operand.logicalNot = .ok result := by
  obtain ⟨formula, hcast, -⟩ := hoperand.cast
  exact ⟨.symbolic (.not formula), by rw [logicalNot, hcast]; rfl⟩

theorem computes_comparison (hoperator : operator ∈ [.eq, .neq, .lt, .le, .gt, .ge])
    (hleft : left.Means model .int (.int first)) (hright : right.Means model .int (.int second)) :
    (Encoding.binary operator left right).Computes context model .bool
      (Interpretation.standard.applyBinary operator (.int first) (.int second)) := by
  have horder (order : OrderOp) : (Encoding.ofExcept (left.compare order right)).Computes context
      model .bool (.bool (order.relates first second)) :=
    computes_ofExcept ⟨_, rfl⟩ (hleft.compare order hright)
  obtain ⟨equality, hequality, hmeans⟩ := hleft.equal hright
  simp only [List.mem_cons, List.not_mem_nil, or_false] at hoperator
  rcases hoperator with rfl | rfl | rfl | rfl | rfl | rfl
  · exact computes_ofExcept ⟨_, rfl⟩ ⟨equality, hequality, hmeans⟩
  · obtain ⟨result, hresult⟩ := hmeans.logicalNot_ok
    have hnot := (hmeans.of_logicalNot hresult).2
    rw [Value.truth_bool, ← decide_not] at hnot
    exact computes_ofExcept ⟨_, rfl⟩ ⟨result, bind_eq_ok.mpr ⟨_, hequality, hresult⟩, hnot⟩
  · exact horder .lt
  · exact horder .le
  · exact horder .gt
  · exact horder .ge

theorem binary_logical {leftSort rightSort : SolverSort} {leftValue rightValue : Value}
    (hfamily : operator.family = .logical) (hleft : left.Means model leftSort leftValue)
    (hright : right.Means model rightSort rightValue)
    (hgives : Gives ((Encoding.binary operator left right).run context) before result after) :
    after = before ∧ rightSort = .bool ∧ ∃ flag,
      Interpretation.standard.applyBinary operator leftValue rightValue = .bool flag ∧
      result.Means model .bool (.bool flag) := by
  cases operator with
  | and =>
    obtain ⟨hresult, rfl⟩ := gives_ofExcept.mp hgives
    obtain ⟨-, hsort, hmeans⟩ := hleft.of_logicalAnd hright hresult
    exact ⟨rfl, hsort, _, rfl, hmeans⟩
  | or =>
    obtain ⟨hresult, rfl⟩ := gives_ofExcept.mp hgives
    obtain ⟨-, hsort, hmeans⟩ := hleft.of_logicalOr hright hresult
    exact ⟨rfl, hsort, _, rfl, hmeans⟩
  | implies =>
    obtain ⟨hresult, rfl⟩ := gives_ofExcept.mp hgives
    obtain ⟨-, hsort, hmeans⟩ := hleft.of_logicalImplies hright hresult
    exact ⟨rfl, hsort, _, rfl, hmeans⟩
  | iff =>
    obtain ⟨hresult, rfl⟩ := gives_ofExcept.mp hgives
    obtain ⟨-, hsort, hmeans⟩ := hleft.of_logicalIff hright hresult
    exact ⟨rfl, hsort, _, rfl, hmeans⟩
  | not => cases hgives
  | _ => cases hfamily

end Operators

/-- Every formula of a typed claim has its sort, and its value in every store of
integers. -/
theorem Term.Typed.encodes (htyped : Typed term sort) {store : Store} (hstore : store.IsInteger)
    {written? : Site → String → Option (Encoding Operand)}
    (hnames : ∀ entry ∈ before.names, entry.2 = .int)
    (hgives : Gives ((term.encodeWith written?).run context) before operand after) :
    after = before ∧ term.eval .standard store ∈ sort.values ∧
      operand.Means (.ofStore store hstore) sort (term.eval .standard store) := by
  induction htyped generalizing before after operand with
  | @var name hname =>
    obtain ⟨rfl, _, hfind, rfl⟩ := constant_of_gives hname hgives
    obtain rfl := NameTable.sort_of_find? hnames hfind
    exact ⟨rfl, (Model.ofStore store hstore).sorted name .int, .symbolic rfl rfl⟩
  | int =>
    obtain ⟨rfl, rfl⟩ := gives_pure.mp hgives
    exact ⟨rfl, ⟨_, rfl⟩, .int⟩
  | bool =>
    obtain ⟨rfl, rfl⟩ := gives_pure.mp hgives
    exact ⟨rfl, ⟨_, rfl⟩, .bool⟩
  | number hoperator _ ih =>
    simp only [Term.encodeWith, ReaderT.run_bind, gives_bind] at hgives
    obtain ⟨_, _, hinner, houter⟩ := hgives
    obtain ⟨rfl, ⟨_, hvalue⟩, hmeans⟩ := ih hnames hinner
    rw [← hvalue] at hmeans
    rw [Term.eval_unary, ← hvalue]
    exact (computes_number hoperator hmeans).of_gives houter
  | not _ ih =>
    simp only [Term.encodeWith, ReaderT.run_bind, gives_bind] at hgives
    obtain ⟨_, _, hinner, houter⟩ := hgives
    obtain ⟨rfl, _, hmeans⟩ := ih hnames hinner
    obtain ⟨hnot, rfl⟩ := gives_ofExcept.mp houter
    obtain ⟨-, hresult⟩ := hmeans.of_logicalNot hnot
    exact ⟨rfl, ⟨_, rfl⟩, hresult⟩
  | @arithmetic _ _ operator hfamily hdiv hmod _ _ ihleft ihright =>
    simp only [Term.encodeWith, ReaderT.run_bind, gives_bind] at hgives
    obtain ⟨_, _, hleft, _, _, hright, hbinary⟩ := hgives
    obtain ⟨rfl, ⟨_, hfirst⟩, hleftMeans⟩ := ihleft hnames hleft
    obtain ⟨rfl, ⟨_, hsecond⟩, hrightMeans⟩ := ihright hnames hright
    rw [← hfirst] at hleftMeans
    rw [← hsecond] at hrightMeans
    rw [Term.eval_binary, ← hfirst, ← hsecond]
    have hoperator : operator = .abs ∨ operator ∈ [.add, .minus, .mult] := by
      revert hfamily hdiv hmod
      cases operator <;> decide
    rcases hoperator with rfl | hoperator
    · cases hbinary
    · exact (computes_arithmetic hoperator hleftMeans hrightMeans).of_gives hbinary
  | @comparison _ _ operator hfamily hadjacent _ _ ihleft ihright =>
    simp only [Term.encodeWith, ReaderT.run_bind, gives_bind] at hgives
    obtain ⟨_, _, hleft, _, _, hright, hbinary⟩ := hgives
    obtain ⟨rfl, ⟨_, hfirst⟩, hleftMeans⟩ := ihleft hnames hleft
    obtain ⟨rfl, ⟨_, hsecond⟩, hrightMeans⟩ := ihright hnames hright
    rw [← hfirst] at hleftMeans
    rw [← hsecond] at hrightMeans
    rw [Term.eval_binary, ← hfirst, ← hsecond]
    refine (computes_comparison ?_ hleftMeans hrightMeans).of_gives hbinary
    revert hfamily hadjacent
    cases operator <;> decide
  | logical hfamily _ _ ihleft ihright =>
    simp only [Term.encodeWith, ReaderT.run_bind, gives_bind] at hgives
    obtain ⟨_, _, hleft, _, _, hright, hbinary⟩ := hgives
    obtain ⟨rfl, _, hleftMeans⟩ := ihleft hnames hleft
    obtain ⟨rfl, _, hrightMeans⟩ := ihright hnames hright
    obtain ⟨rfl, rfl, flag, hflag, hresult⟩ := binary_logical hfamily hleftMeans hrightMeans hbinary
    rw [Term.eval_binary, hflag]
    exact ⟨rfl, ⟨flag, rfl⟩, hresult⟩

end HoareCheck
