import HoareCheck.Proofs.Gives
import HoareCheck.Proofs.Meaning
import HoareCheck.Solver.Operand

/-!
# Meaning of formulas

A formula of the solver has a value in a model, which gives every constant a
value of its sort.  Division by zero is left to the model.

An operand, a plain value or a formula, then has a sort and stands for a value
(`Operand.Means`).  Operations on integers succeed and give what they should;
those on truth values succeed on nothing else.
-/

namespace HoareCheck

variable {first second : Int} {formula : Formula} {operator : OrderOp} {datum : Datum}

/-! ## Models -/

/-- The values of a sort. -/
def SolverSort.values : SolverSort → Set Value
  | .int => Set.range .int
  | .bool => Set.range .bool
  | .real => Set.range .real
  | .array => Set.range .array

/-- Values for the constants, and for what division by zero leaves open. -/
structure Model where
  constant : String → SolverSort → Value
  sorted : ∀ name sort, constant name sort ∈ sort.values
  quotientByZero : Int → Int
  remainderByZero : Int → Int
  ratioByZero : ℝ → ℝ

namespace Model

open scoped Classical in
/-- A model in which one constant has a given value of its sort. -/
noncomputable def assign (model : Model) (name : String) (sort : SolverSort)
    (value : sort.values) : Model where
  constant other otherSort :=
    if other = name ∧ otherSort = sort then value else model.constant other otherSort
  sorted other otherSort := by
    split_ifs with hsame
    · rw [hsame.2]
      exact value.2
    · exact model.sorted other otherSort
  quotientByZero := model.quotientByZero
  remainderByZero := model.remainderByZero
  ratioByZero := model.ratioByZero

open scoped Classical in
/-- Arithmetic on two numbers of one sort. -/
noncomputable def arithmetic (model : Model) : ArithmeticOp → Value → Value → Value
  | .add, .int left, .int right => .int (left + right)
  | .sub, .int left, .int right => .int (left - right)
  | .mul, .int left, .int right => .int (left * right)
  | .div, .int left, .int right =>
    .int (if right = 0 then model.quotientByZero left else left / right)
  | .mod, .int left, .int right =>
    .int (if right = 0 then model.remainderByZero left else left % right)
  | .add, .real left, .real right => .real (left + right)
  | .sub, .real left, .real right => .real (left - right)
  | .mul, .real left, .real right => .real (left * right)
  | .div, .real left, .real right =>
    .real (if right = 0 then model.ratioByZero left else left / right)
  | _, _, _ => .nothing

end Model

/-- Two values stand in the order that a comparison asks for. -/
def OrderOp.relates {α : Type} [LinearOrder α] : OrderOp → α → α → Prop
  | .lt, left, right => left < right
  | .le, left, right => left ≤ right
  | .gt, left, right => left > right
  | .ge, left, right => left ≥ right

instance {α : Type} [LinearOrder α] (operator : OrderOp) (left right : α) :
    Decidable (operator.relates left right) :=
  match operator with
  | .lt => inferInstanceAs (Decidable (left < right))
  | .le => inferInstanceAs (Decidable (left ≤ right))
  | .gt => inferInstanceAs (Decidable (left > right))
  | .ge => inferInstanceAs (Decidable (left ≥ right))

namespace Value

def negated : Value → Value
  | .int value => .int (-value)
  | .real value => .real (-value)
  | _ => .nothing

def toReal : Value → Value
  | .int value => .real value
  | _ => .nothing

noncomputable def compared (operator : OrderOp) : Value → Value → Value
  | .int left, .int right => .bool (decide (operator.relates left right))
  | .real left, .real right => .bool (decide (operator.relates left right))
  | _, _ => .nothing

end Value

namespace Formula

open scoped Classical in
/-- The value of a formula in a model. -/
@[simp]
noncomputable def eval : Formula → Model → Value
  | .int value, _ => .int value
  | .real value, _ => .real value
  | .truth value, _ => .bool value
  | .const name sort, model => model.constant name sort
  | .neg operand, model => (operand.eval model).negated
  | .arithmetic operator left right, model =>
    model.arithmetic operator (left.eval model) (right.eval model)
  | .order operator left right, model =>
    Value.compared operator (left.eval model) (right.eval model)
  | .equal left right, model => .bool (decide (left.eval model = right.eval model))
  | .distinct left right, model => .bool (decide (left.eval model ≠ right.eval model))
  | .and left right, model => .bool ((left.eval model).truth && (right.eval model).truth)
  | .or left right, model => .bool ((left.eval model).truth || (right.eval model).truth)
  | .not operand, model => .bool !(operand.eval model).truth
  | .implies left right, model =>
    .bool (!(left.eval model).truth || (right.eval model).truth)
  | .ite condition thenPart elsePart, model =>
    if (condition.eval model).truth then thenPart.eval model else elsePart.eval model
  | .select array index, model => (array.eval model).element (index.eval model)
  | .toReal operand, model => (operand.eval model).toReal
  | .sumOf term, model => term.eval model
  | .sumMore sum term, model => model.arithmetic .add (sum.eval model) (term.eval model)
  | .all name sort body, model =>
    .bool (decide (∀ value, (body.eval (model.assign name sort value)).truth = true))

/-- Some model makes the formula true. -/
def Satisfiable (formula : Formula) : Prop :=
  ∃ model, (formula.eval model).truth = true

end Formula

/-! ## Operands -/

/-- An operand has a sort, and stands for a value in a model. -/
inductive Operand.Means (model : Model) : Operand → SolverSort → Value → Prop
  | int {value : Int} : Means model (.plain (.int value)) .int (.int value)
  | bool {value : Bool} : Means model (.plain (.bool value)) .bool (.bool value)
  | symbolic {formula : Formula} {sort : SolverSort} {value : Value} :
      formula.sort = sort → formula.eval model = value →
      Means model (.symbolic formula) sort value

namespace Operand

def isSymbolic : Operand → Bool
  | .plain _ => false
  | .symbolic _ => true

variable {model : Model} {left right operand result : Operand}
  {sort leftSort rightSort : SolverSort} {value leftValue rightValue : Value}

theorem cast_symbolic (hsort : formula.sort = sort) :
    cast sort (.symbolic formula) = .ok formula := by
  cases sort <;> simp [cast, hsort, pure, Except.pure]

/-- An operand as a formula of its own sort. -/
theorem Means.cast (hmeans : operand.Means model sort value) :
    ∃ formula, operand.cast sort = .ok formula ∧ formula.sort = sort ∧
      formula.eval model = value := by
  cases hmeans with
  | int => exact ⟨_, rfl, rfl, rfl⟩
  | bool => exact ⟨_, rfl, rfl, rfl⟩
  | symbolic hsort heval => exact ⟨_, cast_symbolic hsort, hsort, heval⟩

/-- Two operands of one sort as formulas of it. -/
theorem Means.unify (hleft : left.Means model sort leftValue)
    (hright : right.Means model sort rightValue) :
    ∃ leftFormula rightFormula, unify left right = .ok (leftFormula, rightFormula) ∧
      leftFormula.sort = sort ∧ rightFormula.sort = sort ∧
      leftFormula.eval model = leftValue ∧ rightFormula.eval model = rightValue := by
  obtain ⟨leftFormula, hleftCast, hleftSort, hleftEval⟩ := hleft.cast
  obtain ⟨rightFormula, hrightCast, hrightSort, hrightEval⟩ := hright.cast
  refine ⟨leftFormula, rightFormula, ?_, hleftSort, hrightSort, hleftEval, hrightEval⟩
  cases hleft with
  | int =>
    cases hright with
    | int =>
      cases hleftCast
      cases hrightCast
      rfl
    | symbolic hsort =>
      simp only [Operand.unify, hsort, hleftCast, hrightCast]
      rfl
  | bool =>
    cases hright with
    | bool =>
      cases hleftCast
      cases hrightCast
      rfl
    | symbolic hsort =>
      simp only [Operand.unify, hsort, hleftCast, hrightCast]
      rfl
  | symbolic hsort =>
    cases hright with
    | int | bool =>
      simp only [Operand.unify, hsort, hleftCast, hrightCast]
      rfl
    | symbolic hother =>
      have hjoin : join sort sort = .ok sort := by cases sort <;> rfl
      simp only [Operand.unify, hsort, hother, hjoin]
      change (do return (← Operand.cast sort _, ← Operand.cast sort _)) = _
      rw [hleftCast, hrightCast]
      rfl

theorem flag?_eq_none (hmeans : operand.Means model .int value) : operand.flag? = none := by
  cases hmeans with
  | int => rfl
  | symbolic hsort => simp [flag?, hsort]

/-- Arithmetic on integers.  Between plain values, division and the remainder are apart. -/
theorem Means.arithmetic {operator : ArithmeticOp} (hleft : left.Means model .int leftValue)
    (hright : right.Means model .int rightValue)
    (hopen : operator ∈ [.div, .mod] → left.isSymbolic || right.isSymbolic) :
    ∃ result, arithmetic operator left right = .ok result ∧
      result.Means model .int (model.arithmetic operator leftValue rightValue) ∧
      result.isSymbolic = (left.isSymbolic || right.isSymbolic) := by
  have hleftFlag := flag?_eq_none hleft
  have hrightFlag := flag?_eq_none hright
  cases hleft with
  | @int first =>
    cases hright with
    | int =>
      cases operator with
      | add | sub | mul => exact ⟨_, rfl, .int, rfl⟩
      | div | mod => simp [isSymbolic] at hopen
    | symbolic hsort heval =>
      obtain ⟨rightFormula, leftFormula, hunify, hrightSort, hleftSort, hrightEval,
        hleftEval⟩ := (Means.symbolic hsort heval).unify
          (show (Operand.plain (.int first)).Means model .int (.int first) from .int)
      refine ⟨.symbolic (.arithmetic operator leftFormula rightFormula), ?_,
        .symbolic hleftSort (by simp [hleftEval, hrightEval]), rfl⟩
      simp [Operand.arithmetic, hleftFlag, hrightFlag, isText, isNumber, sort?, hsort,
        hunify, hrightSort, bind, Except.bind, pure, Except.pure]
  | symbolic hsort heval =>
    obtain ⟨leftFormula, rightFormula, hunify, hleftSort, -, hleftEval, hrightEval⟩ :=
      (Means.symbolic hsort heval).unify hright
    refine ⟨.symbolic (.arithmetic operator leftFormula rightFormula), ?_,
      .symbolic hleftSort (by simp [hleftEval, hrightEval]), rfl⟩
    simp [Operand.arithmetic, hleftFlag, hrightFlag, isText, isNumber, sort?, hsort,
      arithmeticFormula, hunify, hleftSort, bind, Except.bind, pure, Except.pure]

theorem num_compare? (first second : Int) : Datum.Num.compare? (.int first) (.int second) =
      some (if first < second then .lt else if second < first then .gt else .eq) := by
  simp [Datum.Num.compare?]

theorem satisfies_order :
    satisfies operator (Datum.Num.compare? (.int first) (.int second)) = true ↔
      operator.relates first second := by
  rw [num_compare?]
  cases operator <;> simp only [satisfies, OrderOp.relates] <;> split_ifs <;> simp <;> omega

theorem relates_flipped :
    operator.flipped.relates second first ↔ operator.relates first second := by
  cases operator <;> rfl

/-- Comparisons of integers. -/
theorem Means.compare (operator : OrderOp) {first second : Int}
    (hleft : left.Means model .int (.int first)) (hright : right.Means model .int (.int second)) :
    ∃ result, compare operator left right = .ok result ∧
      result.Means model .bool (.bool (decide (operator.relates first second))) := by
  cases hleft with
  | int =>
    cases hright with
    | int =>
      have hplain : satisfies operator (Datum.Num.compare? (.int first) (.int second)) =
          decide (operator.relates first second) := by
        rw [Bool.eq_iff_iff, satisfies_order, decide_eq_true_iff]
      refine ⟨.plain (.bool (decide (operator.relates first second))), ?_, .bool⟩
      rw [← hplain]
      rfl
    | symbolic hsort heval =>
      obtain ⟨rightFormula, leftFormula, hunify, -, -, hrightEval, hleftEval⟩ :=
        (Means.symbolic hsort heval).unify
          (show (Operand.plain (.int first)).Means model .int (.int first) from .int)
      refine ⟨.symbolic (.order operator.flipped rightFormula leftFormula), ?_, ?_⟩
      · simp [Operand.compare, isNumber, sort?, hsort, hunify]
      · refine .symbolic rfl ?_
        simp [hleftEval, hrightEval, Value.compared, relates_flipped]
  | symbolic hsort heval =>
    obtain ⟨leftFormula, rightFormula, hunify, -, -, hleftEval, hrightEval⟩ :=
      (Means.symbolic hsort heval).unify hright
    refine ⟨.symbolic (.order operator leftFormula rightFormula), ?_, ?_⟩
    · simp [Operand.compare, isNumber, sort?, hsort, hunify]
    · exact .symbolic rfl (by simp [hleftEval, hrightEval, Value.compared])

/-- Equality of integers. -/
theorem Means.equal {first second : Int} (hleft : left.Means model .int (.int first))
    (hright : right.Means model .int (.int second)) : ∃ result, equal left right = .ok result ∧
      result.Means model .bool (.bool (first = second)) := by
  cases hleft with
  | int =>
    cases hright with
    | int =>
      have hplain : Datum.equal (.int first) (.int second) = decide (first = second) := by
        simp only [Datum.equal, Datum.num?, num_compare?]
        rw [Bool.eq_iff_iff]
        split_ifs <;> simp <;> omega
      refine ⟨.plain (.bool (first = second)), ?_, .bool⟩
      rw [← hplain]
      rfl
    | symbolic hsort heval =>
      obtain ⟨rightFormula, leftFormula, hunify, -, -, hrightEval, hleftEval⟩ :=
        (Means.symbolic hsort heval).unify
          (show (Operand.plain (.int first)).Means model .int (.int first) from .int)
      refine ⟨.symbolic (.equal rightFormula leftFormula), ?_, .symbolic rfl ?_⟩
      · simp [Operand.equal, hunify]
      · simp [hleftEval, hrightEval, eq_comm]
  | symbolic hsort heval =>
    obtain ⟨leftFormula, rightFormula, hunify, -, -, hleftEval, hrightEval⟩ :=
      (Means.symbolic hsort heval).unify hright
    refine ⟨.symbolic (.equal leftFormula rightFormula), ?_, .symbolic rfl ?_⟩
    · cases hright <;> simp [Operand.equal, hunify]
    · simp [hleftEval, hrightEval]

theorem Means.negate {number : Int} (hoperand : operand.Means model .int (.int number)) :
    ∃ result, negate operand = .ok result ∧ result.Means model .int (.int (-number)) := by
  cases hoperand with
  | int => exact ⟨_, rfl, .int⟩
  | symbolic hsort heval =>
    refine ⟨.symbolic (.neg _), ?_, .symbolic hsort ?_⟩
    · simp only [Operand.negate, isNumber, sort?, hsort]
      rfl
    · simp [heval, Value.negated]

theorem Means.choose {condition : Operand} {flag : Bool}
    (hcondition : condition.Means model .bool (.bool flag))
    (hleft : left.Means model sort leftValue) (hright : right.Means model sort rightValue) :
    ∃ result, choose condition left right = .ok result ∧
      result.Means model sort (if flag then leftValue else rightValue) := by
  obtain ⟨conditionFormula, hcast, -, heval⟩ := hcondition.cast
  obtain ⟨leftFormula, rightFormula, hunify, hsort, -, hleftEval, hrightEval⟩ := hleft.unify hright
  refine ⟨.symbolic (.ite conditionFormula leftFormula rightFormula), ?_, ?_⟩
  · rw [Operand.choose, hcast]
    change (Operand.unify left right >>= _) = _
    rw [hunify]
    rfl
  · exact .symbolic hsort (by simp [heval, hleftEval, hrightEval])

theorem Means.absolute {number : Int} (hoperand : operand.Means model .int (.int number)) :
    ∃ result, absolute operand = .ok result ∧ result.Means model .int (.int number.natAbs) := by
  have hzero : (Operand.plain (.int 0)).Means model .int (.int 0) := .int
  obtain ⟨positive, hpositive, hflag⟩ := Means.compare .gt hoperand hzero
  obtain ⟨negated, hnegated, hvalue⟩ := hoperand.negate
  obtain ⟨result, hresult, hmeans⟩ := hflag.choose hoperand hvalue
  refine ⟨result, ?_, ?_⟩
  · rw [Operand.absolute, hpositive]
    change (Operand.negate operand >>= fun negated => positive.choose operand negated) = _
    rw [hnegated]
    exact hresult
  · have habs : (number.natAbs : Int) = if 0 < number then number else -number := by
      split_ifs <;> omega
    rw [habs]
    by_cases hnumber : 0 < number <;> simpa [OrderOp.relates, hnumber] using hmeans

/-! ## Connectives -/

theorem Means.of_cast_bool (hoperand : operand.Means model sort value)
    (hcast : operand.cast .bool = .ok formula) :
    sort = .bool ∧ formula.sort = .bool ∧ formula.eval model = value := by
  cases hoperand with
  | int => cases hcast
  | bool =>
    cases hcast
    exact ⟨rfl, rfl, rfl⟩
  | @symbolic other _ _ hsort heval =>
    by_cases hbool : other.sort = .bool
    · rw [cast_symbolic hbool] at hcast
      cases hcast
      exact ⟨by rw [← hsort, hbool], hbool, heval⟩
    · simp [Operand.cast, hbool, throw, throwThe, MonadExceptOf.throw] at hcast

theorem sort_of_intNumeral (hnumeral : intNumeral datum = .ok formula) : formula.sort = .int := by
  unfold intNumeral at hnumeral
  split at hnumeral
  · cases hnumeral
    rfl
  · cases hnumeral
    rfl
  · split at hnumeral <;> cases hnumeral
    rfl
  · cases hnumeral

theorem sort_of_realNumeral (hnumeral : realNumeral datum = .ok formula) :
    formula.sort = .real := by
  unfold realNumeral at hnumeral
  split at hnumeral
  · cases hnumeral
    rfl
  · split at hnumeral <;> cases hnumeral
    rfl
  · cases hnumeral

/-- A cast gives a formula of the sort that is asked for. -/
theorem sort_of_cast (hcast : operand.cast sort = .ok formula) : formula.sort = sort := by
  unfold Operand.cast at hcast
  split at hcast
  · cases hcast
    rfl
  · cases hcast
  · exact sort_of_intNumeral hcast
  · exact sort_of_realNumeral hcast
  · cases hcast
  · split_ifs at hcast with hsort
    · cases hcast
      exact hsort
    · split at hcast <;> cases hcast <;> rfl

theorem Means.of_logicalNot (hoperand : operand.Means model sort value)
    (hresult : logicalNot operand = .ok result) :
    sort = .bool ∧ result.Means model .bool (.bool !value.truth) := by
  obtain ⟨_, hcast, hformula⟩ := bind_eq_ok.mp hresult
  obtain ⟨hsort, -, heval⟩ := hoperand.of_cast_bool hcast
  cases hformula
  exact ⟨hsort, .symbolic rfl (by simp [heval])⟩

section

variable (hleft : left.Means model leftSort leftValue)
  (hright : right.Means model rightSort rightValue)

include hleft hright

theorem Means.of_logicalImplies (hresult : logicalImplies left right = .ok result) :
    leftSort = .bool ∧ rightSort = .bool ∧
      result.Means model .bool (.bool (!leftValue.truth || rightValue.truth)) := by
  simp only [logicalImplies, bind_eq_ok] at hresult
  obtain ⟨_, hleftCast, _, hrightCast, hformula⟩ := hresult
  obtain ⟨hleftSort, -, hleftEval⟩ := hleft.of_cast_bool hleftCast
  obtain ⟨hrightSort, -, hrightEval⟩ := hright.of_cast_bool hrightCast
  cases hformula
  exact ⟨hleftSort, hrightSort, .symbolic rfl (by simp [hleftEval, hrightEval])⟩

/-- Only truth values unify to truth values. -/
theorem Means.of_unify {leftFormula rightFormula : Formula}
    (hunify : Operand.unify left right = .ok (leftFormula, rightFormula))
    (hbool : leftFormula.sort = .bool) :
    leftSort = .bool ∧ rightSort = .bool ∧ leftFormula.eval model = leftValue ∧
      rightFormula.eval model = rightValue := by
  -- Beside a formula both operands are cast to one sort, which has to be that of
  -- truth values then.
  have hcasts : ∀ {sort : SolverSort}, left.cast sort = .ok leftFormula →
      right.cast sort = .ok rightFormula → leftSort = .bool ∧ rightSort = .bool ∧
        leftFormula.eval model = leftValue ∧ rightFormula.eval model = rightValue := by
    intro sort hleftCast hrightCast
    obtain rfl : sort = .bool := (sort_of_cast hleftCast).symm.trans hbool
    obtain ⟨hleftSort, -, hleftEval⟩ := hleft.of_cast_bool hleftCast
    obtain ⟨hrightSort, -, hrightEval⟩ := hright.of_cast_bool hrightCast
    exact ⟨hleftSort, hrightSort, hleftEval, hrightEval⟩
  cases left with
  | plain =>
    cases right with
    | plain =>
      cases hleft <;> cases hright <;> cases hunify
      · cases hbool
      · cases hbool
      · cases hbool
      · exact ⟨rfl, rfl, rfl, rfl⟩
    | symbolic =>
      simp only [Operand.unify, bind_eq_ok] at hunify
      obtain ⟨_, hleftCast, _, hrightCast, hformulas⟩ := hunify
      cases hformulas
      exact hcasts hleftCast hrightCast
  | symbolic =>
    cases right with
    | plain =>
      simp only [Operand.unify, bind_eq_ok] at hunify
      obtain ⟨_, hleftCast, _, hrightCast, hformulas⟩ := hunify
      cases hformulas
      exact hcasts hleftCast hrightCast
    | symbolic =>
      simp only [Operand.unify, bind_eq_ok] at hunify
      obtain ⟨_, -, _, hleftCast, _, hrightCast, hformulas⟩ := hunify
      cases hformulas
      exact hcasts hleftCast hrightCast

theorem Means.of_logicalAnd (hresult : logicalAnd left right = .ok result) :
    leftSort = .bool ∧ rightSort = .bool ∧
      result.Means model .bool (.bool (leftValue.truth && rightValue.truth)) := by
  simp only [logicalAnd, bind_eq_ok] at hresult
  obtain ⟨⟨_, _⟩, hunify, hformula⟩ := hresult
  split_ifs at hformula with hbool
  obtain ⟨hleftSort, hrightSort, hleftEval, hrightEval⟩ := hleft.of_unify hright hunify hbool
  cases hformula
  exact ⟨hleftSort, hrightSort, .symbolic rfl (by simp [hleftEval, hrightEval])⟩

theorem Means.of_logicalOr (hresult : logicalOr left right = .ok result) :
    leftSort = .bool ∧ rightSort = .bool ∧
      result.Means model .bool (.bool (leftValue.truth || rightValue.truth)) := by
  simp only [logicalOr, bind_eq_ok] at hresult
  obtain ⟨⟨_, _⟩, hunify, hformula⟩ := hresult
  split_ifs at hformula with hbool
  obtain ⟨hleftSort, hrightSort, hleftEval, hrightEval⟩ := hleft.of_unify hright hunify hbool
  cases hformula
  exact ⟨hleftSort, hrightSort, .symbolic rfl (by simp [hleftEval, hrightEval])⟩

theorem Means.of_logicalIff (hresult : logicalIff left right = .ok result) :
    leftSort = .bool ∧ rightSort = .bool ∧
      result.Means model .bool (.bool (leftValue.truth == rightValue.truth)) := by
  simp only [logicalIff, bind_eq_ok] at hresult
  obtain ⟨_, hforward, _, hbackward, hboth⟩ := hresult
  obtain ⟨hleftSort, hrightSort, hforwardMeans⟩ := hleft.of_logicalImplies hright hforward
  obtain ⟨-, -, hbackwardMeans⟩ := hright.of_logicalImplies hleft hbackward
  obtain ⟨-, -, hmeans⟩ := hforwardMeans.of_logicalAnd hbackwardMeans hboth
  refine ⟨hleftSort, hrightSort, ?_⟩
  cases hfirst : leftValue.truth <;> cases hsecond : rightValue.truth <;>
    simpa [hfirst, hsecond] using hmeans

end

end Operand

end HoareCheck
