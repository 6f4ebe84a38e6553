import HoareCheck.Proofs.TypedEncoding

/-!
# Operations that are carried out at once

An operation between literals is carried out while a claim is encoded; beside a variable it
becomes an operation of the solver.  A literal in the place of a variable moves operations
from the second kind to the first.  Sums, differences, products and comparisons come to the
same.  A quotient of literals is a double, though, and a remainder takes the sign of its
divisor, where the quotients and remainders of the solver are integers and never negative.
`Term.FoldsSafely` says that with a literal for a variable no quotient, and no remainder on
which the two disagree, is carried out at once.
-/

namespace HoareCheck

/-- Integers with the division of the solver, whose remainder is never negative. -/
def Interpretation.euclidean : Interpretation where
  __ := Interpretation.standard
  binary
    | .div, .int left, .int right => .int (left / right)
    | .mod, .int left, .int right => .int (left % right)
    | operator, left, right => Interpretation.standard.binary operator left right

theorem Interpretation.euclidean_applyBinary {operator : Operator}
    (hoperator : operator ∉ [.div, .mod]) (left right : Value) :
    euclidean.applyBinary operator left right = standard.applyBinary operator left right := by
  cases operator with
  | div | mod => simp at hoperator
  | _ => rfl

/-- The operation of the solver for an arithmetic operator. -/
def Operator.arithmetic? : Operator → Option ArithmeticOp
  | .add => some .add
  | .minus => some .sub
  | .mult => some .mul
  | .div => some .div
  | .mod => some .mod
  | _ => none

section Operations

variable {operator : Operator} {operation : ArithmeticOp}

theorem binary_of_arithmetic? (hoperation : operator.arithmetic? = some operation)
    (left right : Operand) :
    Encoding.binary operator left right =
      Encoding.ofExcept (Operand.arithmetic operation left right) := by
  cases operator <;> cases hoperation <;> rfl

/-- Away from zero the operations of the solver are fixed. -/
theorem Model.arithmetic_eq (model : Model) (hoperation : operator.arithmetic? = some operation)
    {first second : Int} (hsecond : operator ∈ [.div, .mod] → second ≠ 0) :
    model.arithmetic operation (.int first) (.int second) =
      Interpretation.euclidean.applyBinary operator (.int first) (.int second) := by
  cases operator with
  | add | minus | mult =>
    cases hoperation
    rfl
  | div | mod =>
    cases hoperation
    have hzero : second ≠ 0 := hsecond (by decide)
    simp [Model.arithmetic, hzero, Interpretation.applyBinary, Operator.connective?,
      Interpretation.euclidean]
  | _ => cases hoperation

end Operations

namespace Operand

variable {model : Model} {left right : Operand} {first second : Int}

/-- The remainder of two plain numbers is that of the solver if the divisor is positive or
divides. -/
theorem arithmetic_mod_plain (hsecond : second ≠ 0) (hsame : 0 < second ∨ second ∣ first) :
    Operand.arithmetic .mod (.plain (.int first)) (.plain (.int second)) =
      .ok (.plain (.int (first % second))) := by
  have hnonneg : 0 ≤ second ∨ second ∣ first := hsame.imp_left le_of_lt
  have hmod : Int.fmod first second = first % second := by
    rw [Int.fmod_eq_emod, if_pos hnonneg, add_zero]
  have hplain : Datum.mod (.int first) (.int second) = .ok (.int (first % second)) := by
    rw [← hmod]
    simp [Datum.mod, Datum.nums, Datum.num?, hsecond, bind, Except.bind, pure, Except.pure]
  simp [Operand.arithmetic, plainArithmetic, hplain, bind, Except.bind, pure, Except.pure]

/-- Arithmetic on integers, carried out at once where that comes to the same. -/
theorem Means.arithmetic_safe {operator : Operator} {operation : ArithmeticOp}
    (hoperation : operator.arithmetic? = some operation)
    (hleft : left.Means model .int (.int first)) (hright : right.Means model .int (.int second))
    (hsecond : operator ∈ [.div, .mod] → second ≠ 0)
    (hsafe : left.isSymbolic = false → right.isSymbolic = false →
      operator ≠ .div ∧ (operator = .mod → 0 < second ∨ second ∣ first)) :
    ∃ result, Operand.arithmetic operation left right = .ok result ∧
      result.Means model .int
        (Interpretation.euclidean.applyBinary operator (.int first) (.int second)) ∧
      result.isSymbolic = (left.isSymbolic || right.isSymbolic) := by
  rw [← model.arithmetic_eq hoperation hsecond]
  by_cases hopen : operation ∈ [.div, .mod] → left.isSymbolic || right.isSymbolic
  · exact hleft.arithmetic hright hopen
  · -- only a remainder between plain values is left
    obtain ⟨hdivides, hplain⟩ := Classical.not_imp.mp hopen
    simp only [Bool.or_eq_true, not_or, Bool.not_eq_true] at hplain
    obtain ⟨hdiv, hmod⟩ := hsafe hplain.1 hplain.2
    obtain rfl : operator = .mod := by
      cases operator <;> cases hoperation <;> first | rfl | exact absurd rfl hdiv | simp at hdivides
    cases hoperation
    have hzero : second ≠ 0 := hsecond (by decide)
    cases hleft with
    | symbolic => cases hplain.1
    | int =>
      cases hright with
      | symbolic => cases hplain.2
      | int =>
        refine ⟨_, arithmetic_mod_plain hzero (hmod rfl), ?_, rfl⟩
        simpa [Model.arithmetic, hzero] using Means.int

end Operand

namespace Term

/-- A claim over integer variables and literals: an integer, or a comparison of integers. -/
inductive IsArithmetic : Term → SolverSort → Prop
  | var {name : String} : IsArithmetic (.var name) .int
  | literal {value : Int} : IsArithmetic (.literal (.int value)) .int
  | number {operator : Operator} {operand : Term} :
      operator ∈ [.minus, .abs] → IsArithmetic operand .int →
      IsArithmetic (.unary operator operand) .int
  | arithmetic {left right : Term} {operator : Operator} :
      operator ∈ [.add, .minus, .mult, .div, .mod] →
      IsArithmetic left .int → IsArithmetic right .int →
      IsArithmetic (.binary left operator right) .int
  | comparison {left right : Term} {operator : Operator} :
      operator ∈ [.eq, .neq, .lt, .le, .gt, .ge] →
      IsArithmetic left .int → IsArithmetic right .int →
      IsArithmetic (.binary left operator right) .bool

/-- No divisor has the value zero. -/
def DivisorsNonzero (store : Store) : Term → Prop
  | .unary _ operand => operand.DivisorsNonzero store
  | .binary left operator right =>
    left.DivisorsNonzero store ∧ right.DivisorsNonzero store ∧
      (operator ∈ [.div, .mod] → right.eval .euclidean store ≠ .int 0)
  | _ => True

/-- An integer that is computed at once when a literal stands in the place of a name.  An
absolute value never is. -/
def folds (name : String) : Term → Bool
  | .var other => other = name
  | .literal _ => true
  | .unary .minus operand => operand.folds name
  | .binary left _ right => left.folds name && right.folds name
  | _ => false

/-- With a literal in the place of a name no division is carried out at once, and a remainder
only where the divisor is positive or divides. -/
def FoldsSafely (name : String) (store : Store) : Term → Prop
  | .unary _ operand => operand.FoldsSafely name store
  | .binary left operator right =>
    left.FoldsSafely name store ∧ right.FoldsSafely name store ∧
      (left.folds name → right.folds name → operator ≠ .div ∧
        (operator = .mod → ∀ first second, left.eval .euclidean store = .int first →
          right.eval .euclidean store = .int second → 0 < second ∨ second ∣ first))
  | _ => True

/-- An encoding succeeds, changes nothing, and gives an operand that stands for a value of a
sort.  An integer is a formula unless it may be computed at once. -/
def FoldsTo (context : EncodingContext) (model : Model) (state : EncodingState) (term : Term)
    (folds : Bool) (sort : SolverSort) (value : Value) : Prop :=
  value ∈ sort.values ∧ ∃ operand,
    Gives ((term.encodeWith (encodeWritten context.log (context.log.sites.size + 1))).run context)
      state operand state ∧
    operand.Means model sort value ∧ (sort = .int → operand.isSymbolic = false → folds)

section Encoding

variable {context : EncodingContext} {model : Model} {state : EncodingState}
  {term left right : Term} {folds leftFolds rightFolds : Bool} {operator : Operator}
  {sort : SolverSort} {value : Value}

theorem foldsTo_var {name : String} (hname : state.names.find? name = some .int) :
    (Term.var name).FoldsTo context model state folds .int (model.constant name .int) :=
  ⟨model.sorted name .int, .symbolic (.const name .int), gives_constant hname,
    .symbolic rfl rfl, by simp [Operand.isSymbolic]⟩

theorem foldsTo_literal {number : Int} :
    (Term.literal (.int number)).FoldsTo context model state true .int (.int number) :=
  ⟨⟨number, rfl⟩, .plain (.int number), gives_pure.mpr ⟨rfl, rfl⟩, .int, fun _ _ => rfl⟩

theorem FoldsTo.minus (hterm : term.FoldsTo context model state folds .int value) :
    (Term.unary .minus term).FoldsTo context model state folds .int
      (Interpretation.euclidean.applyUnary .minus value) := by
  obtain ⟨⟨number, rfl⟩, operand, hgives, hmeans, hkind⟩ := hterm
  obtain ⟨result, hresult, hresultMeans⟩ := hmeans.negate
  obtain ⟨_, hother, -, hsymbolic⟩ := hmeans.hasSort.negate
  cases hresult.symm.trans hother
  refine ⟨⟨-number, rfl⟩, result, ?_, hresultMeans, hsymbolic ▸ hkind⟩
  simp only [encodeWith, ReaderT.run_bind, gives_bind]
  exact ⟨operand, state, hgives, gives_ofExcept.mpr ⟨hresult, rfl⟩⟩

theorem FoldsTo.abs (hterm : term.FoldsTo context model state folds .int value) :
    (Term.unary .abs term).FoldsTo context model state false .int
      (Interpretation.euclidean.applyUnary .abs value) := by
  obtain ⟨⟨number, rfl⟩, operand, hgives, hmeans, -⟩ := hterm
  obtain ⟨result, hresult, hresultMeans⟩ := hmeans.absolute
  obtain ⟨_, hother, -, hsymbolic⟩ := hmeans.hasSort.absolute
  cases hresult.symm.trans hother
  refine ⟨⟨number.natAbs, rfl⟩, result, ?_, hresultMeans, by simp [hsymbolic]⟩
  simp only [encodeWith, ReaderT.run_bind, gives_bind]
  exact ⟨operand, state, hgives, gives_ofExcept.mpr ⟨hresult, rfl⟩⟩

/-- Arithmetic, if it is safe to carry out at once what can be. -/
theorem FoldsTo.arithmetic {first second : Int}
    (hoperator : operator ∈ [.add, .minus, .mult, .div, .mod])
    (hleft : left.FoldsTo context model state leftFolds .int (.int first))
    (hright : right.FoldsTo context model state rightFolds .int (.int second))
    (hsecond : operator ∈ [.div, .mod] → second ≠ 0)
    (hsafe : leftFolds → rightFolds → operator ≠ .div ∧
      (operator = .mod → 0 < second ∨ second ∣ first)) :
    (Term.binary left operator right).FoldsTo context model state (leftFolds && rightFolds) .int
      (Interpretation.euclidean.applyBinary operator (.int first) (.int second)) := by
  obtain ⟨-, leftOperand, hleftGives, hleftMeans, hleftKind⟩ := hleft
  obtain ⟨-, rightOperand, hrightGives, hrightMeans, hrightKind⟩ := hright
  have hoperation : ∃ operation, operator.arithmetic? = some operation := by
    fin_cases hoperator <;> exact ⟨_, rfl⟩
  obtain ⟨_, hoperation⟩ := hoperation
  obtain ⟨result, hresult, hresultMeans, hsymbolic⟩ :=
    hleftMeans.arithmetic_safe hoperation hrightMeans hsecond fun hleftPlain hrightPlain =>
      hsafe (hleftKind rfl hleftPlain) (hrightKind rfl hrightPlain)
  refine ⟨?_, result, ?_, hresultMeans, fun _ hplain => ?_⟩
  · fin_cases hoperator <;> exact ⟨_, rfl⟩
  · simp only [encodeWith, ReaderT.run_bind, gives_bind, binary_of_arithmetic? hoperation]
    exact ⟨leftOperand, state, hleftGives, rightOperand, state, hrightGives,
      gives_ofExcept.mpr ⟨hresult, rfl⟩⟩
  · rw [hsymbolic, Bool.or_eq_false_iff] at hplain
    rw [hleftKind rfl hplain.1, hrightKind rfl hplain.2]
    rfl

theorem FoldsTo.comparison {first second : Int}
    (hoperator : operator ∈ [.eq, .neq, .lt, .le, .gt, .ge])
    (hleft : left.FoldsTo context model state leftFolds .int (.int first))
    (hright : right.FoldsTo context model state rightFolds .int (.int second)) :
    (Term.binary left operator right).FoldsTo context model state folds .bool
      (Interpretation.euclidean.applyBinary operator (.int first) (.int second)) := by
  obtain ⟨-, leftOperand, hleftGives, hleftMeans, -⟩ := hleft
  obtain ⟨-, rightOperand, hrightGives, hrightMeans, -⟩ := hright
  rw [Interpretation.euclidean_applyBinary (by revert hoperator; cases operator <;> decide)]
  obtain ⟨result, hresult, hvalue, hmeans⟩ :=
    computes_comparison hoperator hleftMeans hrightMeans state
  refine ⟨hvalue, result, ?_, hmeans, by simp⟩
  simp only [encodeWith, ReaderT.run_bind, gives_bind]
  exact ⟨leftOperand, state, hleftGives, rightOperand, state, hrightGives, hresult⟩

/-- Variables or literals in their places: a claim that folds safely is encoded with its
value, whatever is computed at once. -/
theorem IsArithmetic.foldsTo {claim : Term} {name : String} {image : String → Term}
    {store : Store} (hclaim : claim.IsArithmetic sort) (hdivisors : claim.DivisorsNonzero store)
    (hsafe : claim.FoldsSafely name store)
    (himage : ∀ other ∈ claim.freeNames,
      (image other).FoldsTo context model state (other = name) .int (store other)) :
    (claim.instantiate image).FoldsTo context model state (claim.folds name) sort
      (claim.eval .euclidean store) := by
  induction hclaim with
  | var => exact himage _ (by simp)
  | literal => exact foldsTo_literal
  | number hoperator _ ih =>
    have hoperand := ih hdivisors hsafe himage
    rw [eval_unary]
    fin_cases hoperator
    · exact hoperand.minus
    · exact hoperand.abs
  | arithmetic hoperator _ _ ihleft ihright =>
    have hleft := ihleft hdivisors.1 hsafe.1 fun other hother =>
      himage other (List.mem_append_left _ hother)
    have hright := ihright hdivisors.2.1 hsafe.2.1 fun other hother =>
      himage other (List.mem_append_right _ hother)
    obtain ⟨first, hfirst⟩ := hleft.1
    obtain ⟨second, hsecond⟩ := hright.1
    rw [← hfirst] at hleft
    rw [← hsecond] at hright
    rw [eval_binary, ← hfirst, ← hsecond]
    refine hleft.arithmetic hoperator hright (fun hdivides hzero => ?_)
      fun hleftFolds hrightFolds => ?_
    · exact hdivisors.2.2 hdivides (by rw [← hsecond, hzero])
    · obtain ⟨hdiv, hmod⟩ := hsafe.2.2 hleftFolds hrightFolds
      exact ⟨hdiv, fun hoperator => hmod hoperator first second hfirst.symm hsecond.symm⟩
  | comparison hoperator _ _ ihleft ihright =>
    have hleft := ihleft hdivisors.1 hsafe.1 fun other hother =>
      himage other (List.mem_append_left _ hother)
    have hright := ihright hdivisors.2.1 hsafe.2.1 fun other hother =>
      himage other (List.mem_append_right _ hother)
    obtain ⟨_, hfirst⟩ := hleft.1
    obtain ⟨_, hsecond⟩ := hright.1
    rw [← hfirst] at hleft
    rw [← hsecond] at hright
    rw [eval_binary, ← hfirst, ← hsecond]
    exact hleft.comparison hoperator hright

end Encoding

theorem IsArithmetic.isClaim {claim : Term} {sort : SolverSort}
    (hclaim : claim.IsArithmetic sort) : claim.isClaim = true := by
  induction hclaim with
  | var | literal => rfl
  | number _ _ ih => exact ih
  | arithmetic _ _ _ ihleft ihright => simp [ihleft, ihright]
  | comparison _ _ _ ihleft ihright => simp [ihleft, ihright]

end Term

/-- A claim over integers has the same value whether a variable or the literal of its value
stands in it, if after the replacement no division is computed at once, and a remainder only
where the divisor is positive or divides. -/
theorem folding_agrees {claim : Term} {sort : SolverSort} {name : String} {number : Int}
    {context : EncodingContext} {model : Model} {state : EncodingState} {store : Store}
    (hclaim : claim.IsArithmetic sort)
    (hnames : ∀ other ∈ claim.freeNames, state.names.find? other = some .int)
    (hmodel : ∀ other ∈ claim.freeNames, model.constant other .int = store other)
    (hname : store name = .int number) (hdivisors : claim.DivisorsNonzero store)
    (hsafe : claim.FoldsSafely name store) :
    ∃ replaced folded symbolic,
      Gives (claim.substitute (.var name) (.int number)) context.log replaced context.log ∧
      Gives (replaced.encode.run context) state folded state ∧
      Gives (claim.encode.run context) state symbolic state ∧
      folded.Means model sort (claim.eval .euclidean store) ∧
      symbolic.Means model sort (claim.eval .euclidean store) := by
  have hvariable : ∀ other ∈ claim.freeNames, (Term.var other).FoldsTo context model state
      (other = name) .int (store other) := by
    intro other hother
    rw [← hmodel other hother]
    exact Term.foldsTo_var (hnames other hother)
  have hreplaced : ∀ other ∈ claim.freeNames, (Term.replacing name (.int number) other).FoldsTo
      context model state (other = name) .int (store other) := by
    intro other hother
    by_cases hsame : other = name
    · simpa [Term.replacing, hsame, hname, Term.int] using Term.foldsTo_literal
    · simpa [Term.replacing, hsame] using hvariable other hother
  obtain ⟨-, symbolic, hsymbolic, hsymbolicMeans, -⟩ :=
    hclaim.foldsTo hdivisors hsafe hvariable
  obtain ⟨-, folded, hfolded, hfoldedMeans, -⟩ := hclaim.foldsTo hdivisors hsafe hreplaced
  rw [Term.instantiate_var hclaim.isClaim] at hsymbolic
  exact ⟨_, folded, symbolic, (Term.gives_substitute hclaim.isClaim).mpr ⟨rfl, rfl⟩,
    Term.gives_encode.mpr hfolded, Term.gives_encode.mpr hsymbolic, hfoldedMeans, hsymbolicMeans⟩

/-- `(x + 2) % 4 == y / x + |x| / 2` where `x` is 5: the remainder is computed at once, and the
divisions are left to the solver. -/
theorem folding_agrees_mixed :
    let claim : Term := .binary
      (.binary (.binary (.var "x") .add (.int 2)) .mod (.int 4)) .eq
      (.binary (.binary (.var "y") .div (.var "x")) .add
        (.binary (.unary .abs (.var "x")) .div (.int 2)))
    let store : Store := Function.update (fun _ => .int 5) "y" (.int 23)
    let context : EncodingContext := ⟨.empty, []⟩
    let state : EncodingState := ⟨[("x", .int), ("y", .int)], 0⟩
    ∃ replaced folded symbolic,
      Gives (claim.substitute (.var "x") (.int 5)) .empty replaced .empty ∧
      Gives (replaced.encode.run context) state folded state ∧
      Gives (claim.encode.run context) state symbolic state ∧
      folded.Means (.givenBy store) .bool (claim.eval .euclidean store) ∧
      symbolic.Means (.givenBy store) .bool (claim.eval .euclidean store) := by
  intro claim store context state
  have hclaim : claim.IsArithmetic .bool :=
    .comparison (by decide)
      (.arithmetic (by decide) (.arithmetic (by decide) .var .literal) .literal)
      (.arithmetic (by decide) (.arithmetic (by decide) .var .var)
        (.arithmetic (by decide) (.number (by decide) .var) .literal))
  have hfits : store.Fits fun _ => some .int := by
    rintro name _ ⟨⟩
    by_cases hname : name = "y"
    · exact ⟨23, by simp [store, hname]⟩
    · exact ⟨5, by simp [store, hname]⟩
  have hmodel : ∀ other ∈ claim.freeNames,
      (Model.givenBy store).constant other .int = store other :=
    fun other _ => Model.givenBy_reads hfits other .int rfl
  have hdivisors : claim.DivisorsNonzero store := by
    simp [claim, store, Term.DivisorsNonzero, Term.int, Term.eval, Interpretation.literal]
  have hsafe : claim.FoldsSafely "x" store := by
    simp [claim, Term.FoldsSafely, Term.folds, Term.int, Term.eval, Interpretation.literal]
  have hnames : ∀ other ∈ claim.freeNames, state.names.find? other = some .int := by decide
  have hagree : ∃ replaced folded symbolic,
      Gives (claim.substitute (.var "x") (.int 5)) context.log replaced context.log ∧ _ :=
    folding_agrees hclaim hnames hmodel rfl hdivisors hsafe
  exact hagree

/-- A quotient of literals is a double, and a remainder of literals takes the sign of its
divisor: `x / 2 == 3` and `x % -2 == 1` are true where `x` is 7, and false where 7 stands in
the place of `x`. -/
theorem folded_quotient_differs :
    let context : EncodingContext := ⟨.empty, []⟩
    let state : EncodingState := ⟨[("x", .int)], 0⟩
    ∀ claim ∈ [Term.binary (.binary (.var "x") .div (.int 2)) .eq (.int 3),
        Term.binary (.binary (.var "x") .mod (.int (-2))) .eq (.int 1)],
      ∃ replaced formula,
        Gives (claim.substitute (.var "x") (.int 7)) .empty replaced .empty ∧
        Gives (replaced.encode.run context) state (.plain (.bool false)) state ∧
        Gives (claim.encode.run context) state (.symbolic formula) state ∧
        ∀ model, model.constant "x" .int = .int 7 → formula.eval model = .bool true := by
  intro context state claim hclaim
  have hquotient : Operand.arithmetic .div (.plain (.int 7)) (.plain (.int 2)) =
      .ok (.plain (.real (.finite false 7881299347898368 (-51)))) := by
    decide +kernel
  have hequal : Operand.equal (.plain (.real (.finite false 7881299347898368 (-51))))
      (.plain (.int 3)) = .ok (.plain (.bool false)) := by
    decide +kernel
  fin_cases hclaim
  · refine ⟨_, _, rfl, Term.gives_encode.mpr ?_, rfl, fun model hmodel => ?_⟩
    · simp only [Term.encodeWith, ReaderT.run_bind, gives_bind]
      exact ⟨_, state, ⟨_, state, rfl, _, state, ⟨.int 2, state, rfl, rfl⟩,
        gives_ofExcept.mpr ⟨hquotient, rfl⟩⟩, _, state, ⟨.int 3, state, rfl, rfl⟩,
        gives_ofExcept.mpr ⟨hequal, rfl⟩⟩
    · simp [hmodel, Model.arithmetic]
  · refine ⟨_, _, rfl, rfl, rfl, fun model hmodel => ?_⟩
    simp [hmodel, Model.arithmetic]

end HoareCheck
