import HoareCheck.Proofs.Gives
import HoareCheck.Solver.Operand

/-!
# Faults of operations

Arithmetic on plain values, and the operations that build formulas, look nothing up
and know nothing of claims.  They fail with a fault of their operands only.
-/

namespace HoareCheck

/-- The faults that operands give rise to. -/
def Fault.isOfOperation : Fault → Bool
  | .noSuchPart | .wrongKind | .notAnInteger | .divisionByZero | .tooLarge | .illSorted => true
  | _ => false

attribute [grind] Fault.isOfOperation

/-- The outcome is no fault but that of an operation. -/
def Computed {α : Type} (outcome : Except Fault α) : Prop :=
  ∀ fault, outcome = .error fault → fault.isOfOperation = true

section Laws

variable {α β : Type}

@[grind ←]
theorem computed_pure (value : α) : Computed (pure value : Except Fault α) :=
  nofun

@[grind ←]
theorem computed_throw {fault : Fault} (hfault : fault.isOfOperation = true) :
    Computed (throw fault : Except Fault α) := by
  intro other hother
  cases hother
  exact hfault

@[grind ←]
theorem computed_bind {first : Except Fault α} {next : α → Except Fault β}
    (hfirst : Computed first) (hnext : ∀ value, Computed (next value)) :
    Computed (first >>= next) := by
  cases first with
  | error fault => exact computed_throw (hfirst fault rfl)
  | ok value => exact hnext value

theorem computed_map {outcome : Except Fault α} {change : α → β} (houtcome : Computed outcome) :
    Computed (change <$> outcome) := by
  cases outcome with
  | error fault => exact computed_throw (houtcome fault rfl)
  | ok => exact computed_pure _

theorem computed_ite {condition : Prop} [Decidable condition]
    {thenPart elsePart : Except Fault α} (hthen : Computed thenPart) (helse : Computed elsePart) :
    Computed (if condition then thenPart else elsePart) := by
  by_cases hcondition : condition
  · rwa [if_pos hcondition]
  · rwa [if_neg hcondition]

end Laws

namespace Datum

@[grind ←]
theorem computed_nums (left right : Datum) : Computed (left.nums right) := by
  delta nums
  cases left.num? with
  | none => exact computed_throw rfl
  | some =>
    cases right.num? with
    | none => exact computed_throw rfl
    | some => exact computed_pure _

@[grind ←]
theorem computed_toReal (number : Num) : Computed number.toReal := by
  cases number with
  | real value => exact computed_pure value
  | int value =>
    delta Num.toReal
    dsimp only
    cases Number.Binary64.ofInt? value with
    | none => exact computed_throw rfl
    | some result => exact computed_pure result

@[grind ←]
theorem computed_arithmetic (onInts : Int → Int → Int)
    (onReals : Number.Binary64 → Number.Binary64 → Number.Binary64) (left right : Datum) :
    Computed (arithmetic onInts onReals left right) := by
  grind [arithmetic]

@[grind ←]
theorem computed_add (left right : Datum) : Computed (left.add right) := by
  cases left with
  | text =>
    cases right with
    | text => exact computed_pure _
    | _ => exact computed_arithmetic _ _ _ _
  | _ => exact computed_arithmetic _ _ _ _

@[grind ←]
theorem computed_mul (left right : Datum) : Computed (left.mul right) := by
  fun_cases mul <;> grind

@[grind ←]
theorem computed_quotient (left right : Int) : Computed (quotient left right) := by
  grind [quotient]

@[grind ←]
theorem computed_div (left right : Datum) : Computed (left.div right) := by
  grind [div]

@[grind ←]
theorem computed_mod (left right : Datum) : Computed (left.mod right) := by
  grind [mod]

@[grind ←]
theorem computed_neg (datum : Datum) : Computed datum.neg := by
  grind [neg]

@[grind ←]
theorem computed_order (left right : Datum) : Computed (left.order right) := by
  cases left with
  | text =>
    cases right with
    | text => exact computed_pure _
    | _ => exact computed_bind (computed_nums _ _) fun _ => computed_pure _
  | _ => exact computed_bind (computed_nums _ _) fun _ => computed_pure _

end Datum

namespace Operand

@[grind ←]
theorem computed_intNumeral (datum : Datum) : Computed (intNumeral datum) := by
  cases datum with
  | bool | int => exact computed_pure _
  | real value =>
    delta intNumeral
    dsimp only
    cases value.truncate? with
    | some => exact computed_pure _
    | none =>
      apply computed_throw
      by_cases hnan : value = .nan
      · rw [if_pos hnan]
        rfl
      · rw [if_neg hnan]
        rfl
  | _ => exact computed_throw rfl

@[grind ←]
theorem computed_realNumeral (datum : Datum) : Computed (realNumeral datum) := by
  cases datum with
  | int => exact computed_pure _
  | real value =>
    delta realNumeral
    dsimp only
    cases decimalValue? value with
    | some exact => exact computed_pure _
    | none => exact computed_throw rfl
  | _ => exact computed_throw rfl

@[grind ←]
theorem computed_cast (sort : SolverSort) (operand : Operand) : Computed (cast sort operand) := by
  fun_cases cast <;> grind

@[grind ←]
theorem computed_ofPlain (datum : Datum) : Computed (ofPlain datum) := by
  cases datum with
  | bool | int => exact computed_pure _
  | real value => exact computed_realNumeral (.real value)
  | _ => exact computed_throw rfl

@[grind ←]
theorem computed_join (left right : SolverSort) : Computed (join left right) := by
  fun_cases join <;> grind

@[grind ←]
theorem computed_unify (left right : Operand) : Computed (unify left right) := by
  fun_cases unify <;> grind

@[grind ←]
theorem computed_choose (condition thenPart elsePart : Operand) :
    Computed (choose condition thenPart elsePart) := by
  apply computed_bind (computed_cast .bool condition)
  intro condition
  apply computed_bind (computed_unify thenPart elsePart)
  intro parts
  exact computed_pure _

@[grind ←]
theorem computed_scale (flag : Formula) (factor : Operand) : Computed (scale flag factor) := by
  cases factor with
  | plain =>
    apply computed_ite (computed_pure _)
    exact computed_ite (computed_pure _) (computed_choose _ _ _)
  | symbolic => exact computed_ite (computed_throw rfl) (computed_choose _ _ _)

@[grind ←]
theorem computed_arithmeticFormula (operator : ArithmeticOp) (left right : Operand) :
    Computed (arithmeticFormula operator left right) := by
  grind [arithmeticFormula]

@[grind ←]
theorem computed_plainArithmetic (operator : ArithmeticOp) (left right : Datum) :
    Computed (plainArithmetic operator left right) := by
  cases operator with
  | add => exact Datum.computed_add left right
  | sub => exact Datum.computed_arithmetic _ _ left right
  | mul => exact Datum.computed_mul left right
  | div => exact Datum.computed_div left right
  | mod => exact Datum.computed_mod left right

@[grind ←]
theorem computed_arithmetic (operator : ArithmeticOp) (left right : Operand) :
    Computed (arithmetic operator left right) := by
  fun_cases arithmetic <;> grind

@[grind ←]
theorem computed_compare (operator : OrderOp) (left right : Operand) :
    Computed (compare operator left right) := by
  fun_cases compare <;> grind

@[grind ←]
theorem computed_equal (left right : Operand) : Computed (equal left right) := by
  fun_cases equal <;> grind

@[grind ←]
theorem computed_negate (operand : Operand) : Computed (negate operand) := by
  cases operand with
  | plain datum => exact computed_map (Datum.computed_neg datum)
  | symbolic => exact computed_ite (computed_pure _) (computed_throw rfl)

@[grind ←]
theorem computed_absolute (operand : Operand) : Computed (absolute operand) := by
  apply computed_bind (computed_compare .gt operand (.plain (.int 0)))
  intro positive
  apply computed_bind (computed_negate operand)
  intro negated
  exact computed_choose positive operand negated

@[grind ←]
theorem computed_logicalNot (operand : Operand) : Computed (logicalNot operand) := by
  apply computed_bind (computed_cast .bool operand)
  intro formula
  exact computed_pure _

@[grind ←]
theorem computed_logicalAnd (left right : Operand) : Computed (logicalAnd left right) := by
  apply computed_bind (computed_unify left right)
  intro sides
  exact computed_ite (computed_pure _) (computed_throw rfl)

@[grind ←]
theorem computed_logicalOr (left right : Operand) : Computed (logicalOr left right) := by
  apply computed_bind (computed_unify left right)
  intro sides
  exact computed_ite (computed_pure _) (computed_throw rfl)

@[grind ←]
theorem computed_logicalImplies (left right : Operand) : Computed (logicalImplies left right) := by
  apply computed_bind (computed_cast .bool left)
  intro left
  apply computed_bind (computed_cast .bool right)
  intro right
  exact computed_pure _

@[grind ←]
theorem computed_logicalIff (left right : Operand) : Computed (logicalIff left right) := by
  apply computed_bind (computed_logicalImplies left right)
  intro forward
  apply computed_bind (computed_logicalImplies right left)
  intro backward
  exact computed_logicalAnd forward backward

@[grind ←]
theorem computed_select (array index : Operand) : Computed (select array index) := by
  cases array with
  | plain => exact computed_throw rfl
  | symbolic =>
    apply computed_ite
    · apply computed_bind (computed_cast .int index)
      intro position
      exact computed_pure _
    · exact computed_throw rfl

@[grind ←]
theorem computed_forAll (name : String) (sort : SolverSort) (body : Operand) :
    Computed (forAll name sort body) := by
  cases body with
  | plain => exact computed_pure _
  | symbolic =>
    exact computed_ite (computed_pure _) (computed_throw rfl)

@[grind ←]
theorem computed_adjacent (left right : Operand) (length : Int) :
    Computed (adjacent left right length) := by
  fun_cases adjacent <;> grind

end Operand

end HoareCheck
