import HoareCheck.Claim.Fault
import Mathlib.Data.Real.Basic
import Mathlib.Data.Set.Basic
import Mathlib.Logic.Function.Basic

/-!
# Meaning of claims

A term has a value in a store.  The connectives and the quantifiers are fixed;
the other operators, and what a quantified variable ranges over, come from an
interpretation, so that facts about programs can be stated for all of them at
once.  The standard interpretation computes with integers.

A term that is no expression, and an operator applied to values it does not
know, have the value `nothing`, which is not true.
-/

namespace HoareCheck

inductive Value
  | int (value : Int)
  | bool (value : Bool)
  | real (value : ℝ)
  | array (elements : Int → Int)
  | nothing

namespace Value

/-- Only the truth value "true" is true. -/
def truth : Value → Bool
  | .bool value => value
  | _ => false

@[simp]
theorem truth_bool (value : Bool) : (Value.bool value).truth = value := rfl

/-- The element of an array at an index. -/
def element : Value → Value → Value
  | .array elements, .int index => .int (elements index)
  | _, _ => .nothing

/-- An array with one element replaced. -/
def withElement : Value → Value → Value → Value
  | .array elements, .int index, .int element =>
    .array (Function.update elements index element)
  | _, _, _ => .nothing

end Value

abbrev Store := String → Value

namespace Store

/-- A store in which the variable `binder` has a value. -/
def bind (store : Store) (binder : Term) (value : Value) : Store :=
  match binder.name? with
  | some name => Function.update store name value
  | none => store

@[simp]
theorem bind_var (store : Store) (name : String) (value : Value) :
    store.bind (.var name) value = Function.update store name value := rfl

/-- Every variable holds an integer. -/
def IsInteger (store : Store) : Prop :=
  ∀ name, ∃ value, store name = .int value

theorem IsInteger.update {store : Store} (hstore : store.IsInteger) (name : String) (value : Int) :
    IsInteger (Function.update store name (.int value)) := by
  intro other
  by_cases hother : other = name
  · exact ⟨value, by simp [hother]⟩
  · obtain ⟨held, hheld⟩ := hstore other
    exact ⟨held, by simp [hother, hheld]⟩

end Store

/-- The truth function of a binary connective. -/
def Operator.connective? : Operator → Option (Bool → Bool → Bool)
  | .and => some fun left right => left && right
  | .or => some fun left right => left || right
  | .implies => some fun left right => !left || right
  | .iff => some fun left right => left == right
  | _ => none

/-- What the operators other than the connectives compute, and the values that
a variable may take: those of its type, or any of `untyped` if its type is not
known. -/
structure Interpretation where
  datum : Datum → Value
  unary : Operator → Value → Value
  binary : Operator → Value → Value → Value
  range : Ty → Set Value
  untyped : Set Value

namespace Interpretation

variable (interp : Interpretation)

def literal : Literal → Value
  | .int value => .int value
  | .bool value => .bool value
  | .general datum | .bare datum => interp.datum datum

def applyUnary (operator : Operator) (operand : Value) : Value :=
  match operator with
  | .not => .bool !operand.truth
  | operator => interp.unary operator operand

def applyBinary (operator : Operator) (left right : Value) : Value :=
  match operator.connective? with
  | some connective => .bool (connective left.truth right.truth)
  | none => interp.binary operator left right

/-- The values of a variable of which a type entry is known. -/
def domain : TypeEntry → Set Value
  | .known ty => interp.range ty
  | .unknown | .written _ => interp.untyped

theorem domain_ofBinder_toBinder (entry : TypeEntry) :
    interp.domain (TypeEntry.ofBinder entry.toBinder.1 entry.toBinder.2) = interp.domain entry := by
  cases entry with
  | unknown => rfl
  | known => rfl
  | written term => cases term <;> rfl

end Interpretation

/-- The operators on integers.  Division, the remainder and adjacency have no
value. -/
def Operator.onInts : Operator → Int → Int → Value
  | .add, left, right => .int (left + right)
  | .minus, left, right => .int (left - right)
  | .mult, left, right => .int (left * right)
  | .eq, left, right => .bool (left = right)
  | .neq, left, right => .bool (left ≠ right)
  | .lt, left, right => .bool (left < right)
  | .le, left, right => .bool (left ≤ right)
  | .gt, left, right => .bool (left > right)
  | .ge, left, right => .bool (left ≥ right)
  | _, _, _ => .nothing

/-- Integers compute and compare as usual, and truth values only compare for
equality. -/
def Interpretation.standard : Interpretation where
  datum
    | .int value => .int value
    | .bool value => .bool value
    | _ => .nothing
  unary
    | .minus, .int value => .int (-value)
    | .abs, .int value => .int value.natAbs
    | _, _ => .nothing
  binary
    | operator, .int left, .int right => operator.onInts left right
    | .eq, .bool left, .bool right => .bool (left = right)
    | .neq, .bool left, .bool right => .bool (left ≠ right)
    | _, _, _ => .nothing
  range
    | .int => Set.range .int
    | .bool => Set.range .bool
    | .listOf .int => Set.range .array
    | _ => Set.univ
  untyped := Set.univ

open scoped Classical in
/-- Whether all values of a range, or some of them, satisfy a claim. -/
noncomputable def Quantifier.over (quantifier : Quantifier) (range : Set Value)
    (claim : Value → Bool) : Bool :=
  match quantifier with
  | .universal => decide (∀ value ∈ range, claim value = true)
  | .existential => decide (∃ value ∈ range, claim value = true)

namespace Term

/-- The value of a term in a store.  Writes recorded against array reads do not
count. -/
noncomputable def eval (interp : Interpretation) : Term → Store → Value
  | .var name, store => store name
  | .literal value, _ => interp.literal value
  | .subscript _ array index, store =>
    (array.eval interp store).element (index.eval interp store)
  | .unary operator operand, store =>
    interp.applyUnary operator (operand.eval interp store)
  | .binary left operator right, store =>
    interp.applyBinary operator (left.eval interp store) (right.eval interp store)
  | .quantified quantifier binder type written body _, store =>
    .bool (quantifier.over (interp.domain (TypeEntry.ofBinder type written))
      fun value => (body.eval interp (store.bind binder value)).truth)
  | _, _ => .nothing

@[simp]
theorem eval_var (interp : Interpretation) (name : String) (store : Store) :
    (Term.var name).eval interp store = store name := rfl

@[simp]
theorem eval_int (interp : Interpretation) (value : Int) (store : Store) :
    (Term.int value).eval interp store = .int value := rfl

theorem eval_unary (interp : Interpretation) (operator : Operator) (operand : Term)
    (store : Store) : (Term.unary operator operand).eval interp store =
      interp.applyUnary operator (operand.eval interp store) := rfl

theorem eval_binary (interp : Interpretation) (operator : Operator) (left right : Term)
    (store : Store) : (Term.binary left operator right).eval interp store =
      interp.applyBinary operator (left.eval interp store) (right.eval interp store) := rfl

theorem eval_quantified (interp : Interpretation) (quantifier : Quantifier)
    (binder written body : Term) (type : Option Ty) (closed : Bool) (store : Store) :
    (Term.quantified quantifier binder type written body closed).eval interp store =
      .bool (quantifier.over (interp.domain (TypeEntry.ofBinder type written))
        fun value => (body.eval interp (store.bind binder value)).truth) := rfl

/-- A claim is true in a store. -/
def Holds (interp : Interpretation) (claim : Term) (store : Store) : Prop :=
  (claim.eval interp store).truth = true

section Holds

variable {interp : Interpretation} {left right claim : Term} {store : Store}

@[simp]
theorem holds_bool {value : Bool} : Holds interp (.bool value) store ↔ value = true := Iff.rfl

@[simp]
theorem holds_not : Holds interp (.unary .not claim) store ↔ ¬ Holds interp claim store := by
  simp [Holds, eval_unary, Interpretation.applyUnary]

@[simp]
theorem holds_and : Holds interp (.binary left .and right) store ↔
      Holds interp left store ∧ Holds interp right store := by
  simp [Holds, eval_binary, Interpretation.applyBinary, Operator.connective?]

@[simp]
theorem holds_or : Holds interp (.binary left .or right) store ↔
      Holds interp left store ∨ Holds interp right store := by
  simp [Holds, eval_binary, Interpretation.applyBinary, Operator.connective?]

@[simp]
theorem holds_implies : Holds interp (.binary left .implies right) store ↔
      (Holds interp left store → Holds interp right store) := by
  simp only [Holds, eval_binary, Interpretation.applyBinary, Operator.connective?, Value.truth_bool]
  cases (left.eval interp store).truth <;> simp

@[simp]
theorem holds_forall {binder written body : Term} {type : Option Ty} {closed : Bool} :
    Holds interp (.quantified .universal binder type written body closed) store ↔
      ∀ value ∈ interp.domain (TypeEntry.ofBinder type written),
        Holds interp body (store.bind binder value) := by
  simp [Holds, eval_quantified, Quantifier.over]

end Holds

/-- The names that a term speaks of, other than as bound variables.  A havoc
speaks of the variable it is of. -/
@[simp]
def freeNames : Term → List String
  | .var name => [name]
  | .slice lower upper => lower.freeNames ++ upper.freeNames
  | .subscript _ array index => array.freeNames ++ index.freeNames
  | .unary _ operand => operand.freeNames
  | .binary left _ right => left.freeNames ++ right.freeNames
  | .quantified _ binder _ _ body _ =>
    body.freeNames.filter fun name => some name ≠ binder.name?
  | .assign target value _ => target.freeNames ++ value.freeNames
  | .ifElse condition thenBranch elseBranch =>
    condition.freeNames ++ thenBranch.freeNames ++ elseBranch.freeNames
  | .seq first second => first.freeNames ++ second.freeNames
  | .assume claim | .assert claim => claim.freeNames
  | .loop invariant condition body =>
    invariant.freeNames ++ condition.freeNames ++ body.freeNames
  | .havoc name _ => [name]
  | .missing | .literal _ | .skip => []

/-- The names that the quantifiers of a term bind. -/
@[simp]
def boundNames : Term → List String
  | .slice lower upper => lower.boundNames ++ upper.boundNames
  | .subscript _ array index => array.boundNames ++ index.boundNames
  | .unary _ operand => operand.boundNames
  | .binary left _ right => left.boundNames ++ right.boundNames
  | .quantified _ binder _ _ body _ => binder.name?.toList ++ body.boundNames
  | .assign target value _ => target.boundNames ++ value.boundNames
  | .ifElse condition thenBranch elseBranch =>
    condition.boundNames ++ thenBranch.boundNames ++ elseBranch.boundNames
  | .seq first second => first.boundNames ++ second.boundNames
  | .assume claim | .assert claim => claim.boundNames
  | .loop invariant condition body =>
    invariant.boundNames ++ condition.boundNames ++ body.boundNames
  | .missing | .var _ | .literal _ | .skip | .havoc .. => []

/-- The value of a term depends on the variables it speaks of only. -/
theorem eval_congr (interp : Interpretation) (term : Term) {left right : Store}
    (hagree : ∀ name ∈ term.freeNames, left name = right name) :
    term.eval interp left = term.eval interp right := by
  induction term generalizing left right with
  | var name => exact hagree name (by simp)
  | subscript _ _ _ iharray ihindex =>
    simp only [freeNames, List.mem_append] at hagree
    simp only [eval]
    rw [iharray fun name hname => hagree name (.inl hname),
      ihindex fun name hname => hagree name (.inr hname)]
  | unary _ _ ih =>
    simp only [eval_unary]
    rw [ih hagree]
  | binary _ _ _ ihleft ihright =>
    simp only [freeNames, List.mem_append] at hagree
    simp only [eval_binary]
    rw [ihleft fun name hname => hagree name (.inl hname),
      ihright fun name hname => hagree name (.inr hname)]
  | quantified _ binder _ _ _ _ _ _ ihbody =>
    simp only [eval_quantified]
    congr 2
    funext value
    congr 1
    apply ihbody
    intro name hname
    simp only [freeNames, List.mem_filter, decide_eq_true_eq] at hagree
    cases hbinder : binder.name? with
    | none =>
      simpa [Store.bind, hbinder] using hagree name ⟨hname, by simp [hbinder]⟩
    | some bound =>
      simp only [Store.bind, hbinder]
      by_cases hbound : name = bound
      · simp [hbound]
      · rw [Function.update_of_ne hbound, Function.update_of_ne hbound]
        exact hagree name ⟨hname, by simpa [hbinder] using hbound⟩
  | _ => rfl

theorem holds_congr {interp : Interpretation} {claim : Term} {left right : Store}
    (hagree : ∀ name ∈ claim.freeNames, left name = right name) :
    Holds interp claim left ↔ Holds interp claim right := by
  rw [Holds, Holds, eval_congr interp claim hagree]

end Term

end HoareCheck
