import HoareCheck.Proofs.Execution

/-!
# Assigned names

The names that a statement assigns are collected without fault, and they bound
what its executions can change.  A loop is cut by a havoc of these names, so
none may be missed.
-/

namespace HoareCheck

namespace Term

variable {term : Term}

/-- An expression that has all its operands. -/
def isIndex : Term → Bool
  | .var _ | .literal _ | .slice .. | .quantified .. => true
  | .subscript _ array index => array.isIndex && index.isIndex
  | .unary _ operand => operand.isIndex
  | .binary left _ right => left.isIndex && right.isIndex
  | _ => false

/-- A statement without havocs that assigns to variables and array elements. -/
def isHavocFree : Term → Bool
  | .skip | .assume _ | .assert _ | .assign (.var _) _ _ => true
  | .assign (.subscript _ (.var _) index) _ _ => index.isIndex
  | .ifElse _ thenBranch elseBranch => thenBranch.isHavocFree && elseBranch.isHavocFree
  | .seq first second => first.isHavocFree && second.isHavocFree
  | .loop _ _ body => body.isHavocFree
  | _ => false

theorem exists_variableNames (hindex : term.isIndex = true) :
    ∃ names, term.variableNames = .ok names := by
  induction term with
  | unary _ _ ih => exact ih hindex
  | subscript _ _ _ ihleft ihright | binary _ _ _ ihleft ihright =>
    simp only [isIndex, Bool.and_eq_true] at hindex
    obtain ⟨_, hleft⟩ := ihleft hindex.1
    obtain ⟨_, hright⟩ := ihright hindex.2
    exact ⟨_, by rw [variableNames, hleft, hright]; rfl⟩
  | var | literal | slice | quantified => exact ⟨_, rfl⟩
  | _ => cases hindex

theorem isHavocFree_assign {target value : Term} {charge : Bool}
    (hfree : (Term.assign target value charge).isHavocFree = true) : target.isIndex = true := by
  cases target with
  | var => rfl
  | subscript _ array => cases array <;> simp_all [isHavocFree, isIndex]
  | _ => cases hfree

/-- The assigned names are collected, and there are no havocs. -/
theorem exists_assigned (hfree : term.isHavocFree = true) :
    term.havocs = [] ∧ ∃ names, term.assigned = .ok names := by
  induction term with
  | skip | assume | assert => exact ⟨rfl, _, rfl⟩
  | assign => exact ⟨rfl, exists_variableNames (isHavocFree_assign hfree)⟩
  | ifElse _ _ _ _ ihfirst ihsecond | seq _ _ ihfirst ihsecond =>
    simp only [isHavocFree, Bool.and_eq_true] at hfree
    obtain ⟨hhavocs, _, hnames⟩ := ihfirst hfree.1
    obtain ⟨hothers, _, hmore⟩ := ihsecond hfree.2
    exact ⟨by rw [havocs, hhavocs, hothers, List.append_nil], _,
      by rw [assigned, hnames, hmore]; rfl⟩
  | loop _ _ _ _ _ ih => exact ih hfree
  | _ => cases hfree

end Term

/-- The assigned names of a statement without havocs are collected, and every
execution that ends leaves all other variables as they are. -/
theorem assigned_bounds_changes {statement : Term} (hfree : statement.isHavocFree = true)
    (interp : Interpretation) (havoc : HavocRule) :
    ∃ names, statement.assigned = .ok names ∧
      ∀ before after, Exec interp havoc statement before (.done after) →
        ∀ name ∉ names, after name = before name := by
  obtain ⟨hhavocs, names, hnames⟩ := Term.exists_assigned hfree
  exact ⟨names, hnames, fun _ _ hexec _ hname => hexec.eq_of_not_assigned hhavocs hnames hname⟩

/-- `while 1 <= x: A[i] = x; x = x - 1` changes `A` and `x`; also `i` is counted. -/
theorem assigned_bounds_changes_loop :
    let write := Term.assign (.subscript 1 (.var "A") (.var "i")) (.var "x") false
    let statement := Term.loop .missing (atLeast 1 (.var "x"))
      (.seq write (.assign (.var "x") (.binary (.var "x") .minus (.int 1)) false))
    statement.isHavocFree = true ∧ statement.assigned = .ok ["A", "i", "x"] ∧
      ∀ before after, Exec .standard (fun _ _ _ _ => False) statement before (.done after) →
        after "n" = before "n" := by
  intro write statement
  have hfree : statement.isHavocFree = true := rfl
  obtain ⟨names, hnames, hkept⟩ := assigned_bounds_changes hfree .standard fun _ _ _ _ => False
  cases hnames
  exact ⟨hfree, rfl, fun before after hexec => hkept before after hexec "n" (by decide)⟩

end HoareCheck
