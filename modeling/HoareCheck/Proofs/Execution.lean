import HoareCheck.Claim.Names
import HoareCheck.Proofs.Gives
import HoareCheck.Proofs.Meaning

/-!
# Execution of statements

A statement takes a store to an outcome: a store, or a failed assertion.  A
false assumption blocks, so it has no outcome; neither has a loop that does not
end.  What a havoc may do is a parameter, a relation between the stores before
and after it.

`isClaim` and `isProgram` single out the expressions and statements that have
no array reads and no missing parts.
-/

namespace HoareCheck

variable {value first second statement : Term} {store final : Store} {names : List String}
  {interp : Interpretation} {havoc : HavocRule}

inductive Outcome
  | done (store : Store)
  | failed

/-- What the havoc of a variable with a given number may do to a store. -/
abbrev HavocRule := String → Int → Store → Store → Prop

/-- Execution of a statement.  The invariant of a loop has no part in it. -/
inductive Exec (interp : Interpretation) (havoc : HavocRule) :
    Term → Store → Outcome → Prop
  | skip {store : Store} :
      Exec interp havoc .skip store (.done store)
  | assign {store : Store} {name : String} {value : Term} {charge : Bool} :
      Exec interp havoc (.assign (.var name) value charge) store
        (.done (Function.update store name (value.eval interp store)))
  | assignElement {store : Store} {site : Site} {name : String} {index value : Term}
      {charge : Bool} :
      Exec interp havoc (.assign (.subscript site (.var name) index) value charge) store
        (.done (Function.update store name ((store name).withElement
          (index.eval interp store) (value.eval interp store))))
  | seq {before between : Store} {first second : Term} {outcome : Outcome} :
      Exec interp havoc first before (.done between) →
      Exec interp havoc second between outcome →
      Exec interp havoc (.seq first second) before outcome
  | seqFailed {before : Store} {first second : Term} :
      Exec interp havoc first before .failed →
      Exec interp havoc (.seq first second) before .failed
  | ifTrue {before : Store} {condition thenBranch elseBranch : Term}
      {outcome : Outcome} :
      condition.Holds interp before →
      Exec interp havoc thenBranch before outcome →
      Exec interp havoc (.ifElse condition thenBranch elseBranch) before outcome
  | ifFalse {before : Store} {condition thenBranch elseBranch : Term}
      {outcome : Outcome} :
      ¬ condition.Holds interp before →
      Exec interp havoc elseBranch before outcome →
      Exec interp havoc (.ifElse condition thenBranch elseBranch) before outcome
  | assume {store : Store} {claim : Term} :
      claim.Holds interp store →
      Exec interp havoc (.assume claim) store (.done store)
  | assertTrue {store : Store} {claim : Term} :
      claim.Holds interp store →
      Exec interp havoc (.assert claim) store (.done store)
  | assertFalse {store : Store} {claim : Term} :
      ¬ claim.Holds interp store →
      Exec interp havoc (.assert claim) store .failed
  | loopEnd {store : Store} {invariant condition body : Term} :
      ¬ condition.Holds interp store →
      Exec interp havoc (.loop invariant condition body) store (.done store)
  | loopAgain {before between : Store} {invariant condition body : Term}
      {outcome : Outcome} :
      condition.Holds interp before →
      Exec interp havoc body before (.done between) →
      Exec interp havoc (.loop invariant condition body) between outcome →
      Exec interp havoc (.loop invariant condition body) before outcome
  | loopFailed {before : Store} {invariant condition body : Term} :
      condition.Holds interp before →
      Exec interp havoc body before .failed →
      Exec interp havoc (.loop invariant condition body) before .failed
  | havoc {before after : Store} {name : String} {count : Int} :
      havoc name count before after →
      Exec interp havoc (.havoc name count) before (.done after)

namespace Term

/-- An expression without array reads, slices and missing operands. -/
@[simp]
def isClaim : Term → Bool
  | .var _ | .literal _ => true
  | .unary _ operand => operand.isClaim
  | .binary left _ right => left.isClaim && right.isClaim
  | .quantified _ (.var _) _ _ body _ => body.isClaim
  | _ => false

/-- A statement over such expressions that assigns to variables only.  A loop
may lack an invariant. -/
def isProgram : Term → Bool
  | .skip | .havoc .. => true
  | .assign (.var _) value _ => value.isClaim
  | .ifElse condition thenBranch elseBranch =>
    condition.isClaim && thenBranch.isProgram && elseBranch.isProgram
  | .seq first second => first.isProgram && second.isProgram
  | .assume claim | .assert claim => claim.isClaim
  | .loop invariant condition body =>
    (invariant.isMissing || invariant.isClaim) && condition.isClaim && body.isProgram
  | _ => false

def isAssertFree : Term → Bool
  | .assert _ => false
  | .ifElse _ thenBranch elseBranch => thenBranch.isAssertFree && elseBranch.isAssertFree
  | .seq first second => first.isAssertFree && second.isAssertFree
  | .loop _ _ body => body.isAssertFree
  | _ => true

/-- The variables and numbers of the havocs of a statement. -/
def havocs : Term → List (String × Int)
  | .ifElse _ thenBranch elseBranch => thenBranch.havocs ++ elseBranch.havocs
  | .seq first second => first.havocs ++ second.havocs
  | .loop _ _ body => body.havocs
  | .havoc name count => [(name, count)]
  | _ => []

theorem isClaim_quantified {quantifier : Quantifier} {binder written body : Term}
    {type : Option Ty} {closed : Bool}
    (hclaim : (Term.quantified quantifier binder type written body closed).isClaim = true) :
    ∃ name, binder = .var name ∧ body.isClaim = true := by
  cases binder <;> simp_all [isClaim]

theorem isProgram_assign {target : Term} {charge : Bool}
    (hprogram : (Term.assign target value charge).isProgram = true) :
    ∃ name, target = .var name ∧ value.isClaim = true := by
  cases target <;> simp_all [isProgram]

/-- The assigned names of two statements together. -/
theorem orSkip_eq_self (hmissing : statement ≠ .missing) : statement.orSkip = statement := by
  cases statement with
  | missing => exact absurd rfl hmissing
  | _ => rfl

end Term

theorem Exec.orSkip {interp : Interpretation} {havoc : HavocRule}
    {statement : Term} {store : Store} {outcome : Outcome}
    (hexec : Exec interp havoc statement store outcome) :
    Exec interp havoc statement.orSkip store outcome := by
  rwa [Term.orSkip_eq_self]
  rintro rfl
  cases hexec

theorem exec_seq_iff : Exec interp havoc (.seq first second) store (.done final) ↔
      ∃ between, Exec interp havoc first store (.done between) ∧
        Exec interp havoc second between (.done final) := by
  constructor
  · rintro (_ | _ | _ | ⟨hfirst, hsecond⟩)
    exact ⟨_, hfirst, hsecond⟩
  · rintro ⟨_, hfirst, hsecond⟩
    exact .seq hfirst hsecond

theorem exec_skip_iff : Exec interp havoc .skip store (.done final) ↔ store = final := by
  constructor
  · rintro ⟨⟩
    rfl
  · rintro rfl
    exact .skip

/-- A statement without havocs changes no variable but those it assigns. -/
theorem Exec.eq_of_not_assigned {before after : Store} {name : String}
    (hexec : Exec interp havoc statement before (.done after)) (hhavocs : statement.havocs = [])
    (hassigned : statement.assigned = .ok names) (hname : name ∉ names) :
    after name = before name := by
  generalize houtcome : Outcome.done after = outcome at hexec
  induction hexec generalizing names after with
  | skip | assume | assertTrue | loopEnd =>
    cases houtcome
    rfl
  | assign =>
    cases houtcome
    cases hassigned
    exact Function.update_of_ne (by simpa using hname) _ _
  | assignElement =>
    cases houtcome
    simp only [Term.assigned, Term.variableNames, bind_eq_ok] at hassigned
    obtain ⟨_, hbase, _, -, hnames⟩ := hassigned
    cases hbase
    cases hnames
    exact Function.update_of_ne (fun hsame => hname (by simp [hsame])) _ _
  | seq _ _ ihfirst ihsecond =>
    simp only [Term.havocs, List.append_eq_nil_iff] at hhavocs
    obtain ⟨_, _, hleft, hright, rfl⟩ := append_eq_ok hassigned
    simp only [List.mem_append, not_or] at hname
    rw [ihsecond hhavocs.2 hright hname.2 houtcome, ihfirst hhavocs.1 hleft hname.1 rfl]
  | ifTrue _ _ ih =>
    simp only [Term.havocs, List.append_eq_nil_iff] at hhavocs
    obtain ⟨_, _, hleft, _, rfl⟩ := append_eq_ok hassigned
    exact ih hhavocs.1 hleft (fun hmem => hname (List.mem_append_left _ hmem)) houtcome
  | ifFalse _ _ ih =>
    simp only [Term.havocs, List.append_eq_nil_iff] at hhavocs
    obtain ⟨_, _, _, hright, rfl⟩ := append_eq_ok hassigned
    exact ih hhavocs.2 hright (fun hmem => hname (List.mem_append_right _ hmem)) houtcome
  | loopAgain _ _ _ ihbody ihloop =>
    rw [ihloop hhavocs hassigned hname houtcome]
    exact ihbody hhavocs hassigned hname rfl
  | havoc => simp [Term.havocs] at hhavocs
  | seqFailed | assertFalse | loopFailed => cases houtcome

/-! ## A program that counts down -/

/-- The claim that a value is at least a given integer. -/
def atLeast (low : Int) (value : Term) : Term :=
  .binary (.int low) .le value

theorem holds_atLeast {low : Int} :
    (atLeast low value).Holds .standard store ↔
      ∃ high, value.eval .standard store = .int high ∧ low ≤ high := by
  simp only [atLeast, Term.Holds, Term.eval_binary, Interpretation.applyBinary,
    Operator.connective?, Term.eval_int]
  cases value.eval .standard store <;> simp [Interpretation.standard, Operator.onInts, Value.truth]

/-- A loop that counts down to zero. -/
def countdown : Term :=
  .loop (atLeast 0 (.var "x")) (atLeast 1 (.var "x"))
    (.assign (.var "x") (.binary (.var "x") .minus (.int 1)) false)

end HoareCheck
