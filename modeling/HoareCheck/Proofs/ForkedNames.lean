import HoareCheck.Proofs.ClaimFrames
import HoareCheck.Proofs.ElaborationSteps
import HoareCheck.Proofs.ForkedClaims

/-!
# Forked names

When two runs are compared, the copies of a forked name take its place in assignments
and tests.  Renaming does not reach into elements and slices of arrays, so the name
itself is left there, as it is in the assertions of the program, which are not forked.
Nowhere else in assignments and tests does it stand (`not_mem_actedOn`).
-/

namespace HoareCheck

variable {term result : Term} {names : List String} {before after : WriteLog}

namespace Term

/-- The names in a claim that renaming reaches: those outside elements and slices. -/
@[grind =]
def reached : Term → List String
  | .var name => [name]
  | .unary _ operand => operand.reached
  | .binary left _ right => left.reached ++ right.reached
  | .quantified _ _ _ _ body _ => body.reached
  | _ => []

/-- The names in the assignments and tests of a statement that renaming reaches. -/
def actedOn : Term → List String
  | .assign target value _ => target.reached ++ value.reached
  | .ifElse condition thenBranch elseBranch =>
    condition.reached ++ thenBranch.actedOn ++ elseBranch.actedOn
  | .seq first second => first.actedOn ++ second.actedOn
  | .loop _ condition body => condition.reached ++ body.actedOn
  | _ => []

@[grind =]
theorem actedOn_orSkip (term : Term) : term.orSkip.actedOn = term.actedOn := by
  cases term <;> rfl

@[grind =]
theorem actedOn_andThen (first second : Term) :
    (first.andThen second).actedOn = first.actedOn ++ second.actedOn := by
  grind [andThen, actedOn]

theorem actedOn_branch (condition thenBranch elseBranch : Term) :
    (branch condition thenBranch elseBranch).actedOn =
      condition.reached ++ thenBranch.actedOn ++ elseBranch.actedOn := by
  grind [branch, actedOn]

theorem actedOn_repeatWhile (invariant condition body : Term) :
    (invariant.repeatWhile condition body).actedOn = condition.reached ++ body.actedOn := by
  grind [repeatWhile, actedOn]

/-- A name in a renamed term was there before, and is not the one that was replaced, or
it is the new one. -/
theorem of_mem_reached_substituteWith {atRead : Site → Term → Logged Unit} {old new name : String}
    (hgives : Gives (substituteWith atRead (.var old) (.var new) term) before result after)
    (hname : name ∈ result.reached) : name = new ∨ name ∈ term.reached ∧ name ≠ old := by
  induction term generalizing before after result with
  | missing => exact absurd hgives not_gives_throw
  | _ =>
    simp only [substituteWith, gives_bind, gives_pure] at hgives
    grind [andThen, branch, repeatWhile]

theorem of_mem_reached_renameAll {renamings : List (String × String)} {name : String}
    (hgives : Gives (term.renameAll renamings) before result after)
    (hname : name ∈ result.reached) : (∃ pair ∈ renamings, name = pair.2) ∨
      name ∈ term.reached ∧ ∀ pair ∈ renamings, name ≠ pair.1 := by
  induction renamings generalizing term before with
  | nil =>
    obtain ⟨rfl, -⟩ := gives_pure.mp hgives
    exact .inr ⟨hname, List.forall_mem_nil _⟩
  | cons pair rest ih =>
    obtain ⟨_, _, hrenamed, hrest⟩ := gives_bind.mp hgives
    obtain ⟨_, _, -, hrenamed⟩ := gives_bind.mp hrenamed
    have hstep := @of_mem_reached_substituteWith _ _ _ _ _ _ _ name hrenamed
    grind [ih hrest]

theorem actedOn_place_claim (hclaim : term.InFrame .claims) (log : WriteLog) :
    (term.place log).1.actedOn = [] := by
  cases term with
  | assign | ifElse | seq | loop => exact hclaim.1.elim
  | _ => rfl

end Term

/-- What a computation gives acts on none of the names. -/
def Spares {α : Type} [Carrier α] (names : List String) (computation : Logged α) : Prop :=
  ∀ before value after, Gives computation before value after →
    Carrier.All (fun term => ∀ name ∈ names, name ∉ term.actedOn)
      (fun copy => ∀ name ∈ names, name ∉ copy.reached) value

theorem spares_parse (text : String) : Spares names (Logged.parse text) := by
  intro before value after hgives
  rw [Logged.parse] at hgives
  cases hclaim : Term.ofClaim text with
  | ok =>
    rw [hclaim] at hgives
    obtain ⟨rfl, -⟩ := gives_place.mp hgives
    intro name _
    rw [Term.actedOn_place_claim (Term.inFrame_of_ofClaim hclaim)]
    exact List.not_mem_nil
  | error =>
    rw [hclaim] at hgives
    exact absurd hgives not_gives_throw

section Forks

variable (hnames : ∀ name ∈ names, IsUnmarked name)

include hnames

/-- None of the names that marked ones replace is reached. -/
theorem Term.not_mem_reached_renameAll {copy : String → String}
    (hcopy : ∀ name, ¬ IsUnmarked (copy name))
    (hgives : Gives (term.renameAll (names.map fun name => (name, copy name))) before result after) :
    ∀ name ∈ names, name ∉ result.reached := by
  intro name hname hreached
  obtain ⟨pair, hpair, rfl⟩ | ⟨-, hkept⟩ := of_mem_reached_renameAll hgives hreached
  · obtain ⟨other, -, rfl⟩ := List.mem_map.mp hpair
    exact hcopy other (hnames _ hname)
  · exact hkept (name, copy name) (List.mem_map.mpr ⟨name, hname, rfl⟩) rfl

theorem Term.not_mem_actedOn_charge {first second : Term}
    (hfirst : ∀ name ∈ names, name ∉ first.reached)
    (hsecond : ∀ name ∈ names, name ∉ second.reached) :
    ∀ name ∈ names, name ∉ (Term.charge first second).actedOn := by
  have hcost : ¬ IsUnmarked costName := by unfold IsUnmarked; decide
  have hunit : ¬ IsUnmarked unitCostName := by unfold IsUnmarked; decide
  grind [Term.charge, Term.actedOn]

theorem spares_fork (term : Term) : Spares names (term.fork names) := by
  intro before copies after hgives
  simp only [Term.fork, gives_bind, gives_pure] at hgives
  obtain ⟨_, _, -, _, _, -, _, _, hfirst, _, _, hsecond, rfl, -⟩ := hgives
  exact ⟨Term.not_mem_reached_renameAll hnames not_isUnmarked_firstCopy hfirst,
    Term.not_mem_reached_renameAll hnames not_isUnmarked_secondCopy hsecond⟩

theorem spares_forkedAssignment {target value : Term}
    (hvalue : ∀ name ∈ names, name ∉ value.actedOn) :
    Spares names (Source.forkedAssignment names target value) := by
  intro before statement after hgives name hname
  have hfirst := not_isUnmarked_firstCopy
  have hsecond := not_isUnmarked_secondCopy
  cases target with
  | subscript =>
    simp only [Source.forkedAssignment, gives_bind, if_true] at hgives
    obtain ⟨_, _, -, copies, _, hcopies, targets, _, htargets, hgives⟩ := hgives
    have hcopies := spares_fork hnames value _ _ _ hcopies
    have htargets := spares_fork hnames _ _ _ _ htargets
    split at hgives <;> obtain ⟨rfl, -⟩ := gives_pure.mp hgives <;>
      grind [Term.actedOn]
  | var =>
    simp only [Source.forkedAssignment, gives_bind, Bool.false_eq_true, if_false] at hgives
    obtain ⟨_, _, -, copies, _, hcopies, hgives⟩ := hgives
    have hcopies := spares_fork hnames value _ _ _ hcopies
    split at hgives <;> obtain ⟨rfl, -⟩ := gives_pure.mp hgives <;>
      grind [Term.actedOn]
  | _ =>
    obtain ⟨_, _, hthrow, -⟩ := gives_bind.mp hgives
    exact absurd hthrow not_gives_throw

/-- Elaboration for two runs spares the forked names. -/
def Tracking.sparing : Tracking (.forked names) where
  Holds _ := True
  Ensures computation := Spares names computation
  name := IsPlain
  claim _ := True
  arrays := True
  Fits term := ∀ name ∈ names, name ∉ term.actedOn
  Copied copy := ∀ name ∈ names, name ∉ copy.reached
  steps := stepwise_true
  pure _ hvalue _ _ _ hgives := (gives_pure.mp hgives).1 ▸ hvalue
  throw _ _ _ _ hgives := absurd hgives not_gives_throw
  bind _ _ _ hfirst hnext _ _ _ hgives := by
    obtain ⟨value, _, hvalue, hresult⟩ := gives_bind.mp hgives
    exact (hnext value).2 (hfirst _ _ _ hvalue) _ _ _ hresult
  ignore _ _ harrays := absurd trivial harrays
  parse text _ := spares_parse text
  place array index _ _ _ _ _ _ hgives := by
    obtain ⟨rfl, -⟩ := gives_place.mp hgives
    exact fun _ _ => List.not_mem_nil
  unforked _ hmode := absurd hmode (by simp)
  fork _ hmode term _ := by
    cases hmode
    exact spares_fork hnames term
  forkedAssignment _ hmode _ _ _ _ hvalue := by
    cases hmode
    exact spares_forkedAssignment hnames hvalue
  var _ _ _ _ := List.not_mem_nil
  literal _ _ _ := List.not_mem_nil
  missing _ _ := List.not_mem_nil
  unary _ _ _ _ _ := List.not_mem_nil
  binary _ _ _ _ _ _ _ _ := List.not_mem_nil
  ofBounds lower _ _ _ _ _ _ := by cases lower <;> exact List.not_mem_nil
  charge _ _ := Term.not_mem_actedOn_charge hnames
  skip _ _ := List.not_mem_nil
  assume _ _ _ _ := List.not_mem_nil
  assert _ _ _ _ := List.not_mem_nil
  assign _ _ hmode := absurd hmode (by simp)
  agreement _ _ _ _ _ _ := List.not_mem_nil
  andThen _ _ hfirst hsecond name hname := by
    simp [Term.actedOn_andThen, hfirst name hname, hsecond name hname]
  branch _ _ _ hcondition hthen helse name hname := by
    simp [Term.actedOn_branch, hcondition name hname, hthen name hname, helse name hname]
  repeatWhile _ _ _ _ hcondition hbody name hname := by
    simp [Term.actedOn_repeatWhile, hcondition name hname, hbody name hname]

namespace Source

/-- In the assignments and tests of the statement for two runs, forked names stand in
elements and slices of arrays only. -/
theorem not_mem_actedOn {program : Program} {text : String} (hparse : parse text = .ok program)
    {statement : Term} (hgives : Gives (elaborate (.forked names) program) before statement after) :
    ∀ name ∈ names, name ∉ statement.actedOn :=
  ((Tracking.sparing hnames).program program).2 (isPlain_of_parse hparse)
    (fun harrays => absurd trivial harrays) _ _ _ hgives

end Source

end Forks

namespace Source

/-- An element is read at an index that is forked. -/
def indexedRead : Program :=
  [.assign [.name "x"] (.subscript (.name "A") (.name "x"))]

/-- For two runs, both of which read the element at `x`. -/
def indexedReads : Term :=
  .seq (.assign (.var "x#1") (.subscript 2 (.var "A") (.var "x")) false)
    (.assign (.var "x#2") (.subscript 3 (.var "A") (.var "x")) false)

theorem not_mem_actedOn_indexedRead : "x" ∉ indexedReads.actedOn := by
  have hlex : lex "x = A[x]" = .ok
      [.name "x", .sign "=", .name "A", .sign "[", .name "x", .sign "]", .newline] := by
    decide +kernel
  have hparse : parse "x = A[x]" = .ok indexedRead := by
    rw [parse, hlex]
    rfl
  have hnames : ∀ name ∈ ["x"], IsUnmarked name := by
    unfold IsUnmarked
    decide
  have hgives : Gives (elaborate (.forked ["x"]) indexedRead) .empty indexedReads _ := rfl
  exact not_mem_actedOn hnames hparse hgives "x" (by decide)

/-- The index is not forked. -/
theorem index_not_forked : ∃ after,
    Gives (elaborate (.forked ["x"]) indexedRead) .empty indexedReads after :=
  ⟨_, rfl⟩

end Source

end HoareCheck
