import HoareCheck.Proofs.ClaimFrames
import HoareCheck.Proofs.ElaborationSteps

/-!
# Terms of programs

The term of a program has plain names and no havocs, no type is known of the
variables that it binds, and its sites are those that were placed for it.
-/

namespace HoareCheck

/-- What may stand in the term of a program, with a bound for its sites. -/
def Frame.below (bound : Nat) : Frame where
  site site := site < bound
  name := IsPlain
  binder name type := type = none ∧ '$' ∈ name.toList
  reachesWritten := True
  statements := True
  havocs := False

section Below

variable {bound : Nat}

theorem Frame.claims_allows_below : Frame.claims.Allows (.below bound) :=
  ⟨fun _ => id, fun _ _ => id, id, fun _ => trivial, id⟩

@[grind =]
theorem name_below (name : String) : (Frame.below bound).name name = IsPlain name := rfl

@[grind ←]
theorem statements_below : (Frame.below bound).statements := trivial

@[grind ←]
theorem builds_parse_below (text : String) : Builds (.below bound) (Logged.parse text) :=
  builds_parse Frame.claims_allows_below text

end Below

/-- The names that are forked are plain. -/
def RunMode.IsPlain : RunMode → Prop
  | .single => True
  | .forked names => ∀ name ∈ names, HoareCheck.IsPlain name

theorem isPlain_copy {name : String} (hname : IsPlain name) :
    IsPlain (firstCopy name) ∧ IsPlain (secondCopy name) := by
  have hfirst : '@' ∉ "#1".toList := by decide
  have hsecond : '@' ∉ "#2".toList := by decide
  exact ⟨isPlain_append hname hfirst, isPlain_append hname hsecond⟩

theorem stepwise_grows : Stepwise fun computation => Grows computation where
  pure := grows_pure
  throw fault _ := grows_throw fault
  bind _ _ := grows_bind
  place := grows_place
  rename term _ _ := grows_substitute term _ _
  parse := grows_parse

section Forks

variable {bound : Nat} {names : List String} {term first second : Term}

@[grind ←]
theorem grows_fork (names : List String) (term : Term) : Grows (term.fork names) :=
  stepwise_grows.fork names term

@[grind ←]
theorem builds_fork (hnames : ∀ name ∈ names, IsPlain name) (hterm : term.InFrame (.below bound)) :
    Builds (.below bound) (term.fork names) := by
  have hfirsts : ∀ pair ∈ names.map fun name => (name, firstCopy name), IsPlain pair.2 :=
    List.forall_mem_map.mpr fun name hname => (isPlain_copy (hnames name hname)).1
  have hseconds : ∀ pair ∈ names.map fun name => (name, secondCopy name), IsPlain pair.2 :=
    List.forall_mem_map.mpr fun name hname => (isPlain_copy (hnames name hname)).2
  grind [Term.fork]

@[grind ←]
theorem inFrame_charge (hfirst : first.InFrame (.below bound))
    (hsecond : second.InFrame (.below bound)) :
    (Term.charge first second).InFrame (.below bound) := by
  have hcost : IsPlain costName := by
    change '@' ∉ "v_eps#".toList
    decide
  have hunit : IsPlain unitCostName := by
    change '@' ∉ "eps#".toList
    decide
  grind [Term.charge]

end Forks

namespace Source

@[grind ←]
theorem builds_forkedAssignment {bound : Nat} {names : List String}
    (hnames : ∀ name ∈ names, IsPlain name) {target value : Term}
    (htarget : target.InFrame (.below bound))
    (hvalue : value.InFrame (.below bound)) :
    Builds (.below bound) (forkedAssignment names target value) := by
  cases target with
  | subscript =>
    apply builds_bind (grows_ofOption _ _) (builds_ofOption _ fun _ _ => trivial)
    · grind
    · intro name _
      apply builds_bind (grows_fork names value) (builds_fork hnames hvalue)
      · grind
      · grind
  | var =>
    obtain ⟨_, _⟩ := isPlain_copy htarget
    simp only [forkedAssignment, Term.name?, Logged.ofOption, pure_bind]
    apply builds_bind (grows_fork names value) (builds_fork hnames hvalue)
    · grind
    · grind
  | _ => exact builds_throw_bind _ _

end Source

/-- The terms of a result are looked at for the frame. -/
abbrev Carrier.framed {α : Type} [Carrier α] : Framed α :=
  ⟨fun frame => Carrier.All (Term.InFrame frame) (Term.InFrame frame)⟩

attribute [local instance] Carrier.framed

/-- Elaboration builds terms of programs. -/
def Tracking.building (bound : Nat) {mode : RunMode} (hmode : mode.IsPlain) : Tracking mode where
  Holds computation := Grows computation
  Ensures computation := Builds (.below bound) computation
  name := IsPlain
  claim _ := True
  arrays := True
  Fits := Term.InFrame (.below bound)
  Copied := Term.InFrame (.below bound)
  steps := stepwise_grows
  pure _ hvalue := builds_pure hvalue
  throw := builds_throw
  bind _ _ := builds_step
  ignore _ _ harrays := absurd trivial harrays
  parse text _ := builds_parse_below text
  place := by grind
  unforked _ _ := id
  fork names hforked term := by
    subst hforked
    exact builds_fork hmode
  forkedAssignment names hforked target value _ := by
    subst hforked
    exact Source.builds_forkedAssignment hmode
  var _ := id
  literal _ := trivial
  missing := trivial
  unary _ _ := id
  binary _ _ _ _ := And.intro
  ofBounds _ _ _ := Term.inFrame_ofBounds
  charge _ _ := inFrame_charge
  skip := trivial
  assume _ := And.intro trivial
  assert _ := And.intro trivial
  assign _ _ _ _ htarget hvalue := ⟨trivial, htarget, hvalue⟩
  agreement _ _ hfirst hsecond := ⟨trivial, hfirst, hsecond⟩
  andThen _ _ := Term.inFrame_andThen trivial
  branch _ _ _ := Term.inFrame_branch trivial
  repeatWhile _ _ _ := Term.inFrame_repeatWhile trivial

namespace Source

theorem grows_program (mode : RunMode) (program : Program) : Grows (elaborate mode program) :=
  stepwise_grows.program mode program

/-- The term of a program, in a log that has a bound. -/
theorem builds_program {bound : Nat} {mode : RunMode} (hmode : mode.IsPlain) {program : Program}
    (hnames : namesOfBlock IsPlain program) : Builds (.below bound) (elaborate mode program) :=
  ((Tracking.building bound hmode).program program).2 hnames fun harrays => absurd trivial harrays

end Source

end HoareCheck
