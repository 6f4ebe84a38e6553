import HoareCheck.Proofs.TaskFrames

/-!
# Programs without arrays

A program is scalar if no element and no slice of an array is written in it.  The
term of a scalar program assigns to variables only, and keeps to a vocabulary if its
names and its claims do.
-/

namespace HoareCheck

variable {term first second : Term} {names : List String} {arguments : List Expr}
  {operator : Operator}

/-! ## Vocabularies of programs -/

namespace Vocabulary

/-- The vocabulary has the words that elaboration brings in: copies of its names,
the names of the privacy cost, and all operators that a program can write. -/
structure IsOpen (vocabulary : Vocabulary) : Prop where
  copies : ∀ name, vocabulary.name name →
    vocabulary.name (firstCopy name) ∧ vocabulary.name (secondCopy name)
  cost : vocabulary.name costName
  unitCost : vocabulary.name unitCostName
  operator : ∀ operator, operator ≠ .adjacent → vocabulary.operator operator

/-- The claims of a kind keep to the vocabulary. -/
def Admits (vocabulary : Vocabulary) (claim : String → Prop) : Prop :=
  ∀ text term, claim text → Term.ofClaim text = .ok term → term.KeepsTo vocabulary

end Vocabulary

/-- The names that are forked are in the vocabulary. -/
def RunMode.KeepsTo (vocabulary : Vocabulary) : RunMode → Prop
  | .single => True
  | .forked names => ∀ name ∈ names, vocabulary.name name

section Speech

variable {vocabulary : Vocabulary} {claim : String → Prop} {mode : RunMode}

theorem speaks_parse {text : String}
    (htext : ∀ term, Term.ofClaim text = .ok term → term.KeepsTo vocabulary) :
    Speaks vocabulary (Logged.parse text) := by
  rw [Logged.parse]
  cases hclaim : Term.ofClaim text with
  | ok term => exact speaks_place (htext term hclaim)
  | error fault => exact speaks_throw fault

@[grind ←]
theorem speaks_fork (hopen : vocabulary.IsOpen) (hnames : ∀ name ∈ names, vocabulary.name name)
    (hterm : term.KeepsTo vocabulary) : Speaks vocabulary (term.fork names) := by
  have hfirsts : ∀ pair ∈ names.map fun name => (name, firstCopy name), vocabulary.name pair.2 :=
    List.forall_mem_map.mpr fun name hname => (hopen.copies name (hnames name hname)).1
  have hseconds : ∀ pair ∈ names.map fun name => (name, secondCopy name), vocabulary.name pair.2 :=
    List.forall_mem_map.mpr fun name hname => (hopen.copies name (hnames name hname)).2
  grind [Term.fork]

theorem keepsTo_charge (hopen : vocabulary.IsOpen) (hfirst : first.KeepsTo vocabulary)
    (hsecond : second.KeepsTo vocabulary) : (Term.charge first second).KeepsTo vocabulary := by
  refine ⟨⟨costName, rfl, hopen.cost⟩, hopen.operator _ (by decide), hopen.cost,
    hopen.operator _ (by decide), ⟨hopen.operator _ (by decide), hfirst, hsecond⟩, hopen.unitCost⟩

/-- An assignment to a variable that two runs make. -/
theorem speaks_forkedAssignment (hopen : vocabulary.IsOpen)
    (hnames : ∀ name ∈ names, vocabulary.name name) {name : String} (hname : vocabulary.name name)
    {value : Term} (hvalue : value.KeepsTo vocabulary) :
    Speaks vocabulary (Source.forkedAssignment names (.var name) value) := by
  obtain ⟨_, _⟩ := hopen.copies name hname
  have hequal : vocabulary.operator .eq := hopen.operator _ (by decide)
  simp only [Source.forkedAssignment, Term.name?, Logged.ofOption, pure_bind]
  exact speaks_bind (speaks_fork hopen hnames hvalue) (by grind)

/-- The terms of a result are looked at for the vocabulary. -/
abbrev Carrier.worded {α : Type} [Carrier α] : Worded α :=
  ⟨fun vocabulary => Carrier.All (Term.KeepsTo vocabulary) (Term.KeepsTo vocabulary)⟩

attribute [local instance] Carrier.worded

/-- Elaboration of a scalar program keeps to the vocabulary of its names and claims. -/
def Tracking.speaking (hopen : vocabulary.IsOpen) (hadmits : vocabulary.Admits claim)
    (hmode : mode.KeepsTo vocabulary) : Tracking mode where
  Holds _ := True
  Ensures computation := Speaks vocabulary computation
  name := vocabulary.name
  claim := claim
  arrays := False
  Fits := Term.KeepsTo vocabulary
  Copied := Term.KeepsTo vocabulary
  steps := stepwise_true
  pure _ hvalue := speaks_pure hvalue
  throw := speaks_throw
  bind _ _ _ hfirst hnext := speaks_bind hfirst fun value => (hnext value).2
  ignore _ _ _ := speaks_bind_any
  parse text hclaim := speaks_parse fun term => hadmits text term (hclaim id)
  place _ _ harrays := harrays.elim
  unforked _ _ := id
  fork names hforked term := by
    subst hforked
    exact speaks_fork hopen hmode
  forkedAssignment names hforked target value htarget _ := by
    subst hforked
    obtain ⟨name, rfl, hname⟩ := htarget.resolve_left id
    exact speaks_forkedAssignment hopen hmode hname
  var _ := id
  literal _ := trivial
  missing := trivial
  unary _ _ := id
  binary _ _ _ hoperator hleft hright := ⟨hopen.operator _ hoperator, hleft, hright⟩
  ofBounds _ _ harrays := harrays.elim
  charge _ _ := keepsTo_charge hopen
  skip := trivial
  assume _ := id
  assert _ := id
  assign _ _ _ htarget _ hvalue := ⟨htarget.resolve_left id, hvalue⟩
  agreement _ _ hfirst hsecond := ⟨hopen.operator _ (by decide), hfirst, hsecond⟩
  andThen _ _ := Term.keepsTo_andThen
  branch _ _ _ := Term.keepsTo_branch
  repeatWhile _ _ _ := Term.keepsTo_repeatWhile

/-! ## Tasks -/

theorem Term.name_of_assigned_keepsTo (hterm : term.KeepsTo vocabulary)
    (hnames : term.assigned = .ok names) : ∀ name ∈ names, vocabulary.name name := by
  induction term generalizing names with
  | skip | assume | assert | havoc =>
    obtain rfl : [] = names := Except.ok.inj hnames
    exact List.forall_mem_nil _
  | assign =>
    obtain ⟨⟨name, rfl, hname⟩, -⟩ := hterm
    obtain rfl : [name] = names := Except.ok.inj hnames
    exact List.forall_mem_singleton.mpr hname
  | ifElse _ _ _ _ ihthen ihelse =>
    obtain ⟨_, _, hfirst, hsecond, rfl⟩ := append_eq_ok hnames
    exact List.forall_mem_append.mpr ⟨ihthen hterm.2.1 hfirst, ihelse hterm.2.2 hsecond⟩
  | seq _ _ ihfirst ihsecond =>
    obtain ⟨_, _, hfirst, hsecond, rfl⟩ := append_eq_ok hnames
    exact List.forall_mem_append.mpr ⟨ihfirst hterm.1 hfirst, ihsecond hterm.2 hsecond⟩
  | loop _ _ _ _ _ ih => exact ih hterm.2.2 hnames
  | _ => cases hnames

namespace Task

/-- The statement of a task whose program is scalar. -/
theorem keepsTo_of_gives_statement (hopen : vocabulary.IsOpen)
    (hadmits : vocabulary.Admits claim) {task : Task} {program : Source.Program}
    (hparse : Source.parse task.code = .ok program)
    (hnames : Source.namesOfBlock vocabulary.name program)
    (hscalar : Source.scalarBlock claim program) {before after : RunState} {statement : Term}
    (hgives : Gives task.statement before statement after) : statement.KeepsTo vocabulary := by
  have hspeaks {mode : RunMode} (hmode : mode.KeepsTo vocabulary) :=
    ((Tracking.speaking hopen hadmits hmode).program program).2 hnames fun _ => hscalar
  have hsingleMode : RunMode.single.KeepsTo vocabulary := trivial
  obtain ⟨_, single, _, _, hfound, hsingle, -, hrest⟩ := of_gives_statement hgives
  cases hparse.symm.trans hfound
  have hkeeps : single.KeepsTo vocabulary := hspeaks hsingleMode _ _ _ hsingle
  obtain ⟨rfl, -⟩ | ⟨names, _, hassigned, hforked, rfl⟩ := hrest
  · exact hkeeps
  · have hmode : (RunMode.forked (ascending names)).KeepsTo vocabulary := fun name hname =>
      Term.name_of_assigned_keepsTo hkeeps hassigned name (mem_ascending.mp hname)
    exact Term.keepsTo_andThen ⟨⟨costName, rfl, hopen.cost⟩, trivial⟩
      (hspeaks hmode _ _ _ hforked)

end Task

end Speech

end HoareCheck
