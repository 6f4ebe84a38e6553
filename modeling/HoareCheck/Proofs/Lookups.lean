import HoareCheck.Proofs.HavocNumbers

/-!
# What claims look up

To encode a claim, its names are looked up in the table of the solver, the arrays that
it reads too, and the length of an array for each `~`.  A binder puts its own name into
the table before the claim under it is encoded, and a binder without a type is refused
before anything under it is looked up.

Substitution, copies and obligations look up nothing that their parts do not.  The
precondition of a program with its loops cut binds the variables of all havocs: it
looks up none of them outside its binders, and its side conditions, which do, come
after it.
-/

namespace HoareCheck

open Term

variable {condition invariant other copied old entered result assumption iteration havoced : Term}
  {before log next : WriteLog} {side : Term → Prop} {targets : List String}

/-- What encoding asks its tables for. -/
inductive Lookup
  | name (name : String)
  | element (array : Option String)
  | length
  deriving DecidableEq

namespace Lookup

/-- What may be looked up under a binder. -/
def under (binder : Term) (allowed : Lookup → Prop) : Lookup → Prop :=
  fun lookup => allowed lookup ∨ binder.name?.map .name = some lookup

/-- What may be looked up after havocs. -/
def after (havocs : List (String × Int)) (allowed : Lookup → Prop) : Lookup → Prop :=
  fun lookup => allowed lookup ∨
    ∃ havoc ∈ havocs, lookup = .name (havocName havoc.1 havoc.2)

variable {allowed : Lookup → Prop}

theorem after_nil : after [] allowed = allowed := by
  funext lookup
  simp [after]

theorem after_append (first second : List (String × Int)) :
    after (first ++ second) allowed = after second (after first allowed) := by
  funext lookup
  simp [after, or_and_right, exists_or, or_assoc]

theorem after_singleton (havoc : String × Int) :
    after [havoc] allowed = under (.var (havocName havoc.1 havoc.2)) allowed := by
  funext lookup
  simp [after, under, name?, eq_comm]

end Lookup

/-- The encoding of a claim, or of the claims of a statement, looks up only what is
allowed. -/
@[grind =]
def Term.LooksUp (allowed : Lookup → Prop) : Term → Prop
  | .var name => allowed (.name name)
  | .subscript _ array index => allowed (.element array.name?) ∧ index.LooksUp allowed
  | .unary _ operand => operand.LooksUp allowed
  | .binary left operator right =>
    left.LooksUp allowed ∧ right.LooksUp allowed ∧ (operator = .adjacent → allowed .length)
  | .quantified _ binder type _ body _ =>
    type.isSome → body.LooksUp (Lookup.under binder allowed)
  | .assign _ value _ => value.LooksUp allowed
  | .ifElse condition thenBranch elseBranch =>
    condition.LooksUp allowed ∧ thenBranch.LooksUp allowed ∧ elseBranch.LooksUp allowed
  | .seq first second => first.LooksUp allowed ∧ second.LooksUp allowed
  | .assume claim | .assert claim => claim.LooksUp allowed
  | .loop invariant condition body =>
    invariant.LooksUp allowed ∧ condition.LooksUp allowed ∧ body.LooksUp allowed
  | .missing | .literal _ | .slice .. | .skip | .havoc .. => True

namespace Term

variable {allowed larger : Lookup → Prop} {term first second new result : Term}

theorem LooksUp.mono (hterm : term.LooksUp allowed)
    (hlarger : ∀ lookup, allowed lookup → larger lookup) : term.LooksUp larger := by
  induction term generalizing allowed larger with
  | quantified _ _ _ _ _ _ _ _ ihbody =>
    intro htype
    exact ihbody (hterm htype) fun lookup => Or.imp_left (hlarger lookup)
  | _ => grind

theorem LooksUp.under (hterm : term.LooksUp allowed) (binder : Term) :
    term.LooksUp (Lookup.under binder allowed) :=
  hterm.mono fun _ => .inl

theorem LooksUp.after (hterm : term.LooksUp allowed) (havocs : List (String × Int)) :
    term.LooksUp (Lookup.after havocs allowed) :=
  hterm.mono fun _ => .inl

@[grind ←]
theorem looksUp_orSkip (hterm : term.LooksUp allowed) : term.orSkip.LooksUp allowed := by
  cases term with
  | missing => trivial
  | _ => exact hterm

@[grind ←]
theorem looksUp_andThen (hfirst : first.LooksUp allowed) (hsecond : second.LooksUp allowed) :
    (first.andThen second).LooksUp allowed :=
  ⟨looksUp_orSkip hfirst, looksUp_orSkip hsecond⟩

@[grind ←]
theorem looksUp_branch (hcondition : condition.LooksUp allowed) (hfirst : first.LooksUp allowed)
    (hsecond : second.LooksUp allowed) : (condition.branch first second).LooksUp allowed :=
  ⟨hcondition, looksUp_orSkip hfirst, looksUp_orSkip hsecond⟩

@[grind ←]
theorem looksUp_repeatWhile {body : Term} (hinvariant : invariant.LooksUp allowed)
    (hcondition : condition.LooksUp allowed) (hbody : body.LooksUp allowed) :
    (invariant.repeatWhile condition body).LooksUp allowed :=
  ⟨hinvariant, hcondition, looksUp_orSkip hbody⟩

/-- A binder counts by its name only. -/
theorem under_congr {binder : Term} (hname : other.name? = binder.name?) (allowed : Lookup → Prop) :
    Lookup.under other allowed = Lookup.under binder allowed := by
  funext lookup
  simp only [Lookup.under, hname]

theorem looksUp_place (hterm : term.LooksUp allowed) (log : WriteLog) :
    (term.place log).1.LooksUp allowed := by
  induction term generalizing allowed log with
  | subscript _ _ _ _ ihindex =>
    refine ⟨?_, ihindex hterm.2 _⟩
    rw [name?_place]
    exact hterm.1
  | quantified _ binder _ _ _ _ _ _ ihbody =>
    intro htype
    have hbody := ihbody (hterm htype)
    rw [← under_congr (name?_place binder log)] at hbody
    exact hbody _
  | _ => grind [place]

theorem name?_of_copy {after : WriteLog} (hgives : Gives term.copy before copied after) :
    copied.name? = term.name? := by
  have houtline : ∀ other : Term, other.outline.name? = other.name? := by
    intro other
    cases other <;> rfl
  rw [← houtline, outline_of_copy hgives, houtline]

/-- A copy looks up what its model does. -/
theorem looksUp_copy {after : WriteLog} (hterm : term.LooksUp allowed)
    (hgives : Gives term.copy before result after) : result.LooksUp allowed := by
  induction term generalizing allowed result before after with
  | missing => exact absurd hgives not_gives_throw
  | subscript _ _ _ _ ihindex =>
    simp only [Term.copy, gives_bind, gives_place] at hgives
    obtain ⟨copied, _, harray, _, _, hindex, rfl, -⟩ := hgives
    have hread : (Term.subscript 0 copied _).LooksUp allowed :=
      ⟨name?_of_copy harray ▸ hterm.1, ihindex hterm.2 hindex⟩
    exact looksUp_place hread _
  | quantified _ _ _ _ _ _ _ _ ihbody =>
    simp only [Term.copy, gives_bind, gives_pure] at hgives
    obtain ⟨_, _, hbinder, _, _, hbody, rfl, -⟩ := hgives
    intro htype
    rw [under_congr (name?_of_copy hbinder)]
    exact ihbody (hterm htype) hbody
  | _ =>
    simp only [Term.copy, gives_bind, gives_pure] at hgives
    grind

/-- What is replaced looks up no more than the term and the replacement do. -/
theorem looksUp_substituteWith {atRead : Site → Term → Logged Unit} {after : WriteLog}
    (hterm : term.LooksUp allowed) (hnew : new.LooksUp allowed)
    (hgives : Gives (substituteWith atRead old new term) before result after) :
    result.LooksUp allowed := by
  induction term generalizing allowed result before after with
  | missing => exact absurd hgives not_gives_throw
  | var =>
    cases old with
    | var =>
      obtain ⟨rfl, -⟩ := gives_pure.mp hgives
      split
      · exact hnew
      · exact hterm
    | _ =>
      obtain ⟨rfl, -⟩ := gives_pure.mp hgives
      exact hterm
  | quantified _ binder _ _ _ _ _ _ ihbody =>
    simp only [substituteWith, gives_bind, gives_pure] at hgives
    obtain ⟨_, _, hbody, rfl, -⟩ := hgives
    intro htype
    exact ihbody (hterm htype) (hnew.under binder) hbody
  | _ =>
    simp only [substituteWith, gives_bind, gives_pure] at hgives
    grind

theorem looksUp_substitute {after : WriteLog} (hterm : term.LooksUp allowed)
    (hnew : new.LooksUp allowed) (hgives : Gives (term.substitute old new) before result after) :
    result.LooksUp allowed := by
  simp only [substitute, gives_bind, gives_get] at hgives
  obtain ⟨_, _, -, hgives⟩ := hgives
  exact looksUp_substituteWith hterm hnew hgives

/-- What speaks of the variables of havocs may look them up. -/
theorem looksUp_afterHavocs {havocs : List (String × Int)} {after : WriteLog}
    (hterm : term.LooksUp (Lookup.after havocs allowed))
    (hgives : Gives (term.afterHavocs havocs) before result after) :
    result.LooksUp (Lookup.after havocs allowed) := by
  have hrenamed : ∀ renamings : List (String × String),
      (∀ pair ∈ renamings, Lookup.after havocs allowed (.name pair.2)) →
      ∀ {term : Term} {before : WriteLog}, term.LooksUp (Lookup.after havocs allowed) →
        Gives (term.renameAll renamings) before result after →
        result.LooksUp (Lookup.after havocs allowed) := by
    intro renamings hallowed
    induction renamings with
    | nil =>
      intro term before hterm hgives
      obtain ⟨rfl, -⟩ := gives_pure.mp hgives
      exact hterm
    | cons pair _ ih =>
      intro term before hterm hgives
      rw [List.forall_mem_cons] at hallowed
      simp only [renameAll, List.foldlM_cons, gives_bind] at hgives
      obtain ⟨_, _, hnext, hrest⟩ := hgives
      have hpair : (Term.var pair.2).LooksUp (Lookup.after havocs allowed) := hallowed.1
      exact ih hallowed.2 (looksUp_substitute hterm hpair hnext) hrest
  refine hrenamed _ ?_ hterm hgives
  intro pair hpair
  obtain ⟨havoc, hhavoc, rfl⟩ := List.mem_map.mp hpair
  exact .inr ⟨havoc, hhavoc, rfl⟩

end Term

/-! ## Obligations -/

/-- For postconditions of one kind, the precondition of a statement is of another, and
its side conditions are of a third. -/
def Term.Owes (env : Option TypeEnv) (side post pre : Term → Prop) (statement : Term) : Prop :=
  ∀ claim before owed after, post claim →
    Gives (statement.obligations env claim) before owed after →
      pre owed.precondition ∧ ∀ condition ∈ owed.sideConditions, side condition

/-- Statements one after the other turn a kind of postconditions into a kind of
preconditions. -/
inductive OwesAll (env : Option TypeEnv) (side : Term → Prop) :
    List Term → (Term → Prop) → (Term → Prop) → Prop
  | nil {post : Term → Prop} : OwesAll env side [] post post
  | cons {statement : Term} {rest : List Term} {post between pre : Term → Prop} :
      statement.orSkip.Owes env side between pre → OwesAll env side rest post between →
      OwesAll env side (statement :: rest) post pre

section Owes

variable {env : Option TypeEnv} {side post between pre : Term → Prop} {first second : Term}

theorem owes_skip : Term.skip.Owes env side post post := by
  intro claim before owed after hclaim hgives
  obtain ⟨rfl, -⟩ := gives_pure.mp hgives
  exact ⟨hclaim, List.forall_mem_nil _⟩

theorem Term.Owes.seq (hfirst : first.Owes env side between pre)
    (hsecond : second.Owes env side post between) :
    (Term.seq first second).Owes env side post pre := by
  intro claim before owed after hclaim hgives
  simp only [Term.obligations, gives_bind, gives_pure] at hgives
  obtain ⟨_, _, hlater, _, _, hearlier, rfl, -⟩ := hgives
  obtain ⟨hbetween, hlaterSides⟩ := hsecond _ _ _ _ hclaim hlater
  obtain ⟨hpre, hearlierSides⟩ := hfirst _ _ _ _ hbetween hearlier
  exact ⟨hpre, List.forall_mem_append.mpr ⟨hearlierSides, hlaterSides⟩⟩

theorem OwesAll.append {left right : List Term} (hleft : OwesAll env side left between pre)
    (hright : OwesAll env side right post between) :
    OwesAll env side (left ++ right) post pre := by
  induction hleft with
  | nil => exact hright
  | cons hstatement _ ih => exact .cons hstatement (ih hright)

theorem OwesAll.foldl {head : Term} {rest : List Term}
    (hrest : OwesAll env side rest post between) (hhead : head.orSkip.Owes env side between pre) :
    (rest.foldl Term.andThen head).orSkip.Owes env side post pre := by
  induction hrest generalizing head with
  | nil => exact hhead
  | cons hstatement _ ih => exact ih (hhead.seq hstatement)

/-- A cut loop, from the assertion at its start and what follows it. -/
theorem owes_guarded {parts : List Term}
    (hentered : (Term.assert entered).Owes env side between pre)
    (hparts : OwesAll env side parts post between) :
    (guarded entered parts).Owes env side post pre := by
  cases hparts with
  | nil => exact hentered
  | cons hfirst hrest =>
    rw [guarded, foldl_extend]
    exact hentered.seq (hrest.foldl hfirst)

end Owes

section LooksUp

variable {env : Option TypeEnv} {allowed : Lookup → Prop}

theorem looksUp_invariantOrTrue (hinvariant : invariant.LooksUp allowed) :
    invariant.invariantOrTrue.LooksUp allowed := by
  cases invariant with
  | missing => trivial
  | _ => exact hinvariant

theorem looksUp_implies {premise conclusion : Term} (hpremise : premise.LooksUp allowed)
    (hconclusion : conclusion.LooksUp allowed) :
    (Term.binary premise .implies conclusion).LooksUp allowed :=
  ⟨hpremise, hconclusion, nofun⟩

theorem looksUp_and {left right : Term} (hleft : left.LooksUp allowed)
    (hright : right.LooksUp allowed) : (Term.binary left .and right).LooksUp allowed :=
  ⟨hleft, hright, nofun⟩

/-- A statement without havocs owes claims that look up what it and its postcondition
do. -/
theorem Term.LooksUp.owes {statement : Term} (hstatement : statement.LooksUp allowed)
    (hhavocs : statement.havocs = []) :
    statement.Owes env (LooksUp allowed) (LooksUp allowed) (LooksUp allowed) := by
  induction statement with
  | skip => exact owes_skip
  | assign _ value =>
    intro claim before owed after hclaim hgives
    simp only [Term.obligations, gives_bind, gives_pure] at hgives
    obtain ⟨_, _, hsubstitute, rfl, -⟩ := hgives
    have hvalue : value.LooksUp allowed := hstatement
    exact ⟨looksUp_substitute hclaim hvalue hsubstitute, List.forall_mem_nil _⟩
  | seq _ _ ihfirst ihsecond =>
    simp only [Term.havocs, List.append_eq_nil_iff] at hhavocs
    exact (ihfirst hstatement.1 hhavocs.1).seq (ihsecond hstatement.2 hhavocs.2)
  | ifElse _ _ _ _ ihthen ihelse =>
    simp only [Term.havocs, List.append_eq_nil_iff] at hhavocs
    intro claim before owed after hclaim hgives
    simp only [Term.obligations, gives_bind, gives_pure] at hgives
    obtain ⟨_, _, hthen, _, _, helse, rfl, -⟩ := hgives
    obtain ⟨htrue, htrueSides⟩ := ihthen hstatement.2.1 hhavocs.1 _ _ _ _ hclaim hthen
    obtain ⟨hfalse, hfalseSides⟩ := ihelse hstatement.2.2 hhavocs.2 _ _ _ _ hclaim helse
    exact ⟨looksUp_and (looksUp_implies hstatement.1 htrue)
      (looksUp_implies hstatement.1 hfalse),
      List.forall_mem_append.mpr ⟨htrueSides, hfalseSides⟩⟩
  | loop invariant condition _ _ _ ihbody =>
    have hinvariant := looksUp_invariantOrTrue hstatement.1
    intro claim before owed after hclaim hgives
    simp only [Term.obligations, gives_bind, gives_pure] at hgives
    obtain ⟨_, _, hbody, rfl, -⟩ := hgives
    obtain ⟨hkept, hsides⟩ := ihbody hstatement.2.2 hhavocs _ _ _ _ hinvariant hbody
    have hpreserved := looksUp_implies (looksUp_and hinvariant hstatement.2.1) hkept
    have hestablished : (Term.binary (.binary invariant.invariantOrTrue .and
        (.unary .not condition)) .implies claim).LooksUp allowed :=
      looksUp_implies (looksUp_and hinvariant hstatement.2.1) hclaim
    refine ⟨hinvariant, List.forall_mem_append.mpr ⟨hsides, ?_⟩⟩
    exact List.forall_mem_cons.mpr ⟨hpreserved, List.forall_mem_singleton.mpr hestablished⟩
  | assume =>
    intro post before owed after hpost hgives
    obtain ⟨rfl, -⟩ := gives_pure.mp hgives
    exact ⟨looksUp_implies hstatement hpost, List.forall_mem_nil _⟩
  | assert =>
    intro post before owed after hpost hgives
    obtain ⟨rfl, -⟩ := gives_pure.mp hgives
    exact ⟨looksUp_implies hpost hstatement, List.forall_mem_nil _⟩
  | havoc => simp [Term.havocs] at hhavocs
  | _ =>
    intro post before owed after _ hgives
    exact absurd hgives not_gives_throw

/-- A havoc binds the variable that it introduces. -/
theorem owes_havoc (havoc : String × Int) :
    (Term.havoc havoc.1 havoc.2).Owes env side (Term.LooksUp (Lookup.after [havoc] allowed))
      (Term.LooksUp allowed) := by
  rw [Lookup.after_singleton]
  intro claim before owed after hclaim hgives
  simp only [Term.obligations, gives_bind, gives_pure] at hgives
  obtain ⟨_, _, hsubstitute, _, _, -, rfl, -⟩ := hgives
  have hbound : (Term.var (havocName havoc.1 havoc.2)).LooksUp
      (Lookup.under (.var (havocName havoc.1 havoc.2)) allowed) := .inr rfl
  exact ⟨fun _ => Term.looksUp_substitute hclaim hbound hsubstitute, List.forall_mem_nil _⟩

theorem owesAll_havocs (havocs : List (String × Int)) :
    OwesAll env side (havocs.map fun havoc => Term.havoc havoc.1 havoc.2)
      (Term.LooksUp (Lookup.after havocs allowed)) (Term.LooksUp allowed) := by
  induction havocs generalizing allowed with
  | nil =>
    rw [Lookup.after_nil]
    exact .nil
  | cons havoc rest ih =>
    rw [show havoc :: rest = [havoc] ++ rest from rfl, Lookup.after_append]
    exact .cons (owes_havoc havoc) ih

end LooksUp

/-! ## Bound names -/

/-- A claim binds the names of a list. -/
def Term.Binds (names : List String) (claim : Term) : Prop :=
  names ⊆ claim.boundNames

section Binds

variable {env : Option TypeEnv} {names : List String}

theorem Term.boundNames_orSkip (term : Term) : term.orSkip.boundNames = term.boundNames := by
  cases term <;> rfl

theorem Term.boundNames_subset_substitute {term new : Term} {after : WriteLog}
    (hgives : Gives (term.substitute old new) before result after) :
    term.boundNames ⊆ result.boundNames := by
  simp only [substitute, gives_bind, gives_get] at hgives
  obtain ⟨log, start, -, hgives⟩ := hgives
  generalize substituteAt old new (log.sites.size + 1) = atRead at hgives
  induction term generalizing result start after with
  | missing => exact absurd hgives not_gives_throw
  | var | literal | skip | havoc => exact List.nil_subset _
  | slice =>
    obtain ⟨rfl, -⟩ := gives_pure.mp hgives
    exact List.Subset.refl _
  | subscript =>
    simp only [substituteWith, gives_bind, gives_pure] at hgives
    obtain ⟨_, _, -, rfl, -⟩ := hgives
    exact List.Subset.refl _
  | _ =>
    simp only [substituteWith, gives_bind, gives_pure] at hgives
    grind [boundNames, branch, andThen, repeatWhile, boundNames_orSkip]

theorem binds_assign (target value : Term) (charge : Bool) :
    (Term.assign target value charge).Owes env side (Term.Binds names) (Term.Binds names) := by
  intro claim before owed after hclaim hgives
  simp only [Term.obligations, gives_bind, gives_pure] at hgives
  obtain ⟨_, _, hsubstitute, rfl, -⟩ := hgives
  exact ⟨List.Subset.trans hclaim (boundNames_subset_substitute hsubstitute), List.forall_mem_nil _⟩

theorem binds_assume (assumed : Term) :
    (Term.assume assumed).Owes env side (Term.Binds names) (Term.Binds names) := by
  intro claim before owed after hclaim hgives
  obtain ⟨rfl, -⟩ := gives_pure.mp hgives
  exact ⟨List.subset_append_of_subset_right _ hclaim, List.forall_mem_nil _⟩

theorem binds_assert (asserted : Term) :
    (Term.assert asserted).Owes env side (Term.Binds names) (Term.Binds names) := by
  intro claim before owed after hclaim hgives
  obtain ⟨rfl, -⟩ := gives_pure.mp hgives
  exact ⟨List.subset_append_of_subset_left _ hclaim, List.forall_mem_nil _⟩

/-- A conditional that may do nothing passes on what its postcondition binds. -/
theorem binds_ifElse_skip (condition thenBranch : Term) :
    (Term.ifElse condition thenBranch .skip).Owes env (fun _ => True) (Term.Binds names)
      (Term.Binds names) := by
  intro claim before owed after hclaim hgives
  simp only [Term.obligations, gives_bind, gives_pure] at hgives
  obtain ⟨_, _, -, _, _, ⟨rfl, -⟩, rfl, -⟩ := hgives
  refine ⟨?_, fun _ _ => trivial⟩
  exact List.subset_append_of_subset_right _ (List.subset_append_of_subset_right _ hclaim)

theorem binds_havocs (havocs : List (String × Int)) :
    OwesAll env side (havocs.map fun havoc => Term.havoc havoc.1 havoc.2) (Term.Binds names)
      (Term.Binds (havocs.map (fun havoc => havocName havoc.1 havoc.2) ++ names)) := by
  induction havocs with
  | nil => exact .nil
  | cons _ _ ih =>
    refine .cons ?_ ih
    intro claim before owed after hclaim hgives
    simp only [Term.orSkip, Term.obligations, gives_bind, gives_pure] at hgives
    obtain ⟨_, _, hsubstitute, _, _, -, rfl, -⟩ := hgives
    refine ⟨List.cons_subset_cons _ ?_, List.forall_mem_nil _⟩
    exact List.Subset.trans hclaim (boundNames_subset_substitute hsubstitute)

end Binds

/-! ## Cut programs -/

/-- The precondition of a cut program binds the variables of its havocs.  What comes
with it, its invariants and side conditions, may look them up, and nothing else that
the statement does not. -/
structure CutProgram.Closes (cut : CutProgram) (statement : Term) : Prop where
  invariants : ∀ allowed, statement.LooksUp allowed → ∀ invariant ∈ cut.invariants,
    invariant.LooksUp (Lookup.after cut.program.havocs allowed)
  owes : ∀ allowed env, statement.LooksUp allowed → cut.program.orSkip.Owes env
    (Term.LooksUp (Lookup.after cut.program.havocs allowed))
    (Term.LooksUp (Lookup.after cut.program.havocs allowed)) (Term.LooksUp allowed)
  binds : ∀ names env, cut.program.orSkip.Owes env (fun _ => True) (Term.Binds names)
    (Term.Binds (cut.program.havocNames ++ names))

section Cut

variable {invariant condition body statement first second : Term} {before after : CutState}
  {cut cutFirst cutSecond : CutProgram}

theorem CutProgram.Closes.seq (hfirst : cutFirst.Closes first) (hsecond : cutSecond.Closes second) :
    CutProgram.Closes ⟨cutFirst.program.andThen cutSecond.program,
      cutFirst.invariants ++ cutSecond.invariants⟩ (.seq first second) := by
  have hhavocs : (cutFirst.program.andThen cutSecond.program).havocs =
      cutFirst.program.havocs ++ cutSecond.program.havocs := havocs_andThen _ _
  refine ⟨fun allowed hallowed => ?_, fun allowed env hallowed => ?_, fun names env => ?_⟩
  · rw [hhavocs, Lookup.after_append]
    refine List.forall_mem_append.mpr ⟨fun claim hclaim => ?_, ?_⟩
    · exact (hfirst.invariants allowed hallowed.1 claim hclaim).after _
    · exact hsecond.invariants _ (hallowed.2.after _)
  · rw [hhavocs, Lookup.after_append]
    have hlater := hsecond.owes _ env (hallowed.2.after cutFirst.program.havocs)
    refine Term.Owes.seq ?_ hlater
    intro claim _ _ _ hclaim hgives
    obtain ⟨hpre, hsides⟩ := hfirst.owes allowed env hallowed.1 _ _ _ _ hclaim hgives
    exact ⟨hpre, fun condition hcondition => (hsides condition hcondition).after _⟩
  · have hnames : (cutFirst.program.andThen cutSecond.program).havocNames ++ names =
        cutFirst.program.havocNames ++ (cutSecond.program.havocNames ++ names) := by
      simp [havocNames, hhavocs]
    rw [hnames]
    exact (hfirst.binds _ env).seq (hsecond.binds names env)

theorem Term.isStep_of_copy (hcopied : Gives statement.copy log copied next) :
    copied.isStep = statement.isStep := by
  have houtline : ∀ other : Term, other.outline.isStep = other.isStep := by
    intro other
    cases other <;> rfl
  rw [← houtline, outline_of_copy hcopied, houtline]

theorem binds_of_isStep (hstep : statement.isStep = true) (names : List String)
    (env : Option TypeEnv) :
    statement.Owes env (fun _ => True) (Term.Binds names) (Term.Binds names) := by
  cases statement with
  | skip => exact owes_skip
  | assign => exact binds_assign _ _ _
  | assume => exact binds_assume _
  | assert => exact binds_assert _
  | _ => cases hstep

/-- There is nothing to cut in a step. -/
theorem closes_of_isStep (hstep : statement.isStep = true) :
    CutProgram.Closes ⟨statement, []⟩ statement := by
  have hhavocs : statement.havocs = [] := by
    cases statement with
    | skip | assign | assume | assert => rfl
    | _ => cases hstep
  have horSkip : statement.orSkip = statement := by
    cases statement with
    | missing => cases hstep
    | _ => rfl
  refine ⟨fun _ _ => nofun, fun allowed env hallowed => ?_, fun names env => ?_⟩
  · simp only [hhavocs, Lookup.after_nil, horSkip]
    exact hallowed.owes hhavocs
  · simp only [havocNames, hhavocs, horSkip]
    exact binds_of_isStep hstep names env

theorem CutProgram.Closes.of_looksUp (hcloses : cut.Closes other)
    (hlooks : ∀ allowed, statement.LooksUp allowed → other.LooksUp allowed) :
    cut.Closes statement :=
  ⟨fun allowed hallowed => hcloses.invariants allowed (hlooks allowed hallowed),
    fun allowed env hallowed => hcloses.owes allowed env (hlooks allowed hallowed),
    hcloses.binds⟩

/-- After havocs an assumption is an assumption. -/
theorem assume_of_afterHavocs {assumed : Term} {havocs : List (String × Int)}
    (hgives : Gives ((Term.assume assumed).afterHavocs havocs) log result next) :
    ∃ renamed, result = .assume renamed := by
  induction havocs generalizing assumed log with
  | nil =>
    obtain ⟨rfl, -⟩ := gives_pure.mp hgives
    exact ⟨assumed, rfl⟩
  | cons _ _ ih =>
    simp only [Term.afterHavocs, Term.renameAll, List.map_cons, List.foldlM_cons,
      Term.substitute, Term.substituteWith, gives_bind, gives_get, gives_pure] at hgives
    obtain ⟨_, _, ⟨_, _, -, _, _, -, rfl, -⟩, hrest⟩ := hgives
    exact ih hrest

/-- After havocs a conditional that may do nothing is one still. -/
theorem ifElse_of_afterHavocs {test thenBranch : Term} {havocs : List (String × Int)}
    (hgives : Gives ((Term.ifElse test thenBranch .skip).afterHavocs havocs) log result next) :
    ∃ newTest newBranch, result = .ifElse newTest newBranch .skip := by
  induction havocs generalizing test thenBranch log with
  | nil =>
    obtain ⟨rfl, -⟩ := gives_pure.mp hgives
    exact ⟨test, thenBranch, rfl⟩
  | cons _ _ ih =>
    simp only [Term.afterHavocs, Term.renameAll, List.map_cons, List.foldlM_cons,
      Term.substitute, Term.substituteWith, gives_bind, gives_get, gives_pure] at hgives
    obtain ⟨_, _, ⟨_, _, -, _, _, -, _, _, -, _, _, ⟨rfl, -⟩, rfl, -⟩, hrest⟩ := hgives
    exact ih hrest

/-- What the parts of a cut loop are made of. -/
structure CutsFrom (invariant condition body : Term) (havocs : List (String × Int))
    (entered assumption iteration havoced : Term) : Prop where
  entered : ∃ log next, Gives invariant.copy log entered next
  assumption : ∃ assumed start between log next, Gives invariant.copy start assumed between ∧
    Gives ((Term.assume assumed).afterHavocs havocs) log assumption next
  iteration : ∃ kept start between log next, Gives invariant.copy start kept between ∧
    Gives ((Term.branch condition (Term.andThen (Term.andThen body (.assert kept))
      (.assume (.bool false))) .skip).afterHavocs havocs) log iteration next
  havoced : ∃ copied start between log next, Gives invariant.copy start copied between ∧
    Gives (copied.afterHavocs havocs) log havoced next

theorem of_gives_cutLoop
    (hgives : Gives (cutLoop targets invariant condition body) before cut after) :
    ∃ entered assumption iteration havoced,
      CutsFrom invariant condition body (before.counts.number targets).1 entered assumption
        iteration havoced ∧
      cut = ⟨guarded entered
        (cutParts (before.counts.number targets).1 assumption iteration), [havoced]⟩ := by
  simp only [cutLoop_eq, gives_bind, gives_havocs, gives_cutting_logged, gives_pure] at hgives
  obtain ⟨havocs, _, ⟨rfl, rfl⟩, ⟨assumed, _, hassumed, kept, _, hkept, assumption, _,
    hassumption, iteration, _, hiteration, entered, _, hentered, copied, _, hcopied, havoced, _,
    hhavoced, rfl, -⟩, -⟩ := hgives
  refine ⟨entered, assumption, iteration, havoced, ⟨⟨_, _, hentered⟩,
    ⟨assumed, _, _, _, _, hassumed, hassumption⟩, ⟨kept, _, _, _, _, hkept, hiteration⟩,
    ⟨copied, _, _, _, _, hcopied, hhavoced⟩⟩, rfl⟩

/-- The parts of a cut loop look up what the loop does, and the variables of its
havocs. -/
theorem CutsFrom.looksUp {havocs : List (String × Int)} {allowed : Lookup → Prop}
    (hcuts : CutsFrom invariant condition body havocs entered assumption iteration havoced)
    (hloop : (Term.loop invariant condition body).LooksUp allowed) :
    entered.LooksUp allowed ∧ assumption.LooksUp (Lookup.after havocs allowed) ∧
      iteration.LooksUp (Lookup.after havocs allowed) ∧
      havoced.LooksUp (Lookup.after havocs allowed) := by
  obtain ⟨hinvariant, hcondition, hbody⟩ := hloop
  obtain ⟨_, _, hentered⟩ := hcuts.entered
  obtain ⟨assumed, _, _, _, _, hassumed, hassumption⟩ := hcuts.assumption
  obtain ⟨kept, _, _, _, _, hkept, hiteration⟩ := hcuts.iteration
  obtain ⟨_, _, _, _, _, hcopied, hhavoced⟩ := hcuts.havoced
  have hassumedLooks := (Term.looksUp_copy hinvariant hassumed).after havocs
  have hassume : (Term.assume assumed).LooksUp (Lookup.after havocs allowed) := hassumedLooks
  have hkeptLooks := Term.looksUp_copy hinvariant hkept
  have hassert : (Term.assert kept).LooksUp allowed := hkeptLooks
  have hfalse : (Term.assume (.bool false)).LooksUp allowed := trivial
  have hskip : Term.skip.LooksUp allowed := trivial
  have hround := Term.looksUp_branch hcondition
    (Term.looksUp_andThen (Term.looksUp_andThen hbody hassert) hfalse) hskip
  exact ⟨Term.looksUp_copy hinvariant hentered,
    Term.looksUp_afterHavocs hassume hassumption,
    Term.looksUp_afterHavocs (hround.after havocs) hiteration,
    Term.looksUp_afterHavocs ((Term.looksUp_copy hinvariant hcopied).after havocs) hhavoced⟩

theorem CutsFrom.havocs_eq_nil {havocs : List (String × Int)}
    (hcuts : CutsFrom invariant condition body havocs entered assumption iteration havoced)
    (hbody : body.havocs = []) : assumption.havocs = [] ∧ iteration.havocs = [] := by
  obtain ⟨_, _, _, _, _, -, hassumption⟩ := hcuts.assumption
  obtain ⟨_, _, _, _, _, -, hiteration⟩ := hcuts.iteration
  refine ⟨havocs_of_renameAll rfl hassumption, havocs_of_renameAll ?_ hiteration⟩
  simp [Term.branch, Term.havocs, havocs_orSkip, havocs_andThen, hbody]

theorem closes_cutLoop (hbody : body.havocs = [])
    (hgives : Gives (cutLoop targets invariant condition body) before cut after) :
    cut.Closes (.loop invariant condition body) := by
  have hnumber := congrArg Prod.fst (number_of_gives_cutLoop hbody hgives)
  obtain ⟨entered, assumption, iteration, _, hcuts, rfl⟩ := of_gives_cutLoop hgives
  generalize (before.counts.number targets).1 = havocs at hcuts hnumber ⊢
  have hhavocs : (guarded entered (cutParts havocs assumption iteration)).havocs = havocs :=
    hnumber.symm
  obtain ⟨hassumed, hiterated⟩ := hcuts.havocs_eq_nil hbody
  refine ⟨fun allowed hloop => ?_, fun allowed env hloop => ?_, fun names env => ?_⟩
  · simp only [hhavocs]
    exact List.forall_mem_singleton.mpr (hcuts.looksUp hloop).2.2.2
  · obtain ⟨hentered, hassumption, hiteration, -⟩ := hcuts.looksUp hloop
    simp only [hhavocs, orSkip_guarded]
    have hassert : (Term.assert entered).Owes env (Term.LooksUp (Lookup.after havocs allowed))
        (Term.LooksUp allowed) (Term.LooksUp allowed) := by
      intro claim _ _ _ hclaim hgives
      obtain ⟨rfl, -⟩ := gives_pure.mp hgives
      exact ⟨looksUp_implies hclaim hentered, List.forall_mem_nil _⟩
    have hround : ∀ {part : Term}, part.LooksUp (Lookup.after havocs allowed) →
        part.havocs = [] → part.orSkip.Owes env (Term.LooksUp (Lookup.after havocs allowed))
          (Term.LooksUp (Lookup.after havocs allowed))
          (Term.LooksUp (Lookup.after havocs allowed)) := by
      intro part hpart hnone
      exact (Term.looksUp_orSkip hpart).owes (by rw [havocs_orSkip, hnone])
    exact owes_guarded hassert ((owesAll_havocs havocs).append
      (.cons (hround hassumption hassumed) (.cons (hround hiteration hiterated) .nil)))
  · obtain ⟨_, _, _, _, _, -, hassumption⟩ := hcuts.assumption
    obtain ⟨_, _, _, _, _, -, hiteration⟩ := hcuts.iteration
    obtain ⟨renamed, rfl⟩ := assume_of_afterHavocs hassumption
    obtain ⟨newTest, newBranch, rfl⟩ := ifElse_of_afterHavocs hiteration
    simp only [havocNames, hhavocs, orSkip_guarded]
    exact owes_guarded (binds_assert entered) ((binds_havocs havocs).append
      (.cons (binds_assume renamed) (.cons (binds_ifElse_skip newTest newBranch) .nil)))

theorem closes_cutOneLoop (hbody : body.havocs = [])
    (hgives : Gives (cutOneLoop invariant condition body) before cut after) :
    cut.Closes (.loop invariant condition body) := by
  rw [cutOneLoop] at hgives
  cases hassigned : body.assigned with
  | error =>
    simp only [hassigned] at hgives
    exact absurd hgives not_gives_throw
  | ok =>
    simp only [hassigned] at hgives
    exact closes_cutLoop hbody hgives

/-- The loops of a program are cut so that the precondition binds all that the havocs
introduce. -/
theorem closes_of_cutsInto (hcuts : statement.CutsInto cut) (hhavocs : statement.havocs = []) :
    cut.Closes statement := by
  induction hcuts with
  | seq _ _ ihfirst ihsecond =>
    simp only [Term.havocs, List.append_eq_nil_iff] at hhavocs
    exact (ihfirst hhavocs.1).seq (ihsecond hhavocs.2)
  | loop hinvariant hcondition hbody hcut =>
    have hround := hbody.of_copy (motive := (·.havocs = [])) hhavocs (havocs_of_copy · hhavocs)
    refine (closes_cutOneLoop hround hcut).of_looksUp fun allowed hloop => ?_
    exact ⟨hinvariant.of_copy hloop.1 (Term.looksUp_copy hloop.1),
      hcondition.of_copy hloop.2.1 (Term.looksUp_copy hloop.2.1),
      hbody.of_copy hloop.2.2 (Term.looksUp_copy hloop.2.2)⟩
  | step hstep hcopied =>
    have hcopy := hcopied.of_copy (motive := (·.isStep = true)) hstep fun hgives =>
      (Term.isStep_of_copy hgives).trans hstep
    refine (closes_of_isStep hcopy).of_looksUp fun allowed hlooks => ?_
    exact hcopied.of_copy hlooks (Term.looksUp_copy hlooks)
  | havoc => simp [Term.havocs] at hhavocs

end Cut

end HoareCheck
