import HoareCheck.Proofs.BlankLogs
import HoareCheck.Proofs.LookupSafety

/-!
# Programs over integers, truth values and arrays

A claim has a sort if it is built over variables of known sorts, and a program is sorted
if its claims and the values that it assigns are.  Nothing that the computation of
conditions does to a sorted program can fail: its claims are copied, its loops cut and
its obligations computed, and the results have sorts again.  The exception is a
conditional at the top level, which the cut refuses.
-/

namespace HoareCheck

open Term

variable {term new : Term} {before after : CutState} {atRead : Site → Term → Logged Unit}
  {cut : CutProgram}

/-! ## Sorts -/

/-- A claim has a sort.  The variable of a havoc has the sort of the variable that the
havoc is of. -/
inductive Term.IsOfSort (sorts : Sorts) : Term → SolverSort → Prop
  | var {name : String} {sort : SolverSort} :
      sorts (baseName name) = some sort → IsOfSort sorts (.var name) sort
  | int {value : Int} : IsOfSort sorts (.literal (.int value)) .int
  | bool {value : Bool} : IsOfSort sorts (.literal (.bool value)) .bool
  | number {operator : Operator} {operand : Term} :
      operator = .minus ∨ operator = .abs → IsOfSort sorts operand .int →
      IsOfSort sorts (.unary operator operand) .int
  | not {operand : Term} :
      IsOfSort sorts operand .bool → IsOfSort sorts (.unary .not operand) .bool
  | binary {operator : Operator} {left right : Term} {inner outer : SolverSort} :
      operator.Takes inner outer → IsOfSort sorts left inner → IsOfSort sorts right inner →
      IsOfSort sorts (.binary left operator right) outer
  | equality {operator : Operator} {left right : Term} {inner : SolverSort} :
      operator = .eq ∨ operator = .neq → IsOfSort sorts left inner →
      IsOfSort sorts right inner → IsOfSort sorts (.binary left operator right) .bool
  | element {site : Site} {name : String} {index : Term} :
      '#' ∉ name.toList → sorts name = some .array → IsOfSort sorts index .int →
      IsOfSort sorts (.subscript site (.var name) index) .int
  | all {name : String} {type : Ty} {sort : SolverSort} {body : Term} {closed : Bool} :
      ¬ IsPlain name → type.solverSort? = some sort → sorts (baseName name) = some sort →
      IsOfSort sorts body .bool →
      IsOfSort sorts (.quantified .universal (.var name) (some type) .missing body closed) .bool

/-- The claims of a statement hold or fail, and a variable is assigned a value of its
sort. -/
inductive Term.IsSorted (sorts : Sorts) : Term → Prop
  | skip : IsSorted sorts .skip
  | assign {name : String} {value : Term} {sort : SolverSort} {charge : Bool} :
      sorts (baseName name) = some sort → value.IsOfSort sorts sort →
      IsSorted sorts (.assign (.var name) value charge)
  | ifElse {condition thenBranch elseBranch : Term} :
      condition.IsOfSort sorts .bool → IsSorted sorts thenBranch → IsSorted sorts elseBranch →
      IsSorted sorts (.ifElse condition thenBranch elseBranch)
  | seq {first second : Term} :
      IsSorted sorts first → IsSorted sorts second → IsSorted sorts (.seq first second)
  | assume {claim : Term} : claim.IsOfSort sorts .bool → IsSorted sorts (.assume claim)
  | assert {claim : Term} : claim.IsOfSort sorts .bool → IsSorted sorts (.assert claim)
  | loop {invariant condition body : Term} :
      invariant.IsOfSort sorts .bool → condition.IsOfSort sorts .bool → IsSorted sorts body →
      IsSorted sorts (.loop invariant condition body)

/-- A variable of the program, declared with the type of its sort. -/
def TypeEnv.Sorts (env : TypeEnv) (sorts : HoareCheck.Sorts) (name : String) : Prop :=
  IsPlain name ∧ ∃ type sort, env.find? name = some (.known type) ∧
    type.solverSort? = some sort ∧ sorts name = some sort

/-- The variable of a havoc is of the sort of the variable that the havoc is of. -/
theorem TypeEnv.Sorts.exists_sort {env : TypeEnv} {sorts : HoareCheck.Sorts} {name : String}
    (hname : env.Sorts sorts name) (count : Int) :
    ∃ sort, sorts (baseName name) = some sort ∧
      baseName (havocName name count) = baseName name := by
  obtain ⟨hplain, _, sort, -, -, hsort⟩ := hname
  rw [baseName_havocName hplain, baseName_eq_self hplain]
  exact ⟨sort, hsort, rfl⟩

theorem Term.IsOfSort.keepsTo {sorts : Sorts} {sort : SolverSort}
    (hterm : term.IsOfSort sorts sort) :
    term.KeepsTo .any := by
  induction hterm with
  | var | int | bool | element | all => trivial
  | number _ _ ih | not _ ih => exact ih
  | binary _ _ _ ihleft ihright | equality _ _ _ ihleft ihright =>
    exact ⟨trivial, ihleft, ihright⟩

theorem Term.IsSorted.keepsTo {sorts : Sorts} {statement : Term}
    (hstatement : statement.IsSorted sorts) : statement.KeepsTo .any := by
  induction hstatement with
  | skip => trivial
  | assign _ hvalue => exact ⟨⟨_, rfl, trivial⟩, hvalue.keepsTo⟩
  | ifElse hcondition _ _ ihthen ihelse => exact ⟨hcondition.keepsTo, ihthen, ihelse⟩
  | seq _ _ ihfirst ihsecond => exact ⟨ihfirst, ihsecond⟩
  | assume hclaim | assert hclaim => exact hclaim.keepsTo
  | loop hinvariant hcondition _ ihbody =>
    exact ⟨hinvariant.keepsTo, hcondition.keepsTo, ihbody⟩

/-! ## Computations that succeed -/

/-- From states of a kind, the computation gives a value of a kind, and leaves a state
like the one it started from. -/
def YieldsFrom {σ α : Type} (start : σ → Prop) (computation : ExceptT Fault (StateM σ) α)
    (kind : α → Prop) : Prop :=
  ∀ before, start before →
    ∃ value after, Gives computation before value after ∧ start after ∧ kind value

/-- The computation succeeds from a blank log, and records nothing. -/
abbrev Yields {α : Type} (computation : Logged α) (kind : α → Prop) : Prop :=
  YieldsFrom WriteLog.IsBlank computation kind

/-- The numbering succeeds from a blank log, and records nothing. -/
abbrev YieldsCut {α : Type} (computation : Cutting α) (kind : α → Prop) : Prop :=
  YieldsFrom (fun state => state.log.IsBlank) computation kind

section Yields

variable {σ α β : Type} {start : σ → Prop} {kind : α → Prop} {sorts : Sorts}

theorem yields_pure {value : α} (hvalue : kind value) : YieldsFrom start (pure value) kind :=
  fun before hstart => ⟨value, before, gives_pure.mpr ⟨rfl, rfl⟩, hstart, hvalue⟩

theorem YieldsFrom.bind {first : ExceptT Fault (StateM σ) α}
    {next : α → ExceptT Fault (StateM σ) β} {later : β → Prop}
    (hfirst : YieldsFrom start first kind)
    (hnext : ∀ value, kind value → YieldsFrom start (next value) later) :
    YieldsFrom start (first >>= next) later := by
  intro before hstart
  obtain ⟨middle, between, hmiddle, hbetween, hkind⟩ := hfirst before hstart
  obtain ⟨value, after, hvalue, hafter, hlater⟩ := hnext middle hkind between hbetween
  exact ⟨value, after, gives_bind.mpr ⟨middle, between, hmiddle, hvalue⟩, hafter, hlater⟩

/-- The values of a computation are of any kind that the computation can only give. -/
theorem YieldsFrom.and_of_gives {computation : ExceptT Fault (StateM σ) α} {other : α → Prop}
    (hyields : YieldsFrom start computation kind)
    (hother : ∀ before value after, Gives computation before value after → other value) :
    YieldsFrom start computation fun value => kind value ∧ other value := by
  intro before hstart
  obtain ⟨value, after, hgives, hafter, hkind⟩ := hyields before hstart
  exact ⟨value, after, hgives, hafter, hkind, hother _ _ _ hgives⟩

theorem YieldsFrom.mono {computation : ExceptT Fault (StateM σ) α} {larger : α → Prop}
    (hyields : YieldsFrom start computation kind)
    (hlarger : ∀ value, kind value → larger value) : YieldsFrom start computation larger := by
  intro before hstart
  obtain ⟨value, after, hgives, hafter, hkind⟩ := hyields before hstart
  exact ⟨value, after, hgives, hafter, hlarger value hkind⟩

theorem yieldsCut_logged {computation : Logged α} (hyields : Yields computation kind) :
    YieldsCut (Cutting.logged computation) kind := by
  intro before hblank
  obtain ⟨value, after, hgives, hafter, hkind⟩ := hyields before.log hblank
  exact ⟨value, { before with log := after }, gives_cutting_logged.mpr ⟨hgives, rfl⟩, hafter, hkind⟩

theorem yieldsCut_havocs (targets : List String) :
    YieldsCut (Cutting.havocs targets) fun havocs => havocs.map Prod.fst = targets :=
  fun before hblank => ⟨_, _, gives_havocs.mpr ⟨rfl, rfl⟩, hblank,
    HavocCounts.map_fst_number before.counts targets⟩

theorem yields_place {kind : Term → Prop} (hkind : ∀ log, kind (term.place log).1) :
    Yields (Logged.place term) kind := by
  intro before hblank
  have hgives : Gives (Logged.place term) before (term.place before).1 (term.place before).2 :=
    gives_place.mpr ⟨rfl, rfl⟩
  exact ⟨_, _, hgives, recordsNothing_place term _ _ _ hblank hgives, hkind before⟩

/-! ## Claims -/

namespace Term

variable {term statement : Term} {sort inner : SolverSort} {name : String}

theorem IsOfSort.place (hterm : term.IsOfSort sorts sort) (log : WriteLog) :
    (term.place log).1.IsOfSort sorts sort := by
  induction hterm generalizing log with
  | var hname => exact .var hname
  | int => exact .int
  | bool => exact .bool
  | number hoperator _ ih => exact .number hoperator (ih log)
  | not _ ih => exact .not (ih log)
  | binary htakes _ _ ihleft ihright => exact .binary htakes (ihleft log) (ihright _)
  | equality hoperator _ _ ihleft ihright => exact .equality hoperator (ihleft log) (ihright _)
  | element hcopy hname _ ih => exact .element hcopy hname (ih log)
  | all hbound htype hname _ ih => exact .all hbound htype hname (ih _)

theorem IsOfSort.yields_copy (hterm : term.IsOfSort sorts sort) :
    Yields term.copy (IsOfSort sorts · sort) := by
  induction hterm with
  | var hname => exact yields_pure (.var hname)
  | int => exact yields_pure .int
  | bool => exact yields_pure .bool
  | number hoperator _ ih => exact ih.bind fun _ hoperand => yields_pure (.number hoperator hoperand)
  | not _ ih => exact ih.bind fun _ hoperand => yields_pure (.not hoperand)
  | binary htakes _ _ ihleft ihright =>
    exact ihleft.bind fun _ hleft => ihright.bind fun _ hright =>
      yields_pure (.binary htakes hleft hright)
  | equality hoperator _ _ ihleft ihright =>
    exact ihleft.bind fun _ hleft => ihright.bind fun _ hright =>
      yields_pure (.equality hoperator hleft hright)
  | element hcopy hname _ ih =>
    exact ih.bind fun _ hindex => yields_place fun log =>
      (IsOfSort.element hcopy hname hindex).place log
  | all hbound htype hname _ ih =>
    exact ih.bind fun _ hbody => yields_pure (.all hbound htype hname hbody)

/-- Substitution for a variable, given that nothing happens at reads. -/
theorem IsOfSort.yields_substituteWith
    (hatRead : ∀ site array, Yields (atRead site array) fun _ => True)
    (hterm : term.IsOfSort sorts sort) (hname : sorts (baseName name) = some inner)
    (hnew : new.IsOfSort sorts inner) :
    Yields (substituteWith atRead (.var name) new term) (IsOfSort sorts · sort) := by
  induction hterm with
  | @var _ sort hother =>
    simp only [substituteWith]
    apply yields_pure
    split
    · next heq =>
        subst heq
        obtain rfl : inner = sort := Option.some.inj (hname.symm.trans hother)
        exact hnew
    · exact .var hother
  | int => exact yields_pure .int
  | bool => exact yields_pure .bool
  | number hoperator _ ih => exact ih.bind fun _ hoperand => yields_pure (.number hoperator hoperand)
  | not _ ih => exact ih.bind fun _ hoperand => yields_pure (.not hoperand)
  | binary htakes _ _ ihleft ihright =>
    exact ihleft.bind fun _ hleft => ihright.bind fun _ hright =>
      yields_pure (.binary htakes hleft hright)
  | equality hoperator _ _ ihleft ihright =>
    exact ihleft.bind fun _ hleft => ihright.bind fun _ hright =>
      yields_pure (.equality hoperator hleft hright)
  | element hcopy harray hindex =>
    exact (hatRead _ _).bind fun _ _ => yields_pure (.element hcopy harray hindex)
  | all hbound htype hother _ ih =>
    exact ih.bind fun _ hbody => yields_pure (.all hbound htype hother hbody)

theorem yields_substituteAt (old : String) (new : Term) (steps : Nat) (site : Site)
    (array : Term) : Yields (substituteAt (.var old) new (steps + 1) site array) fun _ => True :=
  fun before hblank =>
    ⟨(), before, gives_substituteAt_unwritten (hblank site) new steps array, hblank, trivial⟩

/-- A substitution succeeds if it does with any number of steps. -/
theorem yields_substitute {kind : Term → Prop}
    (hyields : ∀ steps, Yields (substituteWith (substituteAt (.var name) new (steps + 1))
      (.var name) new term) kind) : Yields (term.substitute (.var name) new) kind := by
  intro before hblank
  obtain ⟨value, after, hgives, hrest⟩ := hyields before.sites.size before hblank
  refine ⟨value, after, ?_, hrest⟩
  simp only [substitute, gives_bind, gives_get]
  exact ⟨before, before, ⟨rfl, rfl⟩, hgives⟩

theorem IsOfSort.yields_substitute {new : Term} (hterm : term.IsOfSort sorts sort)
    (hname : sorts (baseName name) = some inner) (hnew : new.IsOfSort sorts inner) :
    Yields (term.substitute (.var name) new) (IsOfSort sorts · sort) :=
  Term.yields_substitute fun steps =>
    hterm.yields_substituteWith (yields_substituteAt name new steps) hname hnew

/-! ## Statements -/

theorem IsSorted.orSkip (hstatement : statement.IsSorted sorts) :
    statement.orSkip.IsSorted sorts := by
  cases hstatement with
  | skip => exact .skip
  | assign hname hvalue => exact .assign hname hvalue
  | ifElse hcondition hthen helse => exact .ifElse hcondition hthen helse
  | seq hfirst hsecond => exact .seq hfirst hsecond
  | assume hclaim => exact .assume hclaim
  | assert hclaim => exact .assert hclaim
  | loop hinvariant hcondition hbody => exact .loop hinvariant hcondition hbody

theorem IsSorted.yields_copy (hstatement : statement.IsSorted sorts) :
    Yields statement.copy (IsSorted sorts) := by
  induction hstatement with
  | skip => exact yields_pure .skip
  | assign hname hvalue =>
    exact hvalue.yields_copy.bind fun _ hcopied => yields_pure (.assign hname hcopied)
  | ifElse hcondition _ _ ihthen ihelse =>
    exact hcondition.yields_copy.bind fun _ htest => ihthen.bind fun _ hthen =>
      ihelse.bind fun _ helse => yields_pure (.ifElse htest hthen helse)
  | seq _ _ ihfirst ihsecond =>
    exact ihfirst.bind fun _ hfirst => ihsecond.bind fun _ hsecond =>
      yields_pure (.seq hfirst hsecond)
  | assume hclaim => exact hclaim.yields_copy.bind fun _ hcopied => yields_pure (.assume hcopied)
  | assert hclaim => exact hclaim.yields_copy.bind fun _ hcopied => yields_pure (.assert hcopied)
  | loop hinvariant hcondition _ ihbody =>
    exact hinvariant.yields_copy.bind fun _ hkept => hcondition.yields_copy.bind fun _ htest =>
      ihbody.bind fun _ hbody => yields_pure (.loop hkept htest hbody)

/-- What a renaming gives for a statement: nothing for one that does nothing. -/
structure IsRenamed (sorts : Sorts) (statement result : Term) : Prop where
  sorted : result.orSkip.IsSorted sorts
  kept : statement ≠ .skip → result ≠ .missing
  moved : result ≠ .skip

theorem IsSorted.yields_renameWith
    (hatRead : ∀ site array, Yields (atRead site array) fun _ => True) {new : String}
    (hstatement : statement.IsSorted sorts) (hname : sorts (baseName name) = some inner)
    (hnew : baseName new = baseName name) :
    Yields (substituteWith atRead (.var name) (.var new) statement)
      (IsRenamed sorts statement) := by
  have hvar : (Term.var new).IsOfSort sorts inner := .var (hnew ▸ hname)
  have hrenames {claim : Term} {sort : SolverSort} (hclaim : claim.IsOfSort sorts sort) :=
    hclaim.yields_substituteWith hatRead hname hvar
  induction hstatement with
  | skip =>
    exact yields_pure ⟨.skip, fun hskip => absurd rfl hskip, by simp⟩
  | @assign _ _ _ _ htarget hvalue =>
    simp only [substituteWith, pure_bind]
    refine (hrenames hvalue).bind fun renamed hrenamed => yields_pure ?_
    split
    · next heq =>
        subst heq
        exact ⟨.assign (hnew ▸ htarget) hrenamed, by simp, by simp⟩
    · exact ⟨.assign htarget hrenamed, by simp, by simp⟩
  | ifElse hcondition _ _ ihthen ihelse =>
    exact (hrenames hcondition).bind fun _ htest => ihthen.bind fun _ hthen =>
      ihelse.bind fun _ helse => yields_pure
        ⟨.ifElse htest hthen.sorted helse.sorted, by simp [branch], by simp [branch]⟩
  | seq _ _ ihfirst ihsecond =>
    exact ihfirst.bind fun _ hfirst => ihsecond.bind fun _ hsecond => yields_pure
      ⟨.seq hfirst.sorted hsecond.sorted, by simp [andThen], by simp [andThen]⟩
  | assume hclaim =>
    exact (hrenames hclaim).bind fun _ hrenamed => yields_pure ⟨.assume hrenamed, by simp, by simp⟩
  | assert hclaim =>
    exact (hrenames hclaim).bind fun _ hrenamed => yields_pure ⟨.assert hrenamed, by simp, by simp⟩
  | loop hinvariant hcondition _ ihbody =>
    exact (hrenames hinvariant).bind fun _ hkept => (hrenames hcondition).bind fun _ htest =>
      ihbody.bind fun _ hbody => yields_pure
        ⟨.loop hkept htest hbody.sorted, by simp [repeatWhile], by simp [repeatWhile]⟩

variable {env : TypeEnv} {havocs : List (String × Int)}

/-- A statement other than `skip` stays one when it is made to speak of the variables of
havocs. -/
theorem IsSorted.yields_afterHavocs (hhavocs : ∀ havoc ∈ havocs, env.Sorts sorts havoc.1)
    (hstatement : statement.IsSorted sorts) (hskip : statement ≠ .skip) :
    Yields (statement.afterHavocs havocs) (IsSorted sorts) := by
  induction havocs generalizing statement with
  | nil => exact yields_pure hstatement
  | cons havoc _ ih =>
    rw [List.forall_mem_cons] at hhavocs
    obtain ⟨_, hname, hbase⟩ := hhavocs.1.exists_sort havoc.2
    have hfirst : Yields (statement.substitute (.var havoc.1)
        (.var (havocName havoc.1 havoc.2))) (IsRenamed sorts statement) :=
      yields_substitute fun steps =>
        hstatement.yields_renameWith (yields_substituteAt _ _ steps) hname hbase
    refine hfirst.bind fun renamed hrenamed => ih hhavocs.2 ?_ hrenamed.moved
    exact orSkip_eq_self (hrenamed.kept hskip) ▸ hrenamed.sorted

theorem IsOfSort.yields_afterHavocs (hhavocs : ∀ havoc ∈ havocs, env.Sorts sorts havoc.1)
    (hterm : term.IsOfSort sorts sort) :
    Yields (term.afterHavocs havocs) (IsOfSort sorts · sort) := by
  induction havocs generalizing term with
  | nil => exact yields_pure hterm
  | cons havoc _ ih =>
    rw [List.forall_mem_cons] at hhavocs
    obtain ⟨_, hname, hbase⟩ := hhavocs.1.exists_sort havoc.2
    exact (hterm.yields_substitute hname (.var (hbase ▸ hname))).bind fun _ hrenamed =>
      ih hhavocs.2 hrenamed

/-! ## Obligations -/

/-- For a claim as postcondition, the obligations of a statement are claims. -/
def Discharges (env : TypeEnv) (sorts : Sorts) (statement : Term) : Prop :=
  ∀ post : Term, post.IsOfSort sorts .bool →
    Yields (statement.obligations (some env) post) fun owed =>
      owed.precondition.IsOfSort sorts .bool ∧
        ∀ condition ∈ owed.sideConditions, condition.IsOfSort sorts .bool

theorem IsOfSort.implies {premise conclusion : Term} (hpremise : premise.IsOfSort sorts .bool)
    (hconclusion : conclusion.IsOfSort sorts .bool) :
    (Term.binary premise .implies conclusion).IsOfSort sorts .bool :=
  .binary (.connective (by simp)) hpremise hconclusion

theorem IsOfSort.and {left right : Term} (hleft : left.IsOfSort sorts .bool)
    (hright : right.IsOfSort sorts .bool) : (Term.binary left .and right).IsOfSort sorts .bool :=
  .binary (.connective (by simp)) hleft hright

theorem IsOfSort.invariantOrTrue_eq (hterm : term.IsOfSort sorts sort) :
    term.invariantOrTrue = term := by
  cases hterm <;> rfl

theorem Discharges.seq {first second : Term} (hfirst : first.Discharges env sorts)
    (hsecond : second.Discharges env sorts) : (Term.seq first second).Discharges env sorts := by
  intro post hpost
  refine (hsecond post hpost).bind fun later hlater => ?_
  refine (hfirst _ hlater.1).bind fun earlier hearlier => yields_pure ?_
  exact ⟨hearlier.1, List.forall_mem_append.mpr ⟨hearlier.2, hlater.2⟩⟩

theorem IsSorted.discharges (hstatement : statement.IsSorted sorts) :
    statement.Discharges env sorts := by
  induction hstatement with
  | skip => exact fun post hpost => yields_pure ⟨hpost, List.forall_mem_nil _⟩
  | assign hname hvalue =>
    intro post hpost
    exact (hpost.yields_substitute hname hvalue).bind fun _ hreplaced =>
      yields_pure ⟨hreplaced, List.forall_mem_nil _⟩
  | ifElse hcondition _ _ ihthen ihelse =>
    intro post hpost
    refine (ihthen post hpost).bind fun whenTrue htrue => ?_
    refine (ihelse post hpost).bind fun whenFalse hfalse => yields_pure ?_
    exact ⟨(hcondition.implies htrue.1).and (hcondition.not.implies hfalse.1),
      List.forall_mem_append.mpr ⟨htrue.2, hfalse.2⟩⟩
  | seq _ _ ihfirst ihsecond => exact ihfirst.seq ihsecond
  | assume hclaim =>
    exact fun post hpost => yields_pure ⟨hclaim.implies hpost, List.forall_mem_nil _⟩
  | assert hclaim =>
    exact fun post hpost => yields_pure ⟨hpost.implies hclaim, List.forall_mem_nil _⟩
  | loop hinvariant hcondition _ ihbody =>
    intro post hpost
    rw [Term.obligations, hinvariant.invariantOrTrue_eq]
    refine (ihbody _ hinvariant).bind fun kept hkept => yields_pure ⟨hinvariant, ?_⟩
    have hpreserved := (hinvariant.and hcondition).implies hkept.1
    have hestablished := (hinvariant.and hcondition.not).implies hpost
    exact List.forall_mem_append.mpr ⟨hkept.2,
      List.forall_mem_cons.mpr ⟨hpreserved, List.forall_mem_singleton.mpr hestablished⟩⟩

theorem discharges_havoc (hname : env.Sorts sorts name) (count : Int) :
    (Term.havoc name count).Discharges env sorts := by
  intro post hpost
  obtain ⟨sort, hsort, hbase⟩ := hname.exists_sort count
  obtain ⟨hplain, type, other, hfind, htype, hother⟩ := hname
  obtain rfl : sort = other := by
    rw [baseName_eq_self hplain, hother] at hsort
    exact (Option.some.inj hsort).symm
  refine (hpost.yields_substitute hsort (.var (hbase ▸ hsort))).bind fun body hbody => ?_
  have hentry : Yields (havocType (some env) name) (· = .known type) := by
    simp only [havocType, hfind]
    exact yields_pure rfl
  refine hentry.bind fun entry hknown => ?_
  subst hknown
  exact yields_pure ⟨.all (not_isPlain_havocName _ _) htype (hbase ▸ hsort) hbody,
    List.forall_mem_nil _⟩

theorem discharges_foldl {head : Term} {rest : List Term}
    (hhead : head.orSkip.Discharges env sorts)
    (hrest : ∀ part ∈ rest, part.orSkip.Discharges env sorts) :
    (rest.foldl andThen head).orSkip.Discharges env sorts := by
  induction rest generalizing head with
  | nil => exact hhead
  | cons _ _ ih =>
    rw [List.forall_mem_cons] at hrest
    exact ih (hhead.seq hrest.1) hrest.2

/-- A cut loop, from its parts. -/
theorem discharges_guarded {entered : Term} {parts : List Term}
    (hentered : entered.IsOfSort sorts .bool)
    (hparts : ∀ part ∈ parts, part.orSkip.Discharges env sorts) :
    (guarded entered parts).Discharges env sorts := by
  have hassert : (Term.assert entered).Discharges env sorts := (IsSorted.assert hentered).discharges
  cases parts with
  | nil => exact hassert
  | cons =>
    rw [List.forall_mem_cons] at hparts
    rw [guarded, foldl_extend]
    exact hassert.seq (discharges_foldl hparts.1 hparts.2)

end Term

/-! ## Cut programs -/

/-- The cut program is a statement with claims for obligations, and its invariants are
claims. -/
structure CutProgram.IsSorted (env : TypeEnv) (sorts : Sorts) (cut : CutProgram) : Prop where
  isStatement : cut.program.isStatement = true
  discharges : cut.program.Discharges env sorts
  invariants : ∀ invariant ∈ cut.invariants, invariant.IsOfSort sorts .bool

section Cut

variable {env : TypeEnv} {invariant condition body statement : Term}

theorem Term.isStatement_guarded (entered : Term) (parts : List Term) :
    (guarded entered parts).isStatement = true := by
  cases parts with
  | nil => rfl
  | cons =>
    rw [guarded, foldl_extend]
    rfl

theorem yieldsCut_cutLoop {targets : List String} (hinvariant : invariant.IsOfSort sorts .bool)
    (hcondition : condition.IsOfSort sorts .bool) (hbody : body.IsSorted sorts)
    (htargets : ∀ name ∈ targets, env.Sorts sorts name) :
    YieldsCut (cutLoop targets invariant condition body) fun cut =>
      cut.IsSorted env sorts ∧ cut.invariants ≠ [] := by
  refine (yieldsCut_havocs targets).bind fun havocs hnames => yieldsCut_logged ?_
  have hhavocs : ∀ havoc ∈ havocs, env.Sorts sorts havoc.1 := fun havoc hhavoc =>
    htargets _ (hnames ▸ List.mem_map_of_mem hhavoc)
  refine hinvariant.yields_copy.bind fun assumed hassumed => ?_
  refine hinvariant.yields_copy.bind fun kept hkept => ?_
  have hround : (Term.branch condition (Term.andThen (Term.andThen body (.assert kept))
      (.assume (.bool false))) .skip).IsSorted sorts :=
    .ifElse hcondition (.seq (.seq hbody.orSkip (.assert hkept)) (.assume .bool)) .skip
  refine ((Term.IsSorted.assume hassumed).yields_afterHavocs hhavocs (by simp)).bind
    fun assumption hassumption => ?_
  refine (hround.yields_afterHavocs hhavocs (by simp [Term.branch])).bind
    fun iteration hiteration => ?_
  refine hinvariant.yields_copy.bind fun entered hentered => ?_
  refine hinvariant.yields_copy.bind fun copied hcopied => ?_
  refine (hcopied.yields_afterHavocs hhavocs).bind fun havoced hhavoced => ?_
  have hparts : ∀ part ∈ cutParts havocs assumption iteration,
      part.orSkip.Discharges env sorts := by
    rw [cutParts, List.forall_mem_append, List.forall_mem_map, List.forall_mem_cons,
      List.forall_mem_singleton]
    exact ⟨fun havoc hhavoc => Term.discharges_havoc (hhavocs havoc hhavoc) _,
      hassumption.orSkip.discharges, hiteration.orSkip.discharges⟩
  have hcut : CutProgram.IsSorted env sorts
      ⟨guarded entered (cutParts havocs assumption iteration), [havoced]⟩ :=
    ⟨isStatement_guarded _ _, Term.discharges_guarded hentered hparts,
      List.forall_mem_singleton.mpr hhavoced⟩
  exact yields_pure ⟨hcut, by simp⟩

/-- A program all of whose variables are declared with the types of their sorts. -/
def Term.AssignsSorted (env : TypeEnv) (sorts : Sorts) (statement : Term) : Prop :=
  ∃ names, statement.assigned = .ok names ∧ ∀ name ∈ names, env.Sorts sorts name

theorem Term.AssignsSorted.of_seq {first second : Term}
    (hassigned : (Term.seq first second).AssignsSorted env sorts) :
    first.AssignsSorted env sorts ∧ second.AssignsSorted env sorts := by
  obtain ⟨_, hnames, hdeclared⟩ := hassigned
  obtain ⟨left, right, hleft, hright, rfl⟩ := append_eq_ok hnames
  rw [List.forall_mem_append] at hdeclared
  exact ⟨⟨left, hleft, hdeclared.1⟩, ⟨right, hright, hdeclared.2⟩⟩

theorem yieldsCut_cutOneLoop (hinvariant : invariant.IsOfSort sorts .bool)
    (hcondition : condition.IsOfSort sorts .bool) (hbody : body.IsSorted sorts)
    (hassigned : body.AssignsSorted env sorts) :
    YieldsCut (cutOneLoop invariant condition body) fun cut =>
      cut.IsSorted env sorts ∧ cut.invariants ≠ [] := by
  obtain ⟨_, htargets, hdeclared⟩ := hassigned
  simp only [cutOneLoop, htargets]
  exact yieldsCut_cutLoop hinvariant hcondition hbody fun name hname =>
    hdeclared name (mem_ascending.mp hname)

/-- The statements at the top level of a program. -/
def Term.topLevel : Term → List Term
  | .seq first second => first.topLevel ++ second.topLevel
  | statement => [statement]

def Term.isConditional : Term → Bool
  | .ifElse .. => true
  | _ => false

def Term.isLoop : Term → Bool
  | .loop .. => true
  | _ => false

/-- What cutting the loops of a sorted program gives: an invariant at least if there is a
loop. -/
def CutProgram.Cuts (env : TypeEnv) (sorts : Sorts) (statement : Term) (cut : CutProgram) : Prop :=
  cut.IsSorted env sorts ∧
    ((∃ part ∈ statement.topLevel, part.isLoop = true) → cut.invariants ≠ [])

theorem CutProgram.Cuts.seq {first second : Term} {cutFirst cutSecond : CutProgram}
    (hfirst : cutFirst.Cuts env sorts first) (hsecond : cutSecond.Cuts env sorts second) :
    CutProgram.Cuts env sorts (.seq first second)
      ⟨cutFirst.program.andThen cutSecond.program,
        cutFirst.invariants ++ cutSecond.invariants⟩ := by
  have hparts {cut : CutProgram} (hcut : cut.IsSorted env sorts) :
      cut.program.orSkip.Discharges env sorts := by
    have hpresent : cut.program ≠ .missing := by
      intro hmissing
      have hstatement := hcut.isStatement
      rw [hmissing] at hstatement
      cases hstatement
    exact (Term.orSkip_eq_self hpresent).symm ▸ hcut.discharges
  refine ⟨⟨rfl, (hparts hfirst.1).seq (hparts hsecond.1), ?_⟩, ?_⟩
  · exact List.forall_mem_append.mpr ⟨hfirst.1.invariants, hsecond.1.invariants⟩
  · rintro ⟨part, hpart, hloop⟩ hnone
    obtain ⟨hleft, hright⟩ := List.append_eq_nil_iff.mp hnone
    rcases List.mem_append.mp hpart with hpart | hpart
    · exact hfirst.2 ⟨part, hpart, hloop⟩ hleft
    · exact hsecond.2 ⟨part, hpart, hloop⟩ hright

theorem Term.IsSorted.isStatement (hstatement : statement.IsSorted sorts) :
    statement.isStatement = true := by
  cases hstatement <;> rfl

/-- There is nothing to cut in a statement without parts. -/
theorem cuts_of_isStep {copied : Term} (hstep : statement.isStep = true)
    (hcopied : copied.IsSorted sorts) : CutProgram.Cuts env sorts statement ⟨copied, []⟩ := by
  refine ⟨⟨hcopied.isStatement, hcopied.discharges, List.forall_mem_nil _⟩, ?_⟩
  rintro ⟨_, hpart, hloop⟩
  cases statement with
  | skip | assign | assume | assert =>
    obtain rfl := List.mem_singleton.mp hpart
    cases hloop
  | _ => cases hstep

theorem yieldsCut_cutCopy_of_isStep (hstep : statement.isStep = true)
    (hstatement : statement.IsSorted sorts) :
    YieldsCut statement.cutCopy (CutProgram.Cuts env sorts statement) := by
  have hcopy := yieldsCut_logged hstatement.yields_copy
  cases statement with
  | skip | assign | assume | assert =>
    exact hcopy.bind fun _ hcopied => yields_pure (cuts_of_isStep hstep hcopied)
  | _ => cases hstep

theorem yieldsCut_cutCopy (hstatement : statement.IsSorted sorts)
    (hassigned : statement.AssignsSorted env sorts)
    (hstraight : ∀ part ∈ statement.topLevel, part.isConditional = false) :
    YieldsCut statement.cutCopy (CutProgram.Cuts env sorts statement) := by
  induction hstatement with
  | seq _ _ ihfirst ihsecond =>
    obtain ⟨hfirst, hsecond⟩ := hassigned.of_seq
    rw [topLevel, List.forall_mem_append] at hstraight
    exact (ihfirst hfirst hstraight.1).bind fun _ hcutFirst =>
      (ihsecond hsecond hstraight.2).bind fun _ hcutSecond =>
        yields_pure (hcutFirst.seq hcutSecond)
  | loop hinvariant hcondition hbody =>
    obtain ⟨targets, htargets, hdeclared⟩ := hassigned
    refine (yieldsCut_logged hinvariant.yields_copy).bind fun _ hkept => ?_
    refine (yieldsCut_logged hcondition.yields_copy).bind fun _ htest => ?_
    have hcopy := hbody.yields_copy.and_of_gives fun _ _ _ => assigned_of_copy
    refine (yieldsCut_logged hcopy).bind fun copied hcopied => ?_
    have hnames : copied.AssignsSorted env sorts := ⟨targets, hcopied.2.trans htargets, hdeclared⟩
    exact (yieldsCut_cutOneLoop hkept htest hcopied.1 hnames).mono fun _ hcut =>
      ⟨hcut.1, fun _ => hcut.2⟩
  | ifElse => cases hstraight _ (List.mem_singleton_self _)
  | skip => exact yieldsCut_cutCopy_of_isStep rfl .skip
  | assign hname hvalue => exact yieldsCut_cutCopy_of_isStep rfl (.assign hname hvalue)
  | assume hclaim => exact yieldsCut_cutCopy_of_isStep rfl (.assume hclaim)
  | assert hclaim => exact yieldsCut_cutCopy_of_isStep rfl (.assert hclaim)

/-- The loops of a sorted program can be cut if it has no conditional at the top level. -/
theorem yieldsCut_cutLoops (hstatement : statement.IsSorted sorts)
    (hassigned : statement.AssignsSorted env sorts)
    (hstraight : ∀ part ∈ statement.topLevel, part.isConditional = false) :
    YieldsCut statement.cutLoops (CutProgram.Cuts env sorts statement) := by
  cases hstatement with
  | seq hfirst hsecond =>
    obtain ⟨hfirstAssigned, hsecondAssigned⟩ := hassigned.of_seq
    rw [topLevel, List.forall_mem_append] at hstraight
    refine (yieldsCut_logged hfirst.yields_copy).bind fun _ _ => ?_
    refine (yieldsCut_cutCopy hfirst hfirstAssigned hstraight.1).bind fun _ hcutFirst => ?_
    refine (yieldsCut_logged hsecond.yields_copy).bind fun _ _ => ?_
    refine (yieldsCut_cutCopy hsecond hsecondAssigned hstraight.2).bind fun _ hcutSecond => ?_
    exact yields_pure (hcutFirst.seq hcutSecond)
  | loop hinvariant hcondition hbody =>
    obtain ⟨targets, htargets, hdeclared⟩ := hassigned
    exact (yieldsCut_cutOneLoop hinvariant hcondition hbody ⟨targets, htargets, hdeclared⟩).mono
      fun _ hcut => ⟨hcut.1, fun _ => hcut.2⟩
  | ifElse => cases hstraight _ (List.mem_singleton_self _)
  | skip => exact yields_pure (cuts_of_isStep rfl .skip)
  | assign hname hvalue => exact yields_pure (cuts_of_isStep rfl (.assign hname hvalue))
  | assume hclaim => exact yields_pure (cuts_of_isStep rfl (.assume hclaim))
  | assert hclaim => exact yields_pure (cuts_of_isStep rfl (.assert hclaim))

/-! ## Programs that cannot be cut -/

/-- Of a program whose loops are cut, no conditional is at the top level, and every
invariant is that of a loop there. -/
def CutProgram.IsOfTopLevel (statement : Term) (cut : CutProgram) : Prop :=
  (∀ part ∈ statement.topLevel, part.isConditional = false) ∧
    (cut.invariants ≠ [] → ∃ part ∈ statement.topLevel, part.isLoop = true)

theorem CutProgram.IsOfTopLevel.seq {first second : Term} {cutFirst cutSecond : CutProgram}
    (hfirst : cutFirst.IsOfTopLevel first) (hsecond : cutSecond.IsOfTopLevel second) :
    CutProgram.IsOfTopLevel (.seq first second)
      ⟨cutFirst.program.andThen cutSecond.program,
        cutFirst.invariants ++ cutSecond.invariants⟩ := by
  refine ⟨List.forall_mem_append.mpr ⟨hfirst.1, hsecond.1⟩, fun hsome => ?_⟩
  rw [Ne, List.append_eq_nil_iff, not_and_or] at hsome
  rcases hsome with hsome | hsome
  · obtain ⟨part, hpart, hloop⟩ := hfirst.2 hsome
    exact ⟨part, List.mem_append_left _ hpart, hloop⟩
  · obtain ⟨part, hpart, hloop⟩ := hsecond.2 hsome
    exact ⟨part, List.mem_append_right _ hpart, hloop⟩

/-- A conditional at the top level is refused. -/
theorem isOfTopLevel_of_cutsInto (hcuts : statement.CutsInto cut) : cut.IsOfTopLevel statement := by
  induction hcuts with
  | seq _ _ hfirst hsecond => exact hfirst.seq hsecond
  | loop =>
    exact ⟨List.forall_mem_singleton.mpr rfl, fun _ => ⟨_, List.mem_singleton_self _, rfl⟩⟩
  | havoc => exact ⟨List.forall_mem_singleton.mpr rfl, fun hsome => absurd rfl hsome⟩
  | @step statement _ hstep =>
    refine ⟨?_, fun hsome => absurd rfl hsome⟩
    cases statement with
    | skip | assign | assume | assert => exact List.forall_mem_singleton.mpr rfl
    | _ => cases hstep

end Cut

end Yields

end HoareCheck
