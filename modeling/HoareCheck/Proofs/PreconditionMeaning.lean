import HoareCheck.Proofs.MarkedNames
import HoareCheck.Proofs.Instantiation

/-!
# Meaning of the computed precondition

The precondition of a program is a claim; here is the set of stores that the
claim describes, read off the program (`Term.Pre`), and likewise what the side
conditions say together (`Term.Side`).  `obligations_describe` ties the two
readings to the computed claims.  Quantifiers of the claims and the variables
that havocs introduce must not meet the variables of the program
(`Term.Unmixed`), since substitution renames no binder.
-/

namespace HoareCheck

variable {program post invariant condition : Term} {before after : WriteLog} {name : String}
  {computed : Obligations} {count : Int} {entry : TypeEntry}

/-! ## What the obligations say -/

/-- A havoc gives a variable any value of its declared type. -/
def declaredHavoc (interp : Interpretation) (env : Option TypeEnv) : HavocRule :=
  fun name _ before after =>
    ∃ entry value, env.bind (·.find? name) = some entry ∧
      value ∈ interp.domain entry ∧ after = Function.update before name value

namespace Term

/-- The stores in which the precondition of a statement is true, for a set of
stores as postcondition. -/
def Pre (interp : Interpretation) (havoc : HavocRule) : Term → (Store → Prop) → Store → Prop
  | .skip, post => post
  | .assign (.var name) value _, post => fun store =>
    post (Function.update store name (value.eval interp store))
  | .seq first second, post => first.Pre interp havoc (second.Pre interp havoc post)
  | .ifElse condition thenBranch elseBranch, post => fun store =>
    (condition.Holds interp store → thenBranch.Pre interp havoc post store) ∧
      (¬ condition.Holds interp store → elseBranch.Pre interp havoc post store)
  | .loop invariant _ _, _ => invariant.invariantOrTrue.Holds interp
  | .havoc name count, post => fun store =>
    ∀ after, havoc name count store after → post after
  | .assume claim, post => fun store => claim.Holds interp store → post store
  | .assert claim, post => fun store => post store → claim.Holds interp store
  | _, _ => fun _ => False

/-- What the side conditions of a statement say, in the stores of a set: the
invariant of every loop is kept by its body and gives the postcondition of the
loop on exit. -/
def Side (interp : Interpretation) (havoc : HavocRule) (within : Store → Prop) :
    Term → (Store → Prop) → Prop
  | .seq first second, post =>
    first.Side interp havoc within (second.Pre interp havoc post) ∧
      second.Side interp havoc within post
  | .ifElse _ thenBranch elseBranch, post =>
    thenBranch.Side interp havoc within post ∧ elseBranch.Side interp havoc within post
  | .loop invariant condition body, post =>
    body.Side interp havoc within (invariant.invariantOrTrue.Holds interp) ∧
      ∀ store, within store → invariant.invariantOrTrue.Holds interp store →
        (condition.Holds interp store →
          body.Pre interp havoc (invariant.invariantOrTrue.Holds interp) store) ∧
        (¬ condition.Holds interp store → post store)
  | _, _ => True

/-- The variables that the havocs of a statement introduce. -/
def havocNames (statement : Term) : List String :=
  statement.havocs.map fun havoc => havocName havoc.1 havoc.2

/-- Bound variables, and those that havocs introduce, are apart from the
variables of a program and of its postcondition, and no havoc occurs twice. -/
structure Apart (program post : Term) : Prop where
  bound : ∀ name ∈ program.boundNames ++ post.boundNames,
    name ∉ program.freeNames ++ post.freeNames ++ program.havocNames
  havoc : ∀ name ∈ program.havocNames, name ∉ program.freeNames ++ post.freeNames
  distinct : program.havocs.Nodup

/-- What substitution needs of the names: no quantifier binds a variable of the
program or one that its havocs introduce, and the latter are new.  A variable
that the postcondition alone speaks of may be bound. -/
structure Unmixed (program post : Term) : Prop where
  bound : ∀ name ∈ program.boundNames ++ post.boundNames,
    name ∉ program.freeNames ++ program.havocNames
  havoc : ∀ name ∈ program.havocNames, name ∉ program.freeNames ++ post.freeNames
  distinct : program.havocs.Nodup

theorem Apart.unmixed (hapart : Apart program post) :
    Unmixed program post where
  bound name hname hmem := by
    apply hapart.bound name hname
    simp only [List.mem_append] at hmem ⊢
    exact hmem.imp_left Or.inl
  havoc := hapart.havoc
  distinct := hapart.distinct

instance {program post : Term} : Coe (Apart program post) (Unmixed program post) :=
  ⟨Apart.unmixed⟩

end Term

namespace Term

theorem mem_havocNames {statement : Term} : name ∈ statement.havocNames ↔
      ∃ havoc ∈ statement.havocs, havocName havoc.1 havoc.2 = name := by
  simp [havocNames]

@[simp]
theorem freeNames_invariantOrTrue (invariant : Term) :
    invariant.invariantOrTrue.freeNames = invariant.freeNames := by
  cases invariant <;> rfl

@[simp]
theorem boundNames_invariantOrTrue (invariant : Term) :
    invariant.invariantOrTrue.boundNames = invariant.boundNames := by
  cases invariant <;> rfl

theorem isClaim_invariantOrTrue {body : Term}
    (hprogram : (Term.loop invariant condition body).isProgram = true) :
    invariant.invariantOrTrue.isClaim = true := by
  simp only [isProgram, Bool.and_eq_true, Bool.or_eq_true] at hprogram
  cases invariant <;> simp_all [invariantOrTrue, isMissing, isClaim, Term.bool]

/-- A claim made for a program and its postcondition speaks of their variables,
and binds in addition those that the havocs introduce. -/
structure Within (program post claim : Term) : Prop where
  isClaim : claim.isClaim = true
  free : ∀ name ∈ claim.freeNames, name ∈ program.freeNames ++ post.freeNames
  bound : ∀ name ∈ claim.boundNames,
    name ∈ program.boundNames ++ post.boundNames ++ program.havocNames

namespace Unmixed

/-- Names stay apart in a part of a program, for a claim made from the whole. -/
theorem part {program post part claim : Term} (hnames : Unmixed program post)
    (hpart : part.freeNames ⊆ program.freeNames)
    (hclaim : claim.freeNames ⊆ program.freeNames ++ post.freeNames)
    (hbound : ∀ name ∈ part.boundNames ++ claim.boundNames,
      name ∈ program.boundNames ++ post.boundNames ∨
        name ∈ program.havocNames ∧ name ∉ part.havocNames)
    (hhavocs : part.havocs.Sublist program.havocs) : Unmixed part claim := by
  have hsub : ∀ name ∈ part.havocNames, name ∈ program.havocNames := by
    intro name hname
    obtain ⟨havoc, hhavoc, hname⟩ := mem_havocNames.mp hname
    exact mem_havocNames.mpr ⟨havoc, hhavocs.subset hhavoc, hname⟩
  refine ⟨fun name hname hmem => ?_, fun name hname hmem => ?_, hnames.distinct.sublist hhavocs⟩
  · rcases hbound name hname with hold | ⟨hnew, hother⟩
    · apply hnames.bound name hold
      exact List.mem_append.mpr ((List.mem_append.mp hmem).imp (hpart ·) (hsub name))
    · rcases List.mem_append.mp hmem with hmem | hmem
      · exact hnames.havoc name hnew (List.mem_append_left _ (hpart hmem))
      · exact hother hmem
  · apply hnames.havoc name (hsub name hname)
    rcases List.mem_append.mp hmem with hmem | hmem
    · exact List.mem_append_left _ (hpart hmem)
    · exact hclaim hmem

/-- A program and its postcondition exchange no names with a first part, once
the rest has been turned into a claim. -/
theorem first {first second post after : Term}
    (hnames : Unmixed (.seq first second) post) (hafter : Within second post after) :
    Unmixed first after := by
  refine hnames.part (by simp) ?_ ?_ (List.sublist_append_left _ _)
  · intro name hname
    have hfree := hafter.free name hname
    simp only [freeNames, List.mem_append] at hfree ⊢
    tauto
  · intro name hname
    rcases List.mem_append.mp hname with hfirst | hclaim
    · exact .inl (by simp [hfirst])
    · rcases List.mem_append.mp (hafter.bound name hclaim) with hbound | hhavoc
      · left
        simp only [boundNames, List.mem_append] at hbound ⊢
        tauto
      · right
        obtain ⟨havoc, hmem, rfl⟩ := mem_havocNames.mp hhavoc
        refine ⟨mem_havocNames.mpr ⟨havoc, by simp [havocs, hmem], rfl⟩, fun hfirst => ?_⟩
        obtain ⟨other, hother, heq⟩ := mem_havocNames.mp hfirst
        have hsame : other = havoc := Prod.ext_iff.mpr (havocName_inj.mp heq)
        exact List.disjoint_of_nodup_append hnames.distinct (hsame ▸ hother) hmem

/-- Names stay apart in a part of a program, for the same postcondition. -/
theorem sub {part : Term} (hnames : Unmixed program post)
    (hfree : part.freeNames ⊆ program.freeNames) (hbound : part.boundNames ⊆ program.boundNames)
    (hhavocs : part.havocs.Sublist program.havocs) : Unmixed part post := by
  refine hnames.part hfree (by simp) (fun name hname => .inl ?_) hhavocs
  exact List.mem_append.mpr ((List.mem_append.mp hname).imp_left (hbound ·))

theorem second {first second post : Term} (hnames : Unmixed (.seq first second) post) :
    Unmixed second post :=
  hnames.sub (by simp) (by simp) (List.sublist_append_right _ _)

theorem thenBranch {condition thenBranch elseBranch post : Term}
    (hnames : Unmixed (.ifElse condition thenBranch elseBranch) post) : Unmixed thenBranch post :=
  hnames.sub (by simp) (by simp) (List.sublist_append_left _ _)

theorem elseBranch {condition thenBranch elseBranch post : Term}
    (hnames : Unmixed (.ifElse condition thenBranch elseBranch) post) : Unmixed elseBranch post :=
  hnames.sub (by simp) (by simp) (List.sublist_append_right _ _)

theorem body {invariant condition body post : Term}
    (hnames : Unmixed (.loop invariant condition body) post) :
    Unmixed body invariant.invariantOrTrue := by
  refine hnames.part (by simp) ?_ ?_ (List.Sublist.refl _)
  · simp
  · intro name hname
    left
    simp only [boundNames, boundNames_invariantOrTrue, List.mem_append] at hname ⊢
    tauto

end Unmixed

/-- The computed claims describe the same stores as the program does. -/
structure Described (interp : Interpretation) (env : Option TypeEnv)
    (within : Store → Prop) (program post : Term) (computed : Obligations) : Prop where
  names : Within program post computed.precondition
  pre : ∀ store, computed.precondition.Holds interp store ↔
    program.Pre interp (declaredHavoc interp env) (post.Holds interp) store
  side : (∀ claim ∈ computed.sideConditions, ∀ store, within store → claim.Holds interp store) ↔
    program.Side interp (declaredHavoc interp env) within (post.Holds interp)

section Described

variable {interp : Interpretation} {env : Option TypeEnv} {within : Store → Prop}

/-- As sets of stores, the two readings of a precondition are equal. -/
theorem Described.holds_eq (hdescribed : Described interp env within program post computed) :
    computed.precondition.Holds interp =
      program.Pre interp (declaredHavoc interp env) (post.Holds interp) :=
  funext fun store => propext (hdescribed.pre store)

theorem described_assign {value : Term} {charge : Bool} (hvalue : value.isClaim = true)
    (hpost : post.isClaim = true) (hnames : Unmixed (.assign (.var name) value charge) post) :
    Described interp env within (.assign (.var name) value charge) post
      ⟨post.instantiate (replacing name value), []⟩ := by
  have hbound : ∀ bound ∈ post.boundNames, bound ≠ name ∧ bound ∉ value.freeNames := by
    intro bound hmem
    have hfresh := hnames.bound bound (by simp [hmem])
    simp only [freeNames, List.mem_append, List.mem_singleton, not_or] at hfresh
    exact hfresh.1
  refine ⟨⟨isClaim_replacing hpost hvalue, fun other hother => ?_, fun other hother => ?_⟩,
    fun store => ?_, by simp [Side]⟩
  · obtain ⟨source, hsource, himage⟩ :=
      mem_freeNames_instantiate hpost (captureFree_replacing hbound) hother
    by_cases hname : source = name
    · simp only [replacing, hname, Function.update_self] at himage
      simp [himage]
    · simp only [replacing, Function.update_of_ne hname, freeNames, List.mem_singleton] at himage
      simp [himage, hsource]
  · rcases mem_boundNames_instantiate hpost hother with hold | ⟨source, -, himage⟩
    · simp [hold]
    · by_cases hname : source = name
      · simp only [replacing, hname, Function.update_self] at himage
        simp [himage]
      · simp [replacing, hname] at himage
  · simp only [Holds, Pre]
    rw [eval_replacing hpost hbound]

theorem described_havoc (hentry : env.bind (·.find? name) = some entry)
    (hpost : post.isClaim = true) (hnames : Unmixed (.havoc name count) post) :
    Described interp env within (.havoc name count) post
      ⟨.quantified .universal (.var (havocName name count)) entry.toBinder.1 entry.toBinder.2
        (post.instantiate (replacing name (.var (havocName name count)))) false, []⟩ := by
  have hbound : ∀ bound ∈ post.boundNames,
      bound ≠ name ∧ bound ∉ (Term.var (havocName name count)).freeNames := by
    intro bound hmem
    have hfresh := hnames.bound bound (by simp [hmem])
    simp only [freeNames, havocNames, havocs, List.map_cons, List.map_nil,
      List.mem_append, List.mem_singleton, not_or] at hfresh
    exact ⟨hfresh.1, by simpa using hfresh.2⟩
  have hfresh : havocName name count ∉ post.freeNames := by
    have hnew := hnames.havoc (havocName name count) (by simp [havocNames, havocs])
    simp only [List.mem_append, not_or] at hnew
    exact hnew.2
  refine ⟨⟨isClaim_replacing hpost rfl, fun other hother => ?_, fun other hother => ?_⟩,
    fun store => ?_, by simp [Side]⟩
  · simp only [freeNames, name?, List.mem_filter, ne_eq, Option.some.injEq, decide_not,
      Bool.not_eq_true', decide_eq_false_iff_not] at hother
    obtain ⟨source, hsource, himage⟩ :=
      mem_freeNames_instantiate hpost (captureFree_replacing hbound) hother.1
    by_cases hname : source = name
    · simp only [replacing, hname, Function.update_self, freeNames, List.mem_singleton] at himage
      exact absurd himage hother.2
    · simp only [replacing, Function.update_of_ne hname, freeNames, List.mem_singleton] at himage
      simp [himage, hsource]
  · simp only [boundNames, name?, Option.toList_some, List.singleton_append,
      List.mem_cons] at hother
    rcases hother with rfl | hother
    · simp [havocNames, havocs]
    · rcases mem_boundNames_instantiate hpost hother with hold | ⟨source, -, himage⟩
      · simp [hold]
      · by_cases hname : source = name <;>
          simp [replacing, hname] at himage
  · have hbody : ∀ value,
        (post.instantiate (replacing name (.var (havocName name count)))).Holds interp
            (Function.update store (havocName name count) value) ↔
          post.Holds interp (Function.update store name value) := by
      intro value
      rw [Holds, Holds, eval_replacing hpost hbound]
      rw [eval_congr interp post]
      intro other hother
      have hne : other ≠ havocName name count := fun heq => hfresh (heq ▸ hother)
      by_cases hname : other = name
      · simp [hname]
      · simp [hname, hne]
    simp only [holds_forall, Interpretation.domain_ofBinder_toBinder, Store.bind_var,
      hbody, Pre, declaredHavoc, hentry, Option.some.injEq]
    constructor
    · rintro hall _ ⟨_, value, rfl, hvalue, rfl⟩
      exact hall value hvalue
    · intro hall value hvalue
      exact hall _ ⟨entry, value, rfl, hvalue, rfl⟩

theorem described_seq {first second : Term} {before : Obligations}
    (hafter : Described interp env within second post computed)
    (hbefore : Described interp env within first computed.precondition before) :
    Described interp env within (.seq first second) post
      ⟨before.precondition, before.sideConditions ++ computed.sideConditions⟩ := by
  refine ⟨⟨hbefore.names.isClaim, fun name hname => ?_, fun name hname => ?_⟩, fun store => ?_, ?_⟩
  · rcases List.mem_append.mp (hbefore.names.free name hname) with hfirst | hclaim
    · simp [hfirst]
    · have hfree := hafter.names.free name hclaim
      simp only [freeNames, List.mem_append] at hfree ⊢
      tauto
  · have hbound := hbefore.names.bound name hname
    have hclaim := hafter.names.bound name
    simp only [boundNames, havocNames, havocs, List.map_append, List.mem_append] at hbound hclaim ⊢
    tauto
  · rw [hbefore.pre, hafter.holds_eq]
    rfl
  · simp only [List.mem_append, or_imp, forall_and, Side]
    rw [hbefore.side, hafter.side, hafter.holds_eq]

theorem described_ifElse {thenBranch elseBranch : Term} {whenTrue whenFalse : Obligations}
    (hcondition : condition.isClaim = true)
    (htrue : Described interp env within thenBranch post whenTrue)
    (hfalse : Described interp env within elseBranch post whenFalse) :
    Described interp env within (.ifElse condition thenBranch elseBranch) post
      ⟨.binary (.binary condition .implies whenTrue.precondition) .and
        (.binary (.unary .not condition) .implies whenFalse.precondition),
        whenTrue.sideConditions ++ whenFalse.sideConditions⟩ := by
  refine ⟨⟨?_, fun name hname => ?_, fun name hname => ?_⟩, fun store => ?_, ?_⟩
  · simp [hcondition, htrue.names.isClaim, hfalse.names.isClaim]
  · have hthen := htrue.names.free name
    have helse := hfalse.names.free name
    simp only [freeNames, List.mem_append] at hname hthen helse ⊢
    tauto
  · have hthen := htrue.names.bound name
    have helse := hfalse.names.bound name
    simp only [boundNames, havocNames, havocs, List.map_append, List.mem_append]
      at hname hthen helse ⊢
    tauto
  · simp only [holds_and, holds_implies, holds_not, htrue.pre, hfalse.pre, Pre]
  · simp only [List.mem_append, or_imp, forall_and, Side]
    rw [htrue.side, hfalse.side]

theorem described_loop {body : Term} {kept : Obligations}
    (hinvariant : invariant.invariantOrTrue.isClaim = true)
    (hkept : Described interp env within body invariant.invariantOrTrue kept) :
    Described interp env within (.loop invariant condition body) post
      ⟨invariant.invariantOrTrue, kept.sideConditions ++
        [.binary (.binary invariant.invariantOrTrue .and condition) .implies kept.precondition,
          .binary (.binary invariant.invariantOrTrue .and (.unary .not condition)) .implies
            post]⟩ := by
  refine ⟨⟨hinvariant, fun name hname => ?_, fun name hname => ?_⟩, fun store => Iff.rfl, ?_⟩
  · simp only [freeNames_invariantOrTrue] at hname
    simp [hname]
  · simp only [boundNames_invariantOrTrue] at hname
    simp [hname]
  · simp only [List.mem_append, or_imp, forall_and, Side, List.mem_cons, forall_eq,
      List.not_mem_nil, or_false, holds_implies, holds_and, holds_not, hkept.side,
      hkept.pre, and_imp]

theorem gives_havocType {log next : WriteLog} :
    Gives (havocType env name) log entry next ↔
      env.bind (·.find? name) = some entry ∧ log = next := by
  cases env with
  | none => simp [havocType]
  | some env => cases hfind : env.find? name <;> simp [havocType, Logged.ofOption, hfind]

/-- The precondition of a havoc quantifies over the declared type of the variable. -/
theorem of_gives_havoc (hpost : post.isClaim = true)
    (hgives : Gives ((Term.havoc name count).obligations env post) before computed after) :
    ∃ entry, env.bind (·.find? name) = some entry ∧ after = before ∧
      computed = ⟨.quantified .universal (.var (havocName name count)) entry.toBinder.1
        entry.toBinder.2
        (post.instantiate (replacing name (.var (havocName name count)))) false, []⟩ := by
  simp only [obligations, gives_bind, gives_pure, gives_substitute hpost, gives_havocType] at hgives
  obtain ⟨_, _, ⟨rfl, rfl⟩, entry, _, ⟨hentry, rfl⟩, rfl, rfl⟩ := hgives
  exact ⟨entry, hentry, rfl, rfl⟩

variable (interp within) in
/-- The claims computed for a program say what the program says, and no writes
are recorded on the way. -/
theorem obligations_describe (hprogram : program.isProgram = true) (hpost : post.isClaim = true)
    (hnames : Unmixed program post)
    (hgives : Gives (program.obligations env post) before computed after) :
    after = before ∧ Described interp env within program post computed := by
  induction program generalizing post computed before after with
  | skip =>
    simp only [obligations, gives_pure] at hgives
    obtain ⟨rfl, rfl⟩ := hgives
    exact ⟨rfl, ⟨hpost, fun name hname => by simp [hname], fun name hname => by simp [hname]⟩,
      fun store => Iff.rfl, by simp [Side]⟩
  | assign =>
    obtain ⟨_, rfl, hvalue⟩ := isProgram_assign hprogram
    simp only [obligations, bind_pure_comp, gives_map, gives_substitute hpost] at hgives
    obtain ⟨_, rfl, rfl, rfl⟩ := hgives
    exact ⟨rfl, described_assign hvalue hpost hnames⟩
  | ifElse _ _ _ _ ihthen ihelse =>
    simp only [isProgram, Bool.and_eq_true] at hprogram
    simp only [obligations, gives_bind, gives_pure] at hgives
    obtain ⟨_, _, htrue, _, _, hfalse, rfl, rfl⟩ := hgives
    obtain ⟨rfl, hthen⟩ := ihthen hprogram.1.2 hpost hnames.thenBranch htrue
    obtain ⟨rfl, helse⟩ := ihelse hprogram.2 hpost hnames.elseBranch hfalse
    exact ⟨rfl, described_ifElse hprogram.1.1 hthen helse⟩
  | seq _ _ ihfirst ihsecond =>
    simp only [isProgram, Bool.and_eq_true] at hprogram
    simp only [obligations, gives_bind, gives_pure] at hgives
    obtain ⟨_, _, hrest, _, _, hwhole, rfl, rfl⟩ := hgives
    obtain ⟨rfl, hsecond⟩ := ihsecond hprogram.2 hpost hnames.second hrest
    obtain ⟨rfl, hfirst⟩ := ihfirst hprogram.1 hsecond.names.isClaim
      (hnames.first hsecond.names) hwhole
    exact ⟨rfl, described_seq hsecond hfirst⟩
  | assume | assert =>
    simp only [obligations, gives_pure] at hgives
    obtain ⟨rfl, rfl⟩ := hgives
    refine ⟨rfl, ⟨by simp_all [isClaim, isProgram], fun name hname => ?_,
      fun name hname => ?_⟩, fun store => by simp [Pre], by simp [Side]⟩
    · simpa [or_comm] using hname
    · simpa [havocNames, havocs, or_comm] using hname
  | loop _ _ _ _ _ ihbody =>
    have hinvariant := isClaim_invariantOrTrue hprogram
    simp only [isProgram, Bool.and_eq_true] at hprogram
    simp only [obligations, gives_bind, gives_pure] at hgives
    obtain ⟨_, _, hbody, rfl, rfl⟩ := hgives
    obtain ⟨rfl, hkept⟩ := ihbody hprogram.2 hinvariant hnames.body hbody
    exact ⟨rfl, described_loop hinvariant hkept⟩
  | havoc =>
    obtain ⟨_, hentry, rfl, rfl⟩ := of_gives_havoc hpost hgives
    exact ⟨rfl, described_havoc hentry hpost hnames⟩
  | _ => simp [isProgram] at hprogram

end Described

end Term

end HoareCheck
