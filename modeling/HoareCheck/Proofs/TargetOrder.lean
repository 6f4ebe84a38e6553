import HoareCheck.Proofs.Lookups
import HoareCheck.Proofs.RenamingOrder

/-!
# The order of loop targets

The targets of a loop are a set, and nothing in a cut loop depends on the order in which
they are enumerated but the order of its havocs.  Different names are numbered
independently, what follows the havocs speaks of the same variables
(`gives_afterHavocs_perm`), and the preconditions of the havocs are quantifiers around one
claim (`Term.gives_obligationsThrough_havocs`), which can be exchanged.
-/

namespace HoareCheck

open Term hiding havoc

variable {after log : WriteLog} {names : List String} {env : Option TypeEnv}
  {computed : Obligations}

namespace HavocCounts

/-- Different names are numbered independently of each other. -/
theorem fst_number_of_nodup (counts : HavocCounts) (hnodup : names.Nodup) :
    (counts.number names).1 = names.map fun name => (name, counts.next name) := by
  induction names generalizing counts with
  | nil => rfl
  | cons name rest ih =>
    obtain ⟨hname, hnodup⟩ := List.nodup_cons.mp hnodup
    have hrest : ∀ other ∈ rest, (counts.insert name (counts.next name)).next other =
        counts.next other := by
      intro other hother
      have hne : other ≠ name := fun heq => hname (heq ▸ hother)
      rw [next_insert, if_neg hne, add_zero]
    rw [number, ih _ hnodup, List.map_cons]
    exact congrArg _ (List.map_congr_left fun other hother => by rw [hrest other hother])

theorem find?_number_perm (counts : HavocCounts) {reordered : List String}
    (hperm : names.Perm reordered) (name : String) :
    (counts.number names).2.find? name = (counts.number reordered).2.find? name := by
  rw [find?_number, find?_number, hperm.count_eq]
  simp only [hperm.mem_iff]

end HavocCounts

namespace Term

variable {log : WriteLog} {term : Term}

theorem reads_outline (term : Term) :
    term.outline.reads = term.reads.map fun read => (0, read.2.outline) := by
  induction term <;> simp_all [outline, reads]

theorem reads_of_copy {copied : Term} {before : WriteLog} (hterm : term.reads = [])
    (hgives : Gives term.copy before copied after) : copied.reads = [] := by
  have hreads := reads_outline copied
  rw [outline_of_copy hgives, reads_outline, hterm] at hreads
  exact List.map_eq_nil_iff.mp hreads.symm

/-- The renamings that havocs bring, in their order. -/
def havocRenamings (havocs : List (String × Int)) : List (String × String) :=
  havocs.map fun havoc => (havoc.1, havocName havoc.1 havoc.2)

section Havocs

variable {havocs reordered : List (String × Int)}

/-- The variables of havocs can be put in in any order. -/
theorem renamedAll?_havocs (hperm : havocs.Perm reordered) (hnodup : (havocs.map Prod.fst).Nodup)
    (hplain : ∀ havoc ∈ havocs, IsPlain havoc.1) (term : Option Term) :
    renamedAll? (havocRenamings havocs) term = renamedAll? (havocRenamings reordered) term := by
  apply renamedAll?_perm (hperm.map _)
  · rintro _ hfirst _ hsecond heq
    obtain ⟨_, hleft, rfl⟩ := List.mem_map.mp hfirst
    obtain ⟨_, hright, rfl⟩ := List.mem_map.mp hsecond
    rw [List.inj_on_of_nodup_map hnodup hleft hright heq]
  · rintro _ hpair hmem
    obtain ⟨havoc, -, rfl⟩ := List.mem_map.mp hpair
    have hold : havocName havoc.1 havoc.2 ∈ havocs.map Prod.fst := by
      simpa [havocRenamings] using hmem
    obtain ⟨other, hother, heq⟩ := List.mem_map.mp hold
    exact not_isPlain_havocName _ _ (heq ▸ hplain other hother)

end Havocs

/-! ## Preconditions of havocs -/

/-- The claim for all values of some variables. -/
def forAll (binders : List (String × TypeEntry)) (body : Term) : Term :=
  binders.foldr (fun binder body => .quantified .universal (.var binder.1)
    binder.2.toBinder.1 binder.2.toBinder.2 body false) body

theorem renamed?_forAll (rename : String → String) (binders : List (String × TypeEntry))
    (body : Term) :
    (forAll binders body).renamed? rename = (body.renamed? rename).map (forAll binders) := by
  induction binders with
  | nil => exact Option.map_id_fun'.symm ▸ rfl
  | cons _ rest ih =>
    change (forAll rest body).renamed? rename >>= _ = _
    rw [ih]
    cases body.renamed? rename <;> rfl

theorem reads_forAll (binders : List (String × TypeEntry)) (body : Term) :
    (forAll binders body).reads = body.reads := by
  induction binders with
  | nil => rfl
  | cons _ _ ih => exact ih

/-- Quantifiers over different variables can be written in any order. -/
theorem holds_forAll_perm {interp : Interpretation} {binders reordered : List (String × TypeEntry)}
    {body : Term} (hperm : binders.Perm reordered) (hnodup : (binders.map Prod.fst).Nodup)
    (store : Store) :
    (forAll binders body).Holds interp store ↔ (forAll reordered body).Holds interp store := by
  induction hperm generalizing store with
  | nil => exact Iff.rfl
  | cons _ _ ih =>
    simp only [forAll, List.foldr_cons, holds_forall]
    exact forall₂_congr fun value _ => ih (List.nodup_cons.mp hnodup).2 _
  | swap left right =>
    have hne : right.1 ≠ left.1 := by
      simp only [List.map_cons, List.nodup_cons, List.mem_cons, not_or] at hnodup
      exact hnodup.1.1
    simp only [forAll, List.foldr_cons, holds_forall, Store.bind_var]
    constructor
    · intro hall leftValue hleft rightValue hright
      rw [Function.update_comm hne.symm]
      exact hall rightValue hright leftValue hleft
    · intro hall rightValue hright leftValue hleft
      rw [Function.update_comm hne]
      exact hall leftValue hleft rightValue hright
  | trans hfirst _ ihfirst ihsecond =>
    exact (ihfirst hnodup store).trans (ihsecond ((hfirst.map _).nodup_iff.mp hnodup) store)

/-- The binder of the quantifier that a havoc brings. -/
def IsBinderOf (env : Option TypeEnv) (havoc : String × Int) (binder : String × TypeEntry) : Prop :=
  binder.1 = havocName havoc.1 havoc.2 ∧ env.bind (·.find? havoc.1) = some binder.2

/-- Havocs quantify a claim that speaks of their variables. -/
theorem gives_obligationsThrough_havocs {havocs : List (String × Int)}
    (hterm : term.Unwritten log) :
    Gives (obligationsThrough env (havocs.map fun havoc => .havoc havoc.1 havoc.2) term) log
        computed after ↔
      log = after ∧ ∃ binders body, List.Forall₂ (IsBinderOf env) havocs binders ∧
        renamedAll? (havocRenamings havocs.reverse) (some term) = some body ∧
        (⟨forAll binders body, []⟩ : Obligations) = computed := by
  induction havocs generalizing computed after with
  | nil => simp [obligationsThrough, renamedAll?, havocRenamings, forAll, gives_pure, and_comm]
  | cons havoc rest ih =>
    have hlast : renamedAll? (havocRenamings (havoc :: rest).reverse) (some term) =
        (renamedAll? (havocRenamings rest.reverse) (some term)).bind
          (renamed? (Function.update id havoc.1 (havocName havoc.1 havoc.2))) := by
      simp [renamedAll?, havocRenamings]
    have hbody (binders : List (String × TypeEntry)) {body : Term}
        (hbody : renamedAll? (havocRenamings rest.reverse) (some term) = some body) :
        (forAll binders body).Unwritten log := by
      intro read hread
      rw [reads_forAll, reads_of_renamedAll? hbody] at hread
      exact hterm read hread
    simp only [List.map_cons, obligationsThrough, orSkip, obligations, gives_bind, gives_pure, ih,
      gives_havocType, hlast]
    constructor
    · rintro ⟨_, _, ⟨rfl, binders, _, hbinders, hrenamed, rfl⟩, _, _,
        ⟨_, _, hsubstitute, entry, _, ⟨hentry, rfl⟩, rfl, rfl⟩, rfl, rfl⟩
      rw [((hbody binders hrenamed).amountsTo_substitute _ _).gives_iff, renamed?_forAll,
        Option.map_eq_some_iff] at hsubstitute
      obtain ⟨⟨renamed, hlast, rfl⟩, rfl⟩ := hsubstitute
      refine ⟨rfl, (havocName havoc.1 havoc.2, entry) :: binders, renamed, ?_, ?_, rfl⟩
      · exact .cons ⟨rfl, hentry⟩ hbinders
      · rw [hrenamed]
        exact hlast
    · rintro ⟨rfl, _, _, hall, hrenamed, rfl⟩
      obtain ⟨binder, binders, ⟨hname, hentry⟩, hbinders, rfl⟩ := List.forall₂_cons_left_iff.mp hall
      obtain ⟨body, hbodyIs, hlast⟩ := Option.bind_eq_some_iff.mp hrenamed
      have hsubstitute := ((hbody binders hbodyIs).amountsTo_substitute havoc.1
        (havocName havoc.1 havoc.2)).gives_iff.mpr
        ⟨(renamed?_forAll _ binders body).trans (congrArg _ hlast), rfl⟩
      refine ⟨_, log, ⟨rfl, binders, body, hbinders, hbodyIs, rfl⟩, _, log,
        ⟨_, log, hsubstitute, binder.2, log, ⟨hentry, rfl⟩, rfl, rfl⟩, ?_, rfl⟩
      rw [← hname]
      rfl

end Term

theorem not_records_of_reads {statement post : Term} (hreads : statement.reads = []) :
    ¬ Records env log statement post := by
  intro hrecords
  induction hrecords with
  | here _ hhits =>
    obtain ⟨_, _, _, _, rfl, -⟩ := hhits
    cases hreads
  | first _ _ ih => exact ih (List.append_eq_nil_iff.mp hreads).1
  | second _ ih | elseBranch _ ih | body _ ih => exact ih (List.append_eq_nil_iff.mp hreads).2
  | thenBranch _ ih =>
    exact ih (List.append_eq_nil_iff.mp (List.append_eq_nil_iff.mp hreads).1).2

section Reordered

variable {havocs reordered : List (String × Int)} {env : Option TypeEnv}
  {entered assumption iteration post : Term}

/-- The order of the havocs does not change what the precondition of a cut loop says. -/
theorem gives_guarded_perm (hperm : havocs.Perm reordered) (hnodup : (havocs.map Prod.fst).Nodup)
    (hplain : ∀ havoc ∈ havocs, IsPlain havoc.1) (hassumption : assumption.reads = [])
    (hiteration : iteration.reads = []) (hpost : post.Fresh log)
    (hgives : Gives ((guarded entered (cutParts havocs assumption iteration)).obligations env
      post) log computed after) :
    ∃ other, Gives ((guarded entered (cutParts reordered assumption iteration)).obligations
        env post) log other after ∧ other.sideConditions = computed.sideConditions ∧
      ∀ interp store, other.precondition.Holds interp store ↔
        computed.precondition.Holds interp store := by
  rw [obligations_guarded] at hgives
  simp only [obligations_guarded, gives_bind, gives_pure] at hgives ⊢
  obtain ⟨inner, _, hinner, _, _, hquantified, rfl, rfl⟩ := hgives
  have hreads : (Term.seq assumption.orSkip iteration.orSkip).reads = [] := by
    rw [Term.reads, reads_orSkip, reads_orSkip, hassumption, hiteration]
    rfl
  have hstatement : (Term.seq assumption.orSkip iteration.orSkip).Fresh log :=
    fun read hread => by simp [hreads] at hread
  cases eq_of_not_records ⟨hstatement, hpost⟩ hinner (not_records_of_reads hreads)
  have hunwritten : inner.precondition.Unwritten log := by
    intro read hread
    have hmem := reads_of_gives_obligations hinner hread
    rw [hreads] at hmem
    exact (hpost read hmem).2
  obtain ⟨rfl, binders, body, hbinders, hbody, rfl⟩ :=
    (Term.gives_obligationsThrough_havocs hunwritten).mp hquantified
  obtain ⟨others, hothers, hreordered⟩ := List.perm_comp_forall₂ hperm.symm hbinders
  have hsame : Term.renamedAll? (Term.havocRenamings reordered.reverse) (some inner.precondition) =
      some body := by
    rw [← hbody]
    refine (Term.renamedAll?_havocs ((havocs.reverse_perm.trans hperm).trans
      reordered.reverse_perm.symm) ?_ ?_ _).symm
    · rwa [List.map_reverse, List.nodup_reverse]
    · simpa using hplain
  have hnames : binders.map Prod.fst = havocs.map fun havoc => havocName havoc.1 havoc.2 := by
    clear hbody hquantified hreordered hperm hnodup hplain hsame
    induction hbinders with
    | nil => rfl
    | cons hbinder _ ih => rw [List.map_cons, List.map_cons, hbinder.1, ih]
  refine ⟨_, ⟨inner, log, hinner, _, log,
    (Term.gives_obligationsThrough_havocs hunwritten).mpr ⟨rfl, others, body, hothers, hsame, rfl⟩,
    rfl, rfl⟩, rfl, fun interp store => ?_⟩
  have hnew : (binders.map Prod.fst).Nodup := by
    rw [hnames]
    refine List.Nodup.map_on ?_ (List.Nodup.of_map _ hnodup)
    intro left hleft right hright heq
    exact List.inj_on_of_nodup_map hnodup hleft hright (havocName_inj.mp heq).1
  simp only [holds_implies]
  rw [Term.holds_forAll_perm hreordered ((hreordered.map _).nodup_iff.mpr hnew)]

end Reordered

section CutLoop

variable {targets reordered : List String} {invariant condition body : Term}
  {before after : CutState} {cut : CutProgram}

theorem Term.nodup_targets (body : Term) : body.targets.Nodup := by
  rw [Term.targets]
  split
  · exact nodup_ascending _
  · exact List.nodup_nil

theorem gives_afterHavocs_perm {havocs others : List (String × Int)} {term renamed : Term}
    {next : WriteLog} (hperm : havocs.Perm others) (hnodup : (havocs.map Prod.fst).Nodup)
    (hplain : ∀ havoc ∈ havocs, IsPlain havoc.1) (hterm : term.reads = [])
    (hgives : Gives (term.afterHavocs havocs) log renamed next) :
    Gives (term.afterHavocs others) log renamed next ∧ renamed.reads = [] := by
  have hunwritten : term.Unwritten log := fun read hread => by simp [hterm] at hread
  obtain ⟨hrenamed, hlog⟩ := (hunwritten.amountsTo_renameAll _).gives_iff.mp hgives
  have hsame := Term.renamedAll?_havocs hperm hnodup hplain (some term)
  exact ⟨(hunwritten.amountsTo_renameAll _).gives_iff.mpr ⟨hsame.symm.trans hrenamed, hlog⟩,
    (Term.reads_of_renamedAll? hrenamed).trans hterm⟩

/-- The order in which the targets of a loop are enumerated does not matter.  The two
cut programs differ in the order of their havocs, everything else is the same, and the
preconditions are true in the same stores. -/
theorem cutLoop_reordered (hreads : (Term.loop invariant condition body).reads = [])
    (hplain : ∀ name ∈ body.targets, IsPlain name)
    (htargets : targets.Perm body.targets) (hreordered : reordered.Perm body.targets)
    (hgives : Gives (cutLoop targets invariant condition body) before cut after) :
    ∃ entered assumption iteration havocs otherHavocs other otherAfter,
      Gives (cutLoop reordered invariant condition body) before other otherAfter ∧
      cut.program = guarded entered (cutParts havocs assumption iteration) ∧
      other.program = guarded entered (cutParts otherHavocs assumption iteration) ∧
      havocs.map Prod.fst = targets ∧ otherHavocs.Perm havocs ∧
      other.invariants = cut.invariants ∧
      (∀ name, otherAfter.counts.find? name = after.counts.find? name) ∧
      otherAfter.log = after.log ∧
      ∀ env post log computed next, post.Fresh log →
        Gives (cut.program.obligations env post) log computed next →
        ∃ otherComputed, Gives (other.program.obligations env post) log otherComputed next ∧
          otherComputed.sideConditions = computed.sideConditions ∧
          ∀ interp store, otherComputed.precondition.Holds interp store ↔
            computed.precondition.Holds interp store := by
  have htargetsReordered : targets.Perm reordered := htargets.trans hreordered.symm
  have hnodup : targets.Nodup := htargets.nodup_iff.mpr body.nodup_targets
  have hnumbered := HavocCounts.fst_number_of_nodup before.counts hnodup
  have hperm : (before.counts.number targets).1.Perm (before.counts.number reordered).1 := by
    rw [hnumbered, HavocCounts.fst_number_of_nodup _ (htargetsReordered.nodup_iff.mp hnodup)]
    exact htargetsReordered.map _
  have hcounted := HavocCounts.find?_number_perm before.counts htargetsReordered.symm
  have hnames := HavocCounts.map_fst_number before.counts targets
  have hhavocs : ∀ havoc ∈ (before.counts.number targets).1, IsPlain havoc.1 := by
    intro havoc hhavoc
    apply hplain havoc.1 (htargets.mem_iff.mp _)
    rw [← hnames]
    exact List.mem_map_of_mem hhavoc
  rw [← hnames] at hnodup
  simp only [cutLoop_eq, gives_bind, gives_havocs, gives_cutting_logged, gives_pure] at hgives
  obtain ⟨_, _, ⟨rfl, rfl⟩, ⟨assumed, _, hassumed, kept, _, hkept, assumption, _, hassumption,
    iteration, _, hiteration, entered, _, hentered, copied, _, hcopied, havoced, _, hhavoced, rfl,
    rfl⟩, hcounts⟩ := hgives
  obtain ⟨hloop, hbody⟩ := List.append_eq_nil_iff.mp hreads
  obtain ⟨hinvariant, hcondition⟩ := List.append_eq_nil_iff.mp hloop
  have hround : (Term.branch condition (andThen (andThen body (.assert kept))
      (.assume (.bool false))) .skip).reads = [] := by
    simp [Term.branch, andThen, Term.reads, reads_orSkip, Term.bool, hcondition, hbody,
      Term.reads_of_copy hinvariant hkept]
  have hassumedReads := Term.reads_of_copy hinvariant hassumed
  have hassume : (Term.assume assumed).reads = [] := hassumedReads
  obtain ⟨hotherAssumption, hassumptionReads⟩ :=
    gives_afterHavocs_perm hperm hnodup hhavocs hassume hassumption
  obtain ⟨hotherIteration, hiterationReads⟩ :=
    gives_afterHavocs_perm hperm hnodup hhavocs hround hiteration
  obtain ⟨hotherHavoced, -⟩ := gives_afterHavocs_perm hperm hnodup hhavocs
    (Term.reads_of_copy hinvariant hcopied) hhavoced
  refine ⟨entered, assumption, iteration, (before.counts.number targets).1,
    (before.counts.number reordered).1, ⟨_, [havoced]⟩,
    ⟨after.log, (before.counts.number reordered).2⟩, ?_, rfl, rfl, hnames, hperm.symm, rfl, ?_,
    rfl, ?_⟩
  · simp only [cutLoop_eq, gives_bind, gives_havocs, gives_cutting_logged, gives_pure]
    exact ⟨_, _, ⟨rfl, rfl⟩, ⟨assumed, _, hassumed, kept, _, hkept, assumption, _,
      hotherAssumption, iteration, _, hotherIteration, entered, _, hentered, copied, _, hcopied,
      havoced, _, hotherHavoced, rfl, rfl⟩, rfl⟩
  · intro name
    rw [hcounts]
    exact hcounted name
  · intro env post log computed next hpost hcomputed
    exact gives_guarded_perm hperm hnodup hhavocs hassumptionReads hiterationReads hpost hcomputed

/-- A loop that sets two variables, with its targets in descending order. -/
theorem cutLoop_reordered_descending :
    let body := Term.seq (.assign (.var "x") (.int 1) false) (.assign (.var "y") (.var "x") false)
    let cutWith := fun targets => cutLoop targets (.bool true) (.bool true) body
    ["y", "x"].Perm body.targets ∧ ∃ cut after other otherAfter,
      Gives (cutWith ["y", "x"]) ⟨.empty, []⟩ cut after ∧
      Gives (cutWith ["x", "y"]) ⟨.empty, []⟩ other otherAfter ∧
      other.invariants = cut.invariants := by
  intro body cutWith
  have htargets : body.targets = ["x", "y"] := by decide
  have hdescending : ["y", "x"].Perm body.targets := htargets ▸ .swap _ _ _
  have hplain : ∀ name ∈ body.targets, IsPlain name := by
    rw [htargets]
    unfold IsPlain
    decide
  have hgives : Gives (cutWith ["y", "x"]) ⟨.empty, []⟩ _ _ := rfl
  obtain ⟨_, _, _, _, _, other, otherAfter, hother, -, -, -, -, hinvariants, -⟩ :=
    cutLoop_reordered rfl hplain hdescending (.of_eq htargets.symm) hgives
  exact ⟨hdescending, _, _, other, otherAfter, hgives, hother, hinvariants⟩

end CutLoop

end HoareCheck
