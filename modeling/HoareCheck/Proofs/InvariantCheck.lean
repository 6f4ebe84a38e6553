import HoareCheck.Proofs.CutLoopMeaning
import HoareCheck.Proofs.VerifySoundness

/-!
# What the check of an invariant says

The invariant of a loop is checked on the program with the loop cut, by one
condition.  For a program that assigns to variables and then comes to a loop, the
condition is true in a store of the precondition exactly if the invariant is true
wherever the loop is entered and iterations keep it from there
(`invariantConditions_hold_iff`).  An invariant that iterations do not keep passes
the check, true on entry or not (`unkept_invariant_passes`).
-/

namespace HoareCheck

open Term

/-! ## Programs that end in a loop -/

/-- The program assigns to variables until it comes to the loop, and ends there;
`entry` is what it does before the loop. -/
inductive EndsIn (loop : Term) : Term → Term → Prop
  | loop : EndsIn loop .skip loop
  | before {first entry program : Term} :
      first.isStraight = true → EndsIn loop entry program →
      EndsIn loop (.seq first entry) (.seq first program)
  | after {entry program : Term} :
      EndsIn loop entry program → EndsIn loop entry (.seq program .skip)

theorem EndsIn.isStraight {loop entry program : Term} (hends : EndsIn loop entry program) :
    entry.isStraight = true := by
  induction hends with
  | loop => rfl
  | before hfirst _ ih => simp [Term.isStraight, hfirst, ih]
  | after _ ih => exact ih

/-- The program consists of what it does before the loop, and of the loop. -/
theorem EndsIn.parts {loop entry program : Term} (hends : EndsIn loop entry program) :
    program.isProgram = (entry.isProgram && loop.isProgram) ∧
      program.havocs = entry.havocs ++ loop.havocs ∧
      program.freeNames = entry.freeNames ++ loop.freeNames ∧
      program.boundNames = entry.boundNames ++ loop.boundNames := by
  induction hends with
  | loop => simp [isProgram, Term.havocs]
  | before _ _ ih => simp [isProgram, Term.havocs, ih, Bool.and_assoc]
  | after _ ih => simp [isProgram, Term.havocs, ih]

section Sequences

variable (env : Option TypeEnv) (first second third post : Term)

theorem obligations_seq_assoc :
    (Term.seq first (.seq second third)).obligations env post =
      (Term.seq (.seq first second) third).obligations env post := by
  simp [Term.obligations]

theorem obligations_skip_seq :
    (Term.seq .skip first).obligations env post = first.obligations env post := by
  simp [Term.obligations]

theorem obligations_seq_skip :
    (Term.seq first .skip).obligations env post = first.obligations env post := by
  simp [Term.obligations]

end Sequences

/-- A cut program has the obligations of the given statement, and comes with the
given invariants. -/
structure CutProgram.SaysAs (cut : CutProgram) (statement : Term) (invariants : List Term) :
    Prop where
  obligations : ∀ env post,
    cut.program.orSkip.obligations env post = statement.obligations env post
  invariants : cut.invariants = invariants

theorem CutProgram.SaysAs.seq {cutFirst cutSecond : CutProgram} {first second : Term}
    {left right : List Term} (hfirst : cutFirst.SaysAs first left)
    (hsecond : cutSecond.SaysAs second right) :
    CutProgram.SaysAs ⟨andThen cutFirst.program cutSecond.program,
      cutFirst.invariants ++ cutSecond.invariants⟩ (.seq first second) (left ++ right) := by
  refine ⟨fun env post => ?_, by rw [hfirst.invariants, hsecond.invariants]⟩
  change (Term.seq cutFirst.program.orSkip cutSecond.program.orSkip).obligations env post = _
  simp only [Term.obligations, hfirst.obligations, hsecond.obligations]

theorem saysAs_of_isStraight {statement : Term} {cut : CutProgram}
    (hcuts : statement.CutsInto cut) (hstraight : statement.isStraight = true)
    (hprogram : statement.isProgram = true) : cut.SaysAs statement [] := by
  induction hcuts with
  | @step statement _ hstep hcopied =>
    cases statement with
    | skip =>
      obtain rfl | ⟨_, _, hcopy⟩ := hcopied
      · exact ⟨fun _ _ => rfl, rfl⟩
      · obtain ⟨rfl, _⟩ := gives_pure.mp hcopy
        exact ⟨fun _ _ => rfl, rfl⟩
    | assign =>
      obtain ⟨_, rfl, hvalue⟩ := isProgram_assign hprogram
      obtain rfl | ⟨_, _, hcopy⟩ := hcopied
      · exact ⟨fun _ _ => rfl, rfl⟩
      · simp only [Term.copy, gives_bind, gives_pure, gives_copy hvalue] at hcopy
        obtain ⟨_, _, ⟨rfl, _⟩, _, _, ⟨rfl, _⟩, rfl, _⟩ := hcopy
        exact ⟨fun _ _ => rfl, rfl⟩
    | assume | assert => simp [Term.isStraight] at hstraight
    | _ => cases hstep
  | seq _ _ ihfirst ihsecond =>
    simp only [Term.isStraight, Bool.and_eq_true] at hstraight
    simp only [isProgram, Bool.and_eq_true] at hprogram
    exact (ihfirst hstraight.1 hprogram.1).seq (ihsecond hstraight.2 hprogram.2)
  | loop | havoc => simp [Term.isStraight] at hstraight

section CutsTo

variable {invariant condition body first entry program : Term} {before after : CutState}
  {cut cutFirst cutSecond : CutProgram}

/-- Cutting a program that ends in the loop comes to cutting the loop. -/
def CutsTo (invariant condition body entry : Term) (cut : CutProgram) : Prop :=
  ∃ copy before loopCut after, Renames id body copy ∧
    Gives (Term.cutOneLoop invariant condition copy) before loopCut after ∧
    cut.SaysAs (.seq entry loopCut.program.orSkip) loopCut.invariants

theorem cutsTo_loop {copy : Term} (hcopy : Renames id body copy)
    (hgives : Gives (cutOneLoop invariant condition copy) before cut after) :
    CutsTo invariant condition body .skip cut :=
  ⟨copy, before, cut, after, hcopy, hgives,
    fun env post => (obligations_skip_seq env _ post).symm, rfl⟩

theorem CutsTo.precede (hcuts : CutsTo invariant condition body entry cutSecond)
    (hfirst : cutFirst.SaysAs first []) :
    CutsTo invariant condition body (.seq first entry)
      ⟨andThen cutFirst.program cutSecond.program,
        cutFirst.invariants ++ cutSecond.invariants⟩ := by
  obtain ⟨copy, before, loopCut, after, hcopy, hgives, hmeans⟩ := hcuts
  have hboth := hfirst.seq hmeans
  refine ⟨copy, before, loopCut, after, hcopy, hgives, fun env post => ?_, hboth.invariants⟩
  rw [hboth.obligations, obligations_seq_assoc]

theorem CutsTo.thenSkip (hcuts : CutsTo invariant condition body entry cutFirst)
    (hskip : cutSecond.SaysAs .skip []) :
    CutsTo invariant condition body entry
      ⟨andThen cutFirst.program cutSecond.program,
        cutFirst.invariants ++ cutSecond.invariants⟩ := by
  obtain ⟨copy, before, loopCut, after, hcopy, hgives, hmeans⟩ := hcuts
  have hboth := hmeans.seq hskip
  rw [List.append_nil] at hboth
  refine ⟨copy, before, loopCut, after, hcopy, hgives, fun env post => ?_, hboth.invariants⟩
  rw [hboth.obligations, obligations_seq_skip]

theorem EndsIn.cutsTo (hends : EndsIn (.loop invariant condition body) entry program)
    (hprogram : program.isProgram = true) (hhavocs : program.havocs = [])
    (hcuts : program.CutsInto cut) : CutsTo invariant condition body entry cut := by
  induction hends generalizing cut with
  | loop =>
    cases hcuts with
    | loop hinvariant hcondition hbody hcut =>
      obtain ⟨rfl, rfl⟩ := eq_of_isCopied_loop hprogram hinvariant hcondition
      simp only [isProgram, Bool.and_eq_true] at hprogram
      exact cutsTo_loop (hbody.renames hprogram.2 hhavocs) hcut
    | step hstep => cases hstep
  | before hstraight _ ih =>
    simp only [isProgram, Bool.and_eq_true] at hprogram
    simp only [Term.havocs, List.append_eq_nil_iff] at hhavocs
    cases hcuts with
    | seq hfirst hsecond =>
      exact (ih hprogram.2 hhavocs.2 hsecond).precede
        (saysAs_of_isStraight hfirst hstraight hprogram.1)
    | step hstep => cases hstep
  | after _ ih =>
    simp only [isProgram, Bool.and_eq_true] at hprogram
    simp only [Term.havocs, List.append_eq_nil_iff] at hhavocs
    cases hcuts with
    | seq hfirst hskip =>
      exact (ih hprogram.1 hhavocs.1 hfirst).thenSkip (saysAs_of_isStraight hskip rfl rfl)
    | step hstep => cases hstep

end CutsTo

/-! ## The conditions of the check -/

theorem Run.gives_cutting {α : Type} {computation : Cutting α} {value : α}
    {before after : RunState} :
    Gives (Run.cutting computation) before value after ↔
      ∃ cut, Gives computation ⟨before.log, before.verifier.counts⟩ value cut ∧
        after = { before with
          log := cut.log, verifier := { before.verifier with counts := cut.counts } } := by
  simp only [Run.cutting, gives_bind, gives_get]
  constructor
  · rintro ⟨_, _, ⟨rfl, rfl⟩, hgives⟩
    rcases hrun : computation.run ⟨before.log, before.verifier.counts⟩ with ⟨outcome, cut⟩
    simp only [hrun, gives_bind, gives_set, gives_ofExcept] at hgives
    obtain ⟨_, _, rfl, rfl, rfl⟩ := hgives
    exact ⟨cut, hrun, rfl⟩
  · rintro ⟨cut, hgives, rfl⟩
    have hrun : computation.run ⟨before.log, before.verifier.counts⟩ = (.ok value, cut) := hgives
    refine ⟨before, before, ⟨rfl, rfl⟩, ?_⟩
    simp [hrun, gives_ofExcept]

/-- Where one loop is cut, its invariant is the postcondition of the check. -/
theorem Task.of_gives_invariantConditions {scope : String} {pre program : Term}
    {before after : RunState} {conditions : List Condition}
    (hgives : Gives (Task.invariantConditions scope pre program) before conditions after) :
    ∃ cut cutAfter, Gives program.cutLoops ⟨before.log, before.verifier.counts⟩ cut cutAfter ∧
      ∀ kept, cut.invariants = [kept] →
        ∃ env computed log next, before.verifier.scopes.find? scope = some env ∧
          Gives (cut.program.obligations env kept) log computed next ∧
          ∀ claim, claim ∈ conditions.map Condition.claim ↔
            claim = .binary pre .implies computed.precondition ∨
              claim ∈ computed.sideConditions := by
  simp only [Task.invariantConditions, gives_bind, Run.gives_cutting, gives_get] at hgives
  obtain ⟨cut, _, ⟨cutAfter, hcut, rfl⟩, _, _, ⟨rfl, rfl⟩, hconditions⟩ := hgives
  refine ⟨cut, cutAfter, hcut, fun kept hkept => ?_⟩
  rw [hkept] at hconditions
  obtain ⟨env, computed, next, hscope, hgives, -, hclaims⟩ := Task.of_gives_conditionsOf hconditions
  exact ⟨env, computed, _, next, hscope, hgives, hclaims⟩

section Check

variable {interp : Interpretation} {havoc : HavocRule} {env : Option TypeEnv}
variable {invariant condition body entry program : Term}

/-- The claim about the loop, taken back to the start of the program. -/
theorem ClaimsKept.precondition_iff {targets : List String} {claim : Term}
    (hclaim : ClaimsKept interp havoc env targets invariant condition body claim)
    (hends : EndsIn (.loop invariant condition body) entry program)
    (hinvariant : invariant.isClaim = true) (hprogram : entry.isProgram = true)
    (hhavocs : entry.havocs = []) (hnames : program.HasPlainNames)
    {computed : Obligations} {before after : WriteLog}
    (hgives : Gives (entry.obligations env (.binary claim .implies invariant)) before computed
      after) (store : Store) :
    computed.precondition.Holds interp store ↔
      ∀ entered, Exec interp havoc entry store (.done entered) →
        KeptFrom interp havoc env targets invariant condition body entered →
        invariant.Holds interp entered := by
  obtain ⟨-, -, hfreeNames, hboundNames⟩ := hends.parts
  have hfree : ∀ name ∈ entry.freeNames ++ (claim.freeNames ++ invariant.freeNames),
      name ∈ program.freeNames := by
    intro name hname
    have hloop := hclaim.free name
    simp only [hfreeNames, freeNames, List.mem_append] at hname hloop ⊢
    tauto
  have hbound : ∀ name ∈ entry.boundNames ++ (claim.boundNames ++ invariant.boundNames),
      name ∈ program.boundNames ∨ ¬ IsPlain name := by
    intro name hname
    have hloop := hclaim.bound name
    simp only [hboundNames, boundNames, List.mem_append] at hname hloop ⊢
    tauto
  have hapart : entry.Apart (.binary claim .implies invariant) := by
    apply apart_of_havocs_eq_nil hhavocs
    intro name hname hmem
    rcases hbound name hname with hbound | hmarked
    · exact hnames.bound name hbound (hfree name hmem)
    · exact hmarked (hnames.plain name (List.mem_append_left _ (hfree name hmem)))
  obtain ⟨-, hdescribed⟩ := obligations_describe interp (fun _ => True) hprogram
    (by simp [hclaim.isClaim, hinvariant]) hapart hgives
  obtain ⟨hloops, hasserts⟩ := isLoopFree_of_isStraight hends.isStraight
  calc computed.precondition.Holds interp store
      ↔ entry.Pre interp (declaredHavoc interp env)
          ((Term.binary claim .implies invariant).Holds interp) store := hdescribed.pre store
    _ ↔ ∀ entered, Exec interp havoc entry store (.done entered) →
          (Term.binary claim .implies invariant).Holds interp entered :=
        pre_iff_exec hprogram hhavocs hloops hasserts
    _ ↔ ∀ entered, Exec interp havoc entry store (.done entered) →
          KeptFrom interp havoc env targets invariant condition body entered →
          invariant.Holds interp entered := by
        simp only [holds_implies, hclaim.holds_iff]

/-- The conditions of the check are one, and it is about the claim that the loop
is cut to. -/
theorem EndsIn.of_gives_invariantConditions {scope : String} {pre : Term}
    {targets : List String} {before after : RunState} {conditions : List Condition}
    (hends : EndsIn (.loop invariant condition body) entry program)
    (hprogram : program.isProgram = true) (hhavocs : program.havocs = [])
    (hnames : program.HasPlainNames) (hloops : body.isLoopFree = true)
    (hasserts : body.isAssertFree = true) (htargets : body.assigned = .ok targets)
    (hscope : before.verifier.scopes.find? scope = some env)
    (hgives : Gives (Task.invariantConditions scope pre program) before conditions after) :
    ∃ claim computed log next, invariant.isClaim = true ∧
      ClaimsKept interp havoc env targets invariant condition body claim ∧
      Gives (entry.obligations env (.binary claim .implies invariant)) log computed next ∧
      ∀ claim, claim ∈ conditions.map Condition.claim ↔
        claim = .binary pre .implies computed.precondition := by
  obtain ⟨hisProgram, hisHavocs, hfreeNames, hboundNames⟩ := hends.parts
  have hloop : (Term.loop invariant condition body).isProgram = true :=
    (Bool.and_eq_true_iff.mp (hisProgram ▸ hprogram)).2
  have hbodyHavocs : body.havocs = [] := (List.append_eq_nil_iff.mp (hisHavocs ▸ hhavocs)).2
  have hloopNames : (Term.loop invariant condition body).HasPlainNames :=
    hnames.part (by simp [hfreeNames]) (by simp [hboundNames])
  obtain ⟨cut, _, hcutLoops, hcheck⟩ := Task.of_gives_invariantConditions hgives
  obtain ⟨_, _, _, _, hcopy, hcutLoop, hmeans⟩ :=
    hends.cutsTo hprogram hhavocs (cutsInto_of_cutLoops hcutLoops)
  obtain ⟨names, havocs, assumption, iteration, kept, hassigned, hfst, hcut, hkept,
    hinvariants, hguarded⟩ :=
    isCut_of_cutOneLoop interp hloop hbodyHavocs hloopNames hcopy hcutLoop
  cases htargets.symm.trans hassigned
  obtain ⟨_, _, _, _, hfound, hobligations, hclaims⟩ :=
    hcheck kept (hmeans.invariants.trans hinvariants)
  cases hscope.symm.trans hfound
  have hmissing : cut.program.orSkip = cut.program := by
    apply orSkip_eq_self
    intro heq
    simp [heq, Term.obligations] at hobligations
  rw [← hmissing, hmeans.obligations, hguarded, orSkip_guarded] at hobligations
  rw [Term.obligations] at hobligations
  simp only [gives_bind, gives_pure] at hobligations
  obtain ⟨rest, _, hrest, whole, _, hwhole, rfl, _⟩ := hobligations
  simp only [isProgram, Bool.and_eq_true] at hloop
  have hnodup : (havocs.map Prod.fst).Nodup := hfst ▸ nodup_ascending targets
  have hloopClaim : ∃ claim, rest = ⟨.binary claim .implies invariant, []⟩ ∧
      ClaimsKept interp havoc env (havocs.map Prod.fst) invariant condition body claim :=
    hcut.of_gives_obligations hkept hnodup hloopNames hloop.2 hbodyHavocs hloops hasserts hrest
  obtain ⟨claim, rfl, hclaim⟩ := hloopClaim
  have hside := sideConditions_eq_nil (isLoopFree_of_isStraight hends.isStraight).1 hwhole
  refine ⟨claim, whole, _, _, hkept.isClaim,
    ⟨hclaim.isClaim, hclaim.free, hclaim.bound, fun store => ?_⟩, hwhole, ?_⟩
  · rw [hclaim.holds_iff]
    simp only [KeptFrom, hfst, mem_ascending]
  · simpa [hside] using hclaims

/-- What the check of an invariant says, of a program that assigns to variables
and then comes to a loop: in a store of the precondition, wherever the loop is
entered, the invariant is true if iterations keep it from there.  It does not say
that they do. -/
theorem invariantConditions_hold_iff {scope : String} {pre : Term} {targets : List String}
    {before after : RunState} {conditions : List Condition}
    (hends : EndsIn (.loop invariant condition body) entry program)
    (hprogram : program.isProgram = true) (hhavocs : program.havocs = [])
    (hplain : ∀ name ∈ program.freeNames ++ program.boundNames, '@' ∉ name.toList)
    (hbound : ∀ name ∈ program.boundNames, name ∉ program.freeNames)
    (hloops : body.isLoopFree = true) (hasserts : body.isAssertFree = true)
    (htargets : body.assigned = .ok targets)
    (hscope : before.verifier.scopes.find? scope = some env)
    (hgives : Gives (Task.invariantConditions scope pre program) before conditions after)
    (store : Store) :
    (∀ claim ∈ conditions.map Condition.claim, claim.Holds interp store) ↔
      (pre.Holds interp store → ∀ entered, Exec interp havoc entry store (.done entered) →
        KeptFrom interp havoc env targets invariant condition body entered →
        invariant.Holds interp entered) := by
  have hnames : program.HasPlainNames := ⟨hplain, hbound⟩
  obtain ⟨hisProgram, hisHavocs, -, -⟩ := hends.parts
  obtain ⟨claim, computed, _, _, hinvariant, hclaim, hentry, hclaims⟩ :=
    hends.of_gives_invariantConditions hprogram hhavocs hnames hloops hasserts htargets hscope
      hgives
  have hentryProgram : entry.isProgram = true :=
    (Bool.and_eq_true_iff.mp (hisProgram ▸ hprogram)).1
  have hentryHavocs : entry.havocs = [] := (List.append_eq_nil_iff.mp (hisHavocs ▸ hhavocs)).1
  simp only [hclaims, forall_eq, Term.holds_implies]
  rw [hclaim.precondition_iff hends hinvariant hentryProgram hentryHavocs hnames hentry]

end Check

/-- A variable is set to two and counted down: its loop is entered in the
invariant, so the check passes. -/
theorem invariantConditions_hold_iff_countdown :
    let program := Term.seq (.assign (.var "x") (.int 2) false) (.seq countdown .skip)
    ∃ conditions after,
      Gives (Task.invariantConditions "countdown" (.bool true) program) countdownState
        conditions after ∧
      ∀ store, ∀ claim ∈ conditions.map Condition.claim, claim.Holds .standard store := by
  intro program
  have hgives : ∃ conditions after, Gives (Task.invariantConditions "countdown" (.bool true)
      program) countdownState conditions after := ⟨_, _, rfl⟩
  obtain ⟨conditions, after, hgives⟩ := hgives
  have hends : EndsIn countdown (.seq (.assign (.var "x") (.int 2) false) .skip) program :=
    .before rfl (.after .loop)
  have hentered : ∀ store entered, Exec .standard jointHavoc
      (.seq (.assign (.var "x") (.int 2) false) .skip) store (.done entered) →
      (atLeast 0 (.var "x")).Holds .standard entered := by
    intro store entered hexec
    obtain ⟨_, hassign, hskip⟩ := exec_seq_iff.mp hexec
    obtain rfl := exec_skip_iff.mp hskip
    cases hassign
    exact holds_atLeast.mpr ⟨2, rfl, by decide⟩
  refine ⟨conditions, after, hgives, fun store => ?_⟩
  exact (invariantConditions_hold_iff hends (by decide) (by decide) (by decide) (by decide)
    (by decide) (by decide) rfl rfl hgives store).mpr
    fun _ entered hexec _ => hentered store entered hexec

/-! ## An invariant that is not kept -/

def isFive (value : Term) : Term :=
  .binary value .eq (.int 5)

theorem holds_isFive {value : Term} {store : Store} :
    (isFive value).Holds .standard store ↔ value.eval .standard store = .int 5 := by
  simp only [isFive, Term.Holds, eval_binary, Interpretation.applyBinary,
    Operator.connective?, eval_int]
  cases value.eval .standard store <;> simp [Interpretation.standard, Operator.onInts, Value.truth]

def belowTen (value : Term) : Term :=
  .binary value .lt (.int 10)

def successor (value : Term) : Term :=
  .binary value .add (.int 1)

/-- The variable is claimed to be five each time around, and counted up to ten. -/
def countUp : Term :=
  .loop (isFive (.var "x")) (belowTen (.var "x"))
    (.seq (.assign (.var "x") (successor (.var "x")) false) .skip)

/-- What the check of the invariant asks of an iteration. -/
def staysFive : Term :=
  let value := Term.var "x@0"
  .quantified .universal value (some .int) .missing
    (.binary (isFive value) .implies
      (.binary
        (.binary (belowTen value) .implies
          (.binary (.binary (.bool false) .implies (isFive (successor value))) .implies
            (isFive (successor value))))
        .and
        (.binary (.unary .not (belowTen value)) .implies (isFive value))))
    false

/-- An iteration that starts with five ends with six. -/
theorem not_holds_staysFive (store : Store) : ¬ staysFive.Holds .standard store := by
  intro hstays
  have hfive := Term.holds_forall.mp hstays (.int 5) ⟨5, rfl⟩
  simp only [holds_implies, holds_and, holds_bool, holds_isFive, Store.bind_var] at hfive
  have hsix := (hfive (Function.update_self ..)).1 rfl (by simp)
  cases hsix

/-- The check passes a loop that is entered outside its invariant, and whose body
does not keep it. -/
theorem unkept_invariant_passes :
    let entry := Term.assign (.var "x") (.int 0) false
    let program := Term.seq entry (.seq countUp .skip)
    let body := Term.seq (.assign (.var "x") (successor (.var "x")) false) .skip
    ∃ conditions after,
      Gives (Task.invariantConditions "countdown" (.bool true) program) countdownState
        conditions after ∧
      (∀ store, ∀ claim ∈ conditions.map Condition.claim, claim.Holds .standard store) ∧
      (∀ store entered, Exec .standard jointHavoc entry store (.done entered) →
        ¬ (isFive (.var "x")).Holds .standard entered) ∧
      ¬ Keeps .standard jointHavoc (isFive (.var "x")) (belowTen (.var "x")) body
        fun _ => .int 5 := by
  intro entry program body
  have hgives : Gives (Task.invariantConditions "countdown" (.bool true) program)
      countdownState
      [⟨.binary (.bool true) .implies (.binary staysFive .implies (isFive (.int 0))), true⟩]
      { countdownState with
        verifier := { countdownState.verifier with counts := [("x", 0)] } } := rfl
  refine ⟨_, _, hgives, fun store claim hclaim => ?_, fun store entered hexec hfive => ?_,
    fun hkeeps => ?_⟩
  · rw [List.map_singleton, List.mem_singleton] at hclaim
    subst hclaim
    simp only [Term.holds_implies]
    exact fun _ hstays => absurd hstays (not_holds_staysFive store)
  · unfold entry at hexec
    cases hexec
    cases holds_isFive.mp hfive
  · have hsix := hkeeps (holds_isFive.mpr rfl) rfl _ (.seq .assign .skip)
    cases holds_isFive.mp hsix

end HoareCheck
