import HoareCheck.Proofs.UnjudgedConditions
import HoareCheck.Proofs.UnjudgedFormulas
import HoareCheck.Proofs.VerdictUse

/-!
# What verdicts change

The verdicts of the solver decide where a run ends and nothing else: runs of one
task ask the same formulas up to there, and leave the same verifier behind.  A
run that the solver ends was answered by a model at its last formula, and there
alone.  Its fault tells whether that formula belongs to the cut program
(`verdicts_end_runs`).
-/

namespace HoareCheck

variable {verdicts : List Verdict} {state : EncodingState} {conditions : List Condition}
  {fault : Fault} {index : Nat}

/-! ## Checks -/

section Checks

variable {context : EncodingContext}

/-- Whatever the verdicts are, one of two rows of formulas continues the other. -/
theorem checkAll_queries_prefix (state : EncodingState) (verdicts others : List Verdict)
    (conditions : List Condition) :
    (checkAll context state verdicts conditions).queries <+:
        (checkAll context state others conditions).queries ∨
      (checkAll context state others conditions).queries <+:
        (checkAll context state verdicts conditions).queries := by
  induction conditions generalizing state verdicts others with
  | nil => exact .inl List.prefix_rfl
  | cons condition rest ih =>
    rcases hquery : (condition.query.run context).run.run state with ⟨fault | formula, next⟩
    · left
      simp [checkAll, hquery]
    · have hstop : ∀ verdicts : List Verdict, verdicts.head? = some .sat →
          (checkAll context state verdicts (condition :: rest)).queries = [formula] := by
        intro verdicts hsat
        simp [checkAll, hquery, hsat]
      have hgoOn : ∀ verdicts : List Verdict, verdicts.head? ≠ some .sat →
          (checkAll context state verdicts (condition :: rest)).queries =
            formula :: (checkAll context next verdicts.tail rest).queries := by
        intro verdicts hsat
        simp [checkAll, hquery, hsat]
      by_cases hfirst : verdicts.head? = some .sat
      · left
        rw [hstop verdicts hfirst]
        by_cases hsecond : others.head? = some .sat
        · rw [hstop others hsecond]
        · rw [hgoOn others hsecond]
          exact List.cons_prefix_cons.mpr ⟨rfl, List.nil_prefix⟩
      · by_cases hsecond : others.head? = some .sat
        · right
          rw [hstop others hsecond, hgoOn verdicts hfirst]
          exact List.cons_prefix_cons.mpr ⟨rfl, List.nil_prefix⟩
        · rw [hgoOn verdicts hfirst, hgoOn others hsecond]
          simp only [List.cons_prefix_cons, true_and]
          exact ih next verdicts.tail others.tail

/-- A formula that is answered to have a model is the last one. -/
def EndsAt (verdicts : List Verdict) (queries : List Formula) (last : Nat) : Prop :=
  queries.length = last + 1 ∧ answer verdicts last = .sat ∧
    ∀ index < last, answer verdicts index ≠ .sat

theorem endsAt_zero (formula : Formula) (hsat : verdicts.head? = some .sat) :
    EndsAt verdicts [formula] 0 :=
  ⟨rfl, answer_zero_eq_sat.mpr hsat, fun _ hindex => absurd hindex (Nat.not_lt_zero _)⟩

theorem EndsAt.succ {verdicts : List Verdict} {queries : List Formula} {last : Nat}
    (hends : EndsAt verdicts.tail queries last) (formula : Formula)
    (hsat : verdicts.head? ≠ some .sat) : EndsAt verdicts (formula :: queries) (last + 1) := by
  obtain ⟨hlength, hlast, hbefore⟩ := hends
  refine ⟨by rw [List.length_cons, hlength], by rw [answer_succ, hlast], ?_⟩
  intro index hindex
  cases index with
  | zero => exact fun hanswer => hsat (answer_zero_eq_sat.mp hanswer)
  | succ index =>
    rw [answer_succ]
    exact hbefore index (Nat.lt_of_succ_lt_succ hindex)

/-- A fault of a verdict is that of the condition whose formula has a model. -/
theorem exists_endsAt_of_checkAll
    (houtcome : (checkAll context state verdicts conditions).outcome = .error fault)
    (hverdict : fault.IsVerdict) :
    ∃ last condition, EndsAt verdicts (checkAll context state verdicts conditions).queries last ∧
      conditions[last]? = some condition ∧ fault = condition.failure := by
  induction conditions generalizing state verdicts with
  | nil => cases houtcome
  | cons condition _ ih =>
    rcases hquery : (condition.query.run context).run.run state with ⟨raised | formula, next⟩
    · -- The formula cannot be built, and that is no fault of a verdict.
      simp only [checkAll, hquery, Except.error.injEq] at houtcome
      subst houtcome
      have hspared := unjudged_query condition context state raised
      exact absurd hverdict (hspared (congrArg Prod.fst hquery))
    · by_cases hsat : verdicts.head? = some .sat
      · simp only [checkAll, hquery, hsat, if_true, Except.error.injEq] at houtcome ⊢
        exact ⟨0, condition, endsAt_zero formula hsat, rfl, houtcome.symm⟩
      · simp only [checkAll, hquery, hsat, if_false] at houtcome ⊢
        obtain ⟨last, failed, hends, hfailed, hfault⟩ := ih houtcome
        exact ⟨last + 1, failed, hends.succ formula hsat, hfailed, hfault⟩

/-- A formula that has a model ends the checks with a fault of a verdict. -/
theorem checkAll_isVerdict_of_sat
    (hindex : index < (checkAll context state verdicts conditions).queries.length)
    (hsat : answer verdicts index = .sat) :
    ∃ fault, (checkAll context state verdicts conditions).outcome = .error fault ∧
      fault.IsVerdict := by
  induction conditions generalizing state verdicts index with
  | nil => cases hindex
  | cons condition _ ih =>
    rcases hquery : (condition.query.run context).run.run state with ⟨raised | formula, next⟩
    · simp [checkAll, hquery] at hindex
    · by_cases hhead : verdicts.head? = some .sat
      · refine ⟨condition.failure, by simp [checkAll, hquery, hhead], ?_⟩
        rw [Condition.failure]
        split_ifs <;> decide
      · simp only [checkAll, hquery, hhead, if_false, List.length_cons] at hindex ⊢
        cases index with
        | zero => exact absurd (answer_zero_eq_sat.mp hsat) hhead
        | succ =>
          rw [answer_succ] at hsat
          exact ih (Nat.lt_of_succ_lt_succ hindex) hsat

end Checks

/-! ## Conditions of a task -/

namespace Task

/-- The statement of a task and its claims, read and typed. -/
def prepared (task : Task) : Run (Term × Term × Term) := do
  let statement ← task.statement
  let pre ← Run.logged (Logged.parse task.precondition)
  let post ← Run.logged (Logged.parse task.postcondition)
  let _ ← Run.typing task.scope statement.resolveStatement
  let _ ← Run.typing task.scope pre.resolveClaim
  let _ ← Run.typing task.scope post.resolveClaim
  return (statement, pre, post)

theorem conditions_eq (task : Task) :
    task.conditions = task.prepared >>= fun parts =>
      (if task.checksInvariants then invariantConditions task.scope parts.2.1 parts.1
        else pure []) >>= fun ofInvariants =>
      conditionsOf task.scope parts.2.1 parts.1 parts.2.2 false >>= fun ofProgram =>
      pure (ofInvariants ++ ofProgram) := by
  simp only [conditions, prepared, bind_assoc, pure_bind]
  cases task.checksInvariants <;> rfl

/-- The obligations of a statement with its loops cut, for the first of its
invariants. -/
def cutObligations (scope : String) (statement : Term) : Run Obligations := do
  let cut ← Run.cutting statement.cutLoops
  let log := (← get).log
  match sortByText log cut.invariants with
  | invariant :: _ => orderedObligations scope cut.program invariant
  | [] => throw .noSuchIndex

section Conditions

variable {task : Task} {scope : String} {pre statement post : Term} {before after : RunState}
  {conditions : List Condition}

theorem aboutInvariant_of_gives_conditionsOf {aboutInvariant : Bool}
    (hgives : Gives (conditionsOf scope pre statement post aboutInvariant) before conditions
      after) :
    ∀ condition ∈ conditions, condition.aboutInvariant = aboutInvariant := by
  simp only [conditionsOf, gives_bind, gives_pure] at hgives
  obtain ⟨_, _, -, rfl, -⟩ := hgives
  intro condition hcondition
  obtain ⟨_, -, rfl⟩ := List.mem_map.mp hcondition
  rfl

/-- The cut program has a condition for its precondition, and one for each of
its side conditions. -/
theorem length_of_gives_invariantConditions
    (hgives : Gives (invariantConditions scope pre statement) before conditions after) :
    (∀ condition ∈ conditions, condition.aboutInvariant = true) ∧
      ∃ obligations, Gives (cutObligations scope statement) before obligations after ∧
        conditions.length = 1 + obligations.sideConditions.length := by
  simp only [invariantConditions, gives_bind] at hgives
  obtain ⟨cut, between, hcut, _, _, hget, hconditions⟩ := hgives
  obtain ⟨rfl, rfl⟩ := gives_get.mp hget
  cases hsorted : sortByText between.log cut.invariants with
  | nil => simp [hsorted] at hconditions
  | cons =>
    simp only [hsorted] at hconditions
    refine ⟨aboutInvariant_of_gives_conditionsOf hconditions, ?_⟩
    simp only [conditionsOf, gives_bind, gives_pure] at hconditions
    obtain ⟨obligations, _, hobligations, rfl, rfl⟩ := hconditions
    refine ⟨obligations, ?_, by simp [Nat.add_comm]⟩
    simp only [cutObligations, gives_bind]
    refine ⟨cut, between, hcut, between, between, gives_get.mpr ⟨rfl, rfl⟩, ?_⟩
    simp only [hsorted]
    exact hobligations

/-- The conditions of a task: those of the cut program if they are asked for,
and those of the program. -/
theorem of_gives_conditions (hgives : Gives task.conditions before conditions after) :
    ∃ parts between ofInvariants next ofProgram,
      Gives task.prepared before parts between ∧
      Gives (if task.checksInvariants then invariantConditions task.scope parts.2.1 parts.1
        else pure []) between ofInvariants next ∧
      Gives (conditionsOf task.scope parts.2.1 parts.1 parts.2.2 false) next ofProgram after ∧
      conditions = ofInvariants ++ ofProgram := by
  rw [conditions_eq] at hgives
  simp only [gives_bind, gives_pure] at hgives
  obtain ⟨parts, between, hprepared, ofInvariants, next, hinvariants, ofProgram, _, hprogram,
    rfl, rfl⟩ := hgives
  exact ⟨parts, between, ofInvariants, next, ofProgram, hprepared, hinvariants, hprogram, rfl⟩

/-- A condition is one of an invariant exactly if it stands among those of the
cut program. -/
theorem aboutInvariant_iff_of_gives_conditions
    (hgives : Gives task.conditions before conditions after) :
    (task.checksInvariants = false →
        ∀ condition ∈ conditions, condition.aboutInvariant = false) ∧
      (task.checksInvariants = true →
        ∃ parts between obligations next, Gives task.prepared before parts between ∧
          Gives (cutObligations task.scope parts.1) between obligations next ∧
          ∀ index condition, conditions[index]? = some condition →
            (condition.aboutInvariant = true ↔ index < 1 + obligations.sideConditions.length)) := by
  obtain ⟨parts, between, ofInvariants, next, _, hprepared, hinvariants, hprogram, rfl⟩ :=
    of_gives_conditions hgives
  have hofProgram := aboutInvariant_of_gives_conditionsOf hprogram
  constructor
  · intro hskips
    rw [hskips] at hinvariants
    obtain ⟨rfl, -⟩ := gives_pure.mp hinvariants
    exact hofProgram
  · intro hchecks
    rw [hchecks] at hinvariants
    obtain ⟨hofInvariants, obligations, hobligations, hlength⟩ :=
      length_of_gives_invariantConditions hinvariants
    refine ⟨parts, between, obligations, next, hprepared, hobligations, ?_⟩
    intro index condition hcondition
    rw [← hlength]
    by_cases hindex : index < ofInvariants.length
    · rw [List.getElem?_append_left hindex] at hcondition
      simp [hindex, hofInvariants condition (List.mem_of_getElem? hcondition)]
    · rw [List.getElem?_append_right (Nat.le_of_not_lt hindex)] at hcondition
      simp [hindex, hofProgram condition (List.mem_of_getElem? hcondition)]

end Conditions

end Task

/-! ## Runs -/

section Runs

variable {verifier : Verifier} {task : Task} {verdicts : List Verdict}

/-- A run that asks formulas, or that the solver ends, has computed its conditions. -/
theorem exists_conditions_of_judged
    (hjudged : (verifier.verify task verdicts).queries ≠ [] ∨
      ∃ fault, (verifier.verify task verdicts).outcome = .error fault ∧ fault.IsVerdict) :
    ∃ conditions state env,
      Gives task.conditions { log := .empty, verifier } conditions state ∧
        state.verifier.scopes.find? task.scope = some (some env) := by
  rw [Verifier.verify] at hjudged
  rcases hrun : task.conditions.run { log := .empty, verifier } with ⟨raised | conditions, state⟩
  · have hspared : ¬ raised.IsVerdict :=
      Task.unjudged_conditions task _ raised (congrArg Prod.fst hrun)
    simp [hrun, hspared] at hjudged
  · rcases hscope : state.verifier.scopes.find? task.scope with _ | _ | env
    · simp [hrun, hscope, Fault.IsVerdict] at hjudged
    · simp [hrun, hscope, Fault.IsVerdict] at hjudged
    · exact ⟨conditions, state, env, hrun, hscope⟩

theorem verify_verifier_eq (verdicts others : List Verdict) :
    (verifier.verify task verdicts).verifier = (verifier.verify task others).verifier := by
  rw [Verifier.verify, Verifier.verify]
  rcases hrun : task.conditions.run { log := .empty, verifier } with ⟨_ | conditions, state⟩
  · rfl
  · rcases hscope : state.verifier.scopes.find? task.scope with _ | _ | env
    · simp [hscope]
    · simp [hscope]
    · simp [hscope]

theorem verify_queries_prefix (verdicts others : List Verdict) :
    (verifier.verify task verdicts).queries <+: (verifier.verify task others).queries ∨
      (verifier.verify task others).queries <+: (verifier.verify task verdicts).queries := by
  by_cases hqueries : (verifier.verify task verdicts).queries = []
  · left
    rw [hqueries]
    exact List.nil_prefix
  · obtain ⟨conditions, _, _, hgives, hscope⟩ := exists_conditions_of_judged (.inl hqueries)
    rw [(verify_eq_checkAll verdicts hgives hscope).2, (verify_eq_checkAll others hgives hscope).2]
    exact checkAll_queries_prefix _ verdicts others conditions

/-- A run that the solver ends was answered by a model at its last formula.  The
formulas of the cut program come first: that of its precondition, and those of its
side conditions. -/
theorem exists_endsAt_of_verdict (houtcome : (verifier.verify task verdicts).outcome = .error fault)
    (hverdict : fault.IsVerdict) :
    ∃ last, EndsAt verdicts (verifier.verify task verdicts).queries last ∧
      (task.checksInvariants = false → fault = .violatedCondition) ∧
      (task.checksInvariants = true →
        ∃ parts between obligations next,
          Gives task.prepared { log := .empty, verifier } parts between ∧
          Gives (Task.cutObligations task.scope parts.1) between obligations next ∧
          fault = if last < 1 + obligations.sideConditions.length then .invalidInvariant
            else .violatedCondition) := by
  obtain ⟨_, _, _, hgives, hscope⟩ := exists_conditions_of_judged (.inr ⟨fault, houtcome, hverdict⟩)
  obtain ⟨hchecked, hqueries⟩ := verify_eq_checkAll verdicts hgives hscope
  obtain ⟨last, condition, hends, hcondition, rfl⟩ :=
    exists_endsAt_of_checkAll (hchecked.symm.trans houtcome) hverdict
  obtain ⟨hskips, hchecks⟩ := Task.aboutInvariant_iff_of_gives_conditions hgives
  refine ⟨last, hqueries ▸ hends, ?_, ?_⟩
  · intro hskip
    rw [Condition.failure, hskips hskip condition (List.mem_of_getElem? hcondition)]
    rfl
  · intro hcheck
    obtain ⟨parts, between, obligations, next, hprepared, hobligations, habout⟩ := hchecks hcheck
    refine ⟨parts, between, obligations, next, hprepared, hobligations, ?_⟩
    rw [Condition.failure]
    exact if_congr (habout last condition hcondition) rfl rfl

theorem exists_verdict_of_sat (hindex : index < (verifier.verify task verdicts).queries.length)
    (hsat : answer verdicts index = .sat) :
    ∃ fault, (verifier.verify task verdicts).outcome = .error fault ∧ fault.IsVerdict := by
  have hqueries : (verifier.verify task verdicts).queries ≠ [] :=
    List.ne_nil_of_length_pos (Nat.zero_lt_of_lt hindex)
  obtain ⟨_, _, _, hgives, hscope⟩ := exists_conditions_of_judged (.inl hqueries)
  obtain ⟨hchecked, hasked⟩ := verify_eq_checkAll verdicts hgives hscope
  obtain ⟨fault, hfault, hverdict⟩ := checkAll_isVerdict_of_sat (hasked ▸ hindex) hsat
  exact ⟨fault, hchecked.trans hfault, hverdict⟩

end Runs

end HoareCheck
