import HoareCheck.Proofs.VerifySoundness

/-!
# What verdicts are used for

A task is accepted if all its conditions have formulas and no formula is
answered to have a model (`verify_accepts_iff`).  An undecided formula passes
like one without a model, so that an accepted task has been proved exactly if
none of its formulas was left undecided (`accepted_unsat_iff`).
-/

namespace HoareCheck

variable {verdicts : List Verdict} {context : EncodingContext} {state : EncodingState}
  {conditions : List Condition}

/-- The verdict on the formula that is asked at a position.  Once the verdicts
are used up, no more models are found. -/
def answer (verdicts : List Verdict) (index : Nat) : Verdict :=
  verdicts.getD index .unsat

theorem answer_zero_eq_sat : answer verdicts 0 = .sat ↔ verdicts.head? = some .sat := by
  cases verdicts <;> simp [answer]

theorem answer_succ (verdicts : List Verdict) (index : Nat) :
    answer verdicts (index + 1) = answer verdicts.tail index := by
  cases verdicts <;> simp [answer]

/-- The conditions have these formulas, each of them encoded in the state that
the conditions before it leave behind. -/
inductive Asks (context : EncodingContext) :
    EncodingState → List Condition → List Formula → Prop
  | nil {state : EncodingState} : Asks context state [] []
  | cons {state next : EncodingState} {condition : Condition} {rest : List Condition}
      {formula : Formula} {formulas : List Formula} :
      Gives (condition.query.run context) state formula next →
      Asks context next rest formulas →
      Asks context state (condition :: rest) (formula :: formulas)

theorem Asks.length_eq {formulas : List Formula} (hasks : Asks context state conditions formulas) :
    formulas.length = conditions.length := by
  induction hasks with
  | nil => rfl
  | cons _ _ ih => rw [List.length_cons, List.length_cons, ih]

/-- Conditions pass if all of them have formulas, which are asked in order, and
none is answered to have a model. -/
theorem checkAll_accepts_iff :
    (checkAll context state verdicts conditions).outcome = .ok () ↔
      Asks context state conditions (checkAll context state verdicts conditions).queries ∧
        ∀ index < conditions.length, answer verdicts index ≠ .sat := by
  induction conditions generalizing state verdicts with
  | nil => simp [checkAll, Asks.nil]
  | cons condition rest ih =>
    rw [List.length_cons, Nat.forall_lt_succ_left]
    simp only [answer_succ, ne_eq, answer_zero_eq_sat]
    rcases hquery : (condition.query.run context).run.run state with ⟨_ | formula, next⟩
    · -- Without a formula the run ends here, and nothing has been asked.
      rw [checkAll, hquery]
      constructor
      · intro houtcome
        cases houtcome
      · rintro ⟨hasks, -⟩
        cases hasks
    · by_cases hsat : verdicts.head? = some .sat
      · simp [checkAll, hquery, hsat]
      · have hchecked : (checkAll context state verdicts (condition :: rest)).outcome =
            (checkAll context next verdicts.tail rest).outcome := by
          simp only [checkAll, hquery, hsat, if_false]
        have hqueries : (checkAll context state verdicts (condition :: rest)).queries =
            formula :: (checkAll context next verdicts.tail rest).queries := by
          simp only [checkAll, hquery, hsat, if_false]
        rw [hchecked, hqueries, ih]
        constructor
        · rintro ⟨hasks, hanswers⟩
          exact ⟨.cons hquery hasks, hsat, hanswers⟩
        · rintro ⟨hasks, -, hanswers⟩
          cases hasks with
          | cons hgives hrest =>
            obtain ⟨-, rfl⟩ := hgives.unique hquery
            exact ⟨hrest, hanswers⟩

/-! ## Tasks -/

section Tasks

variable {verifier : Verifier} {task : Task} {verdicts : List Verdict}

/-- An accepted task has conditions, and a scope with an environment. -/
theorem exists_conditions_of_accepts
    (haccepts : (verifier.verify task verdicts).outcome = .ok ()) :
    ∃ conditions state env,
      Gives task.conditions { log := .empty, verifier } conditions state ∧
        state.verifier.scopes.find? task.scope = some (some env) := by
  rw [Verifier.verify] at haccepts
  rcases hrun : task.conditions.run { log := .empty, verifier } with ⟨_ | conditions, state⟩
  · rw [hrun] at haccepts
    cases haccepts
  · rcases hscope : state.verifier.scopes.find? task.scope with _ | _ | env
    · simp [hrun, hscope] at haccepts
    · simp [hrun, hscope] at haccepts
    · exact ⟨conditions, state, env, hrun, hscope⟩

variable (verdicts) in
/-- A task with conditions does what checking them does. -/
theorem verify_eq_checkAll {state : RunState} {env : TypeEnv}
    (hgives : Gives task.conditions { log := .empty, verifier } conditions state)
    (hscope : state.verifier.scopes.find? task.scope = some (some env)) :
    let checked := checkAll { log := state.log, lengths := task.lengths }
      { names := NameTable.ofEnv task.twoRuns env, lines := 0 } verdicts conditions
    (verifier.verify task verdicts).outcome = checked.outcome ∧
      (verifier.verify task verdicts).queries = checked.queries := by
  have hrun : task.conditions.run { log := .empty, verifier } = (.ok conditions, state) := hgives
  simp [Verifier.verify, hrun, hscope]

/-- The formulas of a task, in the order of its conditions. -/
def Task.AsksAll (task : Task) (verifier : Verifier) (conditions : List Condition)
    (formulas : List Formula) : Prop :=
  ∃ state env, Gives task.conditions { log := .empty, verifier } conditions state ∧
    state.verifier.scopes.find? task.scope = some (some env) ∧
    Asks { log := state.log, lengths := task.lengths }
      { names := NameTable.ofEnv task.twoRuns env, lines := 0 } conditions formulas

/-- A task is accepted if a formula is asked for each of its conditions, and none
is answered to have a model. -/
theorem verify_accepts_iff :
    (verifier.verify task verdicts).outcome = .ok () ↔
      (∃ conditions,
        task.AsksAll verifier conditions (verifier.verify task verdicts).queries) ∧
        ∀ index < (verifier.verify task verdicts).queries.length,
          answer verdicts index ≠ .sat := by
  constructor
  · intro haccepts
    obtain ⟨conditions, state, env, hgives, hscope⟩ := exists_conditions_of_accepts haccepts
    obtain ⟨houtcome, hqueries⟩ := verify_eq_checkAll verdicts hgives hscope
    rw [houtcome, checkAll_accepts_iff] at haccepts
    rw [hqueries, haccepts.1.length_eq]
    exact ⟨⟨conditions, state, env, hgives, hscope, haccepts.1⟩, haccepts.2⟩
  · rintro ⟨⟨_, _, _, hgives, hscope, hasks⟩, hanswers⟩
    obtain ⟨houtcome, hqueries⟩ := verify_eq_checkAll verdicts hgives hscope
    rw [hqueries] at hasks hanswers
    rw [houtcome, checkAll_accepts_iff, ← hasks.length_eq]
    exact ⟨hasks, hanswers⟩

/-- An accepted task asked a formula for each of its conditions.  All of them
were answered to have no model exactly if none was left undecided. -/
theorem accepted_unsat_iff (haccepts : (verifier.verify task verdicts).outcome = .ok ()) :
    (∃ conditions,
      task.AsksAll verifier conditions (verifier.verify task verdicts).queries) ∧
      ((∀ index < (verifier.verify task verdicts).queries.length,
          answer verdicts index = .unsat) ↔
        ∀ index < (verifier.verify task verdicts).queries.length,
          answer verdicts index ≠ .unknown) := by
  obtain ⟨hasks, hanswers⟩ := verify_accepts_iff.mp haccepts
  refine ⟨hasks, ?_⟩
  constructor
  · intro hunsat index hindex
    rw [hunsat index hindex]
    decide
  · intro hdecided index hindex
    have hsat := hanswers index hindex
    have hunknown := hdecided index hindex
    cases hanswer : answer verdicts index with
    | sat => exact absurd hanswer hsat
    | unsat => rfl
    | unknown => exact absurd hanswer hunknown

end Tasks

/-- The countdown is accepted, and no formula of it was left undecided. -/
theorem accepted_unsat_iff_countdownTask :
    let verdicts := List.replicate 3 Verdict.unsat
    let report := countdownVerifier.verify countdownTask verdicts
    report.outcome = .ok () ∧
      (∃ conditions, countdownTask.AsksAll countdownVerifier conditions report.queries) ∧
      ∀ index < report.queries.length, answer verdicts index = .unsat := by
  intro verdicts report
  have haccepts : report.outcome = .ok () := verify_countdownTask.1
  obtain ⟨hasks, hunsat⟩ := accepted_unsat_iff haccepts
  refine ⟨haccepts, hasks, hunsat.mpr ?_⟩
  intro index hindex
  rw [verify_countdownTask.2.length_eq] at hindex
  have hall : ∀ index < countdownQueries.length, answer verdicts index ≠ .unknown := by
    decide
  exact hall index hindex

/-- The claim that no three cubes sum to 42. -/
def cubesTask : Task :=
  { code := "pass\n"
    scope := "cubes"
    precondition := "True"
    postcondition := "x * x * x + y * y * y + z * z * z != 42"
    twoRuns := false
    checksInvariants := false
    lengths := [] }

def cubesVerifier : Verifier :=
  Verifier.new.register "cubes"
    (some [("x", .known .int), ("y", .known .int), ("z", .known .int)])

def cubesQuery : Formula :=
  let cube (name : String) : Formula :=
    .arithmetic .mul (.arithmetic .mul (.const name .int) (.const name .int)) (.const name .int)
  .not (.implies (.truth true) (.not (.equal
    (.arithmetic .add (.arithmetic .add (cube "x") (cube "y")) (cube "z")) (.int 42))))

/-- The store of three cubes that sum to 42. -/
def cubesStore : String → Int
  | "x" => 80435758145817515
  | "y" => 12602123297335631
  | "z" => -80538738812075974
  | _ => 0

/-- A task whose only formula is left undecided is accepted, and yet the formula
has a model: the postcondition is false in it. -/
theorem undecided_accepted :
    let report := cubesVerifier.verify cubesTask [.unknown]
    report.outcome = .ok () ∧ report.queries = [cubesQuery] ∧
      answer [.unknown] 0 = .unknown ∧ cubesQuery.Satisfiable := by
  refine ⟨by decide +kernel, by decide +kernel, rfl, ?_⟩
  refine ⟨.ofStore (.ofInts cubesStore) (Store.ofInts_isInteger cubesStore), ?_⟩
  simp [cubesQuery, Model.ofStore, Store.ofInts, Model.arithmetic, cubesStore]

end HoareCheck
