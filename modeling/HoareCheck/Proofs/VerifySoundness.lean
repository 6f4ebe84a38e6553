import HoareCheck.Proofs.SourceMeaning
import HoareCheck.Verifier.Verify

/-!
# Soundness of verification

If a task with integer variables is verified, and none of the formulas asked on
the way has a model, then every run of its program from a store of the
precondition ends in the postcondition (`verify_sound`).

The conditions of the task are typed claims, so that each of them holds in every
store of integers if its negation has no model; together they are the
obligations of the statement that has the runs of the program.
-/

namespace HoareCheck

variable {before after : RunState} {context : EncodingContext} {formula : Formula}
  {verdicts : List Verdict} {conditions : List Condition} {scope : String}

/-! ## Checking of conditions -/

/-- The formula of a condition has a model for every store of integers in which
the condition is false. -/
theorem Condition.query_valid {condition : Condition} {before after : EncodingState}
    (htyped : condition.claim.Typed .bool) (hnames : ∀ entry ∈ before.names, entry.2 = .int)
    (hgives : Gives (condition.query.run context) before formula after) :
    after = before ∧ (¬ formula.Satisfiable →
      ∀ store : Store, store.IsInteger → condition.claim.Holds .standard store) := by
  simp only [Condition.query, Term.encode, ReaderT.run_bind, gives_bind] at hgives
  obtain ⟨operand, _, ⟨_, _, hread, hoperand⟩, hformula⟩ := hgives
  obtain ⟨rfl, rfl⟩ := gives_pure.mp hread
  cases operand with
  | plain => cases hformula
  | symbolic =>
    obtain ⟨rfl, rfl⟩ := gives_pure.mp hformula
    have hencodes := fun (store : Store) (hstore : store.IsInteger) =>
      htyped.not.encodes hstore hnames hoperand
    refine ⟨(hencodes _ (Store.ofInts_isInteger fun _ => 0)).1, ?_⟩
    intro hunsatisfiable store hstore
    obtain ⟨-, -, hmeans⟩ := hencodes store hstore
    by_contra hfalse
    cases hmeans with
    | symbolic _ heval =>
      refine hunsatisfiable ⟨.ofStore store hstore, ?_⟩
      rw [heval]
      exact Term.holds_not.mpr hfalse

/-- Conditions that pass hold in every store of integers, if no formula that was
asked has a model. -/
theorem checkAll_valid {state : EncodingState}
    (htyped : ∀ condition ∈ conditions, condition.claim.Typed .bool)
    (hnames : ∀ entry ∈ state.names, entry.2 = .int)
    (houtcome : (checkAll context state verdicts conditions).outcome = .ok ())
    (hqueries : ∀ formula ∈ (checkAll context state verdicts conditions).queries,
      ¬ formula.Satisfiable) :
    ∀ condition ∈ conditions, ∀ store : Store, store.IsInteger →
      condition.claim.Holds .standard store := by
  induction conditions generalizing verdicts with
  | nil => simp
  | cons condition _ ih =>
    rw [checkAll] at houtcome hqueries
    rcases hquery : (condition.query.run context).run.run state with
      ⟨_ | formula, next⟩
    · rw [hquery] at houtcome
      cases houtcome
    · rw [hquery] at houtcome hqueries
      obtain ⟨rfl, hvalid⟩ := condition.query_valid (htyped condition (by simp)) hnames hquery
      by_cases hsat : verdicts.head? = some .sat
      · simp [hsat] at houtcome
      · simp only [hsat, if_false] at houtcome hqueries
        intro other hother
        rcases List.mem_cons.mp hother with rfl | hother
        · exact hvalid (hqueries formula (by simp))
        · refine ih (fun claim hclaim => htyped claim (by simp [hclaim])) houtcome ?_ other hother
          exact fun formula hformula => hqueries formula (by simp [hformula])

/-! ## Steps of a task -/

section Steps

variable {α : Type} {value : α} {before after : RunState}

theorem Run.gives_ofExcept {outcome : Except Fault α} :
    Gives (Run.ofExcept outcome) before value after ↔ outcome = .ok value ∧ before = after := by
  cases outcome with
  | error =>
    constructor
    · intro hgives
      cases hgives
    · rintro ⟨hvalue, -⟩
      cases hvalue
  | ok =>
    rw [Except.ok.injEq]
    exact gives_pure

theorem Run.gives_logged {computation : Logged α} :
    Gives (Run.logged computation) before value after ↔
      ∃ log, Gives computation before.log value log ∧ after = { before with log } := by
  simp only [Run.logged, gives_bind, gives_get]
  constructor
  · rintro ⟨_, _, ⟨rfl, rfl⟩, hgives⟩
    rcases hrun : computation.run before.log with ⟨outcome, log⟩
    simp only [hrun, gives_bind, gives_set, gives_ofExcept] at hgives
    obtain ⟨_, _, rfl, rfl, rfl⟩ := hgives
    exact ⟨log, hrun, rfl⟩
  · rintro ⟨log, hgives, rfl⟩
    have hrun : computation.run before.log = (.ok value, log) := hgives
    refine ⟨before, before, ⟨rfl, rfl⟩, ?_⟩
    simp [hrun, gives_ofExcept]

theorem Run.gives_env {env : Option TypeEnv} :
    Gives (Run.env scope) before env after ↔
      before.verifier.scopes.find? scope = some env ∧ before = after := by
  simp only [Run.env, gives_bind, gives_get]
  constructor
  · rintro ⟨_, _, ⟨rfl, rfl⟩, hgives⟩
    cases hfind : before.verifier.scopes.find? scope with
    | none => simp [hfind] at hgives
    | some => simpa [hfind] using hgives
  · rintro ⟨hfind, rfl⟩
    exact ⟨before, before, ⟨rfl, rfl⟩, by simp [hfind]⟩

theorem Run.gives_typing {computation : Typing α} :
    Gives (Run.typing scope computation) before value after ↔
      ∃ env next, before.verifier.scopes.find? scope = some env ∧
        Gives computation env value next ∧
        after = { before with verifier := before.verifier.register scope next } := by
  simp only [Run.typing, gives_bind, gives_env]
  constructor
  · rintro ⟨env, _, ⟨hfind, rfl⟩, hgives⟩
    rcases hrun : computation.run env with ⟨outcome, next⟩
    simp only [hrun, gives_bind, gives_modify, gives_ofExcept] at hgives
    obtain ⟨_, _, rfl, rfl, rfl⟩ := hgives
    exact ⟨env, next, hfind, hrun, rfl⟩
  · rintro ⟨env, next, hfind, hgives, rfl⟩
    have hrun : computation.run env = (.ok value, next) := hgives
    refine ⟨env, before, ⟨hfind, rfl⟩, ?_⟩
    simp [hrun, gives_ofExcept]

/-- Reading an elementary claim changes nothing. -/
theorem Run.gives_parse {text : String} {claim result : Term}
    (hclaim : Term.ofClaim text = .ok claim) (helementary : claim.isElementary = true) :
    Gives (Run.logged (Logged.parse text)) before result after ↔
      claim = result ∧ before = after := by
  simp only [gives_logged, Term.gives_parse hclaim helementary]
  constructor
  · rintro ⟨_, ⟨rfl, rfl⟩, rfl⟩
    exact ⟨rfl, rfl⟩
  · rintro ⟨rfl, rfl⟩
    exact ⟨before.log, ⟨rfl, rfl⟩, rfl⟩

theorem Scopes.find?_insert (scopes : Scopes) (scope : String) (env : Option TypeEnv) :
    (scopes.insert scope env).find? scope = some env := by
  induction scopes with
  | nil => simp [Scopes.insert, Scopes.find?]
  | cons _ _ ih =>
    rw [Scopes.insert]
    split_ifs with hhead
    · simp [Scopes.find?]
    · simpa [Scopes.find?, hhead] using ih

theorem mem_insertByText {entry other : String × Term} {entries : List (String × Term)} :
    other ∈ insertByText entry entries ↔ other = entry ∨ other ∈ entries := by
  induction entries with
  | nil => simp [insertByText]
  | cons _ _ ih =>
    rw [insertByText]
    split_ifs with hbefore
    · simp
    · simp [ih, or_left_comm]

theorem mem_sortByText {log : WriteLog} {claims : List Term} {claim : Term} :
    claim ∈ sortByText log claims ↔ claim ∈ claims := by
  have hfold : ∀ sorted : List (String × Term),
      claim ∈ (claims.foldl (fun sorted term => insertByText (log.print term, term) sorted)
        sorted).map Prod.snd ↔ claim ∈ sorted.map Prod.snd ∨ claim ∈ claims := by
    induction claims with
    | nil => simp
    | cons _ _ ih =>
      intro sorted
      rw [List.foldl_cons, ih]
      simp only [List.mem_map, mem_insertByText, List.mem_cons]
      constructor
      · rintro (⟨_, rfl | hentry, rfl⟩ | hrest)
        · exact .inr (.inl rfl)
        · exact .inl ⟨_, hentry, rfl⟩
        · exact .inr (.inr hrest)
      · rintro (⟨entry, hentry, rfl⟩ | rfl | hrest)
        · exact .inl ⟨entry, .inr hentry, rfl⟩
        · exact .inl ⟨(log.print claim, claim), .inl rfl, rfl⟩
        · exact .inr hrest
  simpa [sortByText] using hfold []

end Steps

/-! ## Conditions of a task -/

/-- In the table of an environment of integers every name is an integer. -/
theorem NameTable.sort_ofEnv {env : TypeEnv} (henv : env.IsInteger) (twoRuns : Bool) :
    ∀ entry ∈ NameTable.ofEnv twoRuns env, entry.2 = .int := by
  have hinsert : ∀ (names : NameTable) (name : String),
      (∀ entry ∈ names, entry.2 = .int) → ∀ entry ∈ names.insert name .int, entry.2 = .int := by
    intro names name hnames
    induction names with
    | nil => simp [NameTable.insert]
    | cons _ _ ih =>
      simp only [List.forall_mem_cons] at hnames
      rw [NameTable.insert]
      split_ifs with hhead
      · exact List.forall_mem_cons.mpr ⟨rfl, hnames.2⟩
      · exact List.forall_mem_cons.mpr ⟨hnames.1, ih hnames.2⟩
  have hdeclare : ∀ (names : NameTable) (name : String),
      (∀ entry ∈ names, entry.2 = .int) →
        ∀ entry ∈ names.declare twoRuns name .int, entry.2 = .int := by
    intro names name hnames
    cases twoRuns with
    | false => exact hinsert _ _ hnames
    | true => exact hinsert _ _ (hinsert _ _ (hinsert _ _ hnames))
  rw [NameTable.ofEnv]
  refine List.foldlRecOn (motive := fun names : NameTable => ∀ entry ∈ names, entry.2 = .int)
    env _ (by simp) fun names hnames entry hentry => ?_
  rw [henv entry hentry]
  exact hdeclare names entry.1 hnames

theorem Task.of_gives_conditionsOf {pre statement post : Term} {aboutInvariant : Bool}
    (hgives : Gives
    (conditionsOf scope pre statement post aboutInvariant) before conditions after) :
    ∃ env computed log, before.verifier.scopes.find? scope = some env ∧
      Gives (statement.obligations env post) before.log computed log ∧
      after.verifier = before.verifier ∧
      ∀ claim, claim ∈ conditions.map Condition.claim ↔
        claim = .binary pre .implies computed.precondition ∨
          claim ∈ computed.sideConditions := by
  simp only [conditionsOf, orderedObligations, gives_bind, Run.gives_env, gives_pure] at hgives
  obtain ⟨_, _, ⟨env, _, ⟨hfind, rfl⟩, obligations?, _, hlogged, hordered⟩, rfl, rfl⟩ := hgives
  obtain ⟨log, hobligations, rfl⟩ := Run.gives_logged.mp hlogged
  cases obligations? with
  | none => simp at hordered
  | some computed =>
    simp only [gives_bind, gives_get, gives_pure] at hordered
    obtain ⟨_, _, ⟨rfl, rfl⟩, rfl, rfl⟩ := hordered
    refine ⟨env, computed, log, hfind, ?_, rfl, ?_⟩
    · rw [Term.obligations?] at hobligations
      split_ifs at hobligations
      · simpa using hobligations
      · simp at hobligations
    · simp [mem_sortByText]

/-- A task about one run of a program of the core language, whose variables are
integers and whose claims are elementary; the invariants are not checked on
their own. -/
structure Task.IsCore (task : Task) (verifier : Verifier) (program : Source.Program)
    (pre post : Term) : Prop where
  single : task.twoRuns = false
  skips : task.checksInvariants = false
  parsed : Source.parse task.code = .ok program
  core : Source.Core false true (Source.statements program)
  integers : ∃ env : TypeEnv,
    verifier.scopes.find? task.scope = some (some env) ∧ env.IsInteger
  precondition : Term.ofClaim task.precondition = .ok pre
  pre_isElementary : pre.isElementary = true
  postcondition : Term.ofClaim task.postcondition = .ok post
  post_isElementary : post.isElementary = true

namespace Task.IsCore

variable {task : Task} {program : Source.Program} {pre post : Term}

/-- The conditions of a core task are the obligations of a typed statement. -/
theorem of_gives_conditions (htask : task.IsCore before.verifier program pre post)
    (hgives : Gives task.conditions before conditions after) :
    ∃ statement env computed log next,
      (∃ between, Gives (Source.elaborate .single program) before.log statement between) ∧
      statement.TypedProgram ∧ pre.Typed .bool ∧ post.Typed .bool ∧ env.IsInteger ∧
      after.verifier.scopes.find? task.scope = some (some env) ∧
      Gives (statement.obligations (some env) post) log computed next ∧
      ∀ claim, claim ∈ conditions.map Condition.claim ↔
        claim = .binary pre .implies computed.precondition ∨
          claim ∈ computed.sideConditions := by
  obtain ⟨env, hscope, henv⟩ := htask.integers
  simp only [Task.conditions, Task.statement, htask.single, htask.skips, htask.parsed,
    Bool.false_eq_true, if_false, gives_bind, gives_pure, Run.gives_ofExcept,
    Except.ok.injEq] at hgives
  obtain ⟨statement, _, ⟨_, _, ⟨rfl, rfl⟩, _, _, helaborate, rfl, rfl⟩, _, _, hpreParse, _, _,
    hpostParse, _, _, hstatement, _, _, hpre, _, _, hpost, _, _, ⟨rfl, rfl⟩, _, _, hprogram,
    rfl, rfl⟩ := hgives
  obtain ⟨between, hstatementOf, rfl⟩ := Run.gives_logged.mp helaborate
  obtain ⟨rfl, rfl⟩ := (Run.gives_parse htask.precondition htask.pre_isElementary).mp hpreParse
  obtain ⟨rfl, rfl⟩ := (Run.gives_parse htask.postcondition htask.post_isElementary).mp hpostParse
  -- Each of the three resolutions leaves an environment of integers for the next.
  obtain ⟨_, _, hfound, hstatementResolved, rfl⟩ := Run.gives_typing.mp hstatement
  cases hscope.symm.trans hfound
  have helementary :=
    (Source.elaborate_core (declaredHavoc .standard none) htask.core hstatementOf).1
  obtain ⟨htyped, env, rfl, henv⟩ :=
    Term.typedProgram_of_resolveStatement helementary henv hstatementResolved
  obtain ⟨_, _, hfound, hpreResolved, rfl⟩ := Run.gives_typing.mp hpre
  cases (Scopes.find?_insert _ _ _).symm.trans hfound
  obtain ⟨hpreTyped, rfl⟩ := Term.typed_of_resolveClaim htask.pre_isElementary henv hpreResolved
  obtain ⟨_, _, hfound, hpostResolved, rfl⟩ := Run.gives_typing.mp hpost
  cases (Scopes.find?_insert _ _ _).symm.trans hfound
  obtain ⟨hpostTyped, rfl⟩ := Term.typed_of_resolveClaim htask.post_isElementary henv hpostResolved
  obtain ⟨_, computed, next, hfound, hobligations, hverifier, hclaims⟩ :=
    Task.of_gives_conditionsOf hprogram
  cases (Scopes.find?_insert _ _ _).symm.trans hfound
  refine ⟨_, env, computed, _, next, ⟨between, hstatementOf⟩, htyped, hpreTyped, hpostTyped,
    henv, ?_, hobligations, hclaims⟩
  rw [hverifier]
  exact Scopes.find?_insert _ _ _

/-- The conditions of a verified core task hold in every store of integers, if no
formula that was asked has a model. -/
theorem conditions_valid {verifier : Verifier} (htask : task.IsCore verifier program pre post)
    (houtcome : (verifier.verify task verdicts).outcome = .ok ())
    (hqueries : ∀ formula ∈ (verifier.verify task verdicts).queries, ¬ formula.Satisfiable) :
    ∃ statement env computed log next,
      (∃ between, Gives (Source.elaborate .single program) .empty statement between) ∧
      statement.TypedProgram ∧ post.Typed .bool ∧
      Gives (statement.obligations (some env) post) log computed next ∧
      (∀ store : Store, store.IsInteger → pre.Holds .standard store →
        computed.precondition.Holds .standard store) ∧
      ∀ claim ∈ computed.sideConditions, ∀ store : Store, store.IsInteger →
        claim.Holds .standard store := by
  rw [Verifier.verify] at houtcome hqueries
  rcases hrun : task.conditions.run { log := .empty, verifier } with ⟨_ | conditions, state⟩
  · rw [hrun] at houtcome
    cases houtcome
  · obtain ⟨statement, env, computed, log, next, helaborate, htyped, hpre, hpost, henv, hscope,
      hobligations, hclaims⟩ := of_gives_conditions htask hrun
    simp only [hrun, hscope] at houtcome hqueries
    obtain ⟨hprecondition, hside⟩ := htyped.obligations hpost hobligations
    have hconditions : ∀ condition ∈ conditions, condition.claim.Typed .bool := by
      intro condition hcondition
      rcases (hclaims condition.claim).mp (List.mem_map_of_mem hcondition) with heq | hmem
      · rw [heq]
        exact .logical rfl hpre hprecondition
      · exact hside _ hmem
    have hvalid := checkAll_valid hconditions (NameTable.sort_ofEnv henv task.twoRuns) houtcome
      hqueries
    have hclaim : ∀ claim, claim = .binary pre .implies computed.precondition ∨
        claim ∈ computed.sideConditions → ∀ store : Store, store.IsInteger →
          claim.Holds .standard store := by
      intro claim hclaim
      obtain ⟨condition, hcondition, rfl⟩ := List.mem_map.mp ((hclaims claim).mpr hclaim)
      exact hvalid condition hcondition
    exact ⟨statement, env, computed, log, next, helaborate, htyped, hpost, hobligations,
      fun store hstore => Term.holds_implies.mp (hclaim _ (.inl rfl) store hstore),
      fun claim hmem => hclaim claim (.inr hmem)⟩

end Task.IsCore

/-- A verified core task is right: if every formula was answered to have no
model, and rightly so, then every run of the program from a store of the
precondition ends in the postcondition. -/
theorem verify_sound {verifier : Verifier} {task : Task} {verdicts : List Verdict}
    {program : Source.Program} {pre post : Term} {start final : String → Int}
    {ending : Source.Ending} (htask : task.IsCore verifier program pre post)
    (houtcome : (verifier.verify task verdicts).outcome = .ok ())
    (hunsat : ∀ index < (verifier.verify task verdicts).queries.length,
      verdicts[index]? = some .unsat)
    (hsolver : ∀ (index : Nat) (formula : Formula),
      (verifier.verify task verdicts).queries[index]? = some formula →
        verdicts[index]? = some .unsat → ¬ formula.Satisfiable)
    (hstart : pre.Holds .standard (.ofInts start))
    (hruns : Source.Runs (Source.statements program) start ending final) :
    post.Holds .standard (.ofInts final) := by
  have hqueries : ∀ formula ∈ (verifier.verify task verdicts).queries,
      ¬ formula.Satisfiable := by
    intro formula hformula
    obtain ⟨index, hindex⟩ := List.mem_iff_getElem?.mp hformula
    exact hsolver index formula hindex (hunsat index (List.getElem?_eq_some_iff.mp hindex).1)
  obtain ⟨statement, env, computed, log, next, ⟨_, helaborate⟩, htyped, hpost, hobligations,
    himplied, hside⟩ := htask.conditions_valid houtcome hqueries
  obtain ⟨hprogram, hassert, -, -⟩ := htyped.shape
  obtain ⟨-, hdescribed⟩ := Term.obligations_describe .standard Store.IsInteger hprogram
    hpost.isClaim (htyped.apart hpost) hobligations
  have hinteger := Store.ofInts_isInteger start
  have hcorrect := (assertsMet_of_isAssertFree hassert).correct htyped.preserves
    (hdescribed.side.mp hside) hinteger
    ((hdescribed.pre _).mp (himplied _ hinteger hstart))
  exact hcorrect.final _ ((Source.elaborate_core _ htask.core helaborate).2 start ending final
    hruns)

/-! ## A task that is verified -/

instance decidableEqExcept {α : Type} [DecidableEq α] : DecidableEq (Except Fault α)
  | .ok left, .ok right => decidable_of_iff (left = right) (by simp)
  | .error left, .error right => decidable_of_iff (left = right) (by simp)
  | .ok _, .error _ => isFalse (by simp)
  | .error _, .ok _ => isFalse (by simp)

def countdownTask : Task :=
  { code := "while x > 0:\n  invariant(\"x >= 0\")\n  x = x - 1\n"
    scope := "countdown"
    precondition := "x >= 0"
    postcondition := "x == 0"
    twoRuns := false
    checksInvariants := false
    lengths := [] }

def countdownVerifier : Verifier :=
  Verifier.new.register "countdown" (some [("x", .known .int)])

def countdownTokens : List Source.Token :=
  [.keyword "while", .name "x", .sign ">", .constant (.int 0), .sign ":", .newline, .indent,
    .name "invariant", .sign "(", .constant (.text "x >= 0"), .sign ")", .newline,
    .name "x", .sign "=", .name "x", .sign "-", .constant (.int 1), .newline, .dedent]

def countdownSource : Source.Program :=
  [.whileLoop (.compare (.name "x") .gt (.constant (.int 0)) [] [])
    [.expr (.call (.name "invariant") [.constant (.text "x >= 0")]),
     .assign [.name "x"] (.binary (.name "x") .sub (.constant (.int 1)))] []]

def countdownInvariant : Term :=
  .binary (.var "x") .ge (.int 0)

def countdownTest : Term :=
  .binary (.var "x") .gt (.int 0)

def countdownStatement : Term :=
  .seq (.loop countdownInvariant countdownTest
    (.seq (.assign (.var "x") (.binary (.var "x") .minus (.int 1)) false) .skip)) .skip

def countdownPost : Term :=
  .binary (.var "x") .eq (.int 0)

def countdownKept : Term :=
  .binary (.binary countdownInvariant .and countdownTest) .implies
    (.binary (.binary (.var "x") .minus (.int 1)) .ge (.int 0))

def countdownEnded : Term :=
  .binary (.binary countdownInvariant .and (.unary .not countdownTest)) .implies countdownPost

def countdownConditions : List Condition :=
  (.binary countdownInvariant .implies countdownInvariant ::
    sortByText .empty [countdownKept, countdownEnded]).map fun claim => ⟨claim, false⟩

def countdownState : RunState :=
  { log := .empty, verifier := countdownVerifier }

/-- The negations of the three conditions: that the precondition gives the
invariant, that the body keeps it, and that it gives the postcondition. -/
def countdownQueries : List Formula :=
  let x : Formula := .const "x" .int
  let invariant : Formula := .order .ge x (.int 0)
  let test : Formula := .order .gt x (.int 0)
  [.not (.implies invariant invariant),
   .not (.implies (.and invariant test) (.order .ge (.arithmetic .sub x (.int 1)) (.int 0))),
   .not (.implies (.and invariant (.not test)) (.equal x (.int 0)))]

theorem parse_countdownTask : Source.parse countdownTask.code = .ok countdownSource := by
  have hlex : Source.lex countdownTask.code = .ok countdownTokens := by
    decide +kernel
  rw [Source.parse, hlex]
  rfl

theorem ofClaim_countdownInvariant : Term.ofClaim "x >= 0" = .ok countdownInvariant := by
  decide +kernel

theorem isCore_countdownTask :
    countdownTask.IsCore countdownVerifier countdownSource countdownInvariant
      countdownPost where
  single := rfl
  skips := rfl
  parsed := parse_countdownTask
  core := .whileLoop rfl (.invariant ofClaim_countdownInvariant rfl (.assign rfl .done)) .done
  integers := ⟨[("x", .known .int)], rfl, by simp [TypeEnv.IsInteger]⟩
  precondition := ofClaim_countdownInvariant
  pre_isElementary := rfl
  postcondition := by decide +kernel
  post_isElementary := rfl

set_option maxRecDepth 10000 in
theorem elaborate_countdownSource :
    Gives (Source.elaborate .single countdownSource) .empty countdownStatement .empty := by
  with_unfolding_all rfl

theorem conditions_countdownTask :
    Gives countdownTask.conditions countdownState countdownConditions countdownState := by
  have htask := isCore_countdownTask
  have hstatement : Gives countdownTask.statement countdownState countdownStatement
      countdownState := by
    simp only [Task.statement, parse_countdownTask, gives_bind, Run.gives_ofExcept]
    exact ⟨countdownSource, countdownState, ⟨rfl, rfl⟩, countdownStatement, countdownState,
      Run.gives_logged.mpr ⟨.empty, elaborate_countdownSource, rfl⟩, rfl⟩
  have hobligations : Gives (Task.orderedObligations "countdown" countdownStatement
      countdownPost) countdownState
      ⟨countdownInvariant, sortByText .empty [countdownKept, countdownEnded]⟩
      countdownState := by
    simp only [Task.orderedObligations, gives_bind, Run.gives_env]
    exact ⟨_, countdownState, ⟨rfl, rfl⟩,
      some ⟨countdownInvariant, [countdownKept, countdownEnded]⟩, countdownState,
      Run.gives_logged.mpr ⟨.empty, rfl, rfl⟩,
      gives_bind.mpr ⟨countdownState, countdownState, gives_get.mpr ⟨rfl, rfl⟩, rfl⟩⟩
  have hprogram : Gives (Task.conditionsOf "countdown" countdownInvariant countdownStatement
      countdownPost false) countdownState countdownConditions countdownState := by
    refine gives_bind.mpr ⟨_, countdownState, hobligations, ?_⟩
    simp only [countdownConditions, gives_pure, and_self]
  simp only [Task.conditions, htask.skips, Bool.false_eq_true, if_false, gives_bind,
    gives_pure, Run.gives_parse htask.precondition htask.pre_isElementary,
    Run.gives_parse htask.postcondition htask.post_isElementary]
  exact ⟨countdownStatement, countdownState, hstatement, _, countdownState, ⟨rfl, rfl⟩, _,
    countdownState, ⟨rfl, rfl⟩, false, countdownState, rfl, false, countdownState, rfl, false,
    countdownState, rfl, [], countdownState, ⟨rfl, rfl⟩, _, countdownState, hprogram, rfl, rfl⟩

theorem sortByText_pair (log : WriteLog) (first second : Term) :
    sortByText log [first, second] = [first, second] ∨
      sortByText log [first, second] = [second, first] := by
  simp only [sortByText, List.foldl_cons, List.foldl_nil, insertByText]
  split_ifs <;> simp

/-- Whichever of the two side conditions comes first, the same formulas are
asked. -/
theorem verify_countdownTask :
    (countdownVerifier.verify countdownTask (List.replicate 3 .unsat)).outcome = .ok () ∧
      (countdownVerifier.verify countdownTask (List.replicate 3 .unsat)).queries.Perm
        countdownQueries := by
  have hrun : countdownTask.conditions.run { log := .empty, verifier := countdownVerifier } =
      (.ok countdownConditions, countdownState) := conditions_countdownTask
  rw [Verifier.verify, hrun, countdownConditions]
  rcases sortByText_pair .empty countdownKept countdownEnded with hsorted | hsorted
  · rw [hsorted]
    exact ⟨rfl, .refl _⟩
  · rw [hsorted]
    exact ⟨rfl, .cons _ (.swap _ _ _)⟩

theorem not_satisfiable_countdownQueries (hformula : formula ∈ countdownQueries) :
    ¬ formula.Satisfiable := by
  rintro ⟨model, htrue⟩
  obtain ⟨_, hvalue⟩ := model.sorted "x" .int
  simp only [countdownQueries, List.mem_cons, List.not_mem_nil, or_false] at hformula
  rcases hformula with rfl | rfl | rfl
  · simp at htrue
  · simp [← hvalue, Value.compared, Model.arithmetic, OrderOp.relates] at htrue
    omega
  · simp [← hvalue, Value.compared, OrderOp.relates] at htrue
    omega

theorem verify_sound_countdownTask :
    let final := Function.update (fun _ : String => (1 : Int)) "x" 0
    Source.Runs countdownSource (fun _ => 1) .normal final ∧
      countdownPost.Holds .standard (.ofInts final) := by
  intro final
  have hruns : Source.Runs countdownSource (fun _ => 1) .normal final :=
    .loopAgain rfl (.invariant (.assign rfl .done)) (.loopEnd rfl .done)
  obtain ⟨houtcome, hqueries⟩ := verify_countdownTask
  refine ⟨hruns, verify_sound isCore_countdownTask houtcome ?_ ?_ ?_ hruns⟩
  · rw [hqueries.length_eq]
    decide
  · intro index formula hformula _
    exact not_satisfiable_countdownQueries
      (hqueries.mem_iff.mp (List.mem_of_getElem? hformula))
  · exact decide_eq_true (by decide : (1 : Int) ≥ 0)

end HoareCheck
