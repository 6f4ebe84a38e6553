import HoareCheck.Proofs.CopyIndependence
import HoareCheck.Proofs.ScalarTyping

/-!
# Names are found after type resolution

Once the program and the claims of a task have passed type resolution in an environment
of integers and truth values, no later step fails for want of an entry.  The havoc of a
loop target finds its type, and each condition finds its names in the table of the
solver: those of the environment, and the variables of havocs that an earlier condition
has bound.
-/

namespace HoareCheck

open Term Encoding NameTable

variable {pre term : Term} {fault : Fault} {α : Type} {aboutInvariant : Bool} {after : RunState}
  {bound : List String} {name : String} {env : TypeEnv} {entry : TypeEntry}

/-- The faults of a table that lacks an entry. -/
def Fault.IsLookup (fault : Fault) : Prop :=
  fault = .noSuchEntry ∨ ∃ name, fault = .unknownName name

theorem Fault.IsOfRewriting.not_isLookup (hfault : fault.IsOfRewriting) : ¬ fault.IsLookup := by
  rcases hfault with rfl | rfl | ⟨_, rfl⟩ <;> simp [IsLookup]

theorem Fault.not_isLookup_of_isOfOperation (hfault : fault.isOfOperation = true) :
    ¬ fault.IsLookup := by
  rintro (rfl | ⟨_, rfl⟩) <;> cases hfault

/-- A computation that does not fail for want of an entry. -/
abbrev Finds {σ α : Type} (computation : ExceptT Fault (StateM σ) α) : Prop :=
  FailsOnly (fun fault => ¬ fault.IsLookup) computation

theorem Rewrites.finds {σ : Type} {computation : ExceptT Fault (StateM σ) α}
    (hrewrites : Rewrites computation) : Finds computation :=
  hrewrites.mono fun _ => Fault.IsOfRewriting.not_isLookup

/-! ## Conditions -/

section Conditions

variable {env : TypeEnv} {statement : Term} {scope : String} {before : RunState}

/-- The obligations of a statement whose havocs are of declared variables. -/
theorem finds_obligations
    (hhavocs : ∀ havoc ∈ statement.havocs, (env.find? havoc.1).isSome = true) (post : Term) :
    Finds (statement.obligations (some env) post) := by
  have hrefused : Finds (throw .wrongKind : Logged Obligations) :=
    failsOnly_throw (by simp [Fault.IsLookup])
  induction statement generalizing post with
  | skip | assume | assert => exact failsOnly_pure _
  | assign target value =>
    exact failsOnly_bind (rewrites_substitute post target value).finds fun _ => failsOnly_pure _
  | seq _ _ ihfirst ihsecond =>
    rw [Term.havocs, List.forall_mem_append] at hhavocs
    exact failsOnly_bind (ihsecond hhavocs.2 post) fun _ =>
      failsOnly_bind (ihfirst hhavocs.1 _) fun _ => failsOnly_pure _
  | ifElse _ _ _ _ ihthen ihelse =>
    rw [Term.havocs, List.forall_mem_append] at hhavocs
    exact failsOnly_bind (ihthen hhavocs.1 post) fun _ =>
      failsOnly_bind (ihelse hhavocs.2 post) fun _ => failsOnly_pure _
  | loop _ _ _ _ _ ihbody =>
    exact failsOnly_bind (ihbody hhavocs _) fun _ => failsOnly_pure _
  | havoc name =>
    have hfound := List.forall_mem_singleton.mp hhavocs
    obtain ⟨entry, hentry⟩ := Option.isSome_iff_exists.mp hfound
    have htype : Finds (havocType (some env) name) := by
      rw [havocType, hentry]
      exact failsOnly_pure entry
    exact failsOnly_bind (rewrites_substitute _ _ _).finds fun _ =>
      failsOnly_bind htype fun _ => failsOnly_pure _
  | _ => exact hrefused

theorem Run.finds_ofExcept {outcome : Except Fault α}
    (houtcome : ∀ fault, outcome = .error fault → ¬ fault.IsLookup) :
    Finds (Run.ofExcept outcome) := by
  cases outcome with
  | ok value => exact failsOnly_pure value
  | error fault => exact failsOnly_throw (houtcome fault rfl)

theorem Run.finds_logged {computation : Logged α} (hfinds : Finds computation) :
    Finds (Run.logged computation) := by
  refine failsOnly_bind failsOnly_get fun state => failsOnly_bind (failsOnly_set _) fun _ => ?_
  refine Run.finds_ofExcept fun fault hfault => ?_
  have hfails : Fails computation state.log fault (computation state.log).2 := Prod.ext hfault rfl
  exact hfinds _ _ _ hfails

theorem Run.finds_cutting {computation : Cutting α} (hfinds : Finds computation) :
    Finds (Run.cutting computation) := by
  refine failsOnly_bind failsOnly_get fun state => failsOnly_bind (failsOnly_set _) fun _ => ?_
  refine Run.finds_ofExcept fun fault hfault => ?_
  let start : CutState := { log := state.log, counts := state.verifier.counts }
  have hfails : Fails computation start fault (computation start).2 := Prod.ext hfault rfl
  exact hfinds _ _ _ hfails

/-- A statement whose havocs are of declared variables finds their types. -/
theorem Task.finds_conditionsOf (hscope : before.verifier.scopes.find? scope = some (some env))
    (hhavocs : ∀ havoc ∈ statement.havocs, (env.find? havoc.1).isSome = true) {post : Term}
    (hfails : Fails (conditionsOf scope pre statement post aboutInvariant) before fault after) :
    ¬ fault.IsLookup := by
  have henv : Gives (Run.env scope) before (some env) before := Run.gives_env.mpr ⟨hscope, rfl⟩
  have hobligations : Finds (statement.obligations? (some env) post) := by
    rw [obligations?]
    split
    · exact failsOnly_bind (finds_obligations hhavocs post) fun _ => failsOnly_pure _
    · exact failsOnly_pure _
  rcases fails_bind.mp hfails with hordered | ⟨_, _, -, hlisted⟩
  · rcases fails_bind.mp hordered with hmissing | ⟨found, between, hfound, hrest⟩
    · exact absurd hmissing henv.not_fails
    · obtain ⟨rfl, rfl⟩ := hfound.unique henv
      rcases fails_bind.mp hrest with howed | ⟨owed, _, -, hsorted⟩
      · exact Run.finds_logged hobligations _ _ _ howed
      · cases owed with
        | none =>
          obtain ⟨rfl, -⟩ := fails_throw.mp hsorted
          simp [Fault.IsLookup]
        | some =>
          simp only [fails_bind, not_fails_get, not_fails_pure, and_false, exists_false,
            or_false] at hsorted
  · exact absurd hlisted not_fails_pure

theorem Term.flatten_loopTargets_subset {names : List String}
    (hnames : statement.assigned = .ok names) : statement.loopTargets.flatten ⊆ names := by
  induction statement generalizing names with
  | seq _ _ ihfirst ihsecond =>
    obtain ⟨_, _, hleft, hright, rfl⟩ := append_eq_ok hnames
    rw [loopTargets, List.flatten_append]
    exact List.append_subset.mpr
      ⟨List.subset_append_of_subset_left _ (ihfirst hleft),
        List.subset_append_of_subset_right _ (ihsecond hright)⟩
  | loop _ _ body =>
    intro name hname
    have hbody : body.assigned = .ok names := hnames
    simpa [loopTargets, targets, hbody, mem_ascending] using hname
  | _ => exact List.nil_subset _

/-- The havocs of a cut program are of variables that the program assigns. -/
theorem Term.Declared.havocs {bound : Nat} {start after : CutState} {cut : CutProgram}
    (hdeclared : Declared env statement) (hframe : statement.InFrame (.below bound))
    (hgives : Gives statement.cutLoops start cut after) :
    ∀ havoc ∈ cut.program.havocs, (env.find? havoc.1).isSome = true := by
  obtain ⟨_, hnames, hfound⟩ := hdeclared.assigned
  have hnumber := (numbers_cutLoops (havocs_of_inFrame hframe)).gives _ _ _ hgives
  intro havoc hhavoc
  have hmem : havoc.1 ∈ statement.loopTargets.flatten := by
    rw [← HavocCounts.map_fst_number start.counts statement.loopTargets.flatten, hnumber]
    exact List.mem_map_of_mem hhavoc
  exact (hfound _ (flatten_loopTargets_subset hnames hmem)).2

theorem Task.finds_invariantConditions {bound : Nat}
    (hscope : before.verifier.scopes.find? scope = some (some env))
    (hdeclared : Term.Declared env statement) (hframe : statement.InFrame (.below bound))
    (hfails : Fails (invariantConditions scope pre statement) before fault after) :
    ¬ fault.IsLookup := by
  rcases fails_bind.mp hfails with hcutting | ⟨cut, _, hcut, hrest⟩
  · exact Run.finds_cutting (rewrites_cutLoops statement).finds _ _ _ hcutting
  · obtain ⟨state, hcutLoops, rfl⟩ := Run.gives_cutting.mp hcut
    rcases fails_bind.mp hrest with hread | ⟨_, _, hread, hlisted⟩
    · exact absurd hread not_fails_get
    · obtain ⟨rfl, rfl⟩ := gives_get.mp hread
      cases hsorted : sortByText state.log cut.invariants with
      | nil =>
        simp only [hsorted] at hlisted
        obtain ⟨rfl, -⟩ := fails_throw.mp hlisted
        simp [Fault.IsLookup]
      | cons =>
        simp only [hsorted] at hlisted
        refine finds_conditionsOf ?_ (hdeclared.havocs hframe hcutLoops) hlisted
        exact hscope

end Conditions

/-! ## Encoding -/

namespace NameTable

/-- The names of a table are found in it, and copies of them. -/
def Serves (names : NameTable) : Lookup → Prop
  | .name name => (names.find? name).isSome = true ∨ (names.find? (plainName name)).isSome = true
  | .element _ | .length => False

/-- A table has all names of another. -/
def Keeps (names next : NameTable) : Prop :=
  ∀ name, (names.find? name).isSome = true → (next.find? name).isSome = true

theorem Keeps.serves {names next : NameTable} (hkeeps : names.Keeps next) (lookup : Lookup)
    (hserves : names.Serves lookup) : next.Serves lookup := by
  cases lookup with
  | name name => exact hserves.imp (hkeeps name) (hkeeps _)
  | element | length => exact hserves

theorem keeps_insert (names : NameTable) (name : String) (sort : SolverSort) :
    names.Keeps (names.insert name sort) := by
  intro other hother
  rw [find?_insert, Function.update_apply]
  split
  · rfl
  · exact hother

theorem keeps_declare (names : NameTable) (name : String) (sort : SolverSort) :
    names.Keeps (names.declare true name sort) := by
  intro other hother
  exact keeps_insert _ _ _ _ (keeps_insert _ _ _ _ (keeps_insert _ _ _ _ hother))

end NameTable

/-- From a state, an encoding finds all that it looks up, and then the table has
further names. -/
structure Served {α : Type} (encoding : Encoding α) (context : EncodingContext)
    (before : EncodingState) (bound : List String) : Prop where
  fails : ∀ fault after, Fails (encoding.run context) before fault after → ¬ fault.IsLookup
  gives : ∀ value after, Gives (encoding.run context) before value after →
    before.names.Keeps after.names ∧ ∀ name ∈ bound, (after.names.find? name).isSome = true

section Served

variable {α β : Type} {context : EncodingContext} {before : EncodingState}

theorem served_ofExcept {outcome : Except Fault α}
    (houtcome : ∀ fault, outcome = .error fault → ¬ fault.IsLookup) :
    Served (Encoding.ofExcept outcome) context before [] := by
  refine ⟨fun fault after hfails => ?_, fun value after hgives => ?_⟩
  · cases outcome with
    | ok => exact absurd hfails not_fails_pure
    | error =>
      obtain ⟨rfl, -⟩ := fails_throw.mp hfails
      exact houtcome _ rfl
  · obtain ⟨-, rfl⟩ := gives_ofExcept.mp hgives
    exact ⟨fun _ => id, List.forall_mem_nil _⟩

theorem served_throw (hfault : ¬ fault.IsLookup) (bound : List String) :
    Served (throw fault : Encoding α) context before bound :=
  ⟨fun _ _ hfails => (fails_throw.mp hfails).1 ▸ hfault,
    fun _ _ hgives => absurd hgives not_gives_throw⟩

theorem Served.bind {first : Encoding α} {next : α → Encoding β} {earlier later : List String}
    (hfirst : Served first context before earlier)
    (hnext : ∀ value between, before.names.Keeps between.names →
      (∀ name ∈ earlier, (between.names.find? name).isSome = true) →
        Served (next value) context between later) :
    Served (first >>= next) context before (earlier ++ later) := by
  refine ⟨fun fault after hfails => ?_, fun value after hgives => ?_⟩
  · rcases fails_bind.mp hfails with hfails | ⟨value, between, hvalue, hrest⟩
    · exact hfirst.fails _ _ hfails
    · obtain ⟨hkeeps, hbound⟩ := hfirst.gives _ _ hvalue
      exact (hnext value between hkeeps hbound).fails _ _ hrest
  · obtain ⟨first, between, hvalue, hrest⟩ := gives_bind.mp hgives
    obtain ⟨hkeeps, hbound⟩ := hfirst.gives _ _ hvalue
    obtain ⟨hkept, hlater⟩ := (hnext first between hkeeps hbound).gives _ _ hrest
    exact ⟨fun name hname => hkept name (hkeeps name hname),
      List.forall_mem_append.mpr ⟨fun name hname => hkept name (hbound name hname), hlater⟩⟩

theorem Served.of_subset {encoding : Encoding α} {fewer : List String}
    (hserved : Served encoding context before bound) (hfewer : fewer ⊆ bound) :
    Served encoding context before fewer :=
  ⟨hserved.fails, fun value after hgives =>
    ⟨(hserved.gives value after hgives).1,
      fun name hname => (hserved.gives value after hgives).2 name (hfewer hname)⟩⟩

theorem served_of_gives {encoding : Encoding α} {value : α}
    (hgives : Gives (encoding.run context) before value before) :
    Served encoding context before [] := by
  refine ⟨fun _ _ hfails => absurd hfails hgives.not_fails, fun _ _ hother => ?_⟩
  obtain ⟨-, rfl⟩ := hgives.unique hother
  exact ⟨fun _ => id, List.forall_mem_nil _⟩

theorem served_pure (value : α) : Served (pure value : Encoding α) context before [] :=
  served_of_gives (gives_pure.mpr ⟨rfl, rfl⟩)

/-- A copy that is not in the table stands for its variable. -/
theorem gives_constant_plainName {sort : SolverSort} (hfind : before.names.find? name = none)
    (hbase : before.names.find? (plainName name) = some sort) :
    Gives ((constant name).run context) before
      (.symbolic (.const (plainName name) sort)) before := by
  rw [plainName] at hbase
  simp only [constant, ReaderT.run_bind, gives_bind]
  refine ⟨before, before, gives_get.mpr ⟨rfl, rfl⟩, ?_⟩
  simp only [hfind, hbase]
  exact gives_pure.mpr ⟨rfl, rfl⟩

theorem served_constant (hname : before.names.Serves (.name name)) :
    Served (constant name) context before [] := by
  cases hfind : before.names.find? name with
  | some => exact served_of_gives (gives_constant hfind)
  | none =>
    have hbase : (before.names.find? (plainName name)).isSome = true := by
      simpa [NameTable.Serves, hfind] using hname
    obtain ⟨_, hsort⟩ := Option.isSome_iff_exists.mp hbase
    exact served_of_gives (gives_constant_plainName hfind hsort)

theorem Computed.served {outcome : Except Fault α} (hcomputed : Computed outcome) :
    Served (Encoding.ofExcept outcome) context before [] :=
  served_ofExcept fun fault hfault => Fault.not_isLookup_of_isOfOperation (hcomputed fault hfault)

theorem served_binary {operator : Operator} (hoperator : operator ≠ .adjacent)
    (left right : Operand) : Served (Encoding.binary operator left right) context before [] := by
  cases operator with
  | adjacent => exact absurd rfl hoperator
  | abs | not => exact served_throw (by simp [Fault.IsLookup]) []
  | _ =>
    apply Computed.served
    grind

theorem served_unary (operator : Operator) (operand : Operand) :
    Served (Encoding.unary operator operand) context before [] := by
  cases operator with
  | minus => exact (Operand.computed_negate operand).served
  | not => exact (Operand.computed_logicalNot operand).served
  | abs => exact (Operand.computed_absolute operand).served
  | _ => exact served_throw (by simp [Fault.IsLookup]) []

theorem served_declare (name : String) (sort : SolverSort) :
    Served (Encoding.declare name sort) context before [name] := by
  refine ⟨fun fault after hfails => ?_, fun value after hgives => ?_⟩
  · cases hfails
  · have hafter : after = { before with names := before.names.insert name sort } :=
      (congrArg Prod.snd hgives).symm
    rw [hafter]
    refine ⟨NameTable.keeps_insert _ _ _, List.forall_mem_singleton.mpr ?_⟩
    rw [NameTable.find?_insert, Function.update_self]
    rfl

theorem served_binderSort (entry : TypeEntry) :
    Served (binderSort entry) context before [] := by
  fun_cases binderSort with
  | case4 => exact served_throw (by simp [Fault.IsLookup]) []
  | _ => exact served_pure _

theorem Encoding.binderSort_ofBinder_none (written : Term) :
    ∃ entry, binderSort (.ofBinder none written) = throw (.unencodableBinder entry) := by
  cases written <;> exact ⟨_, rfl⟩

theorem served_throw_bind (hfault : ¬ fault.IsLookup) (next : α → Encoding β)
    (bound : List String) :
    Served ((throw fault : Encoding α) >>= next) context before bound :=
  served_throw hfault bound

/-- The body of a quantifier is encoded with the variable in the table. -/
theorem served_declared (entry : TypeEntry) (name : String) {body : Encoding Operand}
    (hbody : ∀ between, before.names.Keeps between.names →
      (between.names.find? name).isSome = true → Served body context between bound) :
    Served (do
      let sort ← binderSort entry
      Encoding.declare name sort
      let body ← body
      Encoding.ofExcept (Operand.forAll name sort body)) context before (name :: bound) := by
  have hmany : name :: bound ⊆ [] ++ ([name] ++ (bound ++ [])) := by simp
  refine Served.of_subset ?_ hmany
  refine (served_binderSort entry).bind fun sort start hstart _ => ?_
  refine (served_declare name sort).bind fun _ between hbetween hname => ?_
  have hkeeps : before.names.Keeps between.names := fun other hother =>
    hbetween other (hstart other hother)
  exact (hbody between hkeeps (hname name List.mem_cons_self)).bind fun body _ _ _ =>
    (Operand.computed_forAll name sort body).served

/-- A claim that looks up what is in the table is encoded, or fails at something else. -/
theorem Term.served_encodeWith {written? : Site → String → Option (Encoding Operand)}
    (hterm : term.LooksUp before.names.Serves) :
    Served (term.encodeWith written?) context before term.boundNames := by
  induction term generalizing before with
  | literal value =>
    cases value with
    | bare => exact served_throw (by simp [Fault.IsLookup]) _
    | _ => exact served_pure _
  | var => exact served_constant hterm
  | unary operator operand ih =>
    have hencoded := (ih hterm).bind fun operand _ _ _ => served_unary operator operand
    exact hencoded.of_subset (List.subset_append_left _ _)
  | binary left _ right ihleft ihright =>
    obtain ⟨hleft, hright, hlength⟩ := hterm
    refine (ihleft hleft).bind fun left between hkeeps _ => ?_
    have hencoded := (ihright (hright.mono hkeeps.serves)).bind fun right _ _ _ =>
      served_binary hlength left right
    exact hencoded.of_subset (List.subset_append_left _ _)
  | quantified _ binder type written body _ _ _ ihbody =>
    cases type with
    | none =>
      -- Without a type the binder is refused, and nothing under it is looked up.
      obtain ⟨_, hrefused⟩ := binderSort_ofBinder_none written
      rw [encodeWith, hrefused]
      exact served_throw_bind (by simp [Fault.IsLookup]) _ _
    | some =>
      have hbody : body.LooksUp (Lookup.under binder before.names.Serves) := hterm rfl
      cases hname : binder.name? with
      | none =>
        rw [encodeWith, hname]
        have hrefused : ¬ Fault.noSuchPart.IsLookup := by simp [Fault.IsLookup]
        exact (served_binderSort _).bind fun _ _ _ _ => served_throw_bind hrefused _ _
      | some name =>
        simp only [encodeWith, hname, Encoding.ofOption, pure_bind, boundNames,
          Option.toList_some, List.singleton_append]
        refine served_declared _ name fun between hkeeps hfound => ihbody (hbody.mono ?_)
        intro lookup hlookup
        rcases hlookup with hlookup | hlookup
        · exact hkeeps.serves lookup hlookup
        · rw [hname] at hlookup
          cases hlookup
          exact .inl hfound
  | subscript => exact hterm.1.elim
  | _ => exact served_throw (by simp [Fault.IsLookup]) _

theorem Term.served_encode (hterm : term.LooksUp before.names.Serves) :
    Served term.encode context before term.boundNames :=
  (served_of_gives (gives_pure.mpr ⟨rfl, rfl⟩)).bind fun _ _ hkeeps _ =>
    served_encodeWith (hterm.mono hkeeps.serves)

theorem Condition.served_query {condition : Condition}
    (hcondition : condition.claim.LooksUp before.names.Serves) :
    Served condition.query context before condition.claim.boundNames := by
  have hclaim : (Term.unary .not condition.claim).LooksUp before.names.Serves := hcondition
  have hquery : Served condition.query context before (condition.claim.boundNames ++ []) := by
    refine (served_encode hclaim).bind fun operand between _ _ => ?_
    cases operand with
    | symbolic formula => exact served_pure formula
    | plain => exact served_throw (by simp [Fault.IsLookup]) []
  exact hquery.of_subset (List.subset_append_left _ _)

end Served

/-! ## Checks -/

/-- Conditions that look up what is allowed, and what those before them have bound. -/
inductive LooksUpAll : (Lookup → Prop) → List Condition → Prop
  | nil {allowed : Lookup → Prop} : LooksUpAll allowed []
  | cons {allowed : Lookup → Prop} {condition : Condition} {rest : List Condition} :
      condition.claim.LooksUp allowed →
      LooksUpAll (fun lookup => allowed lookup ∨
        ∃ name ∈ condition.claim.boundNames, lookup = .name name) rest →
      LooksUpAll allowed (condition :: rest)

section Checks

variable {allowed larger : Lookup → Prop} {conditions first second : List Condition}

theorem LooksUpAll.mono (hconditions : LooksUpAll allowed conditions)
    (hlarger : ∀ lookup, allowed lookup → larger lookup) : LooksUpAll larger conditions := by
  induction hconditions generalizing larger with
  | nil => exact .nil
  | cons hclaim _ ih =>
    exact .cons (hclaim.mono hlarger) (ih fun lookup => Or.imp_left (hlarger lookup))

theorem looksUpAll_of_forall
    (hconditions : ∀ condition ∈ conditions, condition.claim.LooksUp allowed) :
    LooksUpAll allowed conditions := by
  induction conditions with
  | nil => exact .nil
  | cons _ _ ih =>
    rw [List.forall_mem_cons] at hconditions
    exact .cons hconditions.1 ((ih hconditions.2).mono fun _ => .inl)

theorem LooksUpAll.append (hfirst : LooksUpAll allowed first)
    (hsecond : LooksUpAll allowed second) : LooksUpAll allowed (first ++ second) := by
  induction hfirst with
  | nil => exact hsecond
  | cons hclaim _ ih => exact .cons hclaim (ih (hsecond.mono fun _ => .inl))

/-- Conditions that look up what is in the table, or has been bound before them, are
checked without missing an entry. -/
theorem checkAll_finds {context : EncodingContext} {state : EncodingState} {verdicts : List Verdict}
    (hconditions : LooksUpAll state.names.Serves conditions)
    (hfault : (checkAll context state verdicts conditions).outcome = .error fault) :
    ¬ fault.IsLookup := by
  induction conditions generalizing state verdicts with
  | nil => cases hfault
  | cons condition _ ih =>
    cases hconditions with
    | cons hclaim hrest =>
      have hserved : Served condition.query context state condition.claim.boundNames :=
        Condition.served_query hclaim
      rcases hrun : outcomeOn (condition.query.run context) state with ⟨raised | formula, after⟩
      · have hquery : (condition.query.run context).run.run state = (.error raised, after) := hrun
        simp only [checkAll, hquery, Except.error.injEq] at hfault
        exact hfault ▸ hserved.fails _ _ hrun
      · have hquery : (condition.query.run context).run.run state = (.ok formula, after) := hrun
        obtain ⟨hkeeps, hbound⟩ := hserved.gives _ _ hrun
        by_cases hsat : verdicts.head? = some .sat
        · simp only [checkAll, hquery, if_pos hsat, Except.error.injEq] at hfault
          subst hfault
          cases habout : condition.aboutInvariant <;>
            simp [Condition.failure, habout, Fault.IsLookup]
        · simp only [checkAll, hquery, if_neg hsat] at hfault
          refine ih (hrest.mono ?_) hfault
          rintro lookup (hlookup | ⟨name, hname, rfl⟩)
          · exact hkeeps.serves lookup hlookup
          · exact .inl (hbound name hname)

/-- A table that takes in the entries of an environment one by one has the names of all
that it takes. -/
theorem NameTable.isSome_find?_foldl {step : NameTable → String × TypeEntry → NameTable}
    (hkeeps : ∀ (names : NameTable) (added : String × TypeEntry), names.Keeps (step names added))
    (htakes : ∀ names, ((step names (name, entry)).find? name).isSome = true)
    (hmem : (name, entry) ∈ env) (names : NameTable) :
    ((env.foldl step names).find? name).isSome = true := by
  have hstays : ∀ (rest : TypeEnv) (names : NameTable), names.Keeps (rest.foldl step names) := by
    intro rest
    induction rest with
    | nil => exact fun _ _ => id
    | cons head _ ih => exact fun names other hother => ih _ other (hkeeps names head other hother)
  obtain ⟨_, later, rfl⟩ := List.append_of_mem hmem
  rw [List.foldl_append, List.foldl_cons]
  exact hstays later _ name (htakes _)

/-- The table of an environment has its integers and truth values. -/
theorem NameTable.isSome_find?_ofEnv (hfind : env.find? name = some entry) (hentry : entry.IsScalar)
    (twoRuns : Bool) : ((ofEnv twoRuns env).find? name).isSome = true := by
  obtain ⟨⟨other, found⟩, hhead, hfound⟩ := Option.map_eq_some_iff.mp hfind
  obtain rfl : found = entry := hfound
  obtain rfl : other = name := by simpa using List.find?_some hhead
  have hmem := List.mem_of_find?_eq_some hhead
  obtain ⟨sort, hsort⟩ : ∃ sort, found.solverSort? = some sort := by
    rcases hentry with rfl | rfl <;> exact ⟨_, rfl⟩
  cases twoRuns with
  | false =>
    rw [ofEnv_eq_foldl]
    refine isSome_find?_foldl (fun names added key hkey => ?_) (fun names => ?_) hmem []
    · rw [find?_withEntry]
      split <;> simp [Option.isSome_or, hkey]
    · simp [find?_withEntry, hsort]
  | true =>
    rw [ofEnv_true_eq_foldl]
    refine isSome_find?_foldl (fun names added => ?_) (fun names => ?_) hmem []
    · rw [withCopies]
      cases added.2.solverSort? with
      | none => exact fun _ => id
      | some sort =>
        cases sort with
        | array => exact keeps_insert _ _ _
        | int | bool | real => exact keeps_declare _ _ _
    · rw [find?_withCopies_of_writes names hsort (.inl rfl)]
      rfl

theorem TypeEnv.IsScalar.serves (henv : env.IsScalar) (twoRuns : Bool) (lookup : Lookup)
    (hserves : env.Serves lookup) : (ofEnv twoRuns env).Serves lookup := by
  cases lookup with
  | name name =>
    obtain ⟨hunbound, hcovers⟩ := hserves
    refine hcovers.imp (fun hfound => ?_) (fun hfound => ?_)
    · obtain ⟨entry, hfind⟩ := Option.isSome_iff_exists.mp hfound
      exact isSome_find?_ofEnv hfind (henv.unbound name entry hunbound hfind) twoRuns
    · obtain ⟨entry, hfind⟩ := Option.isSome_iff_exists.mp hfound
      exact isSome_find?_ofEnv hfind
        (henv.unbound _ entry (isUnbound_plainName hunbound) hfind) twoRuns
  | element | length => exact hserves

end Checks

/-! ## Tasks -/

namespace Token

theorem tilde_mem_of_first? {before : Option Char} {text spelling : List Char}
    (hfirst : first? before text = some (spelling, .adjacent)) : '~' ∈ spelling := by
  have hkeywords : ∀ entry ∈ keywords, entry.2 ≠ .adjacent := by decide
  have hsigns : ∀ entry ∈ signs, entry.2 = .adjacent → '~' ∈ entry.1 := by decide
  cases text with
  | nil => simp [first?] at hfirst
  | cons char =>
    by_cases hdigit : Text.isDigit char = true
    · simp [first?, hdigit] at hfirst
    · rw [first?, if_neg hdigit] at hfirst
      rcases Option.or_eq_some_iff.mp hfirst with hkeyword | ⟨-, hother⟩
      · exact absurd rfl (hkeywords _ (mem_of_keyword? hkeyword).1)
      rcases Option.or_eq_some_iff.mp hother with hsign | ⟨-, hname⟩
      · exact hsigns _ (mem_of_spelled? hsign).1 rfl
      · split at hname <;> simp at hname

/-- Only the sign itself is read as adjacency. -/
theorem tilde_mem_of_mem_scanFrom (before : Option Char) (text : List Char) :
    ∀ token ∈ scanFrom before text, token.kind = .adjacent → '~' ∈ text := by
  induction before, text using scan_induction with
  | nil => simp [scanFrom]
  | passed _ char _ hfirst ih =>
    rw [scanFrom_of_passed hfirst]
    exact fun token htoken hkind => List.mem_cons_of_mem char (ih token htoken hkind)
  | token _ spelling kind text hne hfirst ih =>
    rw [scanFrom_of_first? hne hfirst]
    intro token htoken hkind
    rcases List.mem_cons.mp htoken with rfl | htoken
    · obtain rfl : kind = .adjacent := hkind
      exact List.mem_append_left text (tilde_mem_of_first? hfirst)
    · exact List.mem_append_right spelling (ih token htoken hkind)

end Token

/-- A text without the sign of adjacency. -/
def LacksTilde (text : String) : Prop :=
  '~' ∉ text.toList

instance (text : String) : Decidable (LacksTilde text) :=
  inferInstanceAs (Decidable (_ ∉ _))

theorem Vocabulary.scalar_isOpen : Vocabulary.scalar.IsOpen := by
  have happend {name mark : String} (hname : IsWritten name) (hmark : IsWritten mark) :
      IsWritten (name ++ mark) := by
    simp only [IsWritten, IsPlain, String.toList_append, List.mem_append, not_or]
    exact ⟨⟨hname.1, hmark.1⟩, hname.2, hmark.2⟩
  have hcost : IsWritten costName := by decide
  have hunitCost : IsWritten unitCostName := by decide
  exact ⟨fun name hname => ⟨happend hname (by decide), happend hname (by decide)⟩, hcost,
    hunitCost, fun _ => id⟩

theorem Vocabulary.scalar_admits : Vocabulary.scalar.Admits LacksTilde := by
  intro text term htext hclaim
  have hkinds : ∀ token ∈ Token.scan text, token.kind ≠ .adjacent := fun token htoken hkind =>
    htext (Token.tilde_mem_of_mem_scanFrom none text.toList token htoken hkind)
  have hclaimed := @isClaimed_of_ofClaim _ _ (· ≠ .adjacent) hkinds hclaim
  refine hclaimed.2.mono (fun _ => id) ?_ fun _ => trivial
  rintro _ ⟨kind, hkind, hoperator⟩ rfl
  cases kind with
  | adjacent => exact hkind rfl
  | _ => cases hoperator

namespace Task

variable {task : Task} {verifier : Verifier} {env : TypeEnv} {program : Source.Program}
  {statement pre post : Term} {between : RunState}

/-- What type resolution leaves behind: an environment of scalars in which the statement
and the claims of the task are declared. -/
structure Settles (task : Task) (verifier : Verifier) (statement pre post : Term)
    (between : RunState) (env : TypeEnv) : Prop where
  prepared : Gives task.prepared { log := .empty, verifier } (statement, pre, post) between
  scope : between.verifier.scopes.find? task.scope = some (some env)
  scalar : env.IsScalar
  declared : Term.Declared env statement
  pre : pre.LooksUp env.Serves
  post : post.LooksUp env.Serves

theorem settles_of_gives_prepared (hparse : Source.parse task.code = .ok program)
    (hscalar : Source.scalarBlock LacksTilde program) (hpreText : LacksTilde task.precondition)
    (hpostText : LacksTilde task.postcondition)
    (hscope : verifier.scopes.find? task.scope = some (some env)) (henv : env.IsScalar)
    (hprepared : Gives task.prepared { log := .empty, verifier } (statement, pre, post) between) :
    ∃ found, task.Settles verifier statement pre post between found := by
  have hgives := hprepared
  have hfits := fits_of_gives_prepared hprepared
  have hspeaks {text : String} (htext : LacksTilde text) :
      Speaks .scalar (Logged.parse text) :=
    speaks_parse fun term => Vocabulary.scalar_admits text term htext
  simp only [prepared, gives_bind, gives_pure, Run.gives_logged, Prod.mk.injEq] at hprepared
  obtain ⟨_, start, hstatement, _, _, ⟨_, hpre, rfl⟩, _, _, ⟨_, hpost, rfl⟩, _, _, hfirst, _, _,
    hsecond, _, _, hthird, ⟨rfl, rfl, rfl⟩, rfl⟩ := hprepared
  have hkeeps := keepsTo_of_gives_statement Vocabulary.scalar_isOpen Vocabulary.scalar_admits hparse
    (Source.isWritten_of_parse hparse) hscalar hstatement
  -- Each of the three resolutions leaves an environment of scalars for the next.
  obtain ⟨_, _, hfound, hresolved, rfl⟩ := Run.gives_typing.mp hfirst
  obtain ⟨_, _, _, _, -, -, rfl, -⟩ := of_gives_statement hstatement
  cases hscope.symm.trans hfound
  obtain ⟨_, rfl, hafterFirst, -, hdeclared⟩ :=
    declared_of_resolveStatement hfits.statement hkeeps henv hresolved
  obtain ⟨_, _, hfoundNext, hpreResolved, rfl⟩ := Run.gives_typing.mp hsecond
  cases (Scopes.find?_insert _ _ _).symm.trans hfoundNext
  obtain ⟨_, rfl, hafterSecond, hkept, hpreLooks⟩ := accepted_of_resolveClaim
    hfits.pre (hspeaks hpreText _ _ _ hpre) hafterFirst hpreResolved
  obtain ⟨_, _, hfoundLast, hpostResolved, rfl⟩ := Run.gives_typing.mp hthird
  cases (Scopes.find?_insert _ _ _).symm.trans hfoundLast
  obtain ⟨last, rfl, hlast, hextends, hpostLooks⟩ := accepted_of_resolveClaim
    hfits.post (hspeaks hpostText _ _ _ hpost) hafterSecond hpostResolved
  exact ⟨last, hgives, Scopes.find?_insert _ _ _, hlast, hdeclared.mono (hkept.trans hextends),
    hpreLooks.mono hextends.serves, hpostLooks⟩

/-- The statement and the claims of a task are read, and pass type resolution. -/
def Resolves (task : Task) (verifier : Verifier) : Prop :=
  ∃ parts between, Gives task.prepared { log := .empty, verifier } parts between

theorem resolves_iff :
    task.Resolves verifier ↔
      (outcomeOn task.prepared { log := .empty, verifier }).1.isOk = true := by
  rcases hrun : outcomeOn task.prepared { log := .empty, verifier } with ⟨fault | parts, between⟩
  · have hfails : Fails task.prepared { log := .empty, verifier } fault between := hrun
    simp only [Except.isOk, Except.toBool, Bool.false_eq_true, iff_false]
    rintro ⟨_, _, hgives⟩
    exact hgives.not_fails hfails
  · simp only [Except.isOk, Except.toBool, iff_true]
    exact ⟨parts, between, hrun⟩

instance : Decidable (task.Resolves verifier) :=
  decidable_of_iff _ resolves_iff.symm

end Task

theorem TypeEnv.isScalar_of_forall (henv : ∀ entry ∈ env, entry.2.IsScalar) : env.IsScalar := by
  have hfound : ∀ name entry, env.find? name = some entry → entry.IsScalar := by
    intro name entry hfind
    obtain ⟨pair, hpair, rfl⟩ := Option.map_eq_some_iff.mp hfind
    exact henv pair (List.mem_of_find?_eq_some hpair)
  exact ⟨fun name entry hfind => (hfound name entry hfind).element?,
    fun name entry _ hfind => hfound name entry hfind⟩

namespace Task

section Conditions

variable {task : Task} {scope : String} {statement pre post : Term}
  {allowed : Lookup → Prop} {before after : RunState} {conditions : List Condition}

/-- The conditions of the program look up what it and its claims do. -/
theorem looksUpAll_conditionsOf (hstatement : statement.LooksUp allowed)
    (hhavocs : statement.havocs = []) (hpre : pre.LooksUp allowed) (hpost : post.LooksUp allowed)
    (hgives : Gives
    (conditionsOf scope pre statement post aboutInvariant) before conditions after) :
    LooksUpAll allowed conditions := by
  obtain ⟨-, _, _, _, -, hobligations, rfl, -⟩ := gives_conditionsOf.mp hgives
  obtain ⟨hprecondition, hsides⟩ := hstatement.owes hhavocs _ _ _ _ hpost hobligations
  refine looksUpAll_of_forall fun condition hcondition => ?_
  rcases (mem_listed.mp hcondition).2 with hclaim | hclaim
  · rw [hclaim]
    exact looksUp_implies hpre hprecondition
  · exact hsides _ hclaim

theorem Fits.scopes_eq (hfits : Fits statement pre post before.log)
    (hgives : Gives (if task.checksInvariants then invariantConditions scope pre statement
      else pure []) before conditions after) :
    after.verifier.scopes = before.verifier.scopes := by
  cases hchecks : task.checksInvariants with
  | false =>
    simp only [hchecks, Bool.false_eq_true, if_false] at hgives
    obtain ⟨-, rfl⟩ := gives_pure.mp hgives
    rfl
  | true =>
    simp only [hchecks, if_true] at hgives
    exact (hfits.apart hgives).2.2.scopes

/-- The first condition of the cut program binds the variables of its havocs, and those
after it may look them up. -/
theorem looksUpAll_invariantConditions (hstatement : statement.LooksUp allowed)
    (hhavocs : statement.havocs = []) (hpre : pre.LooksUp allowed)
    (hgives : Gives (invariantConditions scope pre statement) before conditions after) :
    LooksUpAll allowed conditions := by
  obtain ⟨cut, _, invariant, hinvariant, hcut, hconditions⟩ :=
    exists_cut_of_gives_invariantConditions hgives
  obtain ⟨hisStatement, _, _, _, -, hobligations, rfl, -⟩ := gives_conditionsOf.mp hconditions
  have hcloses := closes_of_cutsInto (cutsInto_of_cutLoops hcut) hhavocs
  have hpost := hcloses.invariants _ hstatement invariant hinvariant
  have hmissing : cut.program ≠ .missing := by
    intro heq
    rw [heq] at hisStatement
    cases hisStatement
  rw [← orSkip_eq_self hmissing] at hobligations
  obtain ⟨hprecondition, hsides⟩ := hcloses.owes _ _ hstatement _ _ _ _ hpost hobligations
  obtain ⟨hbinds, -⟩ := hcloses.binds [] _ _ _ _ _ (List.nil_subset _) hobligations
  rw [List.append_nil] at hbinds
  refine .cons (looksUp_implies hpre hprecondition) (looksUpAll_of_forall ?_)
  intro condition hcondition
  obtain ⟨claim, hclaim, rfl⟩ := List.mem_map.mp hcondition
  refine (hsides claim (mem_sortByText.mp hclaim)).mono ?_
  rintro _ (hlookup | ⟨havoc, hhavoc, rfl⟩)
  · exact .inl hlookup
  · have hname : havocName havoc.1 havoc.2 ∈ cut.program.havocNames := List.mem_map_of_mem hhavoc
    exact .inr ⟨_, List.mem_append_right _ (hbinds hname), rfl⟩

end Conditions

namespace Settles

variable {task : Task} {verifier : Verifier} {statement pre post : Term} {between : RunState}
  {env : TypeEnv}

/-- The conditions of a task that has passed type resolution. -/
theorem looksUpAll (hsettles : task.Settles verifier statement pre post between env)
    {conditions : List Condition}
    (hgives : Gives task.conditions { log := .empty, verifier } conditions after) :
    LooksUpAll env.Serves conditions ∧
      after.verifier.scopes.find? task.scope = some (some env) := by
  obtain ⟨_, _, _, _, _, hprepared, hinvariants, hprogram, rfl⟩ := of_gives_conditions hgives
  obtain ⟨rfl, rfl⟩ := hsettles.prepared.unique hprepared
  have hfits := fits_of_gives_prepared hprepared
  have hhavocs := Term.havocs_of_inFrame hfits.statement
  have hprogramLooks := looksUpAll_conditionsOf hsettles.declared.looksUp hhavocs hsettles.pre
    hsettles.post hprogram
  obtain ⟨-, _, _, _, -, -, -, hafter⟩ := gives_conditionsOf.mp hprogram
  have hscopes : after.verifier.scopes = between.verifier.scopes := by
    rw [hafter, ← hfits.scopes_eq hinvariants]
  refine ⟨?_, hscopes ▸ hsettles.scope⟩
  cases hchecks : task.checksInvariants with
  | false =>
    simp only [hchecks, Bool.false_eq_true, if_false] at hinvariants
    obtain ⟨rfl, -⟩ := gives_pure.mp hinvariants
    exact hprogramLooks
  | true =>
    simp only [hchecks, if_true] at hinvariants
    exact (looksUpAll_invariantConditions hsettles.declared.looksUp hhavocs hsettles.pre
      hinvariants).append hprogramLooks

theorem not_isLookup_of_fails (hsettles : task.Settles verifier statement pre post between env)
    (hfails : Fails task.conditions { log := .empty, verifier } fault after) :
    ¬ fault.IsLookup := by
  have hfits := fits_of_gives_prepared hsettles.prepared
  have hhavocs := Term.havocs_of_inFrame hfits.statement
  rw [conditions_eq, Fails, hsettles.prepared.outcomeOn_bind] at hfails
  rcases fails_bind.mp hfails with hinvariants | ⟨ofInvariants, next, hinvariants, hrest⟩
  · cases hchecks : task.checksInvariants with
    | false =>
      simp only [hchecks, Bool.false_eq_true, if_false] at hinvariants
      exact absurd hinvariants not_fails_pure
    | true =>
      simp only [hchecks, if_true] at hinvariants
      exact finds_invariantConditions hsettles.scope hsettles.declared hfits.statement hinvariants
  · have hscope : next.verifier.scopes.find? task.scope = some (some env) :=
      hfits.scopes_eq hinvariants ▸ hsettles.scope
    rcases fails_bind.mp hrest with hprogram | ⟨_, _, -, hlisted⟩
    · refine finds_conditionsOf hscope ?_ hprogram
      rw [hhavocs]
      exact List.forall_mem_nil _
    · exact absurd hlisted not_fails_pure

end Settles

end Task

/-- After type resolution in an environment of integers and truth values, no step fails
for want of an entry: whatever else a run ends with, it is not a type, a name or an array
that was not found.  Arrays are neither read nor compared in the program and its claims. -/
theorem lookups_succeed_after_resolution {task : Task} {verifier : Verifier} {env : TypeEnv}
    {program : Source.Program} (hparse : Source.parse task.code = .ok program)
    (hscalar : Source.scalarBlock LacksTilde program) (hpre : LacksTilde task.precondition)
    (hpost : LacksTilde task.postcondition)
    (hscope : verifier.scopes.find? task.scope = some (some env))
    (henv : ∀ entry ∈ env, entry.2 = .known .int ∨ entry.2 = .known .bool)
    (hresolves : task.Resolves verifier) (verdicts : List Verdict) :
    (verifier.verify task verdicts).outcome ≠ .error .noSuchEntry ∧
      ∀ name, (verifier.verify task verdicts).outcome ≠ .error (.unknownName name) := by
  obtain ⟨⟨statement, preClaim, postClaim⟩, between, hprepared⟩ := hresolves
  obtain ⟨found, hsettles⟩ := Task.settles_of_gives_prepared hparse hscalar hpre hpost hscope
    (TypeEnv.isScalar_of_forall henv) hprepared
  have hnone : ∀ fault, (verifier.verify task verdicts).outcome = .error fault →
      ¬ fault.IsLookup := by
    intro fault hfault
    rcases gives_or_fails task.conditions { log := .empty, verifier } with
      ⟨conditions, after, hgives⟩ | ⟨raised, after, hfails⟩
    · obtain ⟨hlooks, hafter⟩ := hsettles.looksUpAll hgives
      rw [(verify_eq_checkAll verdicts hgives hafter).1] at hfault
      exact checkAll_finds (hlooks.mono (hsettles.scalar.serves task.twoRuns)) hfault
    · have hrun : task.conditions.run { log := .empty, verifier } = (.error raised, after) := hfails
      rw [Verifier.verify, hrun, Except.error.injEq] at hfault
      exact hfault ▸ hsettles.not_isLookup_of_fails hfails
  exact ⟨fun hentry => hnone _ hentry (.inl rfl),
    fun name hunknown => hnone _ hunknown (.inr ⟨name, rfl⟩)⟩

/-- Two runs of a countdown, with an invariant that compares them. -/
def mirroredTask : Task :=
  { code := "while x > 0:\n  invariant('x#1 == x#2')\n  x = x - 1\n"
    scope := "countdown"
    precondition := "x#1 == x#2"
    postcondition := "x#1 <= 0"
    twoRuns := true
    checksInvariants := true
    lengths := [] }

def mirroredSource : Source.Program :=
  [.whileLoop (.compare (.name "x") .gt (.constant (.int 0)) [] [])
    [.expr (.call (.name "invariant") [.constant (.text "x#1 == x#2")]),
     .assign [.name "x"] (.binary (.name "x") .sub (.constant (.int 1)))] []]

/-- The fifth havoc of the variable is bound as the first would be. -/
theorem lookups_succeed_after_resolution_mirrored :
    let verifier : Verifier :=
      { scopes := [("countdown", some [("x", .known .int)])], counts := [("x", 4)] }
    mirroredTask.Resolves verifier ∧
      (verifier.verify mirroredTask [.unknown]).outcome ≠ .error .noSuchEntry ∧
      ∀ name, (verifier.verify mirroredTask [.unknown]).outcome ≠ .error (.unknownName name) := by
  intro verifier
  have hlex : Source.lex mirroredTask.code = .ok [.keyword "while", .name "x", .sign ">",
      .constant (.int 0), .sign ":", .newline, .indent, .name "invariant", .sign "(",
      .constant (.text "x#1 == x#2"), .sign ")", .newline, .name "x", .sign "=", .name "x",
      .sign "-", .constant (.int 1), .newline, .dedent] := by
    decide +kernel
  have hparse : Source.parse mirroredTask.code = .ok mirroredSource := by
    rw [Source.parse, hlex]
    rfl
  have hscalar : Source.scalarBlock LacksTilde mirroredSource := by
    simp [mirroredSource, Source.scalarBlock, Source.Stmt.IsScalar, Source.Expr.IsScalar,
      Source.scalarItems, Source.claimText?]
    decide
  have hresolves : mirroredTask.Resolves verifier := by decide +kernel
  exact ⟨hresolves, lookups_succeed_after_resolution hparse hscalar (by decide) (by decide) rfl
    (by simp) hresolves [.unknown]⟩

/-- Adjacency in an assumption is accepted by type resolution like any comparison, and
then asks for the length of an array. -/
def comparedTask : Task :=
  { code := "assume('x ~ y')\n"
    scope := "compared"
    precondition := "True"
    postcondition := "True"
    twoRuns := false
    checksInvariants := false
    lengths := [] }

theorem lookup_fails_at_compared_assumption :
    let verifier := Verifier.new.register "compared"
      (some [("x", .known .int), ("y", .known .int)])
    Source.parse comparedTask.code =
        .ok [.expr (.call (.name "assume") [.constant (.text "x ~ y")])] ∧
      comparedTask.Resolves verifier ∧
      (verifier.verify comparedTask []).outcome = .error .noSuchEntry := by
  have hlex : Source.lex comparedTask.code = .ok [.name "assume", .sign "(",
      .constant (.text "x ~ y"), .sign ")", .newline] := by
    decide +kernel
  refine ⟨?_, by decide +kernel, by decide +kernel⟩
  rw [Source.parse, hlex]
  rfl

end HoareCheck
