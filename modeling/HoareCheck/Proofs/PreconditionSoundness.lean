import HoareCheck.Proofs.PreconditionMeaning

/-!
# Soundness of the computed precondition

A program that starts where its precondition is true ends where its
postcondition is, if the side conditions are true everywhere.  This holds of
programs without assertions (`precondition_sound`).

The precondition of an assertion is that the condition of what follows implies
the asserted claim, so a false condition of what follows makes it true.  With
assertions the computed precondition is therefore right exactly for the runs
that come to every assertion where the condition of what follows is true
(`asserts_checked_iff`).
-/

namespace HoareCheck

open Term

variable {statement program : Term} {post : Store → Prop} {store : Store}

section Runs

variable (interp : Interpretation) (havoc : HavocRule)

/-- A run of the statement comes to the head of a loop with the given
invariant, in the given store. -/
inductive Visits : Term → Store → Term → Store → Prop
  | first {first second invariant : Term} {store reached : Store} :
      Visits first store invariant reached →
      Visits (.seq first second) store invariant reached
  | second {first second invariant : Term} {store between reached : Store} :
      Exec interp havoc first store (.done between) →
      Visits second between invariant reached →
      Visits (.seq first second) store invariant reached
  | thenBranch {condition thenBranch elseBranch invariant : Term}
      {store reached : Store} :
      condition.Holds interp store → Visits thenBranch store invariant reached →
      Visits (.ifElse condition thenBranch elseBranch) store invariant reached
  | elseBranch {condition thenBranch elseBranch invariant : Term}
      {store reached : Store} :
      ¬ condition.Holds interp store → Visits elseBranch store invariant reached →
      Visits (.ifElse condition thenBranch elseBranch) store invariant reached
  | head {invariant condition body : Term} {store : Store} :
      Visits (.loop invariant condition body) store invariant store
  | body {outer condition body invariant : Term} {store reached : Store} :
      condition.Holds interp store → Visits body store invariant reached →
      Visits (.loop outer condition body) store invariant reached
  | again {outer condition body invariant : Term} {store between reached : Store} :
      condition.Holds interp store → Exec interp havoc body store (.done between) →
      Visits (.loop outer condition body) between invariant reached →
      Visits (.loop outer condition body) store invariant reached

/-- A run of the statement comes to an assertion in the store `reached`; `rest`
is the set of stores that what follows the assertion asks for, given the set
that the whole statement is to end in. -/
inductive Asserts : Term → (Store → Prop) → Store → (Store → Prop) → Store → Prop
  | here {claim : Term} {post : Store → Prop} {store : Store} :
      Asserts (.assert claim) post store post store
  | first {first second : Term} {post rest : Store → Prop} {store reached : Store} :
      Asserts first (second.Pre interp havoc post) store rest reached →
      Asserts (.seq first second) post store rest reached
  | second {first second : Term} {post rest : Store → Prop}
      {store between reached : Store} :
      Exec interp havoc first store (.done between) →
      Asserts second post between rest reached →
      Asserts (.seq first second) post store rest reached
  | thenBranch {condition thenBranch elseBranch : Term} {post rest : Store → Prop}
      {store reached : Store} :
      condition.Holds interp store → Asserts thenBranch post store rest reached →
      Asserts (.ifElse condition thenBranch elseBranch) post store rest reached
  | elseBranch {condition thenBranch elseBranch : Term} {post rest : Store → Prop}
      {store reached : Store} :
      ¬ condition.Holds interp store → Asserts elseBranch post store rest reached →
      Asserts (.ifElse condition thenBranch elseBranch) post store rest reached
  | body {invariant condition body : Term} {post rest : Store → Prop}
      {store reached : Store} :
      condition.Holds interp store →
      Asserts body (invariant.invariantOrTrue.Holds interp) store rest reached →
      Asserts (.loop invariant condition body) post store rest reached
  | again {invariant condition body : Term} {post rest : Store → Prop}
      {store between reached : Store} :
      condition.Holds interp store → Exec interp havoc body store (.done between) →
      Asserts (.loop invariant condition body) post between rest reached →
      Asserts (.loop invariant condition body) post store rest reached

/-- No run from the store fails an assertion or comes to a loop whose invariant
is false, and all that end do so in the given set. -/
structure Correct (statement : Term) (post : Store → Prop) (store : Store) : Prop where
  safe : ¬ Exec interp havoc statement store .failed
  invariants : ∀ invariant reached, Visits interp havoc statement store invariant reached →
    invariant.invariantOrTrue.Holds interp reached
  final : ∀ after, Exec interp havoc statement store (.done after) → post after

/-- Every assertion that a run from the store comes to is reached where what
follows it asks for the store. -/
def AssertsMet (statement : Term) (post : Store → Prop) (store : Store) : Prop :=
  ∀ rest reached, Asserts interp havoc statement post store rest reached → rest reached

/-- No step of the statement leaves a set of stores. -/
def Term.Preserves (within : Store → Prop) : Term → Prop
  | .skip | .assume _ | .assert _ => True
  | .assign (.var name) value _ => ∀ store, within store →
      within (Function.update store name (value.eval interp store))
  | .ifElse _ thenBranch elseBranch =>
    thenBranch.Preserves within ∧ elseBranch.Preserves within
  | .seq first second => first.Preserves within ∧ second.Preserves within
  | .loop _ _ body => body.Preserves within
  | .havoc name count => ∀ before after, within before →
      havoc name count before after → within after
  | _ => False

end Runs

section Soundness

variable {interp : Interpretation} {havoc : HavocRule} {within : Store → Prop}

namespace AssertsMet

theorem first {first second : Term} {post : Store → Prop} {store : Store}
    (hmet : AssertsMet interp havoc (.seq first second) post store) :
    AssertsMet interp havoc first (second.Pre interp havoc post) store :=
  fun rest reached hreached => hmet rest reached (.first hreached)

theorem second {first second : Term} {post : Store → Prop} {store between : Store}
    (hmet : AssertsMet interp havoc (.seq first second) post store)
    (hfirst : Exec interp havoc first store (.done between)) :
    AssertsMet interp havoc second post between :=
  fun rest reached hreached => hmet rest reached (.second hfirst hreached)

theorem thenBranch {condition thenBranch elseBranch : Term} {post : Store → Prop} {store : Store}
    (hmet : AssertsMet interp havoc (.ifElse condition thenBranch elseBranch) post store)
    (hcondition : condition.Holds interp store) : AssertsMet interp havoc thenBranch post store :=
  fun rest reached hreached => hmet rest reached (.thenBranch hcondition hreached)

theorem elseBranch {condition thenBranch elseBranch : Term} {post : Store → Prop} {store : Store}
    (hmet : AssertsMet interp havoc (.ifElse condition thenBranch elseBranch) post store)
    (hcondition : ¬ condition.Holds interp store) : AssertsMet interp havoc elseBranch post store :=
  fun rest reached hreached => hmet rest reached (.elseBranch hcondition hreached)

theorem body {invariant condition body : Term} {post : Store → Prop} {store : Store}
    (hmet : AssertsMet interp havoc (.loop invariant condition body) post store)
    (hcondition : condition.Holds interp store) :
    AssertsMet interp havoc body (invariant.invariantOrTrue.Holds interp) store :=
  fun rest reached hreached => hmet rest reached (.body hcondition hreached)

theorem again {invariant condition body : Term} {post : Store → Prop} {store between : Store}
    (hmet : AssertsMet interp havoc (.loop invariant condition body) post store)
    (hcondition : condition.Holds interp store)
    (hbody : Exec interp havoc body store (.done between)) :
    AssertsMet interp havoc (.loop invariant condition body) post between :=
  fun rest reached hreached => hmet rest reached (.again hcondition hbody hreached)

end AssertsMet

/-- What no step leaves, no run leaves. -/
theorem Exec.stays {before after : Store} (hexec : Exec interp havoc statement before (.done after))
    (hpreserves : statement.Preserves interp havoc within) (hbefore : within before) :
    within after := by
  generalize houtcome : Outcome.done after = outcome at hexec
  induction hexec generalizing after with
  | skip | assume | assertTrue | loopEnd =>
    cases houtcome
    exact hbefore
  | assign =>
    cases houtcome
    exact hpreserves _ hbefore
  | assignElement => exact hpreserves.elim
  | seq _ _ ihfirst ihsecond =>
    exact ihsecond hpreserves.2 (ihfirst hpreserves.1 hbefore rfl) houtcome
  | ifTrue _ _ ih => exact ih hpreserves.1 hbefore houtcome
  | ifFalse _ _ ih => exact ih hpreserves.2 hbefore houtcome
  | loopAgain _ _ _ ihbody ihloop =>
    exact ihloop hpreserves (ihbody hpreserves hbefore rfl) houtcome
  | havoc hhavoc =>
    cases houtcome
    exact hpreserves _ _ hbefore hhavoc
  | seqFailed | assertFalse | loopFailed => cases houtcome

/-- A run from a store of the precondition that meets its assertions does not
fail, and ends in the postcondition. -/
theorem Exec.sound {outcome : Outcome} (hexec : Exec interp havoc statement store outcome)
    (hpreserves : statement.Preserves interp havoc within)
    (hside : statement.Side interp havoc within post) (hstore : within store)
    (hpre : statement.Pre interp havoc post store)
    (hmet : AssertsMet interp havoc statement post store) :
    ∃ after, outcome = .done after ∧ post after := by
  induction hexec generalizing post with
  | skip => exact ⟨_, rfl, hpre⟩
  | assign => exact ⟨_, rfl, hpre⟩
  | assignElement => exact hpreserves.elim
  | seq hfirst _ ihfirst ihsecond =>
    obtain ⟨_, hdone, hbetween⟩ := ihfirst hpreserves.1 hside.1 hstore hpre hmet.first
    cases hdone
    exact ihsecond hpreserves.2 hside.2 (hfirst.stays hpreserves.1 hstore) hbetween
      (hmet.second hfirst)
  | seqFailed _ ihfirst =>
    obtain ⟨_, hdone, _⟩ := ihfirst hpreserves.1 hside.1 hstore hpre hmet.first
    cases hdone
  | ifTrue hcondition _ ih =>
    exact ih hpreserves.1 hside.1 hstore (hpre.1 hcondition) (hmet.thenBranch hcondition)
  | ifFalse hcondition _ ih =>
    exact ih hpreserves.2 hside.2 hstore (hpre.2 hcondition) (hmet.elseBranch hcondition)
  | assume hclaim => exact ⟨_, rfl, hpre hclaim⟩
  | assertTrue => exact ⟨_, rfl, hmet _ _ .here⟩
  | assertFalse hclaim => exact absurd (hpre (hmet _ _ .here)) hclaim
  | loopEnd hcondition => exact ⟨_, rfl, (hside.2 _ hstore hpre).2 hcondition⟩
  | loopAgain hcondition hbody _ ihbody ihloop =>
    -- The body ends in the invariant, which is the precondition of the loop.
    obtain ⟨_, hdone, hbetween⟩ := ihbody hpreserves hside.1 hstore
      ((hside.2 _ hstore hpre).1 hcondition)
      (hmet.body hcondition)
    cases hdone
    exact ihloop hpreserves hside (hbody.stays hpreserves hstore) hbetween
      (hmet.again hcondition hbody)
  | loopFailed hcondition _ ihbody =>
    obtain ⟨_, hdone, _⟩ := ihbody hpreserves hside.1 hstore
      ((hside.2 _ hstore hpre).1 hcondition)
      (hmet.body hcondition)
    cases hdone
  | havoc hhavoc => exact ⟨_, rfl, hpre _ hhavoc⟩

/-- A run from a store of the precondition that meets its assertions comes to
every loop in its invariant. -/
theorem Visits.sound {statement invariant : Term} {post : Store → Prop}
    {store reached : Store} (hvisits : Visits interp havoc statement store invariant reached)
    (hpreserves : statement.Preserves interp havoc within)
    (hside : statement.Side interp havoc within post) (hstore : within store)
    (hpre : statement.Pre interp havoc post store)
    (hmet : AssertsMet interp havoc statement post store) :
    invariant.invariantOrTrue.Holds interp reached := by
  induction hvisits generalizing post with
  | first _ ih =>
    exact ih hpreserves.1 hside.1 hstore hpre hmet.first
  | second hfirst _ ih =>
    obtain ⟨_, hdone, hbetween⟩ := hfirst.sound hpreserves.1 hside.1 hstore hpre hmet.first
    cases hdone
    exact ih hpreserves.2 hside.2 (hfirst.stays hpreserves.1 hstore) hbetween (hmet.second hfirst)
  | thenBranch hcondition _ ih =>
    exact ih hpreserves.1 hside.1 hstore (hpre.1 hcondition) (hmet.thenBranch hcondition)
  | elseBranch hcondition _ ih =>
    exact ih hpreserves.2 hside.2 hstore (hpre.2 hcondition) (hmet.elseBranch hcondition)
  | head => exact hpre
  | body hcondition _ ih =>
    exact ih hpreserves hside.1 hstore ((hside.2 _ hstore hpre).1 hcondition) (hmet.body hcondition)
  | again hcondition hbody _ ih =>
    obtain ⟨_, hdone, hbetween⟩ := hbody.sound hpreserves hside.1 hstore
      ((hside.2 _ hstore hpre).1 hcondition)
      (hmet.body hcondition)
    cases hdone
    exact ih hpreserves hside (hbody.stays hpreserves hstore) hbetween (hmet.again hcondition hbody)

theorem AssertsMet.correct (hmet : AssertsMet interp havoc statement post store)
    (hpreserves : statement.Preserves interp havoc within)
    (hside : statement.Side interp havoc within post) (hstore : within store)
    (hpre : statement.Pre interp havoc post store) : Correct interp havoc statement post store where
  safe hfailed := by
    obtain ⟨_, hdone, _⟩ := hfailed.sound hpreserves hside hstore hpre hmet
    cases hdone
  invariants invariant reached hvisits := hvisits.sound hpreserves hside hstore hpre hmet
  final after hexec := by
    obtain ⟨_, hdone, hafter⟩ := hexec.sound hpreserves hside hstore hpre hmet
    cases hdone
    exact hafter

/-! ## Runs that are correct -/

namespace Correct

theorem first {first second : Term} {post : Store → Prop} {store : Store}
    (hsecond : ∀ between, Correct interp havoc second post between →
      second.Pre interp havoc post between)
    (hcorrect : Correct interp havoc (.seq first second) post store) :
    Correct interp havoc first (second.Pre interp havoc post) store where
  safe hfailed := hcorrect.safe (.seqFailed hfailed)
  invariants invariant reached hvisits :=
    hcorrect.invariants invariant reached (.first hvisits)
  final between hfirst := by
    apply hsecond
    exact ⟨fun hfailed => hcorrect.safe (.seq hfirst hfailed), fun invariant reached hvisits =>
        hcorrect.invariants invariant reached (.second hfirst hvisits),
      fun after hexec => hcorrect.final after (.seq hfirst hexec)⟩

theorem second {first second : Term} {post : Store → Prop} {store between : Store}
    (hcorrect : Correct interp havoc (.seq first second) post store)
    (hfirst : Exec interp havoc first store (.done between)) :
    Correct interp havoc second post between where
  safe hfailed := hcorrect.safe (.seq hfirst hfailed)
  invariants invariant reached hvisits :=
    hcorrect.invariants invariant reached (.second hfirst hvisits)
  final after hexec := hcorrect.final after (.seq hfirst hexec)

theorem thenBranch {condition thenBranch elseBranch : Term} {post : Store → Prop} {store : Store}
    (hcorrect : Correct interp havoc (.ifElse condition thenBranch elseBranch) post store)
    (hcondition : condition.Holds interp store) : Correct interp havoc thenBranch post store where
  safe hfailed := hcorrect.safe (.ifTrue hcondition hfailed)
  invariants invariant reached hvisits :=
    hcorrect.invariants invariant reached (.thenBranch hcondition hvisits)
  final after hexec := hcorrect.final after (.ifTrue hcondition hexec)

theorem elseBranch {condition thenBranch elseBranch : Term} {post : Store → Prop} {store : Store}
    (hcorrect : Correct interp havoc (.ifElse condition thenBranch elseBranch) post store)
    (hcondition : ¬ condition.Holds interp store) : Correct interp havoc elseBranch post store where
  safe hfailed := hcorrect.safe (.ifFalse hcondition hfailed)
  invariants invariant reached hvisits :=
    hcorrect.invariants invariant reached (.elseBranch hcondition hvisits)
  final after hexec := hcorrect.final after (.ifFalse hcondition hexec)

/-- The body of a correct loop is correct for the invariant: it leads back to
the head of the loop. -/
theorem body {invariant condition body : Term} {post : Store → Prop} {store : Store}
    (hcorrect : Correct interp havoc (.loop invariant condition body) post store)
    (hcondition : condition.Holds interp store) :
    Correct interp havoc body (invariant.invariantOrTrue.Holds interp) store where
  safe hfailed := hcorrect.safe (.loopFailed hcondition hfailed)
  invariants inner reached hvisits :=
    hcorrect.invariants inner reached (.body hcondition hvisits)
  final after hexec :=
    hcorrect.invariants invariant after (.again hcondition hexec .head)

theorem again {invariant condition body : Term} {post : Store → Prop} {store between : Store}
    (hcorrect : Correct interp havoc (.loop invariant condition body) post store)
    (hcondition : condition.Holds interp store)
    (hbody : Exec interp havoc body store (.done between)) :
    Correct interp havoc (.loop invariant condition body) post between where
  safe hfailed := hcorrect.safe (.loopAgain hcondition hbody hfailed)
  invariants inner reached hvisits :=
    hcorrect.invariants inner reached (.again hcondition hbody hvisits)
  final after hexec := hcorrect.final after (.loopAgain hcondition hbody hexec)

/-- The precondition is true wherever the runs of a program are correct. -/
theorem pre (hprogram : program.isProgram = true)
    (hcorrect : Correct interp havoc program post store) : program.Pre interp havoc post store := by
  induction program generalizing post store with
  | skip => exact hcorrect.final store .skip
  | assign =>
    obtain ⟨_, rfl, _⟩ := isProgram_assign hprogram
    exact hcorrect.final _ .assign
  | ifElse _ _ _ _ ihthen ihelse =>
    simp only [isProgram, Bool.and_eq_true] at hprogram
    exact ⟨fun hcondition => ihthen hprogram.1.2 (hcorrect.thenBranch hcondition),
      fun hcondition => ihelse hprogram.2 (hcorrect.elseBranch hcondition)⟩
  | seq _ _ ihfirst ihsecond =>
    simp only [isProgram, Bool.and_eq_true] at hprogram
    exact ihfirst hprogram.1 (hcorrect.first fun between => ihsecond hprogram.2)
  | assume =>
    intro hclaim
    exact hcorrect.final store (.assume hclaim)
  | assert =>
    intro _
    by_contra hclaim
    exact hcorrect.safe (.assertFalse hclaim)
  | loop invariant => exact hcorrect.invariants invariant store .head
  | havoc =>
    intro after hhavoc
    exact hcorrect.final after (.havoc hhavoc)
  | _ => simp [isProgram] at hprogram

/-- Correct runs come to every assertion where what follows asks for it. -/
theorem assertsMet (hprogram : program.isProgram = true)
    (hcorrect : Correct interp havoc program post store) :
    AssertsMet interp havoc program post store := by
  intro rest reached hasserts
  induction hasserts with
  | here =>
    refine hcorrect.final _ (.assertTrue ?_)
    by_contra hclaim
    exact hcorrect.safe (.assertFalse hclaim)
  | first _ ih =>
    simp only [isProgram, Bool.and_eq_true] at hprogram
    exact ih hprogram.1 (hcorrect.first fun between hsecond => hsecond.pre hprogram.2)
  | second hfirst _ ih =>
    simp only [isProgram, Bool.and_eq_true] at hprogram
    exact ih hprogram.2 (hcorrect.second hfirst)
  | thenBranch hcondition _ ih =>
    simp only [isProgram, Bool.and_eq_true] at hprogram
    exact ih hprogram.1.2 (hcorrect.thenBranch hcondition)
  | elseBranch hcondition _ ih =>
    simp only [isProgram, Bool.and_eq_true] at hprogram
    exact ih hprogram.2 (hcorrect.elseBranch hcondition)
  | body hcondition _ ih =>
    simp only [isProgram, Bool.and_eq_true] at hprogram
    exact ih hprogram.2 (hcorrect.body hcondition)
  | again hcondition hbody _ ih => exact ih hprogram (hcorrect.again hcondition hbody)

end Correct

/-! ## Soundness of the computed claims -/

/-- Programs stay within the set of all stores. -/
theorem Term.preserves_all (hprogram : program.isProgram = true) :
    program.Preserves interp havoc fun _ => True := by
  induction program with
  | assign =>
    obtain ⟨_, rfl, _⟩ := isProgram_assign hprogram
    exact fun _ _ => trivial
  | ifElse _ _ _ _ ihthen ihelse =>
    simp only [isProgram, Bool.and_eq_true] at hprogram
    exact ⟨ihthen hprogram.1.2, ihelse hprogram.2⟩
  | seq _ _ ihfirst ihsecond =>
    simp only [isProgram, Bool.and_eq_true] at hprogram
    exact ⟨ihfirst hprogram.1, ihsecond hprogram.2⟩
  | loop _ _ _ _ _ ihbody =>
    simp only [isProgram, Bool.and_eq_true] at hprogram
    exact ihbody hprogram.2
  | havoc => exact fun _ _ _ _ => trivial
  | skip | assume | assert => trivial
  | _ => simp [isProgram] at hprogram

/-- Without assertions there are none to come to. -/
theorem assertsMet_of_isAssertFree (hfree : statement.isAssertFree = true) :
    AssertsMet interp havoc statement post store := by
  intro rest reached hasserts
  induction hasserts with
  | here => simp [isAssertFree] at hfree
  | first _ ih | thenBranch _ _ ih =>
    simp only [isAssertFree, Bool.and_eq_true] at hfree
    exact ih hfree.1
  | second _ _ ih | elseBranch _ _ ih =>
    simp only [isAssertFree, Bool.and_eq_true] at hfree
    exact ih hfree.2
  | body _ _ ih | again _ _ _ ih => exact ih hfree

/-- A run of the program comes to an assertion in the store `reached`; `rest` is
the precondition computed for what follows the assertion. -/
inductive ReachesAssert (interp : Interpretation) (env : Option TypeEnv) :
    Term → Term → Store → Term → Store → Prop
  | here {claim post : Term} {store : Store} :
      ReachesAssert interp env (.assert claim) post store post store
  | first {first second post rest : Term} {computed : Obligations}
      {before after : WriteLog} {store reached : Store} :
      Gives (second.obligations env post) before computed after →
      ReachesAssert interp env first computed.precondition store rest reached →
      ReachesAssert interp env (.seq first second) post store rest reached
  | second {first second post rest : Term} {store between reached : Store} :
      Exec interp (declaredHavoc interp env) first store (.done between) →
      ReachesAssert interp env second post between rest reached →
      ReachesAssert interp env (.seq first second) post store rest reached
  | thenBranch {condition thenBranch elseBranch post rest : Term}
      {store reached : Store} :
      condition.Holds interp store →
      ReachesAssert interp env thenBranch post store rest reached →
      ReachesAssert interp env (.ifElse condition thenBranch elseBranch) post store rest
        reached
  | elseBranch {condition thenBranch elseBranch post rest : Term}
      {store reached : Store} :
      ¬ condition.Holds interp store →
      ReachesAssert interp env elseBranch post store rest reached →
      ReachesAssert interp env (.ifElse condition thenBranch elseBranch) post store rest
        reached
  | body {invariant condition body post rest : Term} {store reached : Store} :
      condition.Holds interp store →
      ReachesAssert interp env body invariant.invariantOrTrue store rest reached →
      ReachesAssert interp env (.loop invariant condition body) post store rest reached
  | again {invariant condition body post rest : Term} {store between reached : Store} :
      condition.Holds interp store →
      Exec interp (declaredHavoc interp env) body store (.done between) →
      ReachesAssert interp env (.loop invariant condition body) post between rest
        reached →
      ReachesAssert interp env (.loop invariant condition body) post store rest reached

section Computed

variable {env : Option TypeEnv} {program post : Term} {store reached : Store}

/-- What the computed claims ask for is what the program asks for. -/
theorem ReachesAssert.asserts {rest : Term}
    (hreaches : ReachesAssert interp env program post store rest reached)
    (hprogram : program.isProgram = true) (hpost : post.isClaim = true)
    (hnames : program.Unmixed post) :
    Asserts interp (declaredHavoc interp env) program (post.Holds interp) store
      (rest.Holds interp) reached := by
  induction hreaches with
  | here => exact .here
  | first hgives _ ih =>
    simp only [isProgram, Bool.and_eq_true] at hprogram
    obtain ⟨_, hsecond⟩ := obligations_describe interp (fun _ => True)
      hprogram.2 hpost hnames.second hgives
    have hfirst := ih hprogram.1 hsecond.names.isClaim (hnames.first hsecond.names)
    rw [hsecond.holds_eq] at hfirst
    exact .first hfirst
  | second hfirst _ ih =>
    simp only [isProgram, Bool.and_eq_true] at hprogram
    exact .second hfirst (ih hprogram.2 hpost hnames.second)
  | thenBranch hcondition _ ih =>
    simp only [isProgram, Bool.and_eq_true] at hprogram
    exact .thenBranch hcondition (ih hprogram.1.2 hpost hnames.thenBranch)
  | elseBranch hcondition _ ih =>
    simp only [isProgram, Bool.and_eq_true] at hprogram
    exact .elseBranch hcondition (ih hprogram.2 hpost hnames.elseBranch)
  | body hcondition _ ih =>
    have hinvariant := isClaim_invariantOrTrue hprogram
    simp only [isProgram, Bool.and_eq_true] at hprogram
    exact .body hcondition (ih hprogram.2 hinvariant hnames.body)
  | again hcondition hbody _ ih =>
    exact .again hcondition hbody (ih hprogram hpost hnames)

/-- What the program asks for after an assertion is computed as a claim. -/
theorem Asserts.reaches {whole rest : Store → Prop}
    (hasserts : Asserts interp (declaredHavoc interp env) program whole store rest reached)
    (hwhole : whole = post.Holds interp) (hprogram : program.isProgram = true)
    (hpost : post.isClaim = true) (hnames : program.Unmixed post)
    {computed : Obligations} {before after : WriteLog}
    (hgives : Gives (program.obligations env post) before computed after) :
    ∃ claim : Term, rest = claim.Holds interp ∧
      ReachesAssert interp env program post store claim reached := by
  induction hasserts generalizing post computed before after with
  | here => exact ⟨post, hwhole, .here⟩
  | first _ ih =>
    simp only [isProgram, Bool.and_eq_true] at hprogram
    simp only [Term.obligations, gives_bind] at hgives
    obtain ⟨_, _, hrest, _, _, hfirst, _⟩ := hgives
    obtain ⟨_, hsecond⟩ := obligations_describe interp (fun _ => True)
      hprogram.2 hpost hnames.second hrest
    obtain ⟨claim, hclaim, hreaches⟩ := ih (by rw [hwhole, hsecond.holds_eq])
      hprogram.1 hsecond.names.isClaim (hnames.first hsecond.names) hfirst
    exact ⟨claim, hclaim, .first hrest hreaches⟩
  | second hfirst _ ih =>
    simp only [isProgram, Bool.and_eq_true] at hprogram
    simp only [Term.obligations, gives_bind] at hgives
    obtain ⟨_, _, hrest, _⟩ := hgives
    obtain ⟨claim, hclaim, hreaches⟩ := ih hwhole hprogram.2 hpost hnames.second hrest
    exact ⟨claim, hclaim, .second hfirst hreaches⟩
  | thenBranch hcondition _ ih =>
    simp only [isProgram, Bool.and_eq_true] at hprogram
    simp only [Term.obligations, gives_bind] at hgives
    obtain ⟨_, _, hthen, _⟩ := hgives
    obtain ⟨claim, hclaim, hreaches⟩ := ih hwhole hprogram.1.2 hpost hnames.thenBranch hthen
    exact ⟨claim, hclaim, .thenBranch hcondition hreaches⟩
  | elseBranch hcondition _ ih =>
    simp only [isProgram, Bool.and_eq_true] at hprogram
    simp only [Term.obligations, gives_bind] at hgives
    obtain ⟨_, _, _, _, _, helse, _⟩ := hgives
    obtain ⟨claim, hclaim, hreaches⟩ := ih hwhole hprogram.2 hpost hnames.elseBranch helse
    exact ⟨claim, hclaim, .elseBranch hcondition hreaches⟩
  | body hcondition _ ih =>
    have hinvariant := isClaim_invariantOrTrue hprogram
    simp only [isProgram, Bool.and_eq_true] at hprogram
    simp only [Term.obligations, gives_bind] at hgives
    obtain ⟨_, _, hbody, _⟩ := hgives
    obtain ⟨claim, hclaim, hreaches⟩ := ih rfl hprogram.2 hinvariant hnames.body hbody
    exact ⟨claim, hclaim, .body hcondition hreaches⟩
  | again hcondition hbody _ ih =>
    obtain ⟨claim, hclaim, hreaches⟩ := ih hwhole hprogram hpost hnames hgives
    exact ⟨claim, hclaim, .again hcondition hbody hreaches⟩

end Computed

/-- The precondition is sound for programs without assertions: if the side
conditions are true everywhere, every run that starts where the precondition is
true and ends, ends where the postcondition is true.  Havocs give a variable
any value of its declared type. -/
theorem precondition_sound {env : Option TypeEnv} {program post : Term}
    {computed : Obligations} {before after : WriteLog} {start final : Store}
    (hprogram : program.isProgram = true) (hassert : program.isAssertFree = true)
    (hpost : post.isClaim = true) (hapart : program.Apart post)
    (hgives : Gives (program.obligations env post) before computed after)
    (hside : ∀ claim ∈ computed.sideConditions, ∀ store, claim.Holds interp store)
    (hpre : computed.precondition.Holds interp start)
    (hexec : Exec interp (declaredHavoc interp env) program start (.done final)) :
    post.Holds interp final := by
  obtain ⟨_, hdescribed⟩ := Term.obligations_describe interp (fun _ => True)
    hprogram hpost hapart hgives
  have hcorrect := (assertsMet_of_isAssertFree hassert).correct
    (Term.preserves_all hprogram)
    (hdescribed.side.mp fun claim hclaim store _ => hside claim hclaim store) trivial
    ((hdescribed.pre start).mp hpre)
  exact hcorrect.final final hexec

/-- The claim that no natural number is below the variable. -/
def isLowest : Term :=
  .quantified .universal (.var "y") (some .int) .missing
    (.binary (atLeast 0 (.var "y")) .implies (.binary (.var "x") .le (.var "y"))) false

def countdownSides : List Term :=
  [.binary (.binary (atLeast 0 (.var "x")) .and (atLeast 1 (.var "x"))) .implies
    (atLeast 0 (.binary (.var "x") .minus (.int 1))),
   .binary (.binary (atLeast 0 (.var "x")) .and (.unary .not (atLeast 1 (.var "x"))))
    .implies isLowest]

theorem holds_countdownSides {claim : Term} (hclaim : claim ∈ countdownSides)
    (store : Store) : claim.Holds .standard store := by
  simp only [countdownSides, List.mem_cons, List.not_mem_nil, or_false] at hclaim
  rcases hclaim with rfl | rfl
  · simp only [holds_implies, holds_and, holds_atLeast, eval_var]
    rintro ⟨_, value, hvalue, _⟩
    refine ⟨value - 1, ?_, by omega⟩
    change Interpretation.standard.binary .minus (store "x") (.int 1) = _
    rw [hvalue]
    rfl
  · simp only [holds_implies, holds_and, holds_not, isLowest, holds_forall, holds_atLeast, eval_var]
    rintro ⟨⟨value, hvalue, _⟩, hnot⟩ _ ⟨bound, rfl⟩ ⟨_, hbound, _⟩
    have hsmall : ¬ 1 ≤ value := fun hone => hnot ⟨value, hvalue, hone⟩
    change (Interpretation.standard.binary .le (store "x") (.int bound)).truth = true
    simp only [Store.bind_var, Function.update_self, Value.int.injEq] at hbound
    rw [hvalue]
    simpa [Interpretation.standard, Operator.onInts] using (by omega : value ≤ bound)

/-- A variable of unknown value that is not negative is counted down to zero. -/
theorem precondition_sound_countdown : let env : Option TypeEnv := some [("x", .known .int)]
    let program := Term.seq (.havoc "x" 0)
      (.seq (.assume (atLeast 0 (.var "x"))) countdown)
    let final : Store := Function.update (fun _ => .int 5) "x" (.int 0)
    Exec .standard (declaredHavoc .standard env) program (fun _ => .int 5) (.done final) ∧
      isLowest.Holds .standard final := by
  intro env program final
  have hgives : Gives (program.obligations env isLowest) .empty
      ⟨.quantified .universal (.var "x@0") (some .int) .missing
        (.binary (atLeast 0 (.var "x@0")) .implies (atLeast 0 (.var "x@0"))) false,
        countdownSides⟩ .empty := rfl
  have hpre : (Term.quantified .universal (.var "x@0") (some .int) .missing
      (.binary (atLeast 0 (.var "x@0")) .implies (atLeast 0 (.var "x@0"))) false).Holds
      .standard fun _ => .int 5 := by
    simp only [Term.holds_forall, Term.holds_implies]
    exact fun value _ hvalue => hvalue
  have hexec : Exec .standard (declaredHavoc .standard env) program (fun _ => .int 5)
      (.done final) := by
    have hfinal : final = Function.update
        (Function.update (fun _ => .int 5) "x" (.int 1)) "x" (.int (1 - 1)) := by
      simp [final]
    rw [hfinal]
    refine .seq (.havoc ⟨.known .int, .int 1, rfl, ⟨1, rfl⟩, rfl⟩)
      (.seq (.assume ?_) (.loopAgain ?_ .assign (.loopEnd ?_)))
    · exact holds_atLeast.mpr ⟨1, rfl, by decide⟩
    · exact holds_atLeast.mpr ⟨1, rfl, by decide⟩
    · rintro hagain
      obtain ⟨value, hvalue, hlow⟩ := holds_atLeast.mp hagain
      cases hvalue
      exact absurd hlow (by decide)
  exact ⟨hexec, precondition_sound (by decide) (by decide) (by decide)
    ⟨by decide, by decide, by decide⟩ hgives (fun _ => holds_countdownSides) hpre hexec⟩

/-- The precondition with assertions.  Where the side conditions are true
everywhere and the precondition is true, the runs of a program are correct
exactly if each assertion is reached where the precondition computed for what
follows it is true.  Correct runs reach no false assertion, come to every loop
in its invariant and end in the postcondition. -/
theorem asserts_checked_iff {env : Option TypeEnv} {program post : Term}
    {computed : Obligations} {before after : WriteLog} {start : Store}
    (hprogram : program.isProgram = true) (hpost : post.isClaim = true)
    (hapart : program.Apart post)
    (hgives : Gives (program.obligations env post) before computed after)
    (hside : ∀ claim ∈ computed.sideConditions, ∀ store, claim.Holds interp store)
    (hpre : computed.precondition.Holds interp start) :
    Correct interp (declaredHavoc interp env) program (post.Holds interp) start ↔
      ∀ rest reached, ReachesAssert interp env program post start rest reached →
        rest.Holds interp reached := by
  obtain ⟨_, hdescribed⟩ := Term.obligations_describe interp (fun _ => True)
    hprogram hpost hapart hgives
  constructor
  · intro hcorrect rest reached hreaches
    exact hcorrect.assertsMet hprogram _ _ (hreaches.asserts hprogram hpost hapart)
  · intro hchecked
    have hmet : AssertsMet interp (declaredHavoc interp env) program
        (post.Holds interp) start := by
      intro rest reached hasserts
      obtain ⟨claim, rfl, hreaches⟩ :=
        hasserts.reaches rfl hprogram hpost hapart hgives
      exact hchecked claim reached hreaches
    exact hmet.correct (Term.preserves_all hprogram)
      (hdescribed.side.mp fun claim hclaim store _ => hside claim hclaim store) trivial
      ((hdescribed.pre start).mp hpre)

/-- An assertion before the countdown, met where it is reached. -/
theorem asserts_checked_iff_countdown : let env : Option TypeEnv := some [("x", .known .int)]
    let program := Term.seq (.assert (atLeast 1 (.var "x"))) countdown
    (∀ rest reached, ReachesAssert .standard env program isLowest (fun _ => .int 5) rest reached →
        rest.Holds .standard reached) ∧
      Correct .standard (declaredHavoc .standard env) program
        (isLowest.Holds .standard) fun _ => .int 5 := by
  intro env program
  have hgives : Gives (program.obligations env isLowest) .empty
      ⟨.binary (atLeast 0 (.var "x")) .implies (atLeast 1 (.var "x")), countdownSides⟩
      .empty := rfl
  have hpre : (Term.binary (atLeast 0 (.var "x")) .implies (atLeast 1 (.var "x"))).Holds
      .standard fun _ => .int 5 := by
    rw [Term.holds_implies]
    exact fun _ => holds_atLeast.mpr ⟨5, rfl, by decide⟩
  have hchecked : ∀ rest reached,
      ReachesAssert .standard env program isLowest (fun _ => .int 5) rest reached →
        rest.Holds .standard reached := by
    intro rest reached hreaches
    unfold program at hreaches
    cases hreaches with
    | first hrest hfirst =>
      -- What follows the assertion is the loop, whose precondition is its invariant.
      simp only [countdown, Term.obligations, gives_bind, gives_pure] at hrest
      obtain ⟨_, _, _, rfl, rfl⟩ := hrest
      cases hfirst
      exact holds_atLeast.mpr ⟨5, rfl, by decide⟩
    | second _ hsecond =>
      exact assertsMet_of_isAssertFree (by decide) _ _
        (hsecond.asserts (by decide) (by decide) ⟨by decide, by decide, by decide⟩)
  exact ⟨hchecked, (asserts_checked_iff (by decide) (by decide)
    ⟨by decide, by decide, by decide⟩ hgives (fun _ => holds_countdownSides) hpre).mpr
    hchecked⟩

/-- An assertion before a postcondition that is false everywhere is certified,
and fails. -/
theorem assert_unchecked : let env : Option TypeEnv := some [("x", .known .int)]
    let program := Term.assert (.binary (.var "x") .gt (.int 0))
    ∃ computed, Gives (program.obligations env (.bool false)) .empty computed .empty ∧
      computed.sideConditions = [] ∧
      (∀ store, computed.precondition.Holds .standard store) ∧
      Exec .standard (declaredHavoc .standard env) program (fun _ => .int 0) .failed := by
  intro env program
  refine ⟨⟨.binary (.bool false) .implies (.binary (.var "x") .gt (.int 0)), []⟩, rfl, rfl,
    fun store => ?_, .assertFalse ?_⟩
  · simp
  · intro hclaim
    cases hclaim

end Soundness

end HoareCheck
