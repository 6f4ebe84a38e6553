import HoareCheck.Proofs.Instantiation

/-!
# Renaming the variables of a program

`Renames` relates a program to what substituting variables by variables makes
of it.  A renaming that is injective on the names of the program keeps its
runs: a store follows another if it holds the values of the other under the
new names, and the renamed program keeps it that way.
-/

namespace HoareCheck

open Term

variable {claim renamed : Term} {before after : WriteLog}

namespace Term

/-- The second claim is the first with its variables renamed. -/
structure RenamedTo (rename : String → String) (claim renamed : Term) : Prop where
  isClaim : claim.isClaim = true
  eq : renamed = claim.instantiate fun name => .var (rename name)

theorem RenamedTo.refl (hclaim : claim.isClaim = true) : RenamedTo id claim claim :=
  ⟨hclaim, (instantiate_var hclaim).symm⟩

/-- Replacing a variable by a variable renames once more. -/
theorem RenamedTo.substituteWith {rename : String → String} {result : Term}
    {atRead : Site → Term → Logged Unit} {name new : String}
    (hrenamed : RenamedTo rename claim renamed)
    (hgives : Gives (Term.substituteWith atRead (.var name)
    (.var new) renamed) before result after) :
    RenamedTo (Function.update id name new ∘ rename) claim result := by
  obtain ⟨hclaim, rfl⟩ := hrenamed
  rw [gives_substituteWith (isClaim_instantiate hclaim fun _ _ => rfl)] at hgives
  refine ⟨hclaim, ?_⟩
  rw [← hgives.1, instantiate_instantiate]
  congr 1
  funext other
  by_cases hother : rename other = name <;> simp [replacing, hother]

theorem var_update (name new other : String) : Term.var (Function.update id name new other) =
      if other = name then .var new else .var other := by
  by_cases hother : other = name <;> simp [hother]

end Term

/-- The second statement is the first with its variables renamed.  The charge of
an assignment and the invariant of a loop may differ: no run depends on them. -/
inductive Renames (rename : String → String) : Term → Term → Prop
  | skip : Renames rename .skip .skip
  | assign {name : String} {value newValue : Term} {charge newCharge : Bool} :
      value.RenamedTo rename newValue →
      Renames rename (.assign (.var name) value charge)
        (.assign (.var (rename name)) newValue newCharge)
  | ifElse {condition newCondition thenBranch newThen elseBranch newElse : Term} :
      condition.RenamedTo rename newCondition → Renames rename thenBranch newThen →
      Renames rename elseBranch newElse →
      Renames rename (.ifElse condition thenBranch elseBranch)
        (.ifElse newCondition newThen newElse)
  | seq {first newFirst second newSecond : Term} :
      Renames rename first newFirst → Renames rename second newSecond →
      Renames rename (.seq first second) (.seq newFirst newSecond)
  | assume {claim newClaim : Term} :
      claim.RenamedTo rename newClaim →
      Renames rename (.assume claim) (.assume newClaim)
  | assert {claim newClaim : Term} :
      claim.RenamedTo rename newClaim →
      Renames rename (.assert claim) (.assert newClaim)
  | loop {invariant newInvariant condition newCondition body newBody : Term} :
      condition.RenamedTo rename newCondition → Renames rename body newBody →
      Renames rename (.loop invariant condition body)
        (.loop newInvariant newCondition newBody)

namespace Renames

variable {rename : String → String} {statement renamed : Term}

theorem orSkip_eq (hrenames : Renames rename statement renamed) : renamed.orSkip = renamed := by
  cases hrenames <;> rfl

/-- Every program without havocs is its own renaming. -/
theorem refl {program : Term} (hprogram : program.isProgram = true)
    (hhavocs : program.havocs = []) : Renames id program program := by
  induction program with
  | skip => exact .skip
  | assign =>
    obtain ⟨_, rfl, hvalue⟩ := isProgram_assign hprogram
    exact .assign (.refl hvalue)
  | ifElse _ _ _ _ ihthen ihelse =>
    simp only [isProgram, Bool.and_eq_true] at hprogram
    simp only [Term.havocs, List.append_eq_nil_iff] at hhavocs
    exact .ifElse (.refl hprogram.1.1) (ihthen hprogram.1.2 hhavocs.1) (ihelse hprogram.2 hhavocs.2)
  | seq _ _ ihfirst ihsecond =>
    simp only [isProgram, Bool.and_eq_true] at hprogram
    simp only [Term.havocs, List.append_eq_nil_iff] at hhavocs
    exact .seq (ihfirst hprogram.1 hhavocs.1) (ihsecond hprogram.2 hhavocs.2)
  | assume => exact .assume (.refl hprogram)
  | assert => exact .assert (.refl hprogram)
  | loop _ _ _ _ _ ihbody =>
    simp only [isProgram, Bool.and_eq_true] at hprogram
    exact .loop (.refl hprogram.1.2) (ihbody hprogram.2 hhavocs)
  | havoc => simp [Term.havocs] at hhavocs
  | _ => simp [isProgram] at hprogram

/-- A copy of a program without havocs is a renaming of it. -/
theorem of_copy {program copy : Term} (hprogram : program.isProgram = true)
    (hhavocs : program.havocs = []) (hgives : Gives program.copy before copy after) :
    Renames id program copy := by
  induction program generalizing copy before after with
  | skip =>
    simp only [Term.copy, gives_pure] at hgives
    obtain ⟨rfl, _⟩ := hgives
    exact .skip
  | assign =>
    obtain ⟨_, rfl, hvalue⟩ := isProgram_assign hprogram
    simp only [Term.copy, gives_bind, gives_pure, gives_copy hvalue] at hgives
    obtain ⟨_, _, ⟨rfl, _⟩, _, _, ⟨rfl, _⟩, rfl, _⟩ := hgives
    exact .assign (.refl hvalue)
  | ifElse _ _ _ _ ihthen ihelse =>
    simp only [isProgram, Bool.and_eq_true] at hprogram
    simp only [Term.havocs, List.append_eq_nil_iff] at hhavocs
    simp only [Term.copy, gives_bind, gives_pure, gives_copy hprogram.1.1] at hgives
    obtain ⟨_, _, ⟨rfl, _⟩, _, _, hthen, _, _, helse, rfl, _⟩ := hgives
    exact .ifElse (.refl hprogram.1.1) (ihthen hprogram.1.2 hhavocs.1 hthen)
      (ihelse hprogram.2 hhavocs.2 helse)
  | seq _ _ ihfirst ihsecond =>
    simp only [isProgram, Bool.and_eq_true] at hprogram
    simp only [Term.havocs, List.append_eq_nil_iff] at hhavocs
    simp only [Term.copy, gives_bind, gives_pure] at hgives
    obtain ⟨_, _, hfirst, _, _, hsecond, rfl, _⟩ := hgives
    exact .seq (ihfirst hprogram.1 hhavocs.1 hfirst) (ihsecond hprogram.2 hhavocs.2 hsecond)
  | assume =>
    simp only [Term.copy, gives_bind, gives_pure, gives_copy hprogram] at hgives
    obtain ⟨_, _, ⟨rfl, _⟩, rfl, _⟩ := hgives
    exact .assume (.refl hprogram)
  | assert =>
    simp only [Term.copy, gives_bind, gives_pure, gives_copy hprogram] at hgives
    obtain ⟨_, _, ⟨rfl, _⟩, rfl, _⟩ := hgives
    exact .assert (.refl hprogram)
  | loop _ _ _ _ _ ihbody =>
    simp only [isProgram, Bool.and_eq_true] at hprogram
    simp only [Term.copy, gives_bind, gives_pure, gives_copy hprogram.1.2] at hgives
    obtain ⟨_, _, _, _, _, ⟨rfl, _⟩, _, _, hbody, rfl, _⟩ := hgives
    exact .loop (.refl hprogram.1.2) (ihbody hprogram.2 hhavocs hbody)
  | havoc => simp [Term.havocs] at hhavocs
  | _ => simp [isProgram] at hprogram

/-- Replacing a variable by a variable renames once more. -/
theorem substituteWith (hrenames : Renames rename statement renamed)
    {atRead : Site → Term → Logged Unit} {name new : String} {result : Term}
    {before after : WriteLog}
    (hgives : Gives (Term.substituteWith atRead (.var name) (.var new) renamed) before
      result after) : Renames (Function.update id name new ∘ rename) statement result.orSkip := by
  induction hrenames generalizing result before after with
  | skip =>
    simp only [Term.substituteWith, gives_pure] at hgives
    obtain ⟨rfl, _⟩ := hgives
    exact .skip
  | assign hvalue =>
    simp only [Term.substituteWith, gives_bind, gives_pure] at hgives
    obtain ⟨_, _, ⟨rfl, _⟩, _, _, hnew, rfl, _⟩ := hgives
    rw [← Term.var_update]
    exact .assign (hvalue.substituteWith hnew)
  | ifElse hcondition _ _ ihthen ihelse =>
    simp only [Term.substituteWith, gives_bind, gives_pure] at hgives
    obtain ⟨_, _, hnew, _, _, hthen, _, _, helse, rfl, _⟩ := hgives
    exact .ifElse (hcondition.substituteWith hnew) (ihthen hthen) (ihelse helse)
  | seq _ _ ihfirst ihsecond =>
    simp only [Term.substituteWith, gives_bind, gives_pure] at hgives
    obtain ⟨_, _, hfirst, _, _, hsecond, rfl, _⟩ := hgives
    exact .seq (ihfirst hfirst) (ihsecond hsecond)
  | assume hclaim =>
    simp only [Term.substituteWith, gives_bind, gives_pure] at hgives
    obtain ⟨_, _, hnew, rfl, _⟩ := hgives
    exact .assume (hclaim.substituteWith hnew)
  | assert hclaim =>
    simp only [Term.substituteWith, gives_bind, gives_pure] at hgives
    obtain ⟨_, _, hnew, rfl, _⟩ := hgives
    exact .assert (hclaim.substituteWith hnew)
  | loop hcondition _ ihbody =>
    simp only [Term.substituteWith, gives_bind, gives_pure] at hgives
    obtain ⟨_, _, _, _, _, hnew, _, _, hbody, rfl, _⟩ := hgives
    exact .loop (hcondition.substituteWith hnew) (ihbody hbody)

end Renames

/-! ## Runs of a renamed program -/

/-- A store holds the values of another under the new names. -/
def Store.Follows (rename : String → String) (names : Set String) (store renamed : Store) : Prop :=
  ∀ name ∈ names, renamed (rename name) = store name

/-- The names of a term belong to a set, and its bound variables keep theirs. -/
structure Term.Fits (rename : String → String) (names : Set String) (term : Term) : Prop where
  free : ∀ name ∈ term.freeNames, name ∈ names
  bound : ∀ name ∈ term.boundNames, name ∈ names ∧ rename name = name

namespace Term.Fits

variable {rename : String → String} {names : Set String}

theorem part {term part : Term} (hfits : term.Fits rename names)
    (hfree : part.freeNames ⊆ term.freeNames)
    (hbound : part.boundNames ⊆ term.boundNames) : part.Fits rename names :=
  ⟨fun name hname => hfits.free name (hfree hname),
    fun name hname => hfits.bound name (hbound hname)⟩

theorem value {target value : Term} {charge : Bool}
    (hfits : (Term.assign target value charge).Fits rename names) : value.Fits rename names :=
  hfits.part (by simp) (by simp)

theorem test {condition thenBranch elseBranch : Term}
    (hfits : (Term.ifElse condition thenBranch elseBranch).Fits rename names) :
    condition.Fits rename names :=
  hfits.part (by simp) (by simp)

theorem thenBranch {condition thenBranch elseBranch : Term}
    (hfits : (Term.ifElse condition thenBranch elseBranch).Fits rename names) :
    thenBranch.Fits rename names :=
  hfits.part (by simp) (by simp)

theorem elseBranch {condition thenBranch elseBranch : Term}
    (hfits : (Term.ifElse condition thenBranch elseBranch).Fits rename names) :
    elseBranch.Fits rename names :=
  hfits.part (by simp) (by simp)

theorem first {first second : Term} (hfits : (Term.seq first second).Fits rename names) :
    first.Fits rename names :=
  hfits.part (by simp) (by simp)

theorem second {first second : Term} (hfits : (Term.seq first second).Fits rename names) :
    second.Fits rename names :=
  hfits.part (by simp) (by simp)

theorem invariant {invariant condition body : Term}
    (hfits : (Term.loop invariant condition body).Fits rename names) :
    invariant.Fits rename names :=
  hfits.part (by simp) (by simp)

theorem condition {invariant condition body : Term}
    (hfits : (Term.loop invariant condition body).Fits rename names) :
    condition.Fits rename names :=
  hfits.part (by simp) (by simp)

theorem body {invariant condition body : Term}
    (hfits : (Term.loop invariant condition body).Fits rename names) : body.Fits rename names :=
  hfits.part (by simp) (by simp)

end Term.Fits

/-! ## Names of a renamed claim -/

namespace Term

variable {rename : String → String} {names : Set String}

/-- No binder of a term that fits catches a new name. -/
theorem Fits.captureFree {term : Term} (hfits : term.Fits rename names)
    (hinj : Set.InjOn rename names) : CaptureFree (fun name => .var (rename name)) term := by
  intro bound hbound
  obtain ⟨hmem, hfixed⟩ := hfits.bound bound hbound
  refine ⟨by simp [hfixed], fun name hname hne hcaught => hne ?_⟩
  simp only [freeNames, List.mem_singleton] at hcaught
  exact hinj (hfits.free name hname) hmem (by rw [hfixed, ← hcaught])

theorem freeNames_rename (hclaim : claim.isClaim = true)
    (hcapture : CaptureFree (fun name => .var (rename name)) claim) :
    (claim.instantiate fun name => .var (rename name)).freeNames = claim.freeNames.map rename := by
  induction claim with
  | var | literal => rfl
  | unary _ _ ih => exact ih (by simpa using hclaim) hcapture
  | binary _ _ _ ihleft ihright =>
    simp only [isClaim, Bool.and_eq_true] at hclaim
    simp only [instantiate, freeNames, List.map_append, ihleft hclaim.1 hcapture.left,
      ihright hclaim.2 hcapture.right]
  | quantified _ _ _ _ _ _ _ _ ihbody =>
    obtain ⟨bound, rfl, hbody⟩ := isClaim_quantified hclaim
    obtain ⟨hvar, hfree⟩ := hcapture bound (by simp [name?])
    simp only [instantiate, freeNames, ihbody hbody hcapture.body, List.filter_map]
    congr 1
    apply List.filter_congr
    intro name hname
    have hsame : rename name = bound ↔ name = bound := by
      constructor
      · intro heq
        by_contra hne
        exact hfree name (by simp [name?, hname, hne]) hne (by simp [heq])
      · rintro rfl
        simpa using hvar
    simp [name?, hsame]
  | _ => simp at hclaim

theorem boundNames_rename (hclaim : claim.isClaim = true) :
    (claim.instantiate fun name => .var (rename name)).boundNames = claim.boundNames := by
  induction claim with
  | var | literal => rfl
  | unary _ _ ih => exact ih (by simpa using hclaim)
  | binary _ _ _ ihleft ihright =>
    simp only [isClaim, Bool.and_eq_true] at hclaim
    simp only [instantiate, boundNames, ihleft hclaim.1, ihright hclaim.2]
  | quantified _ _ _ _ _ _ _ _ ihbody =>
    obtain ⟨_, rfl, hbody⟩ := isClaim_quantified hclaim
    simp only [instantiate, boundNames, ihbody hbody]
  | _ => simp at hclaim

namespace RenamedTo

variable {claim renamed : Term}

section

variable (hrenamed : claim.RenamedTo rename renamed)

include hrenamed

theorem isClaim_renamed : renamed.isClaim = true := by
  obtain ⟨hclaim, rfl⟩ := hrenamed
  exact isClaim_instantiate hclaim fun _ _ => rfl

theorem freeNames_eq (hinj : Set.InjOn rename names) (hfits : claim.Fits rename names) :
    renamed.freeNames = claim.freeNames.map rename := by
  obtain ⟨hclaim, rfl⟩ := hrenamed
  exact freeNames_rename hclaim (hfits.captureFree hinj)

theorem boundNames_eq : renamed.boundNames = claim.boundNames := by
  obtain ⟨hclaim, rfl⟩ := hrenamed
  exact boundNames_rename hclaim

end

end RenamedTo

end Term

/-! ## Values and runs -/

section Runs

variable {rename : String → String} {names : Set String} {store newStore : Store}
variable {interp : Interpretation} {havoc : HavocRule}

/-- A renamed claim has the value of the claim. -/
theorem Term.RenamedTo.eval_eq (hrenamed : claim.RenamedTo rename renamed)
    (hinj : Set.InjOn rename names) (hfits : claim.Fits rename names)
    (hfollows : store.Follows rename names newStore) :
    renamed.eval interp newStore = claim.eval interp store := by
  obtain ⟨hclaim, rfl⟩ := hrenamed
  rw [eval_instantiate hclaim (hfits.captureFree hinj)]
  apply eval_congr
  intro name hname
  exact hfollows name (hfits.free name hname)

theorem Term.RenamedTo.holds_iff (hrenamed : claim.RenamedTo rename renamed)
    (hinj : Set.InjOn rename names) (hfits : claim.Fits rename names)
    (hfollows : store.Follows rename names newStore) :
    renamed.Holds interp newStore ↔ claim.Holds interp store := by
  rw [Term.Holds, Term.Holds, hrenamed.eval_eq hinj hfits hfollows]

/-- Assignments to a variable and to its new name go together. -/
theorem Store.Follows.update {target : String} (hfollows : store.Follows rename names newStore)
    (hinj : Set.InjOn rename names) (htarget : target ∈ names) (value : Value) :
    Store.Follows rename names (Function.update store target value)
      (Function.update newStore (rename target) value) := by
  intro name hname
  by_cases hsame : name = target
  · simp [hsame]
  · have hne : rename name ≠ rename target := fun heq => hsame (hinj hname htarget heq)
    rw [Function.update_of_ne hne, Function.update_of_ne hsame]
    exact hfollows name hname

/-- The renamed program follows every run of the program that ends. -/
theorem Renames.exec {statement : Term} {after : Store}
    (hrenames : Renames rename statement renamed) (hinj : Set.InjOn rename names)
    (hfits : statement.Fits rename names) (hfollows : store.Follows rename names newStore)
    (hexec : Exec interp havoc statement store (.done after)) :
    ∃ newAfter, Exec interp havoc renamed newStore (.done newAfter) ∧
      after.Follows rename names newAfter := by
  generalize houtcome : Outcome.done after = outcome at hexec
  induction hexec generalizing renamed newStore after with
  | skip =>
    cases houtcome
    cases hrenames
    exact ⟨newStore, .skip, hfollows⟩
  | @assign _ target =>
    cases houtcome
    cases hrenames with
    | assign hvalue =>
      refine ⟨_, .assign, ?_⟩
      rw [hvalue.eval_eq hinj hfits.value hfollows]
      exact hfollows.update hinj (hfits.free target (by simp)) _
  | assignElement => cases hrenames
  | seq _ _ ihfirst ihsecond =>
    cases hrenames with
    | seq hfirst hsecond =>
      obtain ⟨_, hexecFirst, hbetween⟩ := ihfirst hfirst hfits.first hfollows rfl
      obtain ⟨newAfter, hexecSecond, hafter⟩ := ihsecond hsecond hfits.second hbetween houtcome
      exact ⟨newAfter, .seq hexecFirst hexecSecond, hafter⟩
  | ifTrue hcondition _ ih =>
    cases hrenames with
    | ifElse htest hthen =>
      obtain ⟨newAfter, hexec, hafter⟩ := ih hthen hfits.thenBranch hfollows houtcome
      refine ⟨newAfter, .ifTrue ?_ hexec, hafter⟩
      exact (htest.holds_iff hinj hfits.test hfollows).mpr hcondition
  | ifFalse _ _ ih =>
    cases hrenames with
    | ifElse htest _ helse =>
      obtain ⟨newAfter, hexec, hafter⟩ := ih helse hfits.elseBranch hfollows houtcome
      refine ⟨newAfter, .ifFalse ?_ hexec, hafter⟩
      rwa [htest.holds_iff hinj hfits.test hfollows]
  | assume hclaim =>
    cases houtcome
    cases hrenames with
    | assume hrenamed =>
      refine ⟨newStore, .assume ?_, hfollows⟩
      exact (hrenamed.holds_iff hinj ⟨hfits.free, hfits.bound⟩ hfollows).mpr hclaim
  | assertTrue hclaim =>
    cases houtcome
    cases hrenames with
    | assert hrenamed =>
      refine ⟨newStore, .assertTrue ?_, hfollows⟩
      exact (hrenamed.holds_iff hinj ⟨hfits.free, hfits.bound⟩ hfollows).mpr hclaim
  | loopEnd =>
    cases houtcome
    cases hrenames with
    | loop htest =>
      refine ⟨newStore, .loopEnd ?_, hfollows⟩
      rwa [htest.holds_iff hinj hfits.condition hfollows]
  | loopAgain hcondition _ _ ihbody ihloop =>
    have hagain := hrenames
    cases hrenames with
    | loop htest hbody =>
      obtain ⟨_, hexecBody, hbetween⟩ := ihbody hbody hfits.body hfollows rfl
      obtain ⟨newAfter, hexecLoop, hafter⟩ := ihloop hagain hfits hbetween houtcome
      refine ⟨newAfter, .loopAgain ?_ hexecBody hexecLoop, hafter⟩
      exact (htest.holds_iff hinj hfits.condition hfollows).mpr hcondition
  | havoc => cases hrenames
  | seqFailed | assertFalse | loopFailed => cases houtcome

end Runs

end HoareCheck
