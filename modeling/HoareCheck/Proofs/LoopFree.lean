import HoareCheck.Proofs.PreconditionMeaning
import HoareCheck.Proofs.Renaming

/-!
# Programs without loops

A program without loops and assertions has the weakest precondition: it is true
exactly where every run ends in the postcondition (`Term.pre_iff_exec_of_rules`).  Its
obligations have no side conditions, and renaming its variables renames its
precondition.
-/

namespace HoareCheck

variable {statement : Term} {post : Store → Prop} {store : Store}

namespace Term

@[simp]
def isLoopFree : Term → Bool
  | .loop .. => false
  | .ifElse _ thenBranch elseBranch => thenBranch.isLoopFree && elseBranch.isLoopFree
  | .seq first second => first.isLoopFree && second.isLoopFree
  | _ => true

/-- Assignments in a row. -/
@[simp]
def isStraight : Term → Bool
  | .skip | .assign .. => true
  | .seq first second => first.isStraight && second.isStraight
  | _ => false

theorem isLoopFree_of_isStraight (hstraight : statement.isStraight = true) :
    statement.isLoopFree = true ∧ statement.isAssertFree = true := by
  induction statement with
  | seq _ _ ihfirst ihsecond =>
    simp only [isStraight, Bool.and_eq_true] at hstraight
    simp [isLoopFree, isAssertFree, ihfirst hstraight.1, ihsecond hstraight.2]
  | skip | assign => exact ⟨rfl, rfl⟩
  | _ => simp [isStraight] at hstraight

variable {interp : Interpretation} {rule havoc : HavocRule}

/-- Without loops and assertions, the precondition is true where every run ends
in the postcondition, if the two rules agree on the havocs of the statement. -/
theorem pre_iff_exec_of_rules (hprogram : statement.isProgram = true)
    (hrules : ∀ entry ∈ statement.havocs, rule entry.1 entry.2 = havoc entry.1 entry.2)
    (hloops : statement.isLoopFree = true) (hasserts : statement.isAssertFree = true) :
    statement.Pre interp rule post store ↔
      ∀ after, Exec interp havoc statement store (.done after) → post after := by
  induction statement generalizing post store with
  | skip => simp [Pre, exec_skip_iff]
  | assign =>
    obtain ⟨_, rfl, -⟩ := isProgram_assign hprogram
    constructor
    · intro hpost after hexec
      cases hexec
      exact hpost
    · exact fun hpost => hpost _ .assign
  | ifElse _ _ _ _ ihthen ihelse =>
    simp only [isProgram, Bool.and_eq_true] at hprogram
    simp only [havocs, List.forall_mem_append] at hrules
    simp only [isLoopFree, Bool.and_eq_true] at hloops
    simp only [isAssertFree, Bool.and_eq_true] at hasserts
    simp only [Pre, ihthen hprogram.1.2 hrules.1 hloops.1 hasserts.1,
      ihelse hprogram.2 hrules.2 hloops.2 hasserts.2]
    constructor
    · rintro ⟨hthen, helse⟩ after hexec
      cases hexec with
      | ifTrue htrue hexec => exact hthen htrue after hexec
      | ifFalse hfalse hexec => exact helse hfalse after hexec
    · intro hpost
      exact ⟨fun htrue after hexec => hpost after (.ifTrue htrue hexec),
        fun hfalse after hexec => hpost after (.ifFalse hfalse hexec)⟩
  | seq _ _ ihfirst ihsecond =>
    simp only [isProgram, Bool.and_eq_true] at hprogram
    simp only [havocs, List.forall_mem_append] at hrules
    simp only [isLoopFree, Bool.and_eq_true] at hloops
    simp only [isAssertFree, Bool.and_eq_true] at hasserts
    simp only [Pre, ihfirst hprogram.1 hrules.1 hloops.1 hasserts.1,
      ihsecond hprogram.2 hrules.2 hloops.2 hasserts.2, exec_seq_iff]
    constructor
    · rintro hpost after ⟨between, hfirst, hsecond⟩
      exact hpost between hfirst after hsecond
    · intro hpost between hfirst after hsecond
      exact hpost after ⟨between, hfirst, hsecond⟩
  | assume =>
    constructor
    · intro hpost after hexec
      cases hexec with
      | assume hclaim => exact hpost hclaim
    · exact fun hpost hclaim => hpost store (.assume hclaim)
  | havoc name count =>
    have hrule := hrules (name, count) (by simp [havocs])
    simp only [Pre, hrule]
    constructor
    · intro hpost after hexec
      cases hexec with
      | havoc hhavoc => exact hpost after hhavoc
    · exact fun hpost after hhavoc => hpost after (.havoc hhavoc)
  | loop => simp [isLoopFree] at hloops
  | assert => simp [isAssertFree] at hasserts
  | _ => simp [isProgram] at hprogram

theorem pre_iff_exec (hprogram : statement.isProgram = true) (hhavocs : statement.havocs = [])
    (hloops : statement.isLoopFree = true) (hasserts : statement.isAssertFree = true) :
    statement.Pre interp rule post store ↔
      ∀ after, Exec interp havoc statement store (.done after) → post after :=
  pre_iff_exec_of_rules hprogram (by simp [hhavocs]) hloops hasserts

end Term

/-! ## Obligations -/

namespace Term

variable {env : Option TypeEnv}

/-- Where nothing is havoced, names are apart if the bound ones are. -/
theorem apart_of_havocs_eq_nil {program post : Term} (hhavocs : program.havocs = [])
    (hbound : ∀ name ∈ program.boundNames ++ post.boundNames,
      name ∉ program.freeNames ++ post.freeNames) : program.Apart post := by
  have hnames : program.havocNames = [] := by rw [havocNames, hhavocs, List.map_nil]
  refine ⟨fun name hname => ?_, by simp [hnames], by simp [hhavocs]⟩
  rw [hnames, List.append_nil]
  exact hbound name hname

/-- Only loops have side conditions. -/
theorem sideConditions_eq_nil {post : Term} {computed : Obligations} {before after : WriteLog}
    (hloops : statement.isLoopFree = true)
    (hgives : Gives (statement.obligations env post) before computed after) :
    computed.sideConditions = [] := by
  induction statement generalizing post computed before after with
  | ifElse _ _ _ _ ihthen ihelse =>
    simp only [isLoopFree, Bool.and_eq_true] at hloops
    simp only [obligations, gives_bind, gives_pure] at hgives
    obtain ⟨_, _, htrue, _, _, hfalse, rfl, _⟩ := hgives
    simp [ihthen hloops.1 htrue, ihelse hloops.2 hfalse]
  | seq _ _ ihfirst ihsecond =>
    simp only [isLoopFree, Bool.and_eq_true] at hloops
    simp only [obligations, gives_bind, gives_pure] at hgives
    obtain ⟨_, _, hrest, _, _, hwhole, rfl, _⟩ := hgives
    simp [ihfirst hloops.1 hwhole, ihsecond hloops.2 hrest]
  | loop => simp [isLoopFree] at hloops
  | skip | assume | assert =>
    simp only [obligations, gives_pure] at hgives
    rw [← hgives.1]
  | assign =>
    simp only [obligations, gives_bind, gives_pure] at hgives
    obtain ⟨_, _, _, rfl, _⟩ := hgives
    rfl
  | havoc =>
    simp only [obligations, gives_bind, gives_pure] at hgives
    obtain ⟨_, _, _, _, _, _, rfl, _⟩ := hgives
    rfl
  | _ => simp [obligations] at hgives

end Term

/-! ## Renamed programs -/

section Renaming

variable {rename : String → String} {names : Set String} {store newStore : Store}
variable {interp : Interpretation} {rule : HavocRule}

/-- Renaming a program renames its precondition. -/
theorem Renames.pre_iff {renamed : Term} (hrenames : Renames rename statement renamed)
    (hloops : statement.isLoopFree = true) (hinj : Set.InjOn rename names)
    (hfits : statement.Fits rename names) {newPost : Store → Prop}
    (hpost : ∀ {store newStore : Store}, store.Follows rename names newStore →
      (newPost newStore ↔ post store)) (hfollows : store.Follows rename names newStore) :
    renamed.Pre interp rule newPost newStore ↔ statement.Pre interp rule post store := by
  induction hrenames generalizing post newPost store newStore with
  | skip => exact hpost hfollows
  | assign hvalue =>
    simp only [Term.Pre, hvalue.eval_eq hinj hfits.value hfollows]
    exact hpost (hfollows.update hinj (hfits.free _ (by simp)) _)
  | ifElse htest _ _ ihthen ihelse =>
    simp only [Term.isLoopFree, Bool.and_eq_true] at hloops
    simp only [Term.Pre, htest.holds_iff hinj hfits.test hfollows,
      ihthen hloops.1 hfits.thenBranch hpost hfollows,
      ihelse hloops.2 hfits.elseBranch hpost hfollows]
  | seq _ _ ihfirst ihsecond =>
    simp only [Term.isLoopFree, Bool.and_eq_true] at hloops
    exact ihfirst hloops.1 hfits.first
      (fun hbetween => ihsecond hloops.2 hfits.second hpost hbetween) hfollows
  | assume hclaim =>
    simp only [Term.Pre, hclaim.holds_iff hinj ⟨hfits.free, hfits.bound⟩ hfollows, hpost hfollows]
  | assert hclaim =>
    simp only [Term.Pre, hclaim.holds_iff hinj ⟨hfits.free, hfits.bound⟩ hfollows, hpost hfollows]
  | loop => simp [Term.isLoopFree] at hloops

namespace Renames

variable {statement renamed : Term}

/-- Renaming makes a program without loops and havocs of another. -/
theorem shape (hrenames : Renames rename statement renamed) (hloops : statement.isLoopFree = true) :
    renamed.isProgram = true ∧ renamed.isLoopFree = true ∧ renamed.havocs = [] := by
  induction hrenames with
  | skip => exact ⟨rfl, rfl, rfl⟩
  | assign hvalue => exact ⟨hvalue.isClaim_renamed, rfl, rfl⟩
  | ifElse htest _ _ ihthen ihelse =>
    simp only [Term.isLoopFree, Bool.and_eq_true] at hloops
    simp [Term.isProgram, Term.isLoopFree, Term.havocs, htest.isClaim_renamed,
      ihthen hloops.1, ihelse hloops.2]
  | seq _ _ ihfirst ihsecond =>
    simp only [Term.isLoopFree, Bool.and_eq_true] at hloops
    simp [Term.isProgram, Term.isLoopFree, Term.havocs, ihfirst hloops.1, ihsecond hloops.2]
  | assume hclaim => exact ⟨hclaim.isClaim_renamed, rfl, rfl⟩
  | assert hclaim => exact ⟨hclaim.isClaim_renamed, rfl, rfl⟩
  | loop => simp [Term.isLoopFree] at hloops

theorem freeNames_eq (hrenames : Renames rename statement renamed)
    (hloops : statement.isLoopFree = true) (hinj : Set.InjOn rename names)
    (hfits : statement.Fits rename names) : renamed.freeNames = statement.freeNames.map rename := by
  induction hrenames with
  | skip => rfl
  | assign hvalue => simp [hvalue.freeNames_eq hinj hfits.value]
  | ifElse htest _ _ ihthen ihelse =>
    simp only [Term.isLoopFree, Bool.and_eq_true] at hloops
    simp [htest.freeNames_eq hinj hfits.test, ihthen hloops.1 hfits.thenBranch,
      ihelse hloops.2 hfits.elseBranch]
  | seq _ _ ihfirst ihsecond =>
    simp only [Term.isLoopFree, Bool.and_eq_true] at hloops
    simp [ihfirst hloops.1 hfits.first, ihsecond hloops.2 hfits.second]
  | assume hclaim => exact hclaim.freeNames_eq hinj ⟨hfits.free, hfits.bound⟩
  | assert hclaim => exact hclaim.freeNames_eq hinj ⟨hfits.free, hfits.bound⟩
  | loop => simp [Term.isLoopFree] at hloops

theorem boundNames_eq (hrenames : Renames rename statement renamed)
    (hloops : statement.isLoopFree = true) : renamed.boundNames = statement.boundNames := by
  induction hrenames with
  | skip => rfl
  | assign hvalue => exact hvalue.boundNames_eq
  | ifElse htest _ _ ihthen ihelse =>
    simp only [Term.isLoopFree, Bool.and_eq_true] at hloops
    simp [htest.boundNames_eq, ihthen hloops.1, ihelse hloops.2]
  | seq _ _ ihfirst ihsecond =>
    simp only [Term.isLoopFree, Bool.and_eq_true] at hloops
    simp [ihfirst hloops.1, ihsecond hloops.2]
  | assume hclaim => exact hclaim.boundNames_eq
  | assert hclaim => exact hclaim.boundNames_eq
  | loop => simp [Term.isLoopFree] at hloops

end Renames

end Renaming

end HoareCheck
