import HoareCheck.Proofs.ClaimFrames
import HoareCheck.Proofs.ElaborationSteps
import HoareCheck.Proofs.SourceReading
import HoareCheck.Verifier.Verify

/-!
# Conditions are computed without a verdict

Reading, elaborating and typing a program and computing its conditions never
end with a fault of a verdict (`unjudged_conditions`).
-/

namespace HoareCheck

open Term

variable {α : Type} {fault : Fault}

/-! ## Claims -/

theorem spared_ofClaim (text : String) : Spared (ofClaim text) :=
  (Parser.readsClaims_expression _ (@isClaimed_scan _ (fun _ => True) fun _ _ => trivial)).1 0

@[grind ←]
theorem unjudged_parse (text : String) : Unjudged (Logged.parse text) := by
  rw [Logged.parse]
  cases hclaim : ofClaim text with
  | ok term => exact unjudged_place term
  | error fault => exact unjudged_throw (spared_ofClaim text fault hclaim)

/-! ## Elaboration -/

theorem stepwise_unjudged : Stepwise fun computation => Unjudged computation where
  pure := unjudged_pure
  throw _ := unjudged_throw
  bind _ _ := unjudged_bind
  place := unjudged_place
  rename term _ _ := unjudged_substitute term _ _
  parse := unjudged_parse

@[grind ←]
theorem unjudged_elaborate (mode : RunMode) (program : Source.Program) :
    Unjudged (Source.elaborate mode program) :=
  stepwise_unjudged.program mode program

/-! ## Types -/

section Types

@[grind ←]
theorem spared_variableNames (term : Term) : Spared term.variableNames := by
  fun_induction variableNames <;> grind

@[grind ←]
theorem spared_assigned (statement : Term) : Spared statement.assigned := by
  fun_induction Term.assigned <;> grind

@[grind ←]
theorem unjudged_typing_ofOption (hfault : ¬ fault.IsVerdict) (value : Option α) :
    Unjudged (Typing.ofOption fault value) := by
  cases value with
  | none => exact unjudged_throw hfault
  | some value => exact unjudged_pure value

@[grind ←]
theorem unjudged_env : Unjudged Typing.env := by
  grind [Typing.env]

@[grind ←]
theorem unjudged_find? (name : String) : Unjudged (Typing.find? name) := by
  grind [Typing.find?]

@[grind ←]
theorem unjudged_entry (name : String) : Unjudged (Typing.entry name) := by
  grind [Typing.entry]

@[grind ←]
theorem unjudged_insert (name : String) (entry : TypeEntry) :
    Unjudged (Typing.insert name entry) := by
  grind [Typing.insert]

@[grind ←]
theorem unjudged_erase (name : String) : Unjudged (Typing.erase name) := by
  grind [Typing.erase]

@[grind ←]
theorem unjudged_checkType (term : Term) (label : Option String) (actual expected : TypeEntry) :
    Unjudged (term.checkType label actual expected) := by
  rw [checkType]
  by_cases hunknown : actual = .unknown
  · rw [if_pos hunknown]
    split <;> grind
  · rw [if_neg hunknown]
    grind

@[grind ←]
theorem unjudged_expectedType (term : Term) (default : TypeEntry) :
    Unjudged (term.expectedType default) := by
  fun_cases expectedType <;> grind

@[grind ←]
theorem unjudged_variableType (name : String) : Unjudged (variableType name) := by
  grind [variableType]

@[grind ←]
theorem unjudged_checkOperand {resolve : Typing (TypeEntry × Bool)} (hresolve : Unjudged resolve)
    (operand : Term) (default : TypeEntry) :
    Unjudged (checkOperand resolve operand default) := by
  grind [checkOperand]

@[grind ←]
theorem unjudged_resolveType (term : Term) : Unjudged term.resolveType := by
  fun_induction resolveType <;> grind

@[grind ←]
theorem unjudged_resolveClaim (term : Term) : Unjudged term.resolveClaim := by
  grind [resolveClaim]

@[grind ←]
theorem unjudged_resolveTarget (target : Term) (type : TypeEntry) (touched : Bool) :
    Unjudged (target.resolveTarget type touched) := by
  apply unjudged_bind (unjudged_typing_ofOption (by decide) target.assignedName?)
  intro name
  apply unjudged_bind (unjudged_find? name)
  intro entry
  split
  · grind
  · grind
  · split <;> grind

@[grind ←]
theorem unjudged_resolveStatement (term : Term) : Unjudged term.resolveStatement := by
  fun_induction resolveStatement <;> grind

end Types

/-! ## Conditions -/

section Conditions

@[grind ←]
theorem unjudged_havocType (env : Option TypeEnv) (name : String) :
    Unjudged (havocType env name) := by
  fun_cases havocType <;> grind

@[grind ←]
theorem unjudged_obligations (env : Option TypeEnv) (statement post : Term) :
    Unjudged (statement.obligations env post) := by
  fun_induction Term.obligations env statement post <;> grind

@[grind ←]
theorem unjudged_obligations? (env : Option TypeEnv) (statement post : Term) :
    Unjudged (statement.obligations? env post) := by
  grind [obligations?]

@[grind ←]
theorem unjudged_cutLoops (term : Term) : Unjudged term.cutLoops :=
  (rewrites_cutLoops term).unjudged

namespace Run

@[grind ←]
theorem unjudged_ofExcept {outcome : Except Fault α} (houtcome : Spared outcome) :
    Unjudged (Run.ofExcept outcome) := by
  cases outcome with
  | ok value => exact unjudged_pure value
  | error fault => exact unjudged_throw (houtcome fault rfl)

@[grind ←]
theorem unjudged_logged {computation : Logged α} (hcomputation : Unjudged computation) :
    Unjudged (Run.logged computation) := by
  apply unjudged_bind unjudged_get
  intro state
  apply unjudged_bind (unjudged_set _)
  intro _
  exact unjudged_ofExcept (hcomputation state.log)

@[grind ←]
theorem unjudged_env (scope : String) : Unjudged (Run.env scope) := by
  grind [Run.env]

@[grind ←]
theorem unjudged_typing (scope : String) {computation : Typing α}
    (hcomputation : Unjudged computation) : Unjudged (Run.typing scope computation) := by
  apply unjudged_bind (unjudged_env scope)
  intro env
  apply unjudged_bind (unjudged_modify _)
  intro _
  exact unjudged_ofExcept (hcomputation env)

@[grind ←]
theorem unjudged_cutting {computation : Cutting α} (hcomputation : Unjudged computation) :
    Unjudged (Run.cutting computation) := by
  apply unjudged_bind unjudged_get
  intro state
  apply unjudged_bind (unjudged_set _)
  intro _
  exact unjudged_ofExcept (hcomputation _)

end Run

namespace Task

@[grind ←]
theorem unjudged_statement (task : Task) : Unjudged task.statement := by
  have hparse : Spared (Source.parse task.code) := by
    intro fault hfault
    rw [Source.fault_of_parse hfault]
    decide
  grind [Task.statement]

@[grind ←]
theorem unjudged_orderedObligations (scope : String) (statement post : Term) :
    Unjudged (orderedObligations scope statement post) := by
  grind [orderedObligations]

@[grind ←]
theorem unjudged_conditionsOf (scope : String) (pre statement post : Term)
    (aboutInvariant : Bool) :
    Unjudged (conditionsOf scope pre statement post aboutInvariant) := by
  grind [conditionsOf]

@[grind ←]
theorem unjudged_invariantConditions (scope : String) (pre statement : Term) :
    Unjudged (invariantConditions scope pre statement) := by
  grind [invariantConditions]

/-- No fault of a verdict keeps a task from having conditions. -/
theorem unjudged_conditions (task : Task) : Unjudged task.conditions := by
  apply unjudged_bind (unjudged_statement task)
  intro statement
  apply unjudged_bind (Run.unjudged_logged (unjudged_parse task.precondition))
  intro pre
  apply unjudged_bind (Run.unjudged_logged (unjudged_parse task.postcondition))
  intro post
  apply unjudged_bind (Run.unjudged_typing task.scope (unjudged_resolveStatement statement))
  intro _
  grind

end Task

end Conditions

end HoareCheck
