import HoareCheck.Proofs.TaskFrames

/-!
# Logs without writes

A write is recorded where a program assigns an element of an array.  Elaboration renames
variables and assigns nothing, so the conditions of every task start from a log in which
nothing is recorded; and while a program assigns variables only, nothing ever is.
-/

namespace HoareCheck

/-- Nothing is recorded. -/
def WriteLog.IsBlank (log : WriteLog) : Prop :=
  ∀ site, log.writesAt site = []

theorem WriteLog.isBlank_empty : WriteLog.empty.IsBlank := by
  intro site
  cases site <;> rfl

/-- The computation records nothing. -/
def RecordsNothing {α : Type} (computation : Logged α) : Prop :=
  ∀ before value after, before.IsBlank → Gives computation before value after → after.IsBlank

section Steps

variable {α β : Type}

@[grind ←]
theorem recordsNothing_pure (value : α) : RecordsNothing (pure value : Logged α) := by
  intro before result after hblank hgives
  obtain ⟨-, rfl⟩ := gives_pure.mp hgives
  exact hblank

@[grind ←]
theorem recordsNothing_throw (fault : Fault) : RecordsNothing (throw fault : Logged α) :=
  fun _ _ _ _ hgives => absurd hgives not_gives_throw

@[grind ←]
theorem recordsNothing_bind {first : Logged α} {next : α → Logged β}
    (hfirst : RecordsNothing first) (hnext : ∀ value, RecordsNothing (next value)) :
    RecordsNothing (first >>= next) := by
  intro before value after hblank hgives
  obtain ⟨middle, _, hmiddle, hrest⟩ := gives_bind.mp hgives
  exact hnext middle _ _ _ (hfirst _ _ _ hblank hmiddle) hrest

@[grind ←]
theorem recordsNothing_place (term : Term) : RecordsNothing (Logged.place term) := by
  intro before placed after hblank hgives
  obtain ⟨-, rfl⟩ := gives_place.mp hgives
  intro site
  rw [term.writesAt_place, hblank]

theorem recordsNothing_ofOption (fault : Fault) (value : Option α) :
    RecordsNothing (Logged.ofOption fault value) := by
  cases value with
  | none => exact recordsNothing_throw fault
  | some value => exact recordsNothing_pure value

theorem recordsNothing_parse (text : String) : RecordsNothing (Logged.parse text) := by
  rw [Logged.parse]
  cases Term.ofClaim text with
  | ok term => exact recordsNothing_place term
  | error fault => exact recordsNothing_throw fault

end Steps

/-! ## Substitution for variables -/

namespace Term

variable {log : WriteLog} {old : String}

theorem recordsNothing_substituteAt (new : Term) (steps : Nat) (site : Site) (array : Term) :
    RecordsNothing (substituteAt (.var old) new (steps + 1) site array) := by
  intro before value after hblank hgives
  have hsame := hgives.symm.trans (gives_substituteAt_unwritten (hblank site) new steps array)
  rwa [(Prod.mk.inj hsame).2]

theorem recordsNothing_substituteWith {atRead : Site → Term → Logged Unit}
    (hatRead : ∀ site array, RecordsNothing (atRead site array)) (old new term : Term) :
    RecordsNothing (substituteWith atRead old new term) := by
  induction term with
  | var => cases old <;> exact recordsNothing_pure _
  | _ => grind [substituteWith]

theorem recordsNothing_substitute (term : Term) (old : String) (new : Term) :
    RecordsNothing (term.substitute (.var old) new) := by
  intro before value after hblank hgives
  simp only [substitute, gives_bind, gives_get] at hgives
  obtain ⟨_, _, ⟨rfl, rfl⟩, hgives⟩ := hgives
  exact recordsNothing_substituteWith (recordsNothing_substituteAt new _) _ _ term _ _ _ hblank
    hgives

end Term

/-! ## Elaboration -/

theorem stepwise_recordsNothing : Stepwise fun computation => RecordsNothing computation where
  pure := recordsNothing_pure
  throw fault _ := recordsNothing_throw fault
  bind _ _ := recordsNothing_bind
  place := recordsNothing_place
  rename term old _ := term.recordsNothing_substitute old _
  parse := recordsNothing_parse

theorem Task.isBlank_of_gives_statement {task : Task} {statement : Term} {before after : RunState}
    (hgives : Gives task.statement before statement after) (hblank : before.log.IsBlank) :
    after.log.IsBlank := by
  have helaborates (mode : RunMode) (program : Source.Program) :
      RecordsNothing (Source.elaborate mode program) :=
    stepwise_recordsNothing.program mode program
  obtain ⟨_, _, log, _, -, hsingle, rfl, hrest⟩ := of_gives_statement hgives
  have hlog : log.IsBlank := helaborates _ _ _ _ _ hblank hsingle
  obtain ⟨-, rfl⟩ | ⟨_, _, -, hforked, -⟩ := hrest
  · exact hlog
  · exact helaborates _ _ _ _ _ hlog hforked

/-- The conditions of a task are computed from a blank log. -/
theorem Task.isBlank_of_gives_prepared {task : Task} {verifier : Verifier}
    {parts : Term × Term × Term} {between : RunState}
    (hgives : Gives task.prepared { log := .empty, verifier } parts between) :
    between.log.IsBlank := by
  simp only [prepared, gives_bind, gives_pure, Run.gives_logged, Run.gives_typing] at hgives
  obtain ⟨_, start, hstatement, _, _, ⟨_, hpre, rfl⟩, _, _, ⟨_, hpost, rfl⟩, _, _,
    ⟨_, _, -, -, rfl⟩, _, _, ⟨_, _, -, -, rfl⟩, _, _, ⟨_, _, -, -, rfl⟩, -, rfl⟩ := hgives
  have hstart : start.log.IsBlank := isBlank_of_gives_statement hstatement WriteLog.isBlank_empty
  exact recordsNothing_parse _ _ _ _ (recordsNothing_parse _ _ _ _ hstart hpre) hpost

/-! ## Obligations -/

/-- A program that assigns variables only leaves a blank log blank. -/
theorem recordsNothing_obligations {vocabulary : Vocabulary} {statement : Term}
    (hstatement : statement.KeepsTo vocabulary) (env : Option TypeEnv) (post : Term) :
    RecordsNothing (statement.obligations env post) := by
  have hrefused : RecordsNothing (throw .wrongKind : Logged Obligations) := recordsNothing_throw _
  induction statement generalizing post with
  | skip | assume | assert => exact recordsNothing_pure _
  | assign _ value =>
    obtain ⟨⟨name, rfl, -⟩, -⟩ := hstatement
    exact recordsNothing_bind (post.recordsNothing_substitute name value) fun _ =>
      recordsNothing_pure _
  | seq _ _ ihfirst ihsecond =>
    exact recordsNothing_bind (ihsecond hstatement.2 post) fun _ =>
      recordsNothing_bind (ihfirst hstatement.1 _) fun _ => recordsNothing_pure _
  | ifElse _ _ _ _ ihthen ihelse =>
    exact recordsNothing_bind (ihthen hstatement.2.1 post) fun _ =>
      recordsNothing_bind (ihelse hstatement.2.2 post) fun _ => recordsNothing_pure _
  | loop _ _ _ _ _ ihbody =>
    exact recordsNothing_bind (ihbody hstatement.2.2 _) fun _ => recordsNothing_pure _
  | havoc name =>
    have htype : RecordsNothing (Term.havocType env name) := by
      cases env with
      | none => exact recordsNothing_throw _
      | some => exact recordsNothing_ofOption _ _
    exact recordsNothing_bind (post.recordsNothing_substitute name _) fun _ =>
      recordsNothing_bind htype fun _ => recordsNothing_pure _
  | _ => exact hrefused

end HoareCheck
