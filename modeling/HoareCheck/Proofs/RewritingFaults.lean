import HoareCheck.Hoare.LoopCut
import HoareCheck.Proofs.Fails
import HoareCheck.Proofs.SubstitutionSteps

/-!
# Faults of rewriting

Substitution, copies and the cuts of loops only rewrite terms.  They look nothing up
and judge nothing: what they fail at is a part that is missing, a statement that they
do not know, or writes that hold themselves.
-/

namespace HoareCheck

/-- The faults that terms give rise to when they are rewritten. -/
def Fault.IsOfRewriting (fault : Fault) : Prop :=
  fault = .noSuchPart ∨ fault = .nestedTooDeeply ∨
    ∃ statement, fault = .unsupportedStatement statement

@[grind ←]
theorem isOfRewriting_noSuchPart : Fault.noSuchPart.IsOfRewriting :=
  .inl rfl

@[grind ←]
theorem isOfRewriting_nestedTooDeeply : Fault.nestedTooDeeply.IsOfRewriting :=
  .inr (.inl rfl)

@[grind ←]
theorem isOfRewriting_unsupportedStatement (statement : Term) :
    (Fault.unsupportedStatement statement).IsOfRewriting :=
  .inr (.inr ⟨statement, rfl⟩)

/-- A computation that rewrites terms, and fails at them only. -/
abbrev Rewrites {σ α : Type} (computation : ExceptT Fault (StateM σ) α) : Prop :=
  FailsOnly Fault.IsOfRewriting computation

section Claims

@[grind ←]
theorem rewrites_place (term : Term) : Rewrites (Logged.place term) := by
  grind [Logged.place]

/-- Substitution rewrites terms. -/
def Substituting.rewriting : Substituting where
  Holds computation := Rewrites computation
  Allows := Fault.IsOfRewriting
  pure := failsOnly_pure
  throw _ := failsOnly_throw
  bind _ _ := failsOnly_bind
  get := failsOnly_get
  record _ _ _ := failsOnly_modify _
  noSuchPart := isOfRewriting_noSuchPart
  nestedTooDeeply := isOfRewriting_nestedTooDeeply

@[grind ←]
theorem rewrites_substitute (term old new : Term) : Rewrites (term.substitute old new) :=
  Substituting.rewriting.substitute term old new

@[grind ←]
theorem rewrites_copy (term : Term) : Rewrites term.copy := by
  fun_induction Term.copy <;> grind

@[grind ←]
theorem rewrites_afterHavocs (havocs : List (String × Int)) (term : Term) :
    Rewrites (term.afterHavocs havocs) := by
  rw [Term.afterHavocs]
  generalize havocs.map _ = renamings
  induction renamings generalizing term with
  | nil => exact failsOnly_pure term
  | cons _ _ ih => exact failsOnly_bind (rewrites_substitute _ _ _) fun next => ih next

end Claims

/-! ## Substitution without writes -/

/-- On the log, the computation gives the value and changes nothing; without one it misses a
part. -/
def AmountsTo {α : Type} (log : WriteLog) (computation : Logged α) (value : Option α) : Prop :=
  outcomeOn computation log = outcomeOn (Logged.ofOption .noSuchPart value) log

section Laws

variable {α β : Type} {log : WriteLog}

theorem amountsTo_pure (value : α) : AmountsTo log (pure value) (some value) := rfl

theorem AmountsTo.bind {first : Logged α} {next : α → Logged β} {value : Option α}
    {result : α → Option β} (hfirst : AmountsTo log first value)
    (hnext : ∀ inner, value = some inner → AmountsTo log (next inner) (result inner)) :
    AmountsTo log (first >>= next) (value >>= result) := by
  cases value with
  | none => exact Fails.outcomeOn_bind hfirst
  | some inner => exact (Gives.outcomeOn_bind hfirst).trans (hnext inner rfl)

theorem AmountsTo.map {first : Logged α} {value : Option α} (change : α → β)
    (hfirst : AmountsTo log first value) :
    AmountsTo log (first >>= fun inner => pure (change inner))
      (value >>= fun inner => pure (change inner)) :=
  hfirst.bind fun _ _ => amountsTo_pure _

theorem AmountsTo.gives_iff {computation : Logged α} {value : Option α} {result : α}
    {after : WriteLog} (hcomputation : AmountsTo log computation value) :
    Gives computation log result after ↔ value = some result ∧ log = after := by
  rw [Gives, hcomputation, ← Gives]
  cases value <;> simp [Logged.ofOption]

end Laws

namespace Term

/-- Where nothing is recorded against a read, nothing is replaced. -/
theorem gives_substituteAt_unwritten {log : WriteLog} {old : String} {site : Site}
    (hsite : log.writesAt site = []) (new : Term) (steps : Nat) (array : Term) :
    Gives (substituteAt (.var old) new (steps + 1) site array) log () log := by
  simp only [substituteAt, writeKey?, pure_bind, gives_bind, gives_get]
  refine ⟨log, log, ⟨rfl, rfl⟩, ?_⟩
  rw [hsite]
  exact gives_pure.mpr ⟨rfl, rfl⟩

end Term

/-! ## Cuts -/

section Cutting

theorem append_eq_error {first second : Except Fault (List String)} {fault : Fault}
    (hfault : (do return (← first) ++ (← second)) = Except.error fault) :
    first = .error fault ∨ second = .error fault := by
  cases first with
  | error =>
    cases hfault
    exact .inl rfl
  | ok =>
    cases second with
    | error =>
      cases hfault
      exact .inr rfl
    | ok => cases hfault

theorem fault_of_variableNames {term : Term} {fault : Fault}
    (hfault : term.variableNames = .error fault) : fault.IsOfRewriting := by
  induction term with
  | var | literal | slice | quantified => cases hfault
  | unary _ _ ih => exact ih hfault
  | subscript _ _ _ ihfirst ihsecond | binary _ _ _ ihfirst ihsecond =>
    exact (append_eq_error hfault).elim ihfirst ihsecond
  | _ =>
    cases hfault
    exact isOfRewriting_noSuchPart

theorem fault_of_assigned {statement : Term} {fault : Fault}
    (hfault : statement.assigned = .error fault) : fault.IsOfRewriting := by
  induction statement with
  | skip | assume | assert | havoc => cases hfault
  | assign => exact fault_of_variableNames hfault
  | loop _ _ _ _ _ ih => exact ih hfault
  | ifElse _ _ _ _ ihfirst ihsecond | seq _ _ ihfirst ihsecond =>
    exact (append_eq_error hfault).elim ihfirst ihsecond
  | _ =>
    cases hfault
    exact isOfRewriting_noSuchPart

@[grind ←]
theorem rewrites_cutting_logged {α : Type} {computation : Logged α}
    (hcomputation : Rewrites computation) : Rewrites (Cutting.logged computation) := by
  refine failsOnly_bind failsOnly_get fun state => ?_
  refine failsOnly_bind (failsOnly_set _) fun _ => ?_
  cases houtcome : (computation state.log).1 with
  | ok value => exact failsOnly_pure value
  | error fault =>
    have hfails : Fails computation state.log fault (computation state.log).2 :=
      Prod.ext houtcome rfl
    exact failsOnly_throw (hcomputation _ _ _ hfails)

@[grind ←]
theorem rewrites_havocs (targets : List String) : Rewrites (Cutting.havocs targets) := by
  have hcount (name : String) : Rewrites (Cutting.count name) := by
    grind [Cutting.count]
  rw [Cutting.havocs]
  induction targets with
  | nil => exact failsOnly_pure []
  | cons =>
    rw [List.mapM_cons]
    grind

@[grind ←]
theorem rewrites_cutLoop (targets : List String) (invariant condition body : Term) :
    Rewrites (Term.cutLoop targets invariant condition body) := by
  refine failsOnly_bind (rewrites_havocs targets) fun havocs => ?_
  apply rewrites_cutting_logged
  refine failsOnly_bind (rewrites_copy invariant) fun assumed => ?_
  refine failsOnly_bind (rewrites_copy invariant) fun kept => ?_
  grind

@[grind ←]
theorem rewrites_cutOneLoop (invariant condition body : Term) :
    Rewrites (Term.cutOneLoop invariant condition body) := by
  rw [Term.cutOneLoop]
  cases hassigned : body.assigned with
  | ok => exact rewrites_cutLoop _ _ _ _
  | error => exact failsOnly_throw (fault_of_assigned hassigned)

@[grind ←]
theorem rewrites_cutCopy (term : Term) : Rewrites term.cutCopy := by
  fun_induction Term.cutCopy <;> grind

theorem rewrites_cutLoops (term : Term) : Rewrites term.cutLoops := by
  fun_cases Term.cutLoops <;> grind

end Cutting

end HoareCheck
