import HoareCheck.Hoare.Precondition

/-!
# Properties of substitution, step by step

Substitution looks at the log, records writes in it and may fail.  What holds of these
steps, and of sequences of computations it holds of, holds of substitution and of the
computation of preconditions.
-/

namespace HoareCheck

/-- A property that the steps of substitution have, with faults of some kind. -/
structure Substituting where
  Holds : {α : Type} → Logged α → Prop
  Allows : Fault → Prop
  pure : ∀ {α : Type} (value : α), Holds (pure value : Logged α)
  throw : ∀ {α : Type} (fault : Fault), Allows fault → Holds (throw fault : Logged α)
  bind : ∀ {α β : Type} (first : Logged α) (next : α → Logged β), Holds first →
    (∀ value, Holds (next value)) → Holds (first >>= next)
  get : Holds (get : Logged WriteLog)
  record : ∀ (site : Site) (key : String) (new : Term), Holds (modify fun log : WriteLog =>
    log.set site ((log.writesAt site).record key new) : Logged PUnit)
  noSuchPart : Allows .noSuchPart
  nestedTooDeeply : Allows .nestedTooDeeply

namespace Substituting

attribute [grind ←] Substituting.pure Substituting.throw Substituting.bind Substituting.get
  Substituting.noSuchPart

variable (steps : Substituting)

@[grind ←]
theorem ofOption {α : Type} (fault : Fault) (hfault : steps.Allows fault) (value : Option α) :
    steps.Holds (Logged.ofOption fault value) := by
  cases value with
  | none => exact steps.throw fault hfault
  | some value => exact steps.pure value

theorem forM {β : Type} {action : β → Logged PUnit} (haction : ∀ item, steps.Holds (action item))
    (items : List β) : steps.Holds (items.forM action) := by
  induction items with
  | nil => exact steps.pure _
  | cons item _ ih => exact steps.bind _ _ (haction item) fun _ => ih

theorem writeKey? (old array : Term) : steps.Holds (old.writeKey? array) := by
  fun_cases Term.writeKey? <;> grind [Term.arrayName]

theorem substituteWith {atRead : Site → Term → Logged Unit}
    (hread : ∀ site array, steps.Holds (atRead site array)) (old new term : Term) :
    steps.Holds (Term.substituteWith atRead old new term) := by
  fun_induction Term.substituteWith atRead old new term <;> grind

theorem substituteAt (old new : Term) (bound : Nat) (site : Site) (array : Term) :
    steps.Holds (Term.substituteAt old new bound site array) := by
  induction bound generalizing site array with
  | zero => exact steps.throw _ steps.nestedTooDeeply
  | succ _ ih =>
    apply steps.bind _ _ (steps.writeKey? old array)
    intro key
    cases key with
    | some key => exact steps.record site key new
    | none =>
      apply steps.bind _ _ steps.get
      intro log
      apply steps.forM
      intro entry
      exact steps.bind _ _ (steps.substituteWith ih old new entry.2) fun term =>
        steps.record site entry.1 term

@[grind ←]
theorem substitute (term old new : Term) : steps.Holds (term.substitute old new) :=
  steps.bind _ _ steps.get fun _ => steps.substituteWith (steps.substituteAt old new _) old new term

theorem obligations (hall : ∀ fault, steps.Allows fault) (env : Option TypeEnv)
    (statement post : Term) : steps.Holds (statement.obligations env post) := by
  have htype (name : String) : steps.Holds (Term.havocType env name) := by
    fun_cases Term.havocType <;> grind
  induction statement generalizing post with
  | skip | assume | assert => exact steps.pure _
  | assign target value => exact steps.bind _ _ (steps.substitute _ _ _) fun _ => steps.pure _
  | seq _ _ ihfirst ihsecond =>
    exact steps.bind _ _ (ihsecond post) fun _ => steps.bind _ _ (ihfirst _) fun _ => steps.pure _
  | ifElse _ _ _ _ ihthen ihelse =>
    exact steps.bind _ _ (ihthen post) fun _ => steps.bind _ _ (ihelse post) fun _ => steps.pure _
  | loop _ _ _ _ _ ihbody => exact steps.bind _ _ (ihbody _) fun _ => steps.pure _
  | havoc name =>
    exact steps.bind _ _ (steps.substitute _ _ _) fun _ =>
      steps.bind _ _ (htype name) fun _ => steps.pure _
  | _ => exact steps.throw _ (hall _)

end Substituting

end HoareCheck
