import HoareCheck.Proofs.ScalarTyping

/-!
# Well-typed claims pass type resolution

`Term.HasType` is the usual typing of claims over a context, in which each rule looks at
the types of all parts.  Type resolution compares fewer types than the rules do, and keeps
the variables of quantifiers in the environment it looks names up in.  It still accepts
every well-typed claim, with the type that the rules give, and leaves no bound variable
behind.
-/

namespace HoareCheck

/-- The types of some names. -/
abbrev TypeContext := String → Option Ty

/-- The typing rules of claims. -/
inductive Term.HasType : TypeContext → Term → Ty → Prop
  | int {context : TypeContext} {value : Int} : HasType context (.literal (.int value)) .int
  | bool {context : TypeContext} {value : Bool} : HasType context (.literal (.bool value)) .bool
  | var {context : TypeContext} {name : String} {type : Ty} :
      context name = some type → HasType context (.var name) type
  | element {context : TypeContext} {site : Site} {name : String} {index : Term} :
      context name = some (.listOf .int) → HasType context index .int →
      HasType context (.subscript site (.var name) index) .int
  | number {context : TypeContext} {operator : Operator} {operand : Term} :
      operator ∈ [.minus, .abs] → HasType context operand .int →
      HasType context (.unary operator operand) .int
  | negation {context : TypeContext} {operand : Term} :
      HasType context operand .bool → HasType context (.unary .not operand) .bool
  | arithmetic {context : TypeContext} {left right : Term} {operator : Operator} :
      operator ∈ [.add, .minus, .mult, .div, .mod] →
      HasType context left .int → HasType context right .int →
      HasType context (.binary left operator right) .int
  | comparison {context : TypeContext} {left right : Term} {operator : Operator} :
      operator ∈ [.eq, .neq, .lt, .le, .gt, .ge] →
      HasType context left .int → HasType context right .int →
      HasType context (.binary left operator right) .bool
  | connective {context : TypeContext} {left right : Term} {operator : Operator} :
      operator ∈ [.and, .or, .implies, .iff] →
      HasType context left .bool → HasType context right .bool →
      HasType context (.binary left operator right) .bool
  | quantified {context : TypeContext} {quantifier : Quantifier} {name : String} {type : Ty}
      {body : Term} {closed : Bool} :
      HasType (Function.update context name (some type)) body .bool →
      HasType context (.quantified quantifier (.var name) (some type) .missing body closed) .bool

/-- Quantifiers stand in truth values only. -/
theorem Term.HasType.boundNames_eq_nil {context : TypeContext} {term : Term}
    (htyped : term.HasType context .int) : term.boundNames = [] := by
  generalize hint : Ty.int = type at htyped
  induction htyped with
  | int | var => rfl
  | element _ _ ih => exact ih hint
  | number _ _ ih => exact ih hint
  | arithmetic _ _ _ ihleft ihright => simp [ihleft hint, ihright hint]
  | bool | negation | comparison | connective | quantified => cases hint

namespace TypeEnv

variable {env : TypeEnv} {name : String} {type : Ty} {entry : TypeEntry}

/-- The names whose type is known. -/
def context (env : TypeEnv) : TypeContext := fun name =>
  match env.find? name with
  | some (.known type) => some type
  | _ => none

theorem context_eq_some : env.context name = some type ↔ env.find? name = some (.known type) := by
  rw [context]
  split
  · simp_all
  · next hunknown => simpa using hunknown type

theorem context_insert (env : TypeEnv) (name : String) (type : Ty) :
    (env.insert name (.known type)).context = Function.update env.context name (some type) := by
  funext other
  by_cases hother : name = other
  · simp [context, find?_insert, hother]
  · simp [context, find?_insert, hother, Ne.symm hother]

/-- A name that is not there yet is put at the end. -/
theorem insert_of_not_mem (hname : name ∉ env.map Prod.fst) :
    env.insert name entry = env ++ [(name, entry)] := by
  induction env with
  | nil => rfl
  | cons _ _ ih =>
    simp only [List.map_cons, List.mem_cons, not_or] at hname
    rw [insert, if_neg (Ne.symm hname.1), ih hname.2, List.cons_append]

theorem erase_insert_of_not_mem (hname : name ∉ env.map Prod.fst) :
    (env.insert name entry).erase name = env := by
  have hkeep : ∀ found ∈ env, decide (found.1 ≠ name) = true := by
    rintro _ hfound
    refine decide_eq_true ?_
    rintro rfl
    exact hname (List.mem_map_of_mem hfound)
  rw [insert_of_not_mem hname, erase, List.filter_append, List.filter_eq_self.mpr hkeep]
  simp

end TypeEnv

namespace Term

section Completeness

variable {env : TypeEnv} {term left right : Term} {type : Ty} {operator : Operator}

theorem gives_variableType_known {name : String} (hcontext : env.context name = some type) :
    Gives (variableType name) (some env) (.known type) (some env) := by
  rw [gives_variableType_iff, TypeEnv.declared?, TypeEnv.context_eq_some.mp hcontext]
  exact ⟨rfl, rfl⟩

/-- An operator expects of a well-typed operand the type that it has. -/
theorem HasType.gives_expectedType (htyped : term.HasType env.context type) :
    Gives (term.expectedType (.known type)) (some env) (.known type) (some env) := by
  cases htyped with
  | var hcontext => simp [expectedType, TypeEnv.context_eq_some.mp hcontext]
  | _ => simp [expectedType]

/-- An operand of the type that its operator works on passes. -/
theorem HasType.gives_checkOperand {touched : Bool} (htyped : term.HasType env.context type)
    (hresolve : Gives term.resolveType (some env) (.known type, touched) (some env)) :
    Gives (checkOperand term.resolveType term (.known type)) (some env) (.known type, touched)
      (some env) := by
  have hcheck : Gives (term.checkType none (.known type) (.known type)) (some env)
      (.known type, false) (some env) := by
    simp [Term.gives_checkType]
  simp only [checkOperand, gives_bind, gives_pure]
  exact ⟨_, _, hresolve, _, _, htyped.gives_expectedType, _, _, hcheck, by simp, rfl⟩

theorem gives_resolveType_unary {touched : Bool} (hoperator : unaryType? operator = some type)
    (hresolve : Gives term.resolveType (some env) (.known type, touched) (some env)) :
    Gives (Term.unary operator term).resolveType (some env) (.known type, touched)
      (some env) := by
  simp only [resolveType, hoperator, gives_bind, gives_pure]
  refine ⟨_, _, hresolve, (.known type, false), some env, ?_, by simp, rfl⟩
  simp [Term.gives_checkType]

/-- An operator applied to operands of the type that it works on. -/
theorem gives_resolveType_binary {leftTouched rightTouched : Bool} {result : Ty}
    (hfamily : operandType operator.family = .known type)
    (hresult : (if operator.family = .comparison then .bool else type) = result)
    (hleft : left.HasType env.context type) (hright : right.HasType env.context type)
    (hresolveLeft : Gives left.resolveType (some env) (.known type, leftTouched) (some env))
    (hresolveRight : Gives right.resolveType (some env) (.known type, rightTouched) (some env)) :
    Gives (Term.binary left operator right).resolveType (some env)
      (.known result, leftTouched || rightTouched) (some env) := by
  simp only [resolveType, hfamily, gives_bind, gives_pure]
  refine ⟨_, _, hleft.gives_checkOperand hresolveLeft, _, _,
    hright.gives_checkOperand hresolveRight, ?_, rfl⟩
  rw [← hresult, apply_ite TypeEntry.known]

/-- A quantifier over a name that is not declared: the name is declared for the length of
the claim, and then forgotten. -/
theorem gives_resolveType_quantified {quantifier : Quantifier} {name : String} {body : Term}
    {closed touched : Bool} (hname : name ∉ env.map Prod.fst)
    (hbody : Gives body.resolveType (some (env.insert name (.known type))) (.known .bool, touched)
      (some (env.insert name (.known type)))) :
    Gives (Term.quantified quantifier (.var name) (some type) .missing body closed).resolveType
      (some env) (.known .bool, true) (some env) := by
  have hcheck : ∀ between, Gives (body.checkType none (.known .bool) (.known .bool)) between
      (.known .bool, false) between := by
    intro between
    simp [Term.gives_checkType]
  have hentry : Gives (Typing.entry name) (some (env.insert name (.known type))) (.known type)
      (some (env.insert name (.known type))) := by
    simp [Typing.entry, TypeEnv.find?_insert]
  have hrest : Gives (do Typing.erase name; return ((.known .bool, true) : TypeEntry × Bool))
      (some (env.insert name (.known type))) (.known .bool, true) (some env) := by
    simp [TypeEnv.erase_insert_of_not_mem hname]
  simp only [resolveType, name?, Typing.ofOption, pure_bind, TypeEntry.ofBinder]
  refine gives_bind.mpr ⟨(), _, gives_insert.mpr rfl, gives_bind.mpr ⟨_, _, hbody, ?_⟩⟩
  refine gives_bind.mpr ⟨_, _, hcheck _, gives_bind.mpr ⟨_, _, hentry, ?_⟩⟩
  simpa using hrest

end Completeness

end Term

/-- Type resolution is complete: a claim that has a type by the rules resolves to that
type, and the environment is as it was.  It tells that it touched the environment if there
is a quantifier. -/
theorem resolveType_complete {env : TypeEnv} {claim : Term} {type : Ty}
    (htyped : claim.HasType env.context type) (hdistinct : claim.boundNames.Nodup)
    (hfresh : ∀ name ∈ claim.boundNames, name ∉ env.map Prod.fst) :
    Gives claim.resolveType (some env) (.known type, !claim.boundNames.isEmpty) (some env) := by
  generalize hcontext : env.context = context at htyped
  induction htyped generalizing env with
  | int | bool => exact gives_pure.mpr ⟨rfl, rfl⟩
  | var hname =>
    subst hcontext
    simp only [Term.resolveType, gives_bind, gives_pure]
    exact ⟨_, _, Term.gives_variableType_known hname, by simp, rfl⟩
  | element hname hindex _ =>
    subst hcontext
    simp [Term.resolveType, Term.name?, Typing.ofOption, Typing.entry,
      TypeEnv.context_eq_some.mp hname, TypeEntry.element?, Ty.element?,
      hindex.boundNames_eq_nil]
  | number hoperator _ ih =>
    refine Term.gives_resolveType_unary ?_ (ih hdistinct hfresh hcontext)
    fin_cases hoperator <;> rfl
  | negation _ ih => exact Term.gives_resolveType_unary rfl (ih hdistinct hfresh hcontext)
  | @arithmetic _ left right operator hoperator hleft hright ihleft ihright
  | @comparison _ left right operator hoperator hleft hright ihleft ihright
  | @connective _ left right operator hoperator hleft hright ihleft ihright =>
    subst hcontext
    simp only [Term.boundNames, List.mem_append] at hdistinct hfresh
    have hresolveLeft := ihleft hdistinct.of_append_left (fun name hname =>
      hfresh name (.inl hname)) rfl
    have hresolveRight := ihright hdistinct.of_append_right (fun name hname =>
      hfresh name (.inr hname)) rfl
    have htouched : (!(left.boundNames ++ right.boundNames).isEmpty) =
        (!left.boundNames.isEmpty || !right.boundNames.isEmpty) := by
      cases left.boundNames <;> simp
    rw [Term.boundNames, htouched]
    refine Term.gives_resolveType_binary ?_ ?_ hleft hright hresolveLeft hresolveRight
    · fin_cases hoperator <;> rfl
    · fin_cases hoperator <;> rfl
  | @quantified _ quantifier name type body closed _ ih =>
    subst hcontext
    simp only [Term.boundNames, Term.name?, Option.toList_some, List.singleton_append,
      List.nodup_cons, List.mem_cons, forall_eq_or_imp] at hdistinct hfresh
    have hfreshBody : ∀ other ∈ body.boundNames,
        other ∉ (env.insert name (.known type)).map Prod.fst := by
      intro other hother hmem
      rw [TypeEnv.insert_of_not_mem hfresh.1, List.map_append, List.mem_append] at hmem
      rcases hmem with hmem | hmem
      · exact hfresh.2 other hother hmem
      · obtain rfl : other = name := by simpa using hmem
        exact hdistinct.1 hother
    exact Term.gives_resolveType_quantified hfresh.1
      (ih hdistinct.2 hfreshBody (TypeEnv.context_insert env name type))

/-- Over an array `A` and a number `n`, every element with an index below `n` is at most
the remainder of `n`, or the number is negative. -/
theorem resolveType_complete_bounded :
    let env : TypeEnv := [("A", .known (.listOf .int)), ("n", .known .int)]
    let bounded : Term := .quantified .universal (.var "i") (some .int) .missing
      (.binary (.binary (.var "i") .lt (.var "n")) .implies
        (.binary (.subscript 0 (.var "A") (.binary (.var "i") .add (.int 1))) .le
          (.binary (.var "n") .mod (.unary .abs (.var "i"))))) false
    let claim : Term := .binary (.unary .not bounded) .implies (.binary (.var "n") .lt (.int 0))
    claim.HasType env.context .bool ∧ claim.boundNames = ["i"] ∧
      Gives claim.resolveType (some env) (.known .bool, true) (some env) := by
  intro env bounded claim
  have hindex : Function.update env.context "i" (some .int) "i" = some .int := rfl
  have hcount : Function.update env.context "i" (some .int) "n" = some .int := by decide
  have harray : Function.update env.context "i" (some .int) "A" = some (.listOf .int) := by
    decide
  have hbounded : bounded.HasType env.context .bool :=
    .quantified (.connective (by decide) (.comparison (by decide) (.var hindex) (.var hcount))
      (.comparison (by decide)
        (.element harray (.arithmetic (by decide) (.var hindex) .int))
        (.arithmetic (by decide) (.var hcount) (.number (by decide) (.var hindex)))))
  have htyped : claim.HasType env.context .bool :=
    .connective (by decide) (.negation hbounded)
      (.comparison (by decide) (.var (by decide)) .int)
  exact ⟨htyped, rfl, resolveType_complete htyped (by decide) (by decide)⟩

end HoareCheck
