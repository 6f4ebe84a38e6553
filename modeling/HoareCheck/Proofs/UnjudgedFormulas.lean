import HoareCheck.Proofs.OperandFaults
import HoareCheck.Proofs.Unjudged
import HoareCheck.Verifier.Verify

/-!
# Formulas are built without a verdict

Neither arithmetic on plain values nor the encoding of a claim ends with a fault
of a verdict (`unjudged_query`).
-/

namespace HoareCheck

/-- An operation does not end with a fault of a verdict. -/
@[grind ←]
theorem Computed.spared {α : Type} {outcome : Except Fault α} (houtcome : Computed outcome) :
    Spared outcome := by
  intro fault hfault
  have hoperation := houtcome fault hfault
  rintro (rfl | rfl) <;> cases hoperation

namespace Encoding

@[grind ←]
theorem unjudged_ofExcept {α : Type} {outcome : Except Fault α} (houtcome : Spared outcome) :
    UnjudgedIn (Encoding.ofExcept outcome) := by
  cases outcome with
  | ok value => exact unjudgedIn_pure value
  | error fault => exact unjudgedIn_throw (houtcome fault rfl)

@[grind ←]
theorem unjudged_ofOption {α : Type} {fault : Fault} (hfault : ¬ fault.IsVerdict)
    (value : Option α) : UnjudgedIn (Encoding.ofOption fault value) := by
  cases value with
  | none => exact unjudgedIn_throw hfault
  | some value => exact unjudgedIn_pure value

@[grind ←]
theorem unjudged_constant (name : String) : UnjudgedIn (constant name) := by
  grind [constant]

@[grind ←]
theorem unjudged_array (term : Term) : UnjudgedIn (array term) := by
  grind [array]

@[grind ←]
theorem unjudged_lengthOf (operand : Operand) : UnjudgedIn (lengthOf operand) := by
  grind [lengthOf]

@[grind ←]
theorem unjudged_binary (operator : Operator) (left right : Operand) :
    UnjudgedIn (binary operator left right) := by
  cases operator <;> grind [binary]

@[grind ←]
theorem unjudged_unary (operator : Operator) (operand : Operand) :
    UnjudgedIn (unary operator operand) := by
  cases operator <;> grind [unary]

@[grind ←]
theorem unjudged_binderSort (entry : TypeEntry) : UnjudgedIn (binderSort entry) := by
  fun_cases binderSort <;> grind

@[grind ←]
theorem unjudged_declare (name : String) (sort : SolverSort) : UnjudgedIn (declare name sort) :=
  unjudgedIn_modify _

end Encoding

namespace Term

@[grind ←]
theorem unjudged_literalDatum (literal : Literal) : UnjudgedIn (literalDatum literal) := by
  cases literal with
  | bare => exact unjudgedIn_throw (by decide)
  | _ => exact unjudgedIn_pure _

theorem unjudged_encodeWith {written? : Site → String → Option (Encoding Operand)}
    (hwritten : ∀ site key written, written? site key = some written → UnjudgedIn written)
    (term : Term) : UnjudgedIn (term.encodeWith written?) := by
  fun_induction Term.encodeWith written? term <;> grind

theorem unjudged_encodeWritten (log : WriteLog) (steps : Nat) (site : Site) (key : String)
    {written : Encoding Operand} (hwritten : encodeWritten log steps site key = some written) :
    UnjudgedIn written := by
  induction steps generalizing site key written with
  | zero =>
    cases hwritten
    exact unjudgedIn_throw (by decide)
  | succ _ ih =>
    obtain ⟨term, -, rfl⟩ := Option.map_eq_some_iff.mp hwritten
    exact unjudged_encodeWith (fun site key written => ih site key) term

theorem unjudged_encode (term : Term) : UnjudgedIn term.encode := by
  apply unjudgedIn_bind unjudgedIn_read
  intro context
  apply unjudged_encodeWith
  intro site key written
  exact unjudged_encodeWritten _ _ site key

end Term

/-- No fault of a verdict keeps a condition from having a formula. -/
theorem unjudged_query (condition : Condition) : UnjudgedIn condition.query := by
  apply unjudgedIn_bind (Term.unjudged_encode _)
  intro operand
  cases operand with
  | plain => exact unjudgedIn_throw (by decide)
  | symbolic formula => exact unjudgedIn_pure formula

end HoareCheck
