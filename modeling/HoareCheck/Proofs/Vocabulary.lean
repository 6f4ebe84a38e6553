import HoareCheck.Claim.Copy
import HoareCheck.Claim.Substitution
import HoareCheck.Proofs.Gives

/-!
# Vocabularies

A vocabulary says which names and operators a term may be made of, and whether it
may quantify.  What stands under a quantifier or in a read of an array is not looked
at.  Copies and renamings keep to the vocabulary of a term.
-/

namespace HoareCheck

variable {term condition : Term}

/-- What terms may be made of. -/
structure Vocabulary where
  name : String → Prop
  operator : Operator → Prop
  quantifiers : Prop

/-- All names and operators. -/
def Vocabulary.any : Vocabulary where
  name _ := True
  operator _ := True
  quantifiers := True

/-- A term keeps to a vocabulary, and assigns to variables only. -/
@[grind =]
def Term.KeepsTo (vocabulary : Vocabulary) : Term → Prop
  | .missing | .literal _ | .skip | .havoc .. | .subscript .. => True
  | .slice .. => False
  | .var name => vocabulary.name name
  | .unary _ operand => operand.KeepsTo vocabulary
  | .binary left operator right =>
    vocabulary.operator operator ∧ left.KeepsTo vocabulary ∧ right.KeepsTo vocabulary
  | .quantified .. => vocabulary.quantifiers
  | .assign target value _ =>
    (∃ name, target = .var name ∧ vocabulary.name name) ∧ value.KeepsTo vocabulary
  | .ifElse condition thenBranch elseBranch =>
    condition.KeepsTo vocabulary ∧ thenBranch.KeepsTo vocabulary ∧
      elseBranch.KeepsTo vocabulary
  | .seq first second => first.KeepsTo vocabulary ∧ second.KeepsTo vocabulary
  | .assume claim | .assert claim => claim.KeepsTo vocabulary
  | .loop invariant condition body =>
    invariant.KeepsTo vocabulary ∧ condition.KeepsTo vocabulary ∧ body.KeepsTo vocabulary

theorem Term.KeepsTo.mono {vocabulary larger : Vocabulary} (hterm : term.KeepsTo vocabulary)
    (hname : ∀ name, vocabulary.name name → larger.name name)
    (hoperator : ∀ operator, vocabulary.operator operator → larger.operator operator)
    (hquantifiers : vocabulary.quantifiers → larger.quantifiers) : term.KeepsTo larger := by
  induction term with
  | assign _ _ _ _ ihvalue =>
    obtain ⟨⟨name, rfl, hwritten⟩, hvalue⟩ := hterm
    exact ⟨⟨name, rfl, hname name hwritten⟩, ihvalue hvalue⟩
  | _ => grind

/-! ## Computations -/

/-- What a computation may give, with the terms in it. -/
class Worded (α : Type) where
  KeepsTo : Vocabulary → α → Prop

/-- Values of which no term is looked at. -/
class Wordless (α : Type)

instance : Wordless WriteLog where

instance {α : Type} [Wordless α] : Worded α := ⟨fun _ _ => True⟩

instance : Worded Term := ⟨Term.KeepsTo⟩

instance {α β : Type} [Worded α] [Worded β] : Worded (α × β) :=
  ⟨fun vocabulary pair => Worded.KeepsTo vocabulary pair.1 ∧ Worded.KeepsTo vocabulary pair.2⟩

section Values

variable {α β : Type} [Worded α] [Worded β] {vocabulary : Vocabulary}

@[grind =]
theorem keepsTo_term (term : Term) : Worded.KeepsTo vocabulary term = term.KeepsTo vocabulary := rfl

@[grind =]
theorem keepsTo_pair (first : α) (second : β) : Worded.KeepsTo vocabulary (first, second) =
      (Worded.KeepsTo vocabulary first ∧ Worded.KeepsTo vocabulary second) := rfl

@[grind →]
theorem keepsTo_of_pair {pair : α × β} (hpair : Worded.KeepsTo vocabulary pair) :
    Worded.KeepsTo vocabulary pair.1 ∧ Worded.KeepsTo vocabulary pair.2 := hpair

end Values

/-- What the computation gives keeps to a vocabulary. -/
def Speaks {α : Type} [Worded α] (vocabulary : Vocabulary) (computation : Logged α) : Prop :=
  ∀ before value after, Gives computation before value after → Worded.KeepsTo vocabulary value

section Laws

variable {α β : Type} [Worded α] [Worded β] {vocabulary : Vocabulary}

@[grind ←]
theorem speaks_pure {value : α} (hvalue : Worded.KeepsTo vocabulary value) :
    Speaks vocabulary (pure value) := by
  intro before result after hgives
  exact (gives_pure.mp hgives).1 ▸ hvalue

@[grind ←]
theorem speaks_throw (fault : Fault) : Speaks vocabulary (throw fault : Logged α) :=
  fun _ _ _ hgives => absurd hgives not_gives_throw

@[grind ←]
theorem speaks_bind {first : Logged α} {next : α → Logged β} (hfirst : Speaks vocabulary first)
    (hnext : ∀ value, Worded.KeepsTo vocabulary value → Speaks vocabulary (next value)) :
    Speaks vocabulary (first >>= next) := by
  intro before result after hgives
  obtain ⟨value, _, hvalue, hresult⟩ := gives_bind.mp hgives
  exact hnext value (hfirst _ _ _ hvalue) _ _ _ hresult

theorem speaks_bind_any {γ : Type} {first : Logged γ} {next : γ → Logged β}
    (hnext : ∀ value, Speaks vocabulary (next value)) : Speaks vocabulary (first >>= next) := by
  intro before result after hgives
  obtain ⟨value, _, -, hresult⟩ := gives_bind.mp hgives
  exact hnext value _ _ _ hresult

@[grind ←]
theorem speaks_get : Speaks vocabulary (get : Logged WriteLog) :=
  fun _ _ _ _ => trivial

end Laws

/-! ## Terms -/

section Terms

variable {vocabulary : Vocabulary}

namespace Term

@[grind ←]
theorem keepsTo_orSkip (hterm : term.KeepsTo vocabulary) : term.orSkip.KeepsTo vocabulary := by
  cases term with
  | missing => trivial
  | _ => exact hterm

@[grind ←]
theorem keepsTo_andThen {first second : Term} (hfirst : first.KeepsTo vocabulary)
    (hsecond : second.KeepsTo vocabulary) : (first.andThen second).KeepsTo vocabulary :=
  ⟨keepsTo_orSkip hfirst, keepsTo_orSkip hsecond⟩

@[grind ←]
theorem keepsTo_branch {thenBranch elseBranch : Term} (hcondition : condition.KeepsTo vocabulary)
    (hthen : thenBranch.KeepsTo vocabulary) (helse : elseBranch.KeepsTo vocabulary) :
    (condition.branch thenBranch elseBranch).KeepsTo vocabulary :=
  ⟨hcondition, keepsTo_orSkip hthen, keepsTo_orSkip helse⟩

@[grind ←]
theorem keepsTo_repeatWhile {invariant body : Term} (hinvariant : invariant.KeepsTo vocabulary)
    (hcondition : condition.KeepsTo vocabulary) (hbody : body.KeepsTo vocabulary) :
    (invariant.repeatWhile condition body).KeepsTo vocabulary :=
  ⟨hinvariant, hcondition, keepsTo_orSkip hbody⟩

theorem keepsTo_place (hterm : term.KeepsTo vocabulary) (log : WriteLog) :
    (term.place log).1.KeepsTo vocabulary := by
  induction term generalizing log with
  | assign _ _ _ _ ihvalue =>
    obtain ⟨⟨name, rfl, hname⟩, hvalue⟩ := hterm
    exact ⟨⟨name, rfl, hname⟩, ihvalue hvalue log⟩
  | _ => grind [place]

end Term

@[grind ←]
theorem speaks_place (hterm : term.KeepsTo vocabulary) : Speaks vocabulary (Logged.place term) := by
  intro before placed after hgives
  obtain ⟨rfl, -⟩ := gives_place.mp hgives
  exact Term.keepsTo_place hterm before

@[grind ←]
theorem speaks_copy (hterm : term.KeepsTo vocabulary) : Speaks vocabulary term.copy := by
  induction term with
  | assign _ _ _ _ ihvalue =>
    obtain ⟨⟨name, rfl, hname⟩, hvalue⟩ := hterm
    have hcopied := ihvalue hvalue
    intro before copy after hgives
    simp only [Term.copy, gives_bind, gives_pure] at hgives
    obtain ⟨_, _, ⟨rfl, rfl⟩, _, _, hcopy, rfl, -⟩ := hgives
    exact ⟨⟨name, rfl, hname⟩, hcopied _ _ _ hcopy⟩
  | subscript _ array index =>
    intro before copy after hgives
    simp only [Term.copy, gives_bind] at hgives
    obtain ⟨array, _, -, index, _, -, hplaced⟩ := hgives
    have hread : (Term.subscript 0 array index).KeepsTo vocabulary := trivial
    exact speaks_place hread _ _ _ hplaced
  | quantified =>
    intro before copy after hgives
    simp only [Term.copy, gives_bind, gives_pure] at hgives
    obtain ⟨_, _, -, _, _, -, rfl, -⟩ := hgives
    exact hterm
  | _ => grind [Term.copy]

/-- To rename a variable keeps to the vocabulary, if the new name does. -/
@[grind ←]
theorem speaks_rename {old new : String} (hterm : term.KeepsTo vocabulary)
    (hnew : vocabulary.name new) : Speaks vocabulary (term.substitute (.var old) (.var new)) := by
  apply speaks_bind speaks_get
  intro log _
  generalize Term.substituteAt (.var old) (.var new) (log.sites.size + 1) = atRead
  have hrenamed {name : String} (hname : vocabulary.name name) :
      ∃ id, (if name = old then Term.var new else .var name) = .var id ∧ vocabulary.name id := by
    by_cases hsame : name = old
    · exact ⟨new, if_pos hsame, hnew⟩
    · exact ⟨name, if_neg hsame, hname⟩
  induction term with
  | var =>
    obtain ⟨_, hid, hname⟩ := hrenamed hterm
    apply speaks_pure
    rw [hid]
    exact hname
  | assign _ _ _ _ ihvalue =>
    obtain ⟨⟨_, rfl, hname⟩, hvalue⟩ := hterm
    have hreplaced := ihvalue hvalue
    intro before result after hgives
    simp only [Term.substituteWith, gives_bind, gives_pure] at hgives
    obtain ⟨_, _, ⟨rfl, rfl⟩, _, _, hgives, rfl, -⟩ := hgives
    exact ⟨hrenamed hname, hreplaced _ _ _ hgives⟩
  | subscript => exact speaks_bind_any fun _ => speaks_pure trivial
  | quantified => exact speaks_bind_any fun _ => speaks_pure hterm
  | _ => grind [Term.substituteWith]

@[grind ←]
theorem speaks_renameAll {renamings : List (String × String)}
    (hnew : ∀ pair ∈ renamings, vocabulary.name pair.2) (hterm : term.KeepsTo vocabulary) :
    Speaks vocabulary (term.renameAll renamings) := by
  induction renamings generalizing term with
  | nil => exact speaks_pure hterm
  | cons _ _ ih =>
    rw [List.forall_mem_cons] at hnew
    exact speaks_bind (speaks_rename hterm hnew.1) fun _ hrenamed => ih hnew.2 hrenamed

end Terms

end HoareCheck
