import HoareCheck.Proofs.EncodingPreservation
import HoareCheck.Proofs.LogExtension

/-!
# Formulas over logs with more sites

The formulas of the cut program declare variables of havocs only, whose names are
not plain.  So the formulas of a program are the same whether or not those of its
cut form were built before, over a log with more sites.
-/

namespace HoareCheck

variable {name : String} {written? : Site → String → Option (Encoding Operand)} {term : Term}
  {bound : Nat} {context : EncodingContext} {condition : Condition}

/-- Two tables have the same sorts for plain names. -/
def EncodingState.AgreesPlainly (state other : EncodingState) : Prop :=
  ∀ name, IsPlain name → other.names.find? name = state.names.find? name

namespace EncodingState.AgreesPlainly

variable {first second third : EncodingState}

theorem refl (state : EncodingState) : state.AgreesPlainly state :=
  fun _ _ => rfl

theorem trans (hfirst : first.AgreesPlainly second) (hsecond : second.AgreesPlainly third) :
    first.AgreesPlainly third :=
  fun name hname => (hsecond name hname).trans (hfirst name hname)

end EncodingState.AgreesPlainly

/-! ## Formulas of the cut program -/

/-- An encoding keeps the sorts of plain names. -/
def Encoding.Spares {α : Type} (context : EncodingContext) (encoding : Encoding α) : Prop :=
  ∀ before value after, Gives (encoding.run context) before value after →
    before.AgreesPlainly after

namespace Encoding

section Spares

variable {α β : Type} {context : EncodingContext}

@[grind ←]
theorem spares_pure (value : α) : Spares context (pure value : Encoding α) := by
  intro before result after hgives
  obtain ⟨-, rfl⟩ := gives_pure.mp hgives
  exact .refl before

@[grind ←]
theorem spares_throw (fault : Fault) : Spares context (throw fault : Encoding α) :=
  fun _ _ _ hgives => absurd hgives not_gives_throw

@[grind ←]
theorem spares_bind {first : Encoding α} {next : α → Encoding β}
    (hfirst : Spares context first) (hnext : ∀ value, Spares context (next value)) :
    Spares context (first >>= next) := by
  intro before result after hgives
  obtain ⟨value, _, hvalue, hresult⟩ := gives_bind.mp hgives
  exact (hfirst _ _ _ hvalue).trans (hnext value _ _ _ hresult)

@[grind ←]
theorem spares_get : Spares context (get : Encoding EncodingState) := by
  intro before result after hgives
  obtain ⟨-, rfl⟩ := gives_get.mp hgives
  exact .refl before

@[grind ←]
theorem spares_read : Spares context (read : Encoding EncodingContext) := by
  intro before result after hgives
  obtain ⟨-, rfl⟩ := gives_pure.mp hgives
  exact .refl before

theorem spares_modify {change : EncodingState → EncodingState}
    (hchange : ∀ state : EncodingState, state.AgreesPlainly (change state)) :
    Spares context (modify change : Encoding PUnit) := by
  intro before result after hgives
  obtain rfl := gives_modify.mp hgives
  exact hchange before

@[grind ←]
theorem spares_lines : Spares context
    (modify fun state => { state with lines := state.lines + 1 } : Encoding PUnit) :=
  spares_modify fun _ _ _ => rfl

@[grind ←]
theorem spares_ofExcept (outcome : Except Fault α) : Spares context (ofExcept outcome) := by
  cases outcome with
  | ok value => exact spares_pure value
  | error fault => exact spares_throw fault

@[grind ←]
theorem spares_ofOption (fault : Fault) (value : Option α) :
    Spares context (ofOption fault value) := by
  cases value with
  | none => exact spares_throw fault
  | some value => exact spares_pure value

@[grind ←]
theorem spares_constant (name : String) : Spares context (constant name) := by
  grind [constant]

@[grind ←]
theorem spares_array (term : Term) : Spares context (array term) := by
  grind [array]

@[grind ←]
theorem spares_lengthOf (operand : Operand) : Spares context (lengthOf operand) := by
  grind [lengthOf]

@[grind ←]
theorem spares_binary (operator : Operator) (left right : Operand) :
    Spares context (binary operator left right) := by
  cases operator <;> grind [binary]

@[grind ←]
theorem spares_unary (operator : Operator) (operand : Operand) :
    Spares context (unary operator operand) := by
  cases operator <;> grind [unary]

@[grind ←]
theorem spares_binderSort (entry : TypeEntry) : Spares context (binderSort entry) := by
  unfold binderSort
  split
  · exact spares_pure _
  · exact spares_pure _
  · exact spares_pure _
  · exact spares_throw _

/-- To declare the variable of a havoc keeps the plain names. -/
theorem spares_declare (hname : ¬ IsPlain name) (sort : SolverSort) :
    Spares context (declare name sort) := by
  apply spares_modify
  intro state other hother
  have hne : other ≠ name := fun hsame => hname (hsame ▸ hother)
  rw [NameTable.find?_insert, Function.update_of_ne hne]

/-- A variable that is bound without a type has no sort. -/
theorem not_gives_binderSort {written : Term} {before after : EncodingState} {sort : SolverSort} :
    ¬ Gives ((binderSort (TypeEntry.ofBinder none written)).run context) before sort after := by
  cases written <;> exact not_gives_throw

end Spares

end Encoding

namespace Term

variable {context : EncodingContext}

@[grind ←]
theorem spares_literalDatum (literal : Literal) :
    Encoding.Spares context (literalDatum literal) := by
  cases literal <;> grind [literalDatum]

theorem spares_encodeWith (hwritten : ∀ site key written, written? site key = some written →
      Encoding.Spares context written) (hterm : term.InFrame (.above 0)) :
    Encoding.Spares context (term.encodeWith written?) := by
  induction term with
  | quantified _ _ _ _ body _ _ _ ihbody =>
    obtain ⟨⟨name, rfl, -, rfl | hname⟩, -, hbody⟩ := hterm
    · intro before value after hgives
      obtain ⟨_, _, hsort, -⟩ := gives_bind.mp hgives
      exact absurd hsort Encoding.not_gives_binderSort
    · apply Encoding.spares_bind (Encoding.spares_binderSort _)
      intro sort
      have hdeclared : Encoding.Spares context (do
          Encoding.declare name sort
          let body ← body.encodeWith written?
          Encoding.ofExcept (Operand.forAll name sort body)) :=
        Encoding.spares_bind (Encoding.spares_declare hname sort) fun _ =>
          Encoding.spares_bind (ihbody hbody) fun _ => Encoding.spares_ofExcept _
      exact hdeclared
  | subscript site array index _ ihindex =>
    apply Encoding.spares_bind Encoding.spares_read
    intro reading
    cases hfound : written? site (reading.log.print index) with
    | some =>
      exact Encoding.spares_bind Encoding.spares_lines fun _ => hwritten _ _ _ hfound
    | none =>
      apply Encoding.spares_bind (Encoding.spares_array array)
      intro operand
      exact Encoding.spares_bind (ihindex hterm.2.2) fun _ => Encoding.spares_ofExcept _
  | _ => grind [encodeWith]

theorem spares_encodeWritten {log : WriteLog} (hlog : log.InFrame (.above 0)) (steps : Nat)
    (site : Site) (key : String) {written : Encoding Operand}
    (hwritten : encodeWritten log steps site key = some written) :
    Encoding.Spares context written := by
  induction steps generalizing site key written with
  | zero =>
    cases hwritten
    exact Encoding.spares_throw _
  | succ _ ih =>
    obtain ⟨_, hfind, rfl⟩ := Option.map_eq_some_iff.mp hwritten
    obtain ⟨entry, hentry, rfl⟩ := Option.map_eq_some_iff.mp hfind
    have hterm := hlog site (Nat.zero_le site) entry (List.mem_of_find?_eq_some hentry)
    exact spares_encodeWith (fun site key written => ih site key) hterm

theorem spares_encode (hlog : context.log.InFrame (.above 0)) (hterm : term.InFrame (.above 0)) :
    Encoding.Spares context term.encode := by
  intro before value after hgives
  rw [run_encode] at hgives
  exact spares_encodeWith (fun site key _ => spares_encodeWritten hlog _ site key) hterm _ _ _
    hgives

end Term

/-! ## Formulas of the program -/

/-- A context whose log has more sites. -/
structure EncodingContext.Extends (bound : Nat) (context other : EncodingContext) : Prop where
  log : WriteLog.Extends bound context.log other.log
  inFrame : context.log.InFrame (.below bound)
  lengths : other.lengths = context.lengths

/-- An encoding is followed by one in another context: it gives the same, and the
tables go on to agree on plain names. -/
def Encoding.Follows {α : Type} (context other : EncodingContext) (first second : Encoding α) :
    Prop :=
  ∀ before start value after, before.AgreesPlainly start →
    Gives (first.run context) before value after →
    ∃ final, Gives (second.run other) start value final ∧ after.AgreesPlainly final

namespace Encoding

section Follows

variable {α β : Type} {context other : EncodingContext}

@[grind ←]
theorem follows_pure (value : α) :
    Follows context other (pure value : Encoding α) (pure value) := by
  intro before start result after hagrees hgives
  obtain ⟨rfl, rfl⟩ := gives_pure.mp hgives
  exact ⟨start, gives_pure.mpr ⟨rfl, rfl⟩, hagrees⟩

@[grind ←]
theorem follows_throw (fault : Fault) (second : Encoding α) :
    Follows context other (throw fault) second :=
  fun _ _ _ _ _ hgives => absurd hgives not_gives_throw

@[grind ←]
theorem follows_bind {first second : Encoding α} {next continued : α → Encoding β}
    (hfirst : Follows context other first second)
    (hnext : ∀ value, Follows context other (next value) (continued value)) :
    Follows context other (first >>= next) (second >>= continued) := by
  intro before start result after hagrees hgives
  obtain ⟨value, _, hvalue, hresult⟩ := gives_bind.mp hgives
  obtain ⟨reached, hreached, hagrees⟩ := hfirst _ _ _ _ hagrees hvalue
  obtain ⟨final, hfinal, hlast⟩ := hnext value _ _ _ _ hagrees hresult
  exact ⟨final, gives_bind.mpr ⟨value, reached, hreached, hfinal⟩, hlast⟩

theorem follows_never {first : Encoding α} {next : α → Encoding β}
    (hnever : ∀ value before result after,
      ¬ Gives ((next value).run context) before result after) (second : Encoding β) :
    Follows context other (first >>= next) second := by
  intro before start result after _ hgives
  obtain ⟨value, between, -, hresult⟩ := gives_bind.mp hgives
  exact absurd hresult (hnever value between result after)

theorem follows_throw_bind (fault : Fault) (next : α → Encoding β) (second : Encoding β) :
    Follows context other (throw fault >>= next) second := by
  intro before start value after _ hgives
  rw [ReaderT.run_bind, gives_bind] at hgives
  obtain ⟨_, _, hthrow, -⟩ := hgives
  exact absurd hthrow not_gives_throw

/-- The two contexts may be looked at. -/
theorem follows_read_bind {next continued : EncodingContext → Encoding β}
    (hnext : Follows context other (next context) (continued other)) :
    Follows context other (read >>= next) (read >>= continued) := by
  intro before start result after hagrees hgives
  rw [ReaderT.run_bind, gives_bind] at hgives
  obtain ⟨_, _, hread, hresult⟩ := hgives
  obtain ⟨rfl, rfl⟩ := gives_pure.mp hread
  obtain ⟨final, hfinal, hlast⟩ := hnext _ _ _ _ hagrees hresult
  exact ⟨final, gives_bind.mpr ⟨other, start, gives_pure.mpr ⟨rfl, rfl⟩, hfinal⟩, hlast⟩

/-- The two tables may be looked at. -/
theorem follows_get_bind {next continued : EncodingState → Encoding β}
    (hnext : ∀ state start, EncodingState.AgreesPlainly state start →
      Follows context other (next state) (continued start)) :
    Follows context other (get >>= next) (get >>= continued) := by
  intro before start result after hagrees hgives
  rw [ReaderT.run_bind, gives_bind] at hgives
  obtain ⟨_, _, hget, hresult⟩ := hgives
  obtain ⟨rfl, rfl⟩ := gives_get.mp hget
  obtain ⟨final, hfinal, hlast⟩ := hnext before start hagrees _ _ _ _ hagrees hresult
  exact ⟨final, gives_bind.mpr ⟨start, start, gives_get.mpr ⟨rfl, rfl⟩, hfinal⟩, hlast⟩

theorem follows_lines :
    Follows context other
      (modify fun state => { state with lines := state.lines + 1 } : Encoding PUnit)
      (modify fun state => { state with lines := state.lines + 1 }) := by
  intro before start result after hagrees hgives
  obtain rfl := gives_modify.mp hgives
  exact ⟨_, gives_modify.mpr rfl, hagrees⟩

@[grind ←]
theorem follows_ofExcept (outcome : Except Fault α) :
    Follows context other (ofExcept outcome) (ofExcept outcome) := by
  cases outcome with
  | ok value => exact follows_pure value
  | error fault => exact follows_throw fault _

@[grind ←]
theorem follows_ofOption (fault : Fault) (value : Option α) :
    Follows context other (ofOption fault value) (ofOption fault value) := by
  cases value with
  | none => exact follows_throw fault _
  | some value => exact follows_pure value

/-- What stands before the mark of a copy in a plain name is plain. -/
theorem isPlain_takeWhile (hname : IsPlain name) :
    IsPlain (String.ofList (name.toList.takeWhile (· ≠ '#'))) := by
  rw [IsPlain, String.toList_ofList]
  exact fun hmem => hname (List.takeWhile_subset _ hmem)

theorem follows_constant (hname : IsPlain name) :
    Follows context other (constant name) (constant name) := by
  apply follows_get_bind
  intro state start hagrees
  dsimp only
  rw [hagrees name hname, hagrees _ (isPlain_takeWhile hname)]
  cases state.names.find? name with
  | some => exact follows_pure _
  | none =>
    dsimp only
    cases state.names.find? (String.ofList (name.toList.takeWhile (· ≠ '#'))) with
    | some => exact follows_pure _
    | none => exact follows_throw _ _

theorem follows_array (hterm : term.InFrame (.below bound)) :
    Follows context other (array term) (array term) := by
  cases term with
  | var name =>
    have hname : IsPlain name := hterm
    have hlooked : Follows context other
        (do
          let sort ← ofOption .noSuchEntry ((← get).names.find? name)
          return .symbolic (.const name sort) : Encoding Operand)
        (do
          let sort ← ofOption .noSuchEntry ((← get).names.find? name)
          return .symbolic (.const name sort)) := by
      apply follows_get_bind
      intro state start hagrees
      rw [hagrees name hname]
      exact follows_bind (follows_ofOption _ _) fun _ => follows_pure _
    exact hlooked
  | _ => exact follows_throw_bind _ _ _

theorem follows_lengthOf (hlengths : other.lengths = context.lengths) (operand : Operand) :
    Follows context other (lengthOf operand) (lengthOf operand) := by
  apply follows_bind (follows_ofOption _ _)
  intro key
  apply follows_read_bind
  rw [hlengths]
  apply follows_bind (follows_ofOption _ _)
  intro length
  cases length with
  | int => exact follows_pure _
  | bool => exact follows_pure _
  | _ => exact follows_throw _ _

theorem follows_binary (hlengths : other.lengths = context.lengths) (operator : Operator)
    (left right : Operand) :
    Follows context other (binary operator left right) (binary operator left right) := by
  cases operator with
  | adjacent =>
    exact follows_bind (follows_lengthOf hlengths left) fun _ => follows_ofExcept _
  | abs | not => exact follows_throw _ _
  | _ => exact follows_ofExcept _

theorem follows_unary (operator : Operator) (operand : Operand) :
    Follows context other (unary operator operand) (unary operator operand) := by
  cases operator with
  | minus | not | abs => exact follows_ofExcept _
  | _ => exact follows_throw _ _

/-- What is recorded under a key is followed by what is recorded there with more
sites, or is not given at all. -/
def FollowsAt (context other : EncodingContext) (first second : Option (Encoding Operand)) :
    Prop :=
  (first = none → second = none) ∧
    ∀ written, first = some written →
      (∃ further, second = some further ∧ Follows context other written further) ∨
        ∀ before value after, ¬ Gives (written.run context) before value after

end Follows

end Encoding

namespace Term

variable {bound : Nat} {context other : EncodingContext}

theorem follows_literalDatum (literal : Literal) :
    Encoding.Follows context other (literalDatum literal) (literalDatum literal) := by
  cases literal with
  | bare => exact Encoding.follows_throw _ _
  | _ => exact Encoding.follows_pure _

section

variable (hextends : context.Extends bound other)

include hextends

theorem follows_encodeWith {further? : Site → String → Option (Encoding Operand)}
    (hwritten : ∀ site < bound, ∀ key,
      Encoding.FollowsAt context other (written? site key) (further? site key))
    (hterm : term.InFrame (.below bound)) :
    Encoding.Follows context other (term.encodeWith written?) (term.encodeWith further?) := by
  induction term with
  | literal value =>
    exact Encoding.follows_bind (follows_literalDatum value) fun _ => Encoding.follows_pure _
  | var => exact Encoding.follows_constant hterm
  | binary _ operator _ ihleft ihright =>
    apply Encoding.follows_bind (ihleft hterm.1)
    intro first
    apply Encoding.follows_bind (ihright hterm.2)
    intro second
    exact Encoding.follows_binary hextends.lengths operator first second
  | unary operator _ ih =>
    apply Encoding.follows_bind (ih hterm)
    intro inner
    exact Encoding.follows_unary operator inner
  | quantified _ _ type =>
    -- Nothing bound in a program has a type, so there is no formula to follow.
    obtain ⟨⟨_, rfl, -, rfl, -⟩, -, -⟩ := hterm
    intro before start value after _ hgives
    obtain ⟨_, _, hsort, -⟩ := gives_bind.mp hgives
    exact absurd hsort Encoding.not_gives_binderSort
  | subscript site _ index _ ihindex =>
    apply Encoding.follows_read_bind
    rw [print_eq_of_extends hextends.log hextends.inFrame hterm.2.2]
    obtain ⟨hnone, hsome⟩ := hwritten site hterm.1 (context.log.print index)
    cases hfound : written? site (context.log.print index) with
    | none =>
      rw [hnone hfound]
      apply Encoding.follows_bind (Encoding.follows_array hterm.2.1)
      intro operand
      exact Encoding.follows_bind (ihindex hterm.2.2) fun _ => Encoding.follows_ofExcept _
    | some written =>
      rcases hsome written hfound with ⟨further, hfurther, hfollows⟩ | hnever
      · rw [hfurther]
        exact Encoding.follows_bind Encoding.follows_lines fun _ => hfollows
      · exact Encoding.follows_never (fun _ => hnever) _
  | _ => exact Encoding.follows_throw _ _

/-- More steps go as deep. -/
theorem followsAt_encodeWritten {steps more : Nat} (hsteps : steps ≤ more) {site : Site}
    (hsite : site < bound) (key : String) :
    Encoding.FollowsAt context other (encodeWritten context.log steps site key)
      (encodeWritten other.log more site key) := by
  induction steps generalizing more site key with
  | zero =>
    refine ⟨fun hnone => absurd hnone (Option.some_ne_none _), ?_⟩
    intro written hwritten
    cases hwritten
    exact .inr fun _ _ _ => not_gives_throw
  | succ _ ih =>
    cases more with
    | zero => omega
    | succ =>
      rw [encodeWritten, encodeWritten, hextends.log.writesAt_eq site hsite]
      cases hfind : (context.log.writesAt site).find? key with
      | none =>
        refine ⟨fun _ => rfl, ?_⟩
        intro written hwritten
        cases hwritten
      | some =>
        refine ⟨fun hnone => absurd hnone (Option.some_ne_none _), ?_⟩
        intro written hwritten
        cases hwritten
        obtain ⟨entry, hentry, rfl⟩ := Option.map_eq_some_iff.mp hfind
        have hterm := hextends.inFrame site hsite entry (List.mem_of_find?_eq_some hentry)
        refine .inl ⟨_, rfl, follows_encodeWith hextends ?_ hterm⟩
        intro inner hinner key
        exact ih (Nat.le_of_succ_le_succ hsteps) hinner key

theorem follows_encode (hterm : term.InFrame (.below bound)) :
    Encoding.Follows context other term.encode term.encode := by
  have hsize : context.log.sites.size + 1 ≤ other.log.sites.size + 1 := by
    rw [hextends.log.size_eq]
    exact Nat.succ_le_succ hextends.log.size_le
  apply Encoding.follows_read_bind
  apply follows_encodeWith hextends _ hterm
  intro site hsite key
  exact followsAt_encodeWritten hextends hsize hsite key

end

end Term

/-! ## Rows of formulas -/

theorem Condition.spares_query (hlog : context.log.InFrame (.above 0))
    (hclaim : condition.claim.InFrame (.above 0)) : Encoding.Spares context condition.query := by
  have hnegated : (Term.unary .not condition.claim).InFrame (.above 0) := hclaim
  apply Encoding.spares_bind (Term.spares_encode hlog hnegated)
  intro operand
  cases operand with
  | plain => exact Encoding.spares_throw _
  | symbolic => exact Encoding.spares_pure _

theorem Condition.follows_query {other : EncodingContext} (hextends : context.Extends bound other)
    (hclaim : condition.claim.InFrame (.below bound)) :
    Encoding.Follows context other condition.query condition.query := by
  have hnegated : (Term.unary .not condition.claim).InFrame (.below bound) := hclaim
  apply Encoding.follows_bind (Term.follows_encode hextends hnegated)
  intro operand
  cases operand with
  | plain => exact Encoding.follows_throw _ _
  | symbolic => exact Encoding.follows_pure _

namespace Asks

variable {context other : EncodingContext} {state start : EncodingState}
  {conditions rest : List Condition} {formulas others : List Formula}

theorem unique (hfirst : Asks context state conditions formulas)
    (hsecond : Asks context state conditions others) : formulas = others := by
  induction hfirst generalizing others with
  | nil =>
    cases hsecond
    rfl
  | cons hgives _ ih =>
    cases hsecond with
    | cons hother hrest =>
      obtain ⟨rfl, rfl⟩ := hgives.unique hother
      rw [ih hrest]

/-- After conditions that bind variables of havocs only, the table still has the
sorts of plain names. -/
theorem exists_append (hlog : context.log.InFrame (.above 0))
    (hclaims : ∀ condition ∈ conditions, condition.claim.InFrame (.above 0))
    (hasks : Asks context state (conditions ++ rest) formulas) :
    ∃ asked further next, formulas = asked ++ further ∧ Asks context state conditions asked ∧
      state.AgreesPlainly next ∧ Asks context next rest further := by
  induction conditions generalizing state formulas with
  | nil => exact ⟨[], formulas, state, rfl, .nil, .refl state, hasks⟩
  | cons _ _ ih =>
    rw [List.forall_mem_cons] at hclaims
    cases hasks with
    | cons hgives hrest =>
      have hspares := Condition.spares_query hlog hclaims.1 _ _ _ hgives
      obtain ⟨asked, further, next, rfl, hasked, hagrees, hfurther⟩ := ih hclaims.2 hrest
      exact ⟨_ :: asked, further, next, rfl, .cons hgives hasked, hspares.trans hagrees, hfurther⟩

/-- The formulas of a program are the same over a log with more sites. -/
theorem follows (hextends : context.Extends bound other)
    (hclaims : ∀ condition ∈ conditions, condition.claim.InFrame (.below bound))
    (hagrees : state.AgreesPlainly start) (hasks : Asks context state conditions formulas) :
    Asks other start conditions formulas := by
  induction hasks generalizing start with
  | nil => exact .nil
  | cons hgives _ ih =>
    rw [List.forall_mem_cons] at hclaims
    obtain ⟨_, hfinal, hlast⟩ := Condition.follows_query hextends hclaims.1 _ _ _ _ hagrees hgives
    exact .cons hfinal (ih hclaims.2 hlast)

end Asks

end HoareCheck
