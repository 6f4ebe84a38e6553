import HoareCheck.Claim.Parser
import HoareCheck.Proofs.PlainNames
import HoareCheck.Proofs.RewritingFaults
import HoareCheck.Proofs.TermFrames
import HoareCheck.Proofs.Unjudged
import HoareCheck.Proofs.Vocabulary

/-!
# Terms that claims write

The term of a claim is an expression whose reads are not placed, over plain names,
and no type is known of the variables that it binds.  Outside its quantifiers, its
names are written ones, and its operators are those of the tokens of the claim.
-/

namespace HoareCheck

open Term

variable {binder body closed term : Term} {name text : String} {after : WriteLog} {level : Level}
  {quantifier : Quantifier} {isClosed : Bool}

/-- What may stand in the term that a claim writes. -/
def Frame.claims : Frame where
  site site := site = 0
  name := IsPlain
  binder name type := type = none ∧ '$' ∈ name.toList
  reachesWritten := True
  statements := False
  havocs := False

/-- The operator that a token of a kind writes. -/
def TokenKind.operator? : TokenKind → Option Operator
  | .plus => some .add
  | .minus => some .minus
  | .mult => some .mult
  | .div => some .div
  | .mod => some .mod
  | .abs => some .abs
  | .and => some .and
  | .or => some .or
  | .not => some .not
  | .iff => some .iff
  | .implies => some .implies
  | .le => some .le
  | .lt => some .lt
  | .ge => some .ge
  | .gt => some .gt
  | .eq => some .eq
  | .neq => some .neq
  | .adjacent => some .adjacent
  | _ => none

/-- The words of claims that are written with tokens of some kinds. -/
def Vocabulary.written (kinds : TokenKind → Prop) : Vocabulary where
  name := IsWritten
  operator operator := ∃ kind, kinds kind ∧ kind.operator? = some operator
  quantifiers := kinds .forallKind ∨ kinds .existsKind

theorem isPlain_append {first second : String} (hfirst : IsPlain first)
    (hsecond : IsPlain second) : IsPlain (first ++ second) := by
  rw [IsPlain, String.toList_append, List.mem_append, not_or]
  exact ⟨hfirst, hsecond⟩

theorem isPlain_boundName (hname : IsPlain name) : IsPlain (boundName name) := by
  have hmark : '@' ∉ "$$0".toList := by decide
  exact isPlain_append hname hmark

theorem dollar_mem_boundName (name : String) : '$' ∈ (boundName name).toList := by
  simp [boundName]

section Unjudged

variable {α : Type} {fault : Fault}

@[grind ←]
theorem unjudged_ofOption (hfault : ¬ fault.IsVerdict) (value : Option α) :
    Unjudged (Logged.ofOption fault value) := by
  cases value with
  | none => exact unjudged_throw hfault
  | some value => exact unjudged_pure value

/-- Rewriting judges nothing. -/
theorem Rewrites.unjudged {σ : Type} {computation : ExceptT Fault (StateM σ) α}
    (hrewrites : Rewrites computation) : Unjudged computation := by
  intro before fault hfault
  have hfails : Fails computation before fault (outcomeOn computation before).2 :=
    Prod.ext hfault rfl
  rcases hrewrites _ _ _ hfails with rfl | rfl | ⟨_, rfl⟩ <;> simp [Fault.IsVerdict]

@[grind ←]
theorem unjudged_place (term : Term) : Unjudged (Logged.place term) :=
  (rewrites_place term).unjudged

@[grind ←]
theorem unjudged_substitute (term old new : Term) : Unjudged (term.substitute old new) :=
  (rewrites_substitute term old new).unjudged

@[grind ←]
theorem unjudged_closeBinder (term : Term) : Unjudged term.closeBinder := by
  cases term with
  | quantified =>
    grind [closeBinder]
  | _ => exact unjudged_throw (by decide)

end Unjudged

namespace Parser

/-- What a claim parser may give, with what it takes from tokens of some kinds. -/
class Claimed (α : Type) where
  IsClaimed : (TokenKind → Prop) → α → Prop

open Claimed (IsClaimed)

instance : Claimed Term :=
  ⟨fun kinds term => term.InFrame .claims ∧ term.KeepsTo (.written kinds)⟩

instance : Claimed String := ⟨fun _ => IsWritten⟩

instance : Claimed (Option Token) :=
  ⟨fun _ token => ∀ next, token = some next → IsWritten next.text⟩

instance : Claimed (Array Token) :=
  ⟨fun kinds tokens => ∀ token ∈ tokens, IsWritten token.text ∧ kinds token.kind⟩

instance : Claimed (Option Operator) :=
  ⟨fun kinds operator => ∀ target, operator = some target →
    (Vocabulary.written kinds).operator target⟩

instance : Claimed Bool := ⟨fun _ _ => True⟩

instance : Claimed PUnit := ⟨fun _ _ => True⟩

instance : Claimed Nat := ⟨fun _ _ => True⟩

instance : Claimed Int := ⟨fun _ _ => True⟩

/-- Over written tokens, the parser gives what a claim writes, or ends with a fault that is
no verdict. -/
def ReadsClaims {α : Type} [Claimed α] (kinds : TokenKind → Prop) (parser : Parser α) : Prop :=
  ∀ tokens : Array Token, IsClaimed kinds tokens → Unjudged (parser.run tokens) ∧
    ∀ before value after, Gives (parser.run tokens) before value after → IsClaimed kinds value

variable {kinds : TokenKind → Prop}

section Laws

variable {α β : Type} [Claimed α] [Claimed β]

theorem readsClaims_of_unjudgedIn {parser : Parser α} (hunjudged : UnjudgedIn parser)
    (hall : ∀ value : α, IsClaimed kinds value) : ReadsClaims kinds parser :=
  fun tokens _ => ⟨hunjudged tokens, fun _ value _ _ => hall value⟩

@[grind ←]
theorem readsClaims_pure {value : α} (hvalue : IsClaimed kinds value) :
    ReadsClaims kinds (pure value) := by
  intro tokens _
  refine ⟨unjudged_pure value, fun before result after hgives => ?_⟩
  exact (gives_pure.mp hgives).1 ▸ hvalue

@[grind ←]
theorem readsClaims_throw {fault : Fault} (hfault : ¬ fault.IsVerdict) :
    ReadsClaims kinds (throw fault : Parser α) :=
  fun _ _ => ⟨unjudged_throw hfault, fun _ _ _ hgives => absurd hgives not_gives_throw⟩

theorem readsClaims_bind_of_gives {first : Parser α} {next : α → Parser β}
    (hfirst : ReadsClaims kinds first)
    (hnext : ∀ tokens, IsClaimed kinds tokens → ∀ before value after,
      Gives (first.run tokens) before value after → ReadsClaims kinds (next value)) :
    ReadsClaims kinds (first >>= next) := by
  intro tokens htokens
  have hafter before value after (hgives : Gives (first.run tokens) before value after) :=
    hnext tokens htokens before value after hgives tokens htokens
  refine ⟨unjudged_bind_of_gives (hfirst tokens htokens).1 fun _ _ _ hgives =>
    (hafter _ _ _ hgives).1, fun before result after hgives => ?_⟩
  obtain ⟨value, _, hvalue, hresult⟩ := gives_bind.mp hgives
  exact (hafter _ _ _ hvalue).2 _ _ _ hresult

@[grind ←]
theorem readsClaims_bind {first : Parser α} {next : α → Parser β} (hfirst : ReadsClaims kinds first)
    (hnext : ∀ value, IsClaimed kinds value → ReadsClaims kinds (next value)) :
    ReadsClaims kinds (first >>= next) :=
  readsClaims_bind_of_gives hfirst fun tokens htokens _ value _ hgives =>
    hnext value ((hfirst tokens htokens).2 _ _ _ hgives)

@[grind ←]
theorem readsClaims_get : ReadsClaims kinds (get : Parser Nat) :=
  readsClaims_of_unjudgedIn unjudgedIn_get fun _ => trivial

@[grind ←]
theorem readsClaims_read : ReadsClaims kinds (read : Parser (Array Token)) := by
  intro tokens htokens
  refine ⟨unjudgedIn_read tokens, fun before result after hgives => ?_⟩
  exact (gives_pure.mp hgives).1 ▸ htokens

end Laws

section Values

@[grind =]
theorem isClaimed_term (term : Term) :
    IsClaimed kinds term = (term.InFrame .claims ∧ term.KeepsTo (.written kinds)) := rfl

@[grind =]
theorem isClaimed_text (text : String) : IsClaimed kinds text = IsWritten text := rfl

@[grind =]
theorem isClaimed_next (token : Option Token) :
    IsClaimed kinds token = ∀ next, token = some next → IsWritten next.text := rfl

@[grind =]
theorem name_claims (name : String) : Frame.claims.name name = IsPlain name := rfl

@[grind =]
theorem name_written (name : String) : (Vocabulary.written kinds).name name = IsWritten name := rfl

@[grind →]
theorem isPlain_of_isWritten (hname : IsWritten name) : IsPlain name := hname.1

end Values

@[grind ←]
theorem readsClaims_position : ReadsClaims kinds position :=
  readsClaims_of_unjudgedIn (by grind [position]) fun _ => trivial

@[grind ←]
theorem readsClaims_consume (kind : TokenKind) : ReadsClaims kinds (consume kind) :=
  readsClaims_of_unjudgedIn (by grind [consume]) fun _ => trivial

@[grind ←]
theorem readsClaims_advance : ReadsClaims kinds advance :=
  readsClaims_of_unjudgedIn (by grind [advance]) fun _ => trivial

@[grind ←]
theorem readsClaims_current : ReadsClaims kinds current := by
  apply readsClaims_bind readsClaims_get
  intro count _
  cases count with
  | zero => exact readsClaims_throw (by decide)
  | succ =>
    apply readsClaims_bind readsClaims_read
    intro tokens htokens
    apply readsClaims_pure
    intro token htoken
    exact (htokens token (Array.mem_of_getElem? htoken)).1

/-- A token that is read is of one of the kinds. -/
theorem kind_of_consume {tokens : Array Token} (htokens : IsClaimed kinds tokens)
    {kind : TokenKind} {before after : Nat}
    (hgives : Gives ((consume kind).run tokens) before true after) : kinds kind := by
  simp only [consume, ReaderT.run_bind, gives_bind] at hgives
  obtain ⟨count, _, _, _, _, hfound, hgives⟩ := hgives
  obtain ⟨rfl, rfl⟩ := gives_pure.mp hfound
  cases hnext : tokens[count]? with
  | none =>
    simp only [hnext] at hgives
    cases (gives_pure.mp hgives).1
  | some token =>
    simp only [hnext] at hgives
    by_cases hkind : token.kind = kind
    · exact hkind ▸ (htokens token (Array.mem_of_getElem? hnext)).2
    · simp only [hkind, if_false] at hgives
      cases (gives_pure.mp hgives).1

theorem readsClaims_consume_bind {α : Type} [Claimed α] {kind : TokenKind}
    {next : Bool → Parser α} (htrue : kinds kind → ReadsClaims kinds (next true))
    (hfalse : ReadsClaims kinds (next false)) : ReadsClaims kinds (consume kind >>= next) := by
  apply readsClaims_bind_of_gives (readsClaims_consume kind)
  intro tokens htokens before isNext after hgives
  cases isNext with
  | true => exact htrue (kind_of_consume htokens hgives)
  | false => exact hfalse

/-- The tokens of a level write its operators. -/
def Level.IsSpelled (level : Level) : Prop :=
  ∀ entry ∈ level, entry.1.operator? = some entry.2

instance (level : Level) : Decidable level.IsSpelled :=
  inferInstanceAs (Decidable (∀ entry ∈ level, entry.1.operator? = some entry.2))

theorem readsClaims_operator? (hlevel : level.IsSpelled) :
    ReadsClaims kinds (operator? level) := by
  induction level with
  | nil => exact readsClaims_pure nofun
  | cons entry _ ih =>
    obtain ⟨kind, _⟩ := entry
    obtain ⟨hspelled, hrest⟩ := List.forall_mem_cons.mp hlevel
    refine readsClaims_consume_bind (fun hkind => readsClaims_pure ?_) (ih hrest)
    rintro _ ⟨⟩
    exact ⟨kind, hkind, hspelled⟩

@[grind ←]
theorem readsClaims_currentText : ReadsClaims kinds currentText := by
  grind [currentText]

@[grind ←]
theorem readsClaims_integerLiteral (digits : String) : ReadsClaims kinds (integerLiteral digits) := by
  grind [integerLiteral, int]

section Over

variable {operand primary inner sum : Parser Term}

theorem readsClaims_chainFrom (hlevel : level.IsSpelled) (hoperand : ReadsClaims kinds operand)
    (steps : Nat) {left : Term} (hleft : IsClaimed kinds left) :
    ReadsClaims kinds (chainFrom level operand steps left) := by
  have hoperator : ReadsClaims kinds (operator? level) := readsClaims_operator? hlevel
  induction steps generalizing left with
  | zero => exact readsClaims_pure hleft
  | succ _ ih =>
    apply readsClaims_bind hoperator
    intro operator hspelled
    cases operator with
    | none => exact readsClaims_pure hleft
    | some operator =>
      apply readsClaims_bind hoperand
      intro right hright
      exact ih ⟨⟨hleft.1, hright.1⟩, hspelled operator rfl, hleft.2, hright.2⟩

theorem readsClaims_chain (hlevel : level.IsSpelled) (hoperand : ReadsClaims kinds operand) :
    ReadsClaims kinds (chain level operand) := by
  grind [chain, readsClaims_chainFrom]

section

variable (hprimary : ReadsClaims kinds primary)

include hprimary

@[grind ←]
theorem readsClaims_unaryOver : ReadsClaims kinds (unaryOver primary) := by
  have hoperator : ReadsClaims kinds (operator? unaryLevel) := readsClaims_operator? (by decide)
  grind [unaryOver]

@[grind ←]
theorem readsClaims_sumOver : ReadsClaims kinds (sumOver primary) :=
  readsClaims_chain (by decide) (readsClaims_chain (by decide) (readsClaims_unaryOver hprimary))

@[grind ←]
theorem readsClaims_equalityOver : ReadsClaims kinds (equalityOver primary) :=
  readsClaims_chain (by decide) (readsClaims_chain (by decide) (readsClaims_sumOver hprimary))

@[grind ←]
theorem readsClaims_logicalOver : ReadsClaims kinds (logicalOver primary) := by
  have hchain : ReadsClaims kinds (chain logicalLevel (equalityOver primary)) :=
    readsClaims_chain (by decide) (readsClaims_equalityOver hprimary)
  grind [logicalOver]

end

@[grind ←]
theorem readsClaims_parenthesized (hinner : ReadsClaims kinds inner) :
    ReadsClaims kinds (parenthesized inner) := by
  apply readsClaims_bind hinner
  intro term hterm
  apply readsClaims_bind readsClaims_advance
  grind

@[grind ←]
theorem readsClaims_indexOf {array : Term} (harray : IsClaimed kinds array)
    (hsum : ReadsClaims kinds sum) : ReadsClaims kinds (indexOf array sum) := by
  have hread {index : Term} (hindex : index.InFrame .claims) :
      ReadsClaims kinds (pure (Term.subscript 0 array index)) :=
    readsClaims_pure ⟨⟨rfl, harray.1, hindex⟩, trivial⟩
  apply readsClaims_bind (readsClaims_consume .colon)
  intro isOpen _
  cases isOpen with
  | true => grind
  | false =>
    apply readsClaims_bind hsum
    intro lower hlower
    apply readsClaims_bind (readsClaims_consume .colon)
    grind

@[grind ←]
theorem readsClaims_primaryOver (hinner : ReadsClaims kinds inner) (hsum : ReadsClaims kinds sum) :
    ReadsClaims kinds (primaryOver inner sum) := by
  apply readsClaims_bind (readsClaims_consume .lparen)
  intro isOpen _
  cases isOpen with
  | true => exact readsClaims_parenthesized hinner
  | false =>
    apply readsClaims_bind (readsClaims_consume .int)
    intro isInt _
    cases isInt with
    | true => grind
    | false => grind [Term.bool]

/-- Closing a quantifier keeps what a claim writes, and gives its variable a
plain name. -/
theorem inFrame_of_closeBinder {written : Term} (hbinder : binder.InFrame .claims)
    (hwritten : written.InFrame .claims) (hbody : body.InFrame .claims)
    (hgives : Gives (Term.quantified quantifier binder none written body isClosed).closeBinder
      .empty closed after) : closed.InFrame .claims := by
  cases isClosed with
  | true =>
    obtain ⟨rfl, -⟩ := gives_pure.mp hgives
    trivial
  | false =>
    simp only [closeBinder, Bool.false_eq_true, if_false, gives_bind] at hgives
    obtain ⟨_, _, hname, closedBody, _, hsubstitute, hclosed⟩ := hgives
    cases binder with
    | var id =>
      obtain ⟨rfl, rfl⟩ := gives_pure.mp hname
      have hbound : IsPlain (boundName id) := isPlain_boundName hbinder
      have hnew : (Term.var (boundName id)).InFrame .claims := hbound
      -- No site is new, so that the body stays unplaced.
      have hsteady := Substituting.steady.substitute _ _ _ _ _ _ hsubstitute
      have hbuilds := builds_substitute hbody hnew (.var id) _ _ _ hsubstitute
        (WriteLog.inFrame_empty _)
      have hbody := (hbuilds fun site hold hnew => by omega).1
      have hquantified (inner : Term) (hinner : inner.InFrame .claims) :
          (Term.quantified .universal (.var (boundName id)) none written inner
            true).InFrame .claims :=
        ⟨⟨_, rfl, hbound, rfl, dollar_mem_boundName id⟩, fun _ => hwritten, hinner⟩
      cases quantifier with
      | universal =>
        obtain ⟨rfl, -⟩ := gives_pure.mp hclosed
        exact hquantified closedBody hbody
      | existential =>
        obtain ⟨rfl, -⟩ := gives_pure.mp hclosed
        exact hquantified (.unary .not closedBody) hbody
    | _ => exact absurd hname not_gives_throw

/-- A closed quantifier is all that is left of a claim. -/
theorem keepsTo_of_closeBinder {written : Term}
    (hquantifiers : (Vocabulary.written kinds).quantifiers)
    (hgives : Gives (Term.quantified quantifier binder none written body isClosed).closeBinder
      .empty closed after) : closed.KeepsTo (.written kinds) := by
  cases isClosed with
  | true =>
    obtain ⟨rfl, -⟩ := gives_pure.mp hgives
    trivial
  | false =>
    simp only [closeBinder, Bool.false_eq_true, if_false, gives_bind] at hgives
    obtain ⟨_, _, -, _, _, -, hclosed⟩ := hgives
    cases quantifier with
    | universal =>
      obtain ⟨rfl, -⟩ := gives_pure.mp hclosed
      exact hquantifiers
    | existential =>
      obtain ⟨rfl, -⟩ := gives_pure.mp hclosed
      exact hquantifiers

@[grind ←]
theorem readsClaims_close {written : Term} (hquantifiers : (Vocabulary.written kinds).quantifiers)
    (hbinder : IsClaimed kinds binder) (hwritten : IsClaimed kinds written)
    (hbody : IsClaimed kinds body) :
    ReadsClaims kinds (close (.quantified quantifier binder none written body isClosed)) := by
  rw [close]
  cases houtcome : ((Term.quantified quantifier binder none written body
      isClosed).closeBinder.run WriteLog.empty) with
  | mk outcome =>
    cases outcome with
    | error fault =>
      exact readsClaims_throw (unjudged_closeBinder _ _ fault (congrArg Prod.fst houtcome))
    | ok =>
      exact readsClaims_pure
        ⟨inFrame_of_closeBinder hbinder.1 hwritten.1 hbody.1 houtcome,
          keepsTo_of_closeBinder hquantifiers houtcome⟩

theorem readsClaims_quantifiedBy (quantifier : Quantifier)
    (hquantifiers : (Vocabulary.written kinds).quantifiers)
    (hprimary : ReadsClaims kinds primary) (hinner : ReadsClaims kinds inner) :
    ReadsClaims kinds (quantifiedBy quantifier primary inner) := by
  apply readsClaims_bind hprimary
  intro binder hbinder
  apply readsClaims_bind (readsClaims_consume .colon)
  intro hasType _
  cases hasType with
  | true =>
    apply readsClaims_bind readsClaims_advance
    grind
  | false => grind

theorem readsClaims_expressionOver (hprimary : ReadsClaims kinds primary)
    (hinner : ReadsClaims kinds inner) : ReadsClaims kinds (expressionOver primary inner) := by
  have hquantified (quantifier : Quantifier) (hkinds : (Vocabulary.written kinds).quantifiers) :=
    readsClaims_quantifiedBy quantifier hkinds hprimary hinner
  exact readsClaims_consume_bind (fun hforall => hquantified _ (.inl hforall))
    (readsClaims_consume_bind (fun hexists => hquantified _ (.inr hexists))
      (readsClaims_logicalOver hprimary))

end Over

theorem readsClaims_grammarAt (depth : Nat) : ReadsClaims kinds (grammarAt depth).primary ∧
      ReadsClaims kinds (grammarAt depth).expression := by
  induction depth with
  | zero => exact ⟨readsClaims_throw (by decide), readsClaims_throw (by decide)⟩
  | succ _ ih =>
    have hprimary := readsClaims_primaryOver ih.2 (readsClaims_sumOver ih.1)
    exact ⟨hprimary, readsClaims_expressionOver hprimary ih.2⟩

theorem readsClaims_expression : ReadsClaims kinds expression := by
  apply readsClaims_bind readsClaims_read
  intro tokens _
  exact (readsClaims_grammarAt _).2

end Parser

theorem isClaimed_scan {kinds : TokenKind → Prop}
    (hkinds : ∀ token ∈ Token.scan text, kinds token.kind) :
    Parser.Claimed.IsClaimed kinds (Token.scan text).toArray := by
  intro token htoken
  have hmem := List.mem_toArray.mp htoken
  exact ⟨Token.isWritten_of_mem_scanFrom none text.toList token hmem, hkinds token hmem⟩

theorem Term.isClaimed_of_ofClaim {kinds : TokenKind → Prop}
    (hkinds : ∀ token ∈ Token.scan text, kinds token.kind) (hclaim : ofClaim text = .ok term) :
    term.InFrame .claims ∧ term.KeepsTo (.written kinds) := by
  rw [ofClaim] at hclaim
  cases houtcome : Parser.expression.runFrom (Token.scan text).toArray 0 with
  | mk =>
    rw [houtcome] at hclaim
    dsimp only at hclaim
    subst hclaim
    exact (Parser.readsClaims_expression _ (isClaimed_scan hkinds)).2 _ _ _ houtcome

theorem Term.inFrame_of_ofClaim (hclaim : ofClaim text = .ok term) : term.InFrame .claims :=
  (@isClaimed_of_ofClaim _ _ (fun _ => True) (fun _ _ => trivial) hclaim).1

@[grind ←]
theorem grows_parse (text : String) : Grows (Logged.parse text) := by
  rw [Logged.parse]
  cases Term.ofClaim text with
  | ok term => exact grows_place term
  | error fault => exact grows_throw fault

theorem builds_parse {frame : Frame} (hallows : Frame.claims.Allows frame) (text : String) :
    Builds frame (Logged.parse text) := by
  rw [Logged.parse]
  cases hclaim : Term.ofClaim text with
  | ok =>
    exact builds_place hallows (fun site hne hzero => absurd hzero hne) (inFrame_of_ofClaim hclaim)
  | error fault => exact builds_throw fault

end HoareCheck
