import HoareCheck.Proofs.ClaimParsing
import HoareCheck.Proofs.SubstitutionMeaning

/-!
# Quantifiers keep their scope

The parser renames the variable of a quantifier as soon as it has read the
body, by a substitution that does not stop at the quantifiers inside.  The
inner ones have been renamed by then: their bodies no longer speak of the names
they were written with, and no written name holds the mark that the renaming
adds.  So an inner quantifier that reuses an outer name is left alone, and no
renamed variable is caught.

`Spells` is the grammar of claims with the formula as it is written, quantifiers
and all; `Term.apart` is the formula with all its quantifiers renamed, from the
inside out.
-/

namespace HoareCheck

variable {body claim written : Term} {name other : String} {quantifier : Quantifier}
  {type : Option Ty}

/-- A quantifier over a renamed variable, an existential one written by a
universal one. -/
def Quantifier.renamed (quantifier : Quantifier) (name : String) (type : Option Ty)
    (written body : Term) : Term :=
  match quantifier with
  | .universal => .quantified .universal (.var (Term.boundName name)) type written body true
  | .existential =>
    .unary .not (.quantified .universal (.var (Term.boundName name)) type written
      (.unary .not body) true)

namespace Term

/-- A term with its variable `name` renamed as a quantifier renames it. -/
def renameBound (name : String) (term : Term) : Term :=
  term.instantiate (replacing name (.var (boundName name)))

/-- A formula with the variables of all its quantifiers renamed, the inner ones
first. -/
def apart : Term → Term
  | .unary operator operand => .unary operator operand.apart
  | .binary left operator right => .binary left.apart operator right.apart
  | .quantified quantifier (.var name) type written body _ =>
    quantifier.renamed name type written (body.apart.renameBound name)
  | term => term

/-- A quantifier over a whole expression can be closed. -/
theorem closeBinder_whole (quantifier : Quantifier) (name : String) (type : Option Ty)
    (written : Term) (hbody : body.isWhole = true) :
    ((Term.quantified quantifier (.var name) type written body
      false).closeBinder.run WriteLog.empty).1 =
        .ok (quantifier.renamed name type written (body.renameBound name)) := by
  have hsubstitute : Gives (body.substitute (.var name) (.var (boundName name))) .empty
      (body.renameBound name) .empty :=
    gives_substitute_whole hbody fun read _ => WriteLog.isBlank_empty read.1
  have hgives : Gives (Term.quantified quantifier (.var name) type written body
      false).closeBinder WriteLog.empty
      (quantifier.renamed name type written (body.renameBound name)) WriteLog.empty := by
    simp only [closeBinder, Bool.false_eq_true, if_false, name?, Logged.ofOption, pure_bind,
      gives_bind]
    refine ⟨_, _, hsubstitute, ?_⟩
    cases quantifier with
    | universal | existential => exact gives_pure.mpr ⟨rfl, rfl⟩
  exact congrArg Prod.fst hgives

theorem isWhole_of_isClaim (hclaim : claim.isClaim = true) : claim.isWhole = true := by
  induction claim with
  | var | literal => rfl
  | unary _ _ ih => exact ih hclaim
  | binary _ _ _ ihleft ihright =>
    simp only [isClaim, Bool.and_eq_true] at hclaim
    simp only [isWhole, Bool.and_eq_true]
    exact ⟨ihleft hclaim.1, ihright hclaim.2⟩
  | quantified _ _ _ _ _ _ _ _ ihbody =>
    obtain ⟨_, rfl, hbody⟩ := isClaim_quantified hclaim
    exact ihbody hbody
  | _ => simp at hclaim

theorem isClaim_renamed (quantifier : Quantifier) (name : String) (type : Option Ty)
    (written body : Term) :
    (quantifier.renamed name type written body).isClaim = body.isClaim := by
  cases quantifier <;> rfl

theorem isClaim_apart (hclaim : claim.isClaim = true) : claim.apart.isClaim = true := by
  induction claim with
  | var | literal => rfl
  | unary _ _ ih => exact ih hclaim
  | binary _ _ _ ihleft ihright =>
    simp only [isClaim, Bool.and_eq_true] at hclaim
    simp only [apart, isClaim, Bool.and_eq_true]
    exact ⟨ihleft hclaim.1, ihright hclaim.2⟩
  | quantified _ _ _ _ _ _ _ _ ihbody =>
    obtain ⟨_, rfl, hbody⟩ := isClaim_quantified hclaim
    rw [apart, isClaim_renamed]
    exact isClaim_replacing (ihbody hbody) rfl
  | _ => simp at hclaim

end Term

/-! ## Written formulas -/

/-- A category derives a row of tokens, which writes a formula without array
reads.  Its quantifiers are as they are written. -/
inductive Spells : Category → List Token → Term → Prop
  | logical {read : List Token} {claim : Term} (hclaim : Spells .logical read claim) :
      Spells .expression read claim
  | quantified {quantifier : Quantifier} {word binder separator : Token}
      {read : List Token} {body : Term}
      (hword : word.kind = quantifier.tokenKind) (hbinder : binder.kind = .var)
      (hseparator : separator.kind = .doubleColon) (hbody : Spells .expression read body) :
      Spells .expression (word :: binder :: separator :: read)
        (.quantified quantifier (.var binder.text) none .missing body false)
  | negation {word : Token} {read : List Token} {claim : Term} (hword : word.kind = .not)
      (hclaim : Spells (.tier .equality) read claim) :
      Spells .logical (word :: read) (.unary .not claim)
  | connection {read : List Token} {claim : Term}
      (hclaim : Spells (.tier .connection) read claim) : Spells .logical read claim
  | operand {tier : Tier} {read : List Token} {claim : Term}
      (hclaim : Spells tier.operand read claim) : Spells (.tier tier) read claim
  | operation {tier : Tier} {sign : Token} {operator : Operator}
      {first second : List Token} {left right : Term}
      (hleft : Spells (.tier tier) first left)
      (hsign : (sign.kind, operator) ∈ tier.operators)
      (hright : Spells tier.operand second right) :
      Spells (.tier tier) (first ++ sign :: second) (.binary left operator right)
  | unsigned {read : List Token} {claim : Term} (hclaim : Spells .primary read claim) :
      Spells .unary read claim
  | signed {sign : Token} {operator : Operator} {read : List Token} {claim : Term}
      (hsign : (sign.kind, operator) ∈ signOperators) (hclaim : Spells .primary read claim) :
      Spells .unary (sign :: read) (.unary operator claim)
  | truth {word : Token} (hword : word.kind = .bool) :
      Spells .primary [word] (.bool (word.text = "True"))
  | number {digits : Token} {value : Nat} (hdigits : digits.kind = .int)
      (hvalue : digits.Writes value) : Spells .primary [digits] (.int value)
  | name {name : Token} (hname : name.kind = .var) :
      Spells .primary [name] (.var name.text)
  | group {opening closing : Token} {read : List Token} {claim : Term}
      (hopening : opening.kind = .lparen) (hclaim : Spells .expression read claim)
      (hclosing : closing.kind = .rparen) :
      Spells .primary (opening :: (read ++ [closing])) claim

namespace Spells

variable {category : Category} {read : List Token} {claim : Term}

theorem isClaim (hspells : Spells category read claim) : claim.isClaim = true := by
  induction hspells with
  | truth | number | name => rfl
  | quantified _ _ _ _ ih => exact ih
  | logical _ ih | connection _ ih | operand _ ih | unsigned _ ih => exact ih
  | negation _ _ ih | signed _ _ ih => exact ih
  | group _ _ _ ih => exact ih
  | operation _ _ _ ihleft ihright => simp [ihleft, ihright]

/-- The grammar of claims writes the formula with its quantifiers renamed. -/
theorem derives (hspells : Spells category read claim) : Derives category read claim.apart := by
  induction hspells with
  | logical _ ih => exact .logical ih
  | quantified hword hbinder hseparator hbody ih =>
    exact .quantified hword (.name hbinder) hseparator ih
      (Term.closeBinder_whole _ _ _ _ (Term.isWhole_of_isClaim (Term.isClaim_apart hbody.isClaim)))
  | negation hword _ ih => exact .negation hword ih
  | connection _ ih => exact .connection ih
  | operand _ ih => exact .operand ih
  | operation _ hsign _ ihleft ihright => exact .operation ihleft hsign ihright
  | unsigned _ ih => exact .unsigned ih
  | signed hsign _ ih => exact .signed hsign ih
  | truth hword => exact .truth hword
  | number hdigits hvalue => exact .number hdigits hvalue
  | name hname => exact .name hname
  | group hopening _ hclosing ih => exact .group hopening ih hclosing

/-- Every name of the formula is the text of a token. -/
theorem exists_token (hspells : Spells category read claim)
    (hname : name ∈ claim.freeNames ∨ name ∈ claim.boundNames) :
    ∃ token ∈ read, token.text = name := by
  induction hspells with
  | logical _ ih | connection _ ih | operand _ ih | unsigned _ ih => exact ih hname
  | @quantified _ _ binder _ _ _ _ _ _ _ ih =>
    by_cases hbinder : name = binder.text
    · exact ⟨binder, by simp, hbinder.symm⟩
    · obtain ⟨token, htoken, htext⟩ := ih (by simpa [Term.name?, hbinder] using hname)
      exact ⟨token, by simp [htoken], htext⟩
  | negation _ _ ih | signed _ _ ih =>
    obtain ⟨token, htoken, htext⟩ := ih hname
    exact ⟨token, by simp [htoken], htext⟩
  | operation _ _ _ ihleft ihright =>
    simp only [Term.freeNames, Term.boundNames, List.mem_append] at hname
    rw [or_or_or_comm] at hname
    rcases hname with hleft | hright
    · obtain ⟨token, htoken, htext⟩ := ihleft hleft
      exact ⟨token, by simp [htoken], htext⟩
    · obtain ⟨token, htoken, htext⟩ := ihright hright
      exact ⟨token, by simp [htoken], htext⟩
  | truth | number => rcases hname with hname | hname <;> cases hname
  | @name token => exact ⟨token, by simp, by simpa [eq_comm] using hname⟩
  | group _ _ _ ih =>
    obtain ⟨token, htoken, htext⟩ := ih hname
    exact ⟨token, by simp [htoken], htext⟩

end Spells

/-! ## Renamed quantifiers -/

namespace Term

theorem boundName_injective : Function.Injective boundName := by
  intro left right heq
  simpa [boundName, String.ext_iff] using heq

theorem boundName_ne (hother : '$' ∉ other.toList) : boundName name ≠ other := by
  rintro rfl
  exact hother (dollar_mem_boundName name)

/-- Every quantifier binds a renamed variable, and what it ranges over does not
speak of the variable as it was before. -/
def IsApart : Term → Prop
  | .unary _ operand => operand.IsApart
  | .binary left _ right => left.IsApart ∧ right.IsApart
  | .quantified _ binder _ _ body _ =>
    (∃ name, binder = .var (boundName name) ∧ '$' ∉ name.toList ∧ name ∉ body.freeNames) ∧
      body.IsApart
  | _ => True

/-- A renamed variable is gone, and only its new name has come. -/
theorem mem_freeNames_renameBound (hclaim : claim.isClaim = true)
    (hother : other ∈ (claim.renameBound name).freeNames) :
    other = boundName name ∨ other ∈ claim.freeNames ∧ other ≠ name := by
  induction claim with
  | var source =>
    by_cases hsource : source = name
    · exact .inl (by simpa [renameBound, replacing, hsource] using hother)
    · obtain rfl : other = source := by simpa [renameBound, replacing, hsource] using hother
      exact .inr ⟨by simp, hsource⟩
  | literal => simp [renameBound] at hother
  | unary _ _ ih => exact ih hclaim hother
  | binary _ _ _ ihleft ihright =>
    simp only [isClaim, Bool.and_eq_true] at hclaim
    simp only [renameBound, instantiate, freeNames, List.mem_append] at hother
    rcases hother with hother | hother
    · exact (ihleft hclaim.1 hother).imp_right fun h => ⟨by simp [h.1], h.2⟩
    · exact (ihright hclaim.2 hother).imp_right fun h => ⟨by simp [h.1], h.2⟩
  | quantified _ _ _ _ _ _ _ _ ihbody =>
    obtain ⟨_, rfl, hbody⟩ := isClaim_quantified hclaim
    simp only [renameBound, instantiate, freeNames, List.mem_filter] at hother
    exact (ihbody hbody hother.1).imp_right fun h => ⟨List.mem_filter.mpr ⟨h.1, hother.2⟩, h.2⟩
  | _ => simp at hclaim

theorem IsApart.renameBound {claim : Term} {name : String} (hclaim : claim.isClaim = true)
    (hapart : claim.IsApart) : (claim.renameBound name).IsApart := by
  induction claim with
  | var source =>
    by_cases hsource : source = name <;> simp [Term.renameBound, replacing, hsource, IsApart]
  | literal => trivial
  | unary _ _ ih => exact ih hclaim hapart
  | binary _ _ _ ihleft ihright =>
    simp only [isClaim, Bool.and_eq_true] at hclaim
    exact ⟨ihleft hclaim.1 hapart.1, ihright hclaim.2 hapart.2⟩
  | quantified _ _ _ _ _ _ _ _ ihbody =>
    obtain ⟨_, rfl, hbody⟩ := isClaim_quantified hclaim
    obtain ⟨⟨source, hbinder, hsource, hfresh⟩, hinner⟩ := hapart
    refine ⟨⟨source, hbinder, hsource, fun hmem => ?_⟩, ihbody hbody hinner⟩
    rcases mem_freeNames_renameBound hbody hmem with heq | ⟨hmem, -⟩
    · exact boundName_ne hsource heq.symm
    · exact hfresh hmem
  | _ => simp at hclaim

/-- Where the quantifiers have been renamed, renaming a variable is to read its
value under the new name. -/
theorem eval_renameBound (hclaim : claim.isClaim = true) (hname : '$' ∉ name.toList)
    (hapart : claim.IsApart) (interp : Interpretation) (store : Store) :
    (claim.renameBound name).eval interp store =
      claim.eval interp (Function.update store name (store (boundName name))) := by
  induction claim generalizing store with
  | var source =>
    by_cases hsource : source = name <;> simp [renameBound, replacing, hsource]
  | literal => rfl
  | unary operator _ ih =>
    exact congrArg (interp.applyUnary operator) (ih hclaim hapart store)
  | binary _ operator _ ihleft ihright =>
    simp only [isClaim, Bool.and_eq_true] at hclaim
    exact congrArg₂ (interp.applyBinary operator) (ihleft hclaim.1 hapart.1 store)
      (ihright hclaim.2 hapart.2 store)
  | quantified quantifier _ _ _ body _ _ _ ihbody =>
    obtain ⟨_, rfl, hbody⟩ := isClaim_quantified hclaim
    obtain ⟨⟨source, hbinder, _, hfresh⟩, hinner⟩ := hapart
    obtain rfl := Term.var.inj hbinder
    rw [renameBound, instantiate, eval_quantified, eval_quantified]
    congr 2
    funext value
    rw [← renameBound, ihbody hbody hinner, Store.bind_var, Store.bind_var]
    congr 1
    by_cases hsame : source = name
    · -- A quantifier that reused the name no longer speaks of it.
      subst hsame
      refine eval_congr interp body fun other hother => ?_
      have hne : other ≠ source := fun heq => hfresh (heq ▸ hother)
      rw [Function.update_of_ne hne]
      by_cases hbound : other = boundName source <;> simp [hne, hbound]
    · have hkept : boundName name ≠ boundName source :=
        fun heq => hsame (boundName_injective heq).symm
      rw [Function.update_of_ne hkept, Function.update_comm (boundName_ne hname)]
  | _ => simp at hclaim

/-! ## The meaning of a formula -/

/-- Every name of a formula is as it is written. -/
def IsUnmarked (claim : Term) : Prop :=
  ∀ name, name ∈ claim.freeNames ∨ name ∈ claim.boundNames → '$' ∉ name.toList

theorem isUnmarked_binary {left right : Term} {operator : Operator}
    (hunmarked : (Term.binary left operator right).IsUnmarked) :
    left.IsUnmarked ∧ right.IsUnmarked := by
  simp only [IsUnmarked, freeNames, boundNames, List.mem_append] at hunmarked ⊢
  exact ⟨fun name hname => hunmarked name (hname.imp .inl .inl),
    fun name hname => hunmarked name (hname.imp .inr .inr)⟩

theorem isUnmarked_quantified {closed : Bool}
    (hunmarked : (Term.quantified quantifier (.var name) type written body closed).IsUnmarked) :
    '$' ∉ name.toList ∧ body.IsUnmarked := by
  have hname : '$' ∉ name.toList := hunmarked name (.inr (by simp [name?]))
  refine ⟨hname, fun other hother => ?_⟩
  by_cases hbound : other = name
  · exact hbound ▸ hname
  · exact hunmarked other (by simpa [name?, hbound] using hother)

theorem isApart_renamed (hname : '$' ∉ name.toList) (hfresh : name ∉ body.freeNames)
    (hbody : body.IsApart) : (quantifier.renamed name type written body).IsApart := by
  cases quantifier with
  | universal | existential => exact ⟨⟨name, rfl, hname, hfresh⟩, hbody⟩

theorem isApart_apart (hclaim : claim.isClaim = true) (hunmarked : claim.IsUnmarked) :
    claim.apart.IsApart := by
  induction claim with
  | var | literal => trivial
  | unary _ _ ih => exact ih hclaim hunmarked
  | binary _ _ _ ihleft ihright =>
    simp only [isClaim, Bool.and_eq_true] at hclaim
    obtain ⟨hleft, hright⟩ := isUnmarked_binary hunmarked
    exact ⟨ihleft hclaim.1 hleft, ihright hclaim.2 hright⟩
  | quantified _ _ _ _ _ _ _ _ ihbody =>
    obtain ⟨_, rfl, hbody⟩ := isClaim_quantified hclaim
    obtain ⟨hname, hinner⟩ := isUnmarked_quantified hunmarked
    have hclaim := isClaim_apart hbody
    refine isApart_renamed hname (fun hmem => ?_) ((ihbody hbody hinner).renameBound hclaim)
    rcases mem_freeNames_renameBound hclaim hmem with heq | ⟨-, hne⟩
    · exact boundName_ne hname heq.symm
    · exact hne rfl
  | _ => simp at hclaim

/-- A quantifier over the renamed variable is one over the same values. -/
theorem eval_renamed (quantifier : Quantifier) (name : String) (type : Option Ty)
    (written body : Term) (interp : Interpretation) (store : Store) :
    (quantifier.renamed name type written body).eval interp store =
      .bool (quantifier.over (interp.domain (TypeEntry.ofBinder type written)) fun value =>
        (body.eval interp (Function.update store (boundName name) value)).truth) := by
  cases quantifier with
  | universal => rfl
  | existential =>
    have hholds : Holds interp (Quantifier.existential.renamed name type written body) store ↔
        ∃ value ∈ interp.domain (TypeEntry.ofBinder type written),
          Holds interp body (Function.update store (boundName name) value) := by
      simp [Quantifier.renamed]
    refine congrArg Value.bool (Bool.eq_iff_iff.mpr (hholds.trans ?_))
    simp [Quantifier.over, Holds]

/-- Renaming the quantifiers of a written formula does not change its value. -/
theorem eval_apart (hclaim : claim.isClaim = true) (hunmarked : claim.IsUnmarked)
    (interp : Interpretation) (store : Store) :
    claim.apart.eval interp store = claim.eval interp store := by
  induction claim generalizing store with
  | var | literal => rfl
  | unary operator _ ih =>
    exact congrArg (interp.applyUnary operator) (ih hclaim hunmarked store)
  | binary _ operator _ ihleft ihright =>
    simp only [isClaim, Bool.and_eq_true] at hclaim
    obtain ⟨hleft, hright⟩ := isUnmarked_binary hunmarked
    exact congrArg₂ (interp.applyBinary operator) (ihleft hclaim.1 hleft store)
      (ihright hclaim.2 hright store)
  | quantified _ _ _ written body _ _ _ ihbody =>
    obtain ⟨name, rfl, hbody⟩ := isClaim_quantified hclaim
    obtain ⟨hname, hinner⟩ := isUnmarked_quantified hunmarked
    rw [apart, eval_renamed, eval_quantified]
    congr 2
    funext value
    congr 1
    let renamed := Function.update store (boundName name) value
    calc
      (body.apart.renameBound name).eval interp renamed =
          body.apart.eval interp (Function.update renamed name (renamed (boundName name))) :=
        eval_renameBound (isClaim_apart hbody) hname (isApart_apart hbody hinner) interp renamed
      _ = body.eval interp (Function.update renamed name value) := by
        rw [ihbody hbody hinner, show renamed (boundName name) = value from
          Function.update_self _ _ _]
      _ = body.eval interp (store.bind (.var name) value) := by
        -- The formula was written without the new name.
        refine eval_congr interp body fun other hother => ?_
        have hne : other ≠ boundName name := (boundName_ne (hinner other (.inl hother))).symm
        rw [Store.bind_var, Function.update_comm (boundName_ne hname), Function.update_of_ne hne]
  | _ => simp at hclaim

/-- Only marked names are bound where the quantifiers have been renamed. -/
theorem IsApart.dollar_mem (hclaim : claim.isClaim = true) (hapart : claim.IsApart)
    (hname : name ∈ claim.boundNames) : '$' ∈ name.toList := by
  induction claim with
  | var | literal => cases hname
  | unary _ _ ih => exact ih hclaim hapart hname
  | binary _ _ _ ihleft ihright =>
    simp only [isClaim, Bool.and_eq_true] at hclaim
    rcases List.mem_append.mp hname with hname | hname
    · exact ihleft hclaim.1 hapart.1 hname
    · exact ihright hclaim.2 hapart.2 hname
  | quantified _ _ _ _ _ _ _ _ ihbody =>
    obtain ⟨_, rfl, hbody⟩ := isClaim_quantified hclaim
    obtain ⟨⟨source, hbinder, -, -⟩, hinner⟩ := hapart
    obtain rfl := Term.var.inj hbinder
    rcases List.mem_cons.mp hname with rfl | hname
    · exact dollar_mem_boundName source
    · exact ihbody hbody hinner hname
  | _ => simp at hclaim

end Term

/-- A text that writes a formula is read to its end.  The term that is returned
is the formula with its quantifiers renamed; it has the value of the formula in
every store and over every range of the bound variables, and it binds no name
that stands in the text. -/
theorem quantifiers_keep_scope {text : String} {formula : Term}
    (hspells : Spells .expression (Token.scan text) formula) :
    Parser.expression.runFrom (Token.scan text).toArray 0 =
        (.ok formula.apart, (Token.scan text).length) ∧
      (∀ interp store, formula.apart.eval interp store = formula.eval interp store) ∧
      ∀ token ∈ Token.scan text, token.text ∉ formula.apart.boundNames := by
  have hclaim := hspells.isClaim
  have hunmarked : formula.IsUnmarked := by
    intro name hname
    obtain ⟨token, htoken, rfl⟩ := hspells.exists_token hname
    exact (Token.isWritten_of_mem_scanFrom none text.toList token htoken).2
  refine ⟨hspells.derives.runFrom_expression, Term.eval_apart hclaim hunmarked, ?_⟩
  intro token htoken hbound
  have hmarked := (Term.isApart_apart hclaim hunmarked).dollar_mem (Term.isClaim_apart hclaim) hbound
  exact (Token.isWritten_of_mem_scanFrom none text.toList token htoken).2 hmarked

/-- A primary is a row of every level. -/
theorem Spells.ofPrimary {read : List Token} (hspells : Spells .primary read claim) (tier : Tier) :
    Spells (.tier tier) read claim := by
  have hproduct : Spells (.tier .product) read claim := .operand (.unsigned hspells)
  have hsum : Spells (.tier .sum) read claim := .operand hproduct
  have hrelational : Spells (.tier .relational) read claim := .operand hsum
  have hequality : Spells (.tier .equality) read claim := .operand hrelational
  cases tier with
  | connection => exact .operand hequality
  | equality => exact hequality
  | relational => exact hrelational
  | sum => exact hsum
  | product => exact hproduct

/-- An inner quantifier uses the name of the outer one again. -/
theorem quantifiers_keep_scope_reused :
    let text := "forall x :: x == y and ( exists x :: x < y ) "
    let formula : Term := .quantified .universal (.var "x") none .missing
      (.binary (.binary (.var "x") .eq (.var "y")) .and
        (.quantified .existential (.var "x") none .missing
          (.binary (.var "x") .lt (.var "y")) false)) false
    let tree : Term := .quantified .universal (.var "x$$0") none .missing
      (.binary (.binary (.var "x$$0") .eq (.var "y")) .and
        (.unary .not (.quantified .universal (.var "x$$0") none .missing
          (.unary .not (.binary (.var "x$$0") .lt (.var "y"))) true))) true
    Spells .expression (Token.scan text) formula ∧
      Parser.expression.runFrom (Token.scan text).toArray 0 =
        (.ok tree, (Token.scan text).length) ∧
      (∀ interp store, tree.eval interp store = formula.eval interp store) ∧
      ∀ token ∈ Token.scan text, token.text ∉ tree.boundNames := by
  intro text formula tree
  have hname (name : String) (tier : Tier) : Spells (.tier tier) [⟨.var, name⟩] (.var name) :=
    .ofPrimary (.name rfl) tier
  have hless : Spells (.tier .relational) [⟨.var, "x"⟩, ⟨.lt, "<"⟩, ⟨.var, "y"⟩]
      (.binary (.var "x") .lt (.var "y")) :=
    .operation (hname "x" .relational) (by decide) (hname "y" .sum)
  have hinner : Spells .expression [⟨.existsKind, "exists"⟩, ⟨.var, "x"⟩, ⟨.doubleColon, "::"⟩,
      ⟨.var, "x"⟩, ⟨.lt, "<"⟩, ⟨.var, "y"⟩]
      (.quantified .existential (.var "x") none .missing (.binary (.var "x") .lt (.var "y"))
        false) :=
    .quantified rfl rfl rfl (.logical (.connection (.operand (.operand hless))))
  have hequal : Spells (.tier .equality) [⟨.var, "x"⟩, ⟨.eq, "=="⟩, ⟨.var, "y"⟩]
      (.binary (.var "x") .eq (.var "y")) :=
    .operation (hname "x" .equality) (by decide) (hname "y" .relational)
  have hbody : Spells (.tier .connection) (_ ++ ⟨.and, "and"⟩ :: (⟨.lparen, "("⟩ ::
      (_ ++ [⟨.rparen, ")"⟩]))) (.binary _ .and _) :=
    .operation (.operand hequal) (by decide) (.ofPrimary (.group rfl hinner rfl) .equality)
  have hwritten : Token.Written [⟨.forallKind, "forall"⟩, ⟨.var, "x"⟩, ⟨.doubleColon, "::"⟩,
      ⟨.var, "x"⟩, ⟨.eq, "=="⟩, ⟨.var, "y"⟩, ⟨.and, "and"⟩, ⟨.lparen, "("⟩,
      ⟨.existsKind, "exists"⟩, ⟨.var, "x"⟩, ⟨.doubleColon, "::"⟩, ⟨.var, "x"⟩, ⟨.lt, "<"⟩,
      ⟨.var, "y"⟩, ⟨.rparen, ")"⟩]
      "forall x :: x == y and ( exists x :: x < y ) ".toList := Token.written_spaced (by decide)
  have hspells : Spells .expression (Token.scan text) formula := by
    rw [show Token.scan text = _ from hwritten.scan_eq]
    exact .quantified rfl rfl rfl (.logical (.connection hbody))
  exact ⟨hspells, quantifiers_keep_scope hspells⟩

end HoareCheck
