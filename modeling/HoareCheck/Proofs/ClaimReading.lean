import HoareCheck.Proofs.ClaimParsing

/-!
# What the parser leaves unread

The parser stops without a word where it cannot go on: it leaves the tokens
that follow, and puts a missing operand where none starts.  Where it does
neither, and no single colon stands in the claim, the tokens that it read are a
row of the grammar.  So a claim without a colon is read in full exactly if it is
written in the grammar.
-/

open HoareCheck.Parser

namespace HoareCheck

variable {after count : Nat} {quantifier : Quantifier}

/-! ## Completeness under binders -/

namespace Term

/-- Putting a complete term for another neither fills in what is missing nor
takes anything away. -/
theorem isComplete_substituteWith {atRead : Site → Term → Logged Unit} {old new : Term}
    (hnew : new.isComplete = true) {term result : Term} {before after : WriteLog}
    (hgives : Gives (substituteWith atRead old new term) before result after) :
    result.isComplete = term.isComplete := by
  induction term generalizing before result after with
  | missing => simp [substituteWith] at hgives
  | var name =>
    cases old with
    | var oldName =>
      obtain ⟨rfl, -⟩ := gives_pure.mp hgives
      by_cases hname : name = oldName <;> simp [hname, hnew, isComplete]
    | _ =>
      obtain ⟨rfl, -⟩ := gives_pure.mp hgives
      rfl
  | literal | slice =>
    obtain ⟨rfl, -⟩ := gives_pure.mp hgives
    rfl
  | subscript =>
    simp only [substituteWith, gives_bind, gives_pure] at hgives
    obtain ⟨-, -, -, rfl, -⟩ := hgives
    rfl
  | unary _ _ ih =>
    simp only [substituteWith, gives_bind, gives_pure] at hgives
    obtain ⟨_, _, hoperand, rfl, -⟩ := hgives
    simp only [isComplete, ih hoperand]
  | binary _ _ _ ihleft ihright =>
    simp only [substituteWith, gives_bind, gives_pure] at hgives
    obtain ⟨_, _, hleft, _, _, hright, rfl, -⟩ := hgives
    simp only [isComplete, ihleft hleft, ihright hright]
  | quantified _ _ _ _ _ _ _ _ ihbody =>
    simp only [substituteWith, gives_bind, gives_pure] at hgives
    obtain ⟨_, _, hbody, rfl, -⟩ := hgives
    simp only [isComplete, ihbody hbody]
  | _ =>
    -- A statement does not become an expression.
    simp only [substituteWith, gives_bind, gives_pure] at hgives
    grind [isComplete, branch, andThen, repeatWhile]

/-- A quantifier that can be closed binds a variable, and is then as complete as
its body. -/
theorem of_closeBinder {binder body closed : Term}
    (hclosed : ((Term.quantified quantifier binder none .missing body
      false).closeBinder.run WriteLog.empty).1 = .ok closed) :
    ∃ name, binder = .var name ∧ closed.isComplete = body.isComplete := by
  obtain ⟨after, hgives⟩ : ∃ after, Gives (Term.quantified quantifier binder none .missing body
      false).closeBinder WriteLog.empty closed after := ⟨_, Prod.ext hclosed rfl⟩
  cases binder with
  | var name =>
    refine ⟨name, rfl, ?_⟩
    simp only [closeBinder, name?, Logged.ofOption, pure_bind, gives_bind, substitute,
      Bool.false_eq_true, if_false] at hgives
    obtain ⟨_, _, ⟨_, _, -, hbody⟩, hresult⟩ := hgives
    rw [← isComplete_substituteWith rfl hbody]
    cases quantifier with
    | universal | existential =>
      obtain ⟨rfl, -⟩ := gives_pure.mp hresult
      simp [isComplete]
  | _ => simp [closeBinder, name?, Logged.ofOption] at hgives

end Term

theorem Derives.isComplete {category : Category} {read : List Token} {claim : Term}
    (hderives : Derives category read claim) : claim.isComplete = true := by
  induction hderives with
  | quantified _ _ _ _ hclosed _ ihbody =>
    obtain ⟨_, -, hcomplete⟩ := Term.of_closeBinder hclosed
    rw [hcomplete, ihbody]
  | truth | number | name => rfl
  | logical _ ih | connection _ ih | operand _ ih | unsigned _ ih => exact ih
  | negation _ _ ih | signed _ _ ih => exact ih
  | group _ _ _ ih => exact ih
  | element _ _ _ _ ih => simp [Term.isComplete, ih]
  | operation _ _ _ ihleft ihright => simp [Term.isComplete, ihleft, ihright]

/-! ## Rows that were read -/

/-- The tokens that a parser reads are a row of the category whenever what it
returns is complete. -/
def Parser.Reads (tokens : Array Token) (category : Category) (parser : Parser Term) : Prop :=
  ∀ count claim after, Gives (parser.run tokens) count claim after → claim.isComplete = true →
    ∃ read, ahead tokens count = read ++ ahead tokens after ∧ Derives category read claim

section

variable {tokens : Array Token} {primary expression : Parser Term}

theorem ahead_of_operatorAhead {level : Level} {operator : Operator}
    (hoperator : operatorAhead level tokens count = some operator) :
    ∃ sign, (sign.kind, operator) ∈ level ∧
      ahead tokens count = sign :: ahead tokens (count + 1) := by
  obtain ⟨_, hkind, hlookup⟩ := Option.bind_eq_some_iff.mp hoperator
  obtain ⟨sign, rfl, -, hahead⟩ := ahead_of_kindAhead hkind
  refine ⟨sign, ?_, hahead⟩
  obtain ⟨_, _, rfl, -⟩ := List.lookup_eq_some_iff.mp hlookup
  simp

theorem Parser.Reads.chainFrom {tier : Tier} {operand : Parser Term}
    (hoperand : Reads tokens tier.operand operand) {steps : Nat} {left claim : Term}
    (hgives : Gives ((chainFrom tier.operators operand steps left).run tokens) count claim after)
    (hclaim : claim.isComplete = true) :
    left.isComplete = true ∧ ∀ first, Derives (.tier tier) first left →
      ∃ read, ahead tokens count = read ++ ahead tokens after ∧
        Derives (.tier tier) (first ++ read) claim := by
  induction steps generalizing count left with
  | zero =>
    obtain ⟨rfl, rfl⟩ := gives_chainFrom_zero.mp hgives
    exact ⟨hclaim, fun first hfirst => ⟨[], rfl, by simpa using hfirst⟩⟩
  | succ _ ih =>
    rw [gives_chainFrom_succ] at hgives
    cases hoperator : operatorAhead tier.operators tokens count with
    | none =>
      rw [hoperator] at hgives
      obtain ⟨rfl, rfl⟩ := hgives
      exact ⟨hclaim, fun first hfirst => ⟨[], rfl, by simpa using hfirst⟩⟩
    | some =>
      rw [hoperator] at hgives
      obtain ⟨_, _, hright, hrest⟩ := hgives
      obtain ⟨hbinary, hextend⟩ := ih hrest
      rw [Term.isComplete, Bool.and_eq_true] at hbinary
      obtain ⟨sign, hsign, hahead⟩ := ahead_of_operatorAhead hoperator
      obtain ⟨second, hsecond, hderives⟩ := hoperand _ _ _ hright hbinary.2
      refine ⟨hbinary.1, fun first hfirst => ?_⟩
      obtain ⟨read, hread, hwhole⟩ :=
        hextend (first ++ sign :: second) (.operation hfirst hsign hderives)
      refine ⟨sign :: (second ++ read), ?_, by simpa using hwhole⟩
      rw [hahead, hsecond, hread, List.cons_append, List.append_assoc]

theorem Parser.Reads.chain {tier : Tier} {operand : Parser Term}
    (hoperand : Reads tokens tier.operand operand) :
    Reads tokens (.tier tier) (chain tier.operators operand) := by
  intro count claim after hgives hclaim
  obtain ⟨_, _, hleft, hrest⟩ := gives_chain.mp hgives
  obtain ⟨hcomplete, hextend⟩ := hoperand.chainFrom hrest hclaim
  obtain ⟨first, hfirst, hderives⟩ := hoperand _ _ _ hleft hcomplete
  obtain ⟨read, hread, hwhole⟩ := hextend first (.operand hderives)
  exact ⟨first ++ read, by rw [hfirst, hread, List.append_assoc], hwhole⟩

theorem Parser.Reads.unaryOver (hprimary : Reads tokens .primary primary) :
    Reads tokens .unary (unaryOver primary) := by
  intro count claim after hgives hclaim
  rw [gives_unaryOver] at hgives
  cases hoperator : operatorAhead unaryLevel tokens count with
  | none =>
    rw [hoperator] at hgives
    obtain ⟨read, hread, hderives⟩ := hprimary _ _ _ hgives hclaim
    exact ⟨read, hread, .unsigned hderives⟩
  | some =>
    rw [hoperator] at hgives
    obtain ⟨_, hinner, rfl⟩ := hgives
    obtain ⟨sign, hsign, hahead⟩ := ahead_of_operatorAhead hoperator
    obtain ⟨read, hread, hderives⟩ := hprimary _ _ _ hinner hclaim
    exact ⟨sign :: read, by rw [hahead, hread, List.cons_append], .signed hsign hderives⟩

theorem Parser.Reads.sumOver (hprimary : Reads tokens .primary primary) :
    Reads tokens (.tier .sum) (sumOver primary) := by
  have hproduct : Reads tokens (.tier .product) (productOver primary) := hprimary.unaryOver.chain
  exact hproduct.chain

theorem Parser.Reads.equalityOver (hprimary : Reads tokens .primary primary) :
    Reads tokens (.tier .equality) (equalityOver primary) := by
  have hrelational : Reads tokens (.tier .relational) (relationalOver primary) :=
    hprimary.sumOver.chain
  exact hrelational.chain

theorem Parser.Reads.logicalOver (hprimary : Reads tokens .primary primary) :
    Reads tokens .logical (logicalOver primary) := by
  intro count claim after hgives hclaim
  rw [gives_logicalOver] at hgives
  split at hgives
  · next hnot =>
      obtain ⟨_, hinner, rfl⟩ := hgives
      obtain ⟨word, hword, -, hahead⟩ := ahead_of_kindAhead hnot
      obtain ⟨read, hread, hderives⟩ := hprimary.equalityOver _ _ _ hinner hclaim
      exact ⟨word :: read, by rw [hahead, hread, List.cons_append], .negation hword hderives⟩
  · have hconnection : Reads tokens (.tier .connection)
        (Parser.chain Tier.connection.operators (Parser.equalityOver primary)) :=
      hprimary.equalityOver.chain
    obtain ⟨read, hread, hderives⟩ := hconnection _ _ _ hgives hclaim
    exact ⟨read, hread, .connection hderives⟩

variable (hcolon : ∀ count, kindAhead tokens count ≠ some .colon)

include hcolon

theorem Parser.Reads.quantifiedBy {claim : Term} {word : Token}
    (hprimary : Reads tokens .primary primary) (hexpression : Reads tokens .expression expression)
    (hword : word.kind = quantifier.tokenKind)
    (hahead : ahead tokens count = word :: ahead tokens (count + 1))
    (hgives : Gives ((quantifiedBy quantifier primary expression).run tokens) (count + 1)
      claim after) (hclaim : claim.isComplete = true) :
    ∃ read, ahead tokens count = read ++ ahead tokens after ∧ Derives .expression read claim := by
  rw [gives_quantifiedBy fun _ _ _ => hcolon _] at hgives
  obtain ⟨_, _, _, hbinder, hseparator, hbody, hclosed⟩ := hgives
  obtain ⟨_, rfl, hcomplete⟩ := Term.of_closeBinder hclosed
  obtain ⟨first, hfirst, hname⟩ := hprimary _ _ _ hbinder rfl
  obtain ⟨separator, hkind, -, hmiddle⟩ := ahead_of_kindAhead hseparator
  obtain ⟨second, hsecond, hderives⟩ := hexpression _ _ _ hbody (hcomplete ▸ hclaim)
  refine ⟨word :: (first ++ separator :: second), ?_,
    .quantified hword hname hkind hderives hclosed⟩
  rw [hahead, hfirst, hmiddle, hsecond]
  simp

theorem Parser.Reads.expressionOver (hprimary : Reads tokens .primary primary)
    (hexpression : Reads tokens .expression expression) :
    Reads tokens .expression (expressionOver primary expression) := by
  intro count claim after hgives hclaim
  rw [gives_expressionOver] at hgives
  split at hgives
  · next hword =>
      obtain ⟨_, hkind, -, hahead⟩ := ahead_of_kindAhead hword
      exact quantifiedBy hcolon hprimary hexpression hkind hahead hgives hclaim
  · split at hgives
    · next hword =>
        obtain ⟨_, hkind, -, hahead⟩ := ahead_of_kindAhead hword
        exact quantifiedBy hcolon hprimary hexpression hkind hahead hgives hclaim
    · obtain ⟨read, hread, hderives⟩ := hprimary.logicalOver _ _ _ hgives hclaim
      exact ⟨read, hread, .logical hderives⟩

variable (hdigits : ∀ token ∈ tokens, token.kind = .int →
  token.text.toList ≠ [] ∧ ∀ char ∈ token.text.toList, Text.isDigit char = true)

include hdigits

omit hcolon in
theorem exists_writes {token : Token} {value : Int} (htoken : tokens[count]? = some token)
    (hkind : token.kind = .int) (hvalue : Text.readInteger? token.text = some value) :
    ∃ number : Nat, value = number ∧ token.Writes number := by
  obtain ⟨hne, hall⟩ := hdigits token (Array.mem_of_getElem? htoken) hkind
  obtain ⟨digits, hrow⟩ := Text.exists_digits hall
  have hrow_ne : digits ≠ [] := by
    rintro rfl
    exact hne (by simpa using hrow)
  rw [Text.readInteger?_of_digits hrow hrow_ne] at hvalue
  split at hvalue
  · contradiction
  · next hlength =>
      exact ⟨_, (Option.some.inj hvalue).symm, digits, hrow, hrow_ne, Nat.not_lt.mp hlength, rfl⟩

theorem Parser.Reads.primaryOver {sum : Parser Term}
    (hexpression : Reads tokens .expression expression) (hsum : Reads tokens (.tier .sum) sum) :
    Reads tokens .primary (primaryOver expression sum) := by
  intro count claim after hgives hclaim
  by_cases hstarts : ∀ kind ∈ [TokenKind.lparen, .int, .bool, .var],
      kindAhead tokens count ≠ some kind
  · obtain ⟨rfl, -⟩ := (gives_primaryOver_missing hstarts).mp hgives
    contradiction
  push Not at hstarts
  obtain ⟨_, hkind, hnext⟩ := hstarts
  obtain ⟨token, htoken, hfound, hahead⟩ := ahead_of_kindAhead hnext
  simp only [List.mem_cons, List.not_mem_nil, or_false] at hkind
  rcases hkind with rfl | rfl | rfl | rfl
  · rw [gives_primaryOver_lparen hnext, gives_parenthesized] at hgives
    obtain ⟨_, hinner, hclosing, rfl⟩ := hgives
    obtain ⟨closing, hkind, -, hmiddle⟩ := ahead_of_kindAhead hclosing
    obtain ⟨read, hread, hderives⟩ := hexpression _ _ _ hinner hclaim
    refine ⟨token :: (read ++ [closing]), ?_, .group htoken hderives hkind⟩
    rw [hahead, hread, hmiddle]
    simp
  · rw [gives_primaryOver_int hnext hfound] at hgives
    obtain ⟨_, hvalue, rfl, rfl⟩ := hgives
    obtain ⟨_, rfl, hwrites⟩ := exists_writes hdigits hfound htoken hvalue
    exact ⟨[token], hahead, .number htoken hwrites⟩
  · obtain ⟨rfl, rfl⟩ := (gives_primaryOver_bool hnext hfound).mp hgives
    exact ⟨[token], hahead, .truth htoken⟩
  · rw [gives_primaryOver_var hnext hfound] at hgives
    split at hgives
    · next hbracket =>
        rw [gives_indexOf (hcolon _) fun _ _ _ => hcolon _] at hgives
        obtain ⟨_, _, hindex, hclosing, rfl, rfl⟩ := hgives
        obtain ⟨opening, hopening, -, hsecond⟩ := ahead_of_kindAhead hbracket
        obtain ⟨closing, hkind, -, hmiddle⟩ := ahead_of_kindAhead hclosing
        obtain ⟨read, hread, hderives⟩ :=
          hsum _ _ _ hindex (by simpa [Term.isComplete] using hclaim)
        refine ⟨token :: opening :: (read ++ [closing]), ?_,
          .element htoken hopening hderives hkind⟩
        rw [hahead, hsecond, hread, hmiddle]
        simp
    · obtain ⟨rfl, rfl⟩ := hgives
      exact ⟨[token], hahead, .name htoken⟩

theorem reads_grammarAt (depth : Nat) : Reads tokens .primary (grammarAt depth).primary ∧
      Reads tokens .expression (grammarAt depth).expression := by
  induction depth with
  | zero =>
    exact ⟨fun _ _ _ hgives => absurd hgives not_gives_throw_run,
      fun _ _ _ hgives => absurd hgives not_gives_throw_run⟩
  | succ depth ih =>
    have hprimary : Reads tokens .primary (grammarAt (depth + 1)).primary :=
      .primaryOver hcolon hdigits ih.2 ih.1.sumOver
    exact ⟨hprimary, .expressionOver hcolon hprimary ih.2⟩

end

/-! ## Claims without a colon -/

theorem kindAhead_mem {tokens : List Token} {kind : TokenKind}
    (hkind : kindAhead tokens.toArray count = some kind) : ∃ token ∈ tokens, token.kind = kind := by
  obtain ⟨token, hkind, htoken, -⟩ := ahead_of_kindAhead hkind
  exact ⟨token, by simpa using Array.mem_of_getElem? htoken, hkind⟩

/-- A claim without a colon is read in full, with no operand missing and nothing
but blanks outside its tokens, exactly if it is written in the grammar. -/
theorem reads_in_full_iff (text : String) (claim : Term)
    (hcolon : ∀ token ∈ Token.scan text, token.kind ≠ .colon) :
    (Parser.expression.runFrom (Token.scan text).toArray 0 = (.ok claim, (Token.scan text).length) ∧
      claim.isComplete = true ∧ ∀ char ∈ Token.passedOver text, Text.isBlank char = true) ↔
    Token.Layout (Token.scan text) text.toList ∧ Derives .expression (Token.scan text) claim := by
  rw [Token.layout_scan_iff]
  constructor
  · rintro ⟨hrun, hclaim, hblank⟩
    refine ⟨hblank, ?_⟩
    have hahead : ∀ count, kindAhead (Token.scan text).toArray count ≠ some .colon := by
      intro count hkind
      obtain ⟨token, htoken, hkind⟩ := kindAhead_mem hkind
      exact hcolon token htoken hkind
    have hdigits : ∀ token ∈ (Token.scan text).toArray, token.kind = .int →
        token.text.toList ≠ [] ∧ ∀ char ∈ token.text.toList, Text.isDigit char = true := by
      intro token htoken
      exact Token.isDigit_of_mem_scanFrom none text.toList token (List.mem_toArray.mp htoken)
    have hreads := (reads_grammarAt hahead hdigits ((Token.scan text).toArray.size + 1)).2
    obtain ⟨read, hread, hderives⟩ := hreads 0 claim (Token.scan text).length hrun hclaim
    have hall : read = Token.scan text := by
      simpa [ahead] using hread.symm
    exact hall ▸ hderives
  · rintro ⟨hblank, hderives⟩
    exact ⟨hderives.runFrom_expression, hderives.isComplete, hblank⟩

theorem reads_in_full_quantified :
    (∀ token ∈ Token.scan "forall i :: 0 <= i or A [ n ] == 1 ", token.kind ≠ .colon) ∧
      Derives .expression (Token.scan "forall i :: 0 <= i or A [ n ] == 1 ")
        (.quantified .universal (.var "i$$0") none .missing
          (.binary (.binary (.int 0) .le (.var "i$$0")) .or
            (.binary (.subscript 0 (.var "A") (.var "n")) .eq (.int 1))) true) := by
  have hwritten : Token.Written [⟨.forallKind, "forall"⟩, ⟨.var, "i"⟩, ⟨.doubleColon, "::"⟩,
      ⟨.int, "0"⟩, ⟨.le, "<="⟩, ⟨.var, "i"⟩, ⟨.or, "or"⟩, ⟨.var, "A"⟩, ⟨.lbracket, "["⟩,
      ⟨.var, "n"⟩, ⟨.rbracket, "]"⟩, ⟨.eq, "=="⟩, ⟨.int, "1"⟩]
      "forall i :: 0 <= i or A [ n ] == 1 ".toList := Token.written_spaced (by decide)
  have hcolon : ∀ token ∈ Token.scan "forall i :: 0 <= i or A [ n ] == 1 ",
      token.kind ≠ .colon := by
    rw [hwritten.scan_eq]
    decide
  refine ⟨hcolon, ((reads_in_full_iff _ _ hcolon).mp ⟨?_, rfl, ?_⟩).2⟩
  · rw [hwritten.scan_eq]
    rfl
  · rw [← Token.layout_scan_iff, hwritten.scan_eq]
    exact hwritten.layout

/-- A slice is read without its closing bracket, and what follows is left. -/
theorem slice_cuts_claim_short :
    Parser.expression.runFrom (Token.scan "A [ 0 : n ] == 1 ").toArray 0 =
        (.ok (.subscript 0 (.var "A") (.slice (.int 0) (.var "n"))), 5) ∧
      (Token.scan "A [ 0 : n ] == 1 ").length = 8 := by
  have hscan : Token.scan "A [ 0 : n ] == 1 " =
      [⟨.var, "A"⟩, ⟨.lbracket, "["⟩, ⟨.int, "0"⟩, ⟨.colon, ":"⟩, ⟨.var, "n"⟩,
        ⟨.rbracket, "]"⟩, ⟨.eq, "=="⟩, ⟨.int, "1"⟩] := by
    apply Token.Written.scan_eq
    exact Token.written_spaced (by decide)
  rw [hscan]
  exact ⟨rfl, rfl⟩

end HoareCheck
