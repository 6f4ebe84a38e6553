import HoareCheck.Proofs.ClaimGrammar
import HoareCheck.Proofs.ClaimScanning
import HoareCheck.Proofs.ParserSteps

/-!
# The parser reads the grammar

Where the tokens ahead start with a row that a category derives, and the row
does not go on, the parser of the category reads exactly that row and returns
its term.  A level of binary operators is read from the left: after each of its
operands the parser is where the derivation of a shorter row ends.
-/

open HoareCheck.Parser

namespace HoareCheck

variable {token sign word opening closing : Token} {rest read : List Token} {category : Category}
  {tier : Tier} {operator : Operator} {kind : TokenKind} {claim : Term}

/-- The parser of a category. -/
def Category.parser (grammar : Grammar) : Category → Parser Term
  | .expression => grammar.expression
  | .logical => logicalOver grammar.primary
  | .tier .connection => chain logicalLevel (equalityOver grammar.primary)
  | .tier .equality => equalityOver grammar.primary
  | .tier .relational => relationalOver grammar.primary
  | .tier .sum => sumOver grammar.primary
  | .tier .product => productOver grammar.primary
  | .unary => unaryOver grammar.primary
  | .primary => grammar.primary

/-- A level is a chain of its operands. -/
theorem Category.parser_tier (grammar : Grammar) (tier : Tier) :
    (Category.tier tier).parser grammar = chain tier.operators (tier.operand.parser grammar) := by
  cases tier <;> rfl

namespace Category

/-- The kinds of tokens by which a row that a category derives may go on. -/
def continues : Category → List TokenKind
  | .expression | .logical | .tier .connection =>
    [.and, .or, .implies, .iff, .eq, .neq, .adjacent, .lt, .le, .gt, .ge, .plus, .minus,
      .mult, .div, .mod, .lbracket]
  | .tier .equality =>
    [.eq, .neq, .adjacent, .lt, .le, .gt, .ge, .plus, .minus, .mult, .div, .mod, .lbracket]
  | .tier .relational => [.lt, .le, .gt, .ge, .plus, .minus, .mult, .div, .mod, .lbracket]
  | .tier .sum => [.plus, .minus, .mult, .div, .mod, .lbracket]
  | .tier .product => [.mult, .div, .mod, .lbracket]
  | .unary | .primary => [.lbracket]

/-- Nothing at the front of `rest` goes on with a row of the category. -/
def StopsAt (category : Category) (rest : List Token) : Prop :=
  ∀ token ∈ rest.head?, token.kind ∉ category.continues

theorem StopsAt.of_subset {outer inner : Category} (hstops : outer.StopsAt rest)
    (hsubset : inner.continues ⊆ outer.continues) : inner.StopsAt rest :=
  fun token htoken hkind => hstops token htoken (hsubset hkind)

theorem stopsAt_cons : category.StopsAt (token :: rest) ↔ token.kind ∉ category.continues := by
  simp [StopsAt]

end Category

theorem Tier.operand_continues_subset (tier : Tier) :
    tier.operand.continues ⊆ (Category.tier tier).continues := by
  cases tier <;> decide

/-- An operator of a level ends the operand before it. -/
theorem Tier.operand_stopsAt (hsign : (sign.kind, operator) ∈ tier.operators) :
    tier.operand.StopsAt (sign :: rest) := by
  rw [Category.stopsAt_cons]
  have hapart : ∀ entry ∈ tier.operators, entry.1 ∉ tier.operand.continues := by
    cases tier <;> decide
  exact hapart _ hsign

theorem Tier.lookup_operators (hsign : (kind, operator) ∈ tier.operators) :
    List.lookup kind tier.operators = some operator := by
  have hlookup : ∀ entry ∈ tier.operators,
      List.lookup entry.1 tier.operators = some entry.2 := by
    cases tier <;> decide
  exact hlookup _ hsign

theorem Tier.lookup_eq_none (hkind : kind ∉ (Category.tier tier).continues) :
    List.lookup kind tier.operators = none := by
  revert hkind
  cases tier <;> cases kind <;> decide

/-! ## Reading a derived row -/

section

variable {tokens : Array Token} {count depth : Nat} {rest : List Token}

/-- The parser of the category reads the row wherever it lies ahead. -/
def Parsed (category : Category) (read : List Token) (claim : Term) : Prop :=
  ∀ (depth : Nat) (tokens : Array Token) (count : Nat) (rest : List Token),
    read.length ≤ depth → ahead tokens count = read ++ rest → category.StopsAt rest →
      Gives ((category.parser (grammarAt depth)).run tokens) count claim (count + read.length)

/-- The chain of the level comes to the end of the row with the term of the row
as its left operand, whatever operators follow. -/
def Chained (tier : Tier) (read : List Token) (claim : Term) : Prop :=
  ∀ (depth : Nat) (tokens : Array Token) (count : Nat) (rest : List Token),
    read.length ≤ depth → ahead tokens count = read ++ rest → tier.operand.StopsAt rest →
      ∃ left middle extra, extra ≤ read.length ∧
        Gives ((tier.operand.parser (grammarAt depth)).run tokens) count left middle ∧
        ∀ steps result after,
          Gives ((chainFrom tier.operators (tier.operand.parser (grammarAt depth)) steps
            claim).run tokens) (count + read.length) result after →
          Gives ((chainFrom tier.operators (tier.operand.parser (grammarAt depth))
            (steps + extra) left).run tokens) middle result after

theorem operatorAhead_eq_none (hahead : ahead tokens count = rest)
    (hstops : (Category.tier tier).StopsAt rest) :
    operatorAhead tier.operators tokens count = none := by
  cases hkind : kindAhead tokens count with
  | none => simp [operatorAhead, hkind]
  | some =>
    obtain ⟨_, rfl, -, hnext⟩ := ahead_of_kindAhead hkind
    rw [← hahead, hnext, Category.stopsAt_cons] at hstops
    simp [operatorAhead, hkind, Tier.lookup_eq_none hstops]

theorem operatorAhead_eq_some (hahead : ahead tokens count = sign :: rest)
    (hsign : (sign.kind, operator) ∈ tier.operators) :
    operatorAhead tier.operators tokens count = some operator := by
  simp [operatorAhead, kindAhead_cons hahead, Tier.lookup_operators hsign]

/-- A chain ends where no operator of its level is next. -/
theorem gives_chainFrom_of_stopsAt (operand : Parser Term) (steps : Nat) (claim : Term)
    (hahead : ahead tokens count = rest) (hstops : (Category.tier tier).StopsAt rest) :
    Gives ((chainFrom tier.operators operand steps claim).run tokens) count claim count := by
  cases steps with
  | zero => exact gives_chainFrom_zero.mpr ⟨rfl, rfl⟩
  | succ =>
    rw [gives_chainFrom_succ, operatorAhead_eq_none hahead hstops]
    exact ⟨rfl, rfl⟩

theorem Chained.parsed (hchained : Chained tier read claim) : Parsed (.tier tier) read claim := by
  intro depth tokens count rest hdepth hahead hstops
  obtain ⟨left, middle, extra, hextra, hleft, hfinish⟩ :=
    hchained depth tokens count rest hdepth hahead
      (hstops.of_subset tier.operand_continues_subset)
  have hsize : extra ≤ tokens.size := hextra.trans (length_le_size hahead)
  have hend := gives_chainFrom_of_stopsAt (tier.operand.parser (grammarAt depth))
    (tokens.size - extra) claim (ahead_add hahead) hstops
  have hchain := hfinish (tokens.size - extra) claim (count + read.length) hend
  rw [Nat.sub_add_cancel hsize] at hchain
  rw [Category.parser_tier, gives_chain]
  exact ⟨left, middle, hleft, hchain⟩

theorem Chained.operand (hparsed : Parsed tier.operand read claim) : Chained tier read claim := by
  intro depth tokens count rest hdepth hahead hstops
  refine ⟨claim, count + read.length, 0, Nat.zero_le _,
    hparsed depth tokens count rest hdepth hahead hstops, ?_⟩
  intro steps result after hrest
  exact hrest

theorem Chained.operation {first second : List Token} {left right : Term}
    (hleft : Chained tier first left) (hsign : (sign.kind, operator) ∈ tier.operators)
    (hright : Parsed tier.operand second right) :
    Chained tier (first ++ sign :: second) (.binary left operator right) := by
  intro depth tokens count rest hdepth hahead hstops
  simp only [List.length_append, List.length_cons] at hdepth
  rw [List.append_assoc, List.cons_append] at hahead
  obtain ⟨start, middle, extra, _, hstart, hfinish⟩ :=
    hleft depth tokens count _ (by omega) hahead (Tier.operand_stopsAt hsign)
  have hsignAhead := ahead_add hahead
  have hrightGives := hright depth tokens (count + first.length + 1) rest (by omega)
    (ahead_succ hsignAhead) hstops
  refine ⟨start, middle, extra + 1, by simp; omega, hstart, ?_⟩
  intro steps result after hrest
  have hstep : Gives ((chainFrom tier.operators (tier.operand.parser (grammarAt depth))
      (steps + 1) left).run tokens) (count + first.length) result after := by
    rw [gives_chainFrom_succ, operatorAhead_eq_some hsignAhead hsign]
    refine ⟨right, _, hrightGives, ?_⟩
    simpa [Nat.add_assoc, Nat.add_comm 1] using hrest
  simpa [Nat.add_assoc, Nat.add_comm 1] using hfinish (steps + 1) result after hstep

/-! ## Quantifiers, negations and primaries -/

section

variable (hderives : Derives category read claim)

include hderives

theorem Derives.kindAhead_mem (hahead : ahead tokens count = read ++ rest) :
    ∃ kind ∈ category.starts, kindAhead tokens count = some kind := by
  obtain ⟨token, _, rfl, hkind⟩ := hderives.exists_head
  exact ⟨token.kind, hkind, kindAhead_cons hahead⟩

theorem Derives.kindAhead_ne {other : TokenKind} (hahead : ahead tokens count = read ++ rest)
    (hother : other ∉ category.starts) : kindAhead tokens count ≠ some other := by
  obtain ⟨_, hkind, hnext⟩ := hderives.kindAhead_mem hahead
  rw [hnext]
  rintro ⟨⟩
  exact hother hkind

/-- Every row needs a grammar of depth one at least. -/
theorem Derives.exists_depth (hdepth : read.length ≤ depth) : ∃ inner, depth = inner + 1 := by
  obtain ⟨_, _, rfl, -⟩ := hderives.exists_head
  cases depth with
  | zero => simp at hdepth
  | succ inner => exact ⟨inner, rfl⟩

end

theorem Parsed.logical (hderives : Derives .logical read claim)
    (hparsed : Parsed .logical read claim) : Parsed .expression read claim := by
  intro depth tokens count rest hdepth hahead hstops
  have hlogical := hparsed depth tokens count rest hdepth hahead hstops
  obtain ⟨inner, rfl⟩ := hderives.exists_depth hdepth
  change Gives ((expressionOver (grammarAt (inner + 1)).primary
    (grammarAt inner).expression).run tokens) count claim _
  rw [gives_expressionOver, if_neg (hderives.kindAhead_ne hahead (by decide)),
    if_neg (hderives.kindAhead_ne hahead (by decide))]
  exact hlogical

theorem Parsed.quantified {quantifier : Quantifier} {separator : Token} {name : String}
    {binder : List Token} {body closed : Term} (hword : word.kind = quantifier.tokenKind)
    (hbinder : Parsed .primary binder (.var name)) (hseparator : separator.kind = .doubleColon)
    (hbody : Parsed .expression read body)
    (hclosed : ((Term.quantified quantifier (.var name) none .missing body
      false).closeBinder.run WriteLog.empty).1 = .ok closed) :
    Parsed .expression (word :: (binder ++ separator :: read)) closed := by
  intro depth tokens count rest hdepth hahead hstops
  simp only [List.length_cons, List.length_append] at hdepth
  obtain ⟨inner, rfl⟩ : ∃ inner, depth = inner + 1 := ⟨depth - 1, by omega⟩
  simp only [List.cons_append, List.append_assoc] at hahead
  have hbinderAhead := ahead_succ hahead
  have hbinderGives := hbinder (inner + 1) tokens (count + 1) _ (by omega) hbinderAhead
    (Category.stopsAt_cons.mpr (by simp [hseparator, Category.continues]))
  have hseparatorAhead := ahead_add hbinderAhead
  have hbodyGives := hbody inner tokens (count + 1 + binder.length + 1) rest (by omega)
    (ahead_succ hseparatorAhead) hstops
  have hquantified : Gives ((quantifiedBy quantifier (grammarAt (inner + 1)).primary
      (grammarAt inner).expression).run tokens) (count + 1) closed
      (count + 1 + binder.length + 1 + read.length) := by
    rw [gives_quantifiedBy]
    · refine ⟨.var name, _, body, hbinderGives, ?_, hbodyGives, hclosed⟩
      rw [kindAhead_cons hseparatorAhead, hseparator]
    · intro other middle hother
      obtain ⟨-, rfl⟩ := hbinderGives.unique hother
      simp [kindAhead_cons hseparatorAhead, hseparator]
  have hend : count + (word :: (binder ++ separator :: read)).length =
      count + 1 + binder.length + 1 + read.length := by
    simp only [List.length_cons, List.length_append]
    omega
  change Gives ((expressionOver (grammarAt (inner + 1)).primary
    (grammarAt inner).expression).run tokens) count closed _
  rw [hend, gives_expressionOver, kindAhead_cons hahead, hword]
  cases quantifier with
  | universal => exact hquantified
  | existential => exact hquantified

theorem Parsed.negation (hword : word.kind = .not) (hparsed : Parsed (.tier .equality) read claim) :
    Parsed .logical (word :: read) (.unary .not claim) := by
  intro depth tokens count rest hdepth hahead hstops
  have hequality := hparsed depth tokens (count + 1) rest
    (Nat.le_of_succ_le hdepth) (ahead_succ hahead) (hstops.of_subset (by decide))
  change Gives ((logicalOver (grammarAt depth).primary).run tokens) count _ _
  rw [gives_logicalOver, kindAhead_cons hahead, hword, if_pos rfl]
  refine ⟨claim, ?_, rfl⟩
  rw [List.length_cons, Nat.add_comm read.length, ← Nat.add_assoc]
  exact hequality

theorem Parsed.connection (hderives : Derives (.tier .connection) read claim)
    (hparsed : Parsed (.tier .connection) read claim) : Parsed .logical read claim := by
  intro depth tokens count rest hdepth hahead hstops
  change Gives ((logicalOver (grammarAt depth).primary).run tokens) count _ _
  rw [gives_logicalOver, if_neg (hderives.kindAhead_ne hahead (by decide))]
  exact hparsed depth tokens count rest hdepth hahead hstops

theorem Parsed.unsigned (hderives : Derives .primary read claim)
    (hparsed : Parsed .primary read claim) : Parsed .unary read claim := by
  intro depth tokens count rest hdepth hahead hstops
  have hnone : operatorAhead unaryLevel tokens count = none := by
    obtain ⟨kind, hkind, hnext⟩ := hderives.kindAhead_mem hahead
    have hlookup : ∀ kind ∈ Category.primary.starts, List.lookup kind unaryLevel = none := by
      decide
    simp [operatorAhead, hnext, hlookup kind hkind]
  change Gives ((unaryOver (grammarAt depth).primary).run tokens) count _ _
  rw [gives_unaryOver, hnone]
  exact hparsed depth tokens count rest hdepth hahead hstops

theorem Parsed.signed (hsign : (sign.kind, operator) ∈ signOperators)
    (hparsed : Parsed .primary read claim) :
    Parsed .unary (sign :: read) (.unary operator claim) := by
  intro depth tokens count rest hdepth hahead hstops
  have hsome : operatorAhead unaryLevel tokens count = some operator := by
    have hlookup : ∀ entry ∈ signOperators, List.lookup entry.1 unaryLevel = some entry.2 := by
      decide
    simp [operatorAhead, kindAhead_cons hahead, hlookup _ hsign]
  have hprimary := hparsed depth tokens (count + 1) rest
    (Nat.le_of_succ_le hdepth) (ahead_succ hahead) hstops
  change Gives ((unaryOver (grammarAt depth).primary).run tokens) count _ _
  rw [gives_unaryOver, hsome]
  refine ⟨claim, ?_, rfl⟩
  rw [List.length_cons, Nat.add_comm read.length, ← Nat.add_assoc]
  exact hprimary

theorem Token.Writes.readInteger? {digits : Token} {value : Nat}
    (hwrites : digits.Writes value) : Text.readInteger? digits.text = some (value : Int) := by
  obtain ⟨_, hrow, hne, hlength, rfl⟩ := hwrites
  rw [Text.readInteger?_of_digits hrow hne, if_neg (Nat.not_lt.mpr hlength)]

/-- A primary of a single token that is no bracketed name. -/
theorem Parsed.single
    (hgives : ∀ (inner : Nat) (tokens : Array Token) (count : Nat) (rest : List Token),
      ahead tokens count = token :: rest → Category.primary.StopsAt rest →
        Gives ((grammarAt (inner + 1)).primary.run tokens) count claim (count + 1)) :
    Parsed .primary [token] claim := by
  intro depth tokens count rest hdepth hahead hstops
  obtain ⟨inner, rfl⟩ : ∃ inner, depth = inner + 1 := ⟨depth - 1, by simp at hdepth; omega⟩
  exact hgives inner tokens count rest hahead hstops

theorem Parsed.truth (hword : word.kind = .bool) :
    Parsed .primary [word] (.bool (word.text = "True")) := by
  refine Parsed.single fun inner tokens count rest hahead hstops => ?_
  have hkind : kindAhead tokens count = some .bool := by rw [kindAhead_cons hahead, hword]
  exact (gives_primaryOver_bool hkind (getElem?_of_ahead hahead)).mpr ⟨rfl, rfl⟩

theorem Parsed.number {digits : Token} {value : Nat} (hdigits : digits.kind = .int)
    (hvalue : digits.Writes value) : Parsed .primary [digits] (.int value) := by
  refine Parsed.single fun inner tokens count rest hahead hstops => ?_
  have hkind : kindAhead tokens count = some .int := by rw [kindAhead_cons hahead, hdigits]
  exact (gives_primaryOver_int hkind (getElem?_of_ahead hahead)).mpr
    ⟨value, hvalue.readInteger?, rfl, rfl⟩

theorem Parsed.name {name : Token} (hname : name.kind = .var) :
    Parsed .primary [name] (.var name.text) := by
  refine Parsed.single fun inner tokens count rest hahead hstops => ?_
  have hkind : kindAhead tokens count = some .var := by rw [kindAhead_cons hahead, hname]
  have hbracket : kindAhead tokens (count + 1) ≠ some .lbracket := by
    intro hbracket
    obtain ⟨_, htoken, -, hnext⟩ := ahead_of_kindAhead hbracket
    rw [← ahead_succ hahead, hnext, Category.stopsAt_cons, htoken] at hstops
    exact hstops (by decide)
  exact (gives_primaryOver_var hkind (getElem?_of_ahead hahead)).mpr
    (by rw [if_neg hbracket]; exact ⟨rfl, rfl⟩)

theorem Parsed.element {name : Token} {index : Term} (hname : name.kind = .var)
    (hopening : opening.kind = .lbracket) (hderives : Derives (.tier .sum) read index)
    (hparsed : Parsed (.tier .sum) read index) (hclosing : closing.kind = .rbracket) :
    Parsed .primary (name :: opening :: (read ++ [closing]))
      (.subscript 0 (.var name.text) index) := by
  intro depth tokens count rest hdepth hahead hstops
  simp only [List.length_cons, List.length_append, List.length_nil] at hdepth
  obtain ⟨inner, rfl⟩ : ∃ inner, depth = inner + 1 := ⟨depth - 1, by omega⟩
  simp only [List.cons_append, List.append_assoc, List.nil_append] at hahead
  have hopeningAhead := ahead_succ hahead
  have hindexAhead := ahead_succ hopeningAhead
  have hclosingAhead := ahead_add hindexAhead
  have hindex := hparsed inner tokens (count + 1 + 1) _ (by omega) hindexAhead
    (Category.stopsAt_cons.mpr (by simp [hclosing, Category.continues]))
  have hkind : kindAhead tokens count = some .var := by rw [kindAhead_cons hahead, hname]
  refine (gives_primaryOver_var hkind (getElem?_of_ahead hahead)).mpr ?_
  rw [if_pos (by rw [kindAhead_cons hopeningAhead, hopening]), gives_indexOf]
  · refine ⟨index, _, hindex, ?_, rfl, ?_⟩
    · rw [kindAhead_cons hclosingAhead, hclosing]
    · simp only [List.length_cons, List.length_append, List.length_nil]
      omega
  · exact hderives.kindAhead_ne hindexAhead (by decide)
  · intro other middle hother
    obtain ⟨-, rfl⟩ := hindex.unique hother
    simp [kindAhead_cons hclosingAhead, hclosing]

theorem Parsed.group (hopening : opening.kind = .lparen) (hparsed : Parsed .expression read claim)
    (hclosing : closing.kind = .rparen) :
    Parsed .primary (opening :: (read ++ [closing])) claim := by
  intro depth tokens count rest hdepth hahead hstops
  simp only [List.length_cons, List.length_append, List.length_nil] at hdepth
  obtain ⟨inner, rfl⟩ : ∃ inner, depth = inner + 1 := ⟨depth - 1, by omega⟩
  simp only [List.cons_append, List.append_assoc, List.nil_append] at hahead
  have hinnerAhead := ahead_succ hahead
  have hclosingAhead := ahead_add hinnerAhead
  have hinner := hparsed inner tokens (count + 1) _ (by omega) hinnerAhead
    (Category.stopsAt_cons.mpr (by simp [hclosing, Category.continues]))
  have hkind : kindAhead tokens count = some .lparen := by
    rw [kindAhead_cons hahead, hopening]
  refine (gives_primaryOver_lparen hkind).mpr (gives_parenthesized.mpr ⟨_, hinner, ?_, ?_⟩)
  · rw [kindAhead_cons hclosingAhead, hclosing]
  · simp only [List.length_cons, List.length_append, List.length_nil]
    omega

/-- The parser of every category reads the rows that the category derives. -/
theorem Derives.parsed {category : Category} {read : List Token} {claim : Term}
    (hderives : Derives category read claim) : Parsed category read claim := by
  -- A row of a level is met in the middle of a longer one, so the induction
  -- carries what the chain of the level does up to its end.
  have hboth : Parsed category read claim ∧
      ∀ tier, category = .tier tier → Chained tier read claim := by
    induction hderives with
    | logical hclaim ih => exact ⟨.logical hclaim ih.1, by simp⟩
    | quantified hword _ hseparator _ hclosed ihbinder ihbody =>
      exact ⟨.quantified hword ihbinder.1 hseparator ihbody.1 hclosed, by simp⟩
    | negation hword _ ih => exact ⟨.negation hword ih.1, by simp⟩
    | connection hclaim ih => exact ⟨.connection hclaim ih.1, by simp⟩
    | @operand tier _ _ _ ih =>
      have hchained : Chained tier _ _ := .operand ih.1
      exact ⟨hchained.parsed, by rintro _ ⟨⟩; exact hchained⟩
    | @operation tier _ _ _ _ _ _ _ hsign _ ihleft ihright =>
      have hchained : Chained tier _ _ := .operation (ihleft.2 tier rfl) hsign ihright.1
      exact ⟨hchained.parsed, by rintro _ ⟨⟩; exact hchained⟩
    | unsigned hclaim ih => exact ⟨.unsigned hclaim ih.1, by simp⟩
    | signed hsign _ ih => exact ⟨.signed hsign ih.1, by simp⟩
    | truth hword => exact ⟨.truth hword, by simp⟩
    | number hdigits hvalue => exact ⟨.number hdigits hvalue, by simp⟩
    | name hname => exact ⟨.name hname, by simp⟩
    | element hname hopening hindex hclosing ih =>
      exact ⟨.element hname hopening hindex ih.1 hclosing, by simp⟩
    | group hopening _ hclosing ih => exact ⟨.group hopening ih.1 hclosing, by simp⟩
  exact hboth.1

/-- A row that is an expression is read to its end. -/
theorem Derives.runFrom_expression (hderives : Derives .expression read claim) :
    Parser.expression.runFrom read.toArray 0 = (.ok claim, read.length) := by
  have hgives := hderives.parsed (read.toArray.size + 1) read.toArray 0 [] (by simp)
    (by simp [ahead]) (by simp [Category.StopsAt])
  rw [Nat.zero_add] at hgives
  exact hgives

end

/-! ## Written claims -/

/-- A text that writes a row of the grammar has the tokens of the row; it is read
to the last of them, and the term of the row is returned. -/
theorem parses_written_claim {tokens : List Token} {claim : Term} {text : String}
    (hderives : Derives .expression tokens claim) (hwritten : Token.Written tokens text.toList) :
    Token.scan text = tokens ∧ Parser.expression.runFrom (Token.scan text).toArray 0 =
        (.ok claim, (Token.scan text).length) := by
  rw [hwritten.scan_eq]
  exact ⟨rfl, hderives.runFrom_expression⟩

/-- A primary is a row of every level. -/
theorem Derives.ofPrimary (hderives : Derives .primary read claim) (tier : Tier) :
    Derives (.tier tier) read claim := by
  have hproduct : Derives (.tier .product) read claim := .operand (.unsigned hderives)
  have hsum : Derives (.tier .sum) read claim := .operand hproduct
  have hrelational : Derives (.tier .relational) read claim := .operand hsum
  have hequality : Derives (.tier .equality) read claim := .operand hrelational
  cases tier with
  | connection => exact .operand hequality
  | equality => exact hequality
  | relational => exact hrelational
  | sum => exact hsum
  | product => exact hproduct

theorem parses_written_claim_left_associated :
    Token.Written [⟨.var, "x#1"⟩, ⟨.minus, "-"⟩, ⟨.int, "10"⟩, ⟨.minus, "-"⟩, ⟨.var, "y"⟩,
        ⟨.adjacent, "~"⟩, ⟨.int, "2"⟩, ⟨.and, "and"⟩, ⟨.bool, "True"⟩]
        "x#1 - 10 - y ~ 2 and True ".toList ∧
      Parser.expression.runFrom (Token.scan "x#1 - 10 - y ~ 2 and True ").toArray 0 = (.ok (.binary
          (.binary (.binary (.binary (.var "x#1") .minus (.int 10)) .minus (.var "y"))
            .adjacent (.int 2))
          .and (.bool true)), (Token.scan "x#1 - 10 - y ~ 2 and True ").length) := by
  have hten : Derives .primary [⟨.int, "10"⟩] (.int 10) :=
    .number rfl ⟨[1, 0], by decide, by decide, by decide, by decide⟩
  have htwo : Derives .primary [⟨.int, "2"⟩] (.int 2) :=
    .number rfl ⟨[2], by decide, by decide, by decide, by decide⟩
  have htruth : Derives .primary [⟨.bool, "True"⟩] (.bool true) := .truth rfl
  have hsum : Derives (.tier .sum)
      [⟨.var, "x#1"⟩, ⟨.minus, "-"⟩, ⟨.int, "10"⟩, ⟨.minus, "-"⟩, ⟨.var, "y"⟩]
      (.binary (.binary (.var "x#1") .minus (.int 10)) .minus (.var "y")) :=
    .operation (.operation (.ofPrimary (.name rfl) .sum) (by decide) (hten.ofPrimary .product))
      (by decide) (.ofPrimary (.name rfl) .product)
  have hrelational : Derives (.tier .relational) _ _ := .operand hsum
  have hleft : Derives (.tier .equality) _ _ := .operand hrelational
  have hequality : Derives (.tier .equality) (_ ++ [⟨.adjacent, "~"⟩, ⟨.int, "2"⟩])
      (.binary _ .adjacent (.int 2)) :=
    .operation hleft (by decide) (htwo.ofPrimary .relational)
  have hfirst : Derives (.tier .connection) _ _ := .operand hequality
  have hconnection : Derives (.tier .connection) (_ ++ [⟨.and, "and"⟩, ⟨.bool, "True"⟩])
      (.binary _ .and (.bool true)) :=
    .operation hfirst (by decide) (htruth.ofPrimary .equality)
  suffices hwritten : Token.Written _ "x#1 - 10 - y ~ 2 and True ".toList from
    ⟨hwritten, (parses_written_claim (.logical (.connection hconnection)) hwritten).2⟩
  exact Token.written_spaced (by decide)

end HoareCheck
