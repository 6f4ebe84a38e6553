import HoareCheck.Proofs.SourceLexing

/-!
# Names and faults of the source parser

The names that a program mentions are names among its tokens, and a text that
is no program is ill formed: the parser has no other fault.  Both facts are one
invariant of parsers, `Keeps`, which their combinators preserve.
-/

namespace HoareCheck.Source

variable {factor inversion : Parser Expr} {left : Expr}

open Named (NamesAre)

namespace Parser

/-- From tokens whose names are of a kind, the parser gives a value whose names
are, and leaves such tokens; it fails only on an ill-formed text. -/
def Keeps {α : Type} [Named α] (good : String → Prop) (parser : Parser α) : Prop :=
  ∀ tokens : List Token, NamesAre good tokens →
    Yields (fun result => NamesAre good result.1 ∧ NamesAre good result.2) (parser.run tokens)

section Laws

variable {α β : Type} [Named α] [Named β] {good : String → Prop}

@[grind ←]
theorem keeps_pure {value : α} (hvalue : NamesAre good value) :
    Keeps good (pure value : Parser α) :=
  fun _ htokens => ⟨hvalue, htokens⟩

@[grind ←]
theorem keeps_fail : Keeps good (fail : Parser α) :=
  fun _ _ => rfl

@[grind ←]
theorem keeps_bind {first : Parser α} {next : α → Parser β} (hfirst : Keeps good first)
    (hnext : ∀ value, NamesAre good value → Keeps good (next value)) :
    Keeps good (first >>= next) := by
  intro tokens htokens
  apply yields_bind (hfirst tokens htokens)
  intro result hresult
  exact hnext result.1 hresult.1 result.2 hresult.2

@[grind ←]
theorem keeps_fail_bind {γ : Type} {next : γ → Parser β} : Keeps good (fail >>= next) :=
  fun _ _ => rfl

/-- A test, and one of two ways to go on. -/
theorem keeps_branch {test : Parser Bool} {yes no : Parser α} (htest : Keeps good test)
    (hyes : Keeps good yes) (hno : Keeps good no) : Keeps good (do if ← test then yes else no) := by
  apply keeps_bind htest
  intro outcome _
  cases outcome with
  | true => exact hyes
  | false => exact hno

@[grind ←]
theorem keeps_get : Keeps good (get : Parser (List Token)) :=
  fun _ htokens => ⟨htokens, htokens⟩

@[grind ←]
theorem keeps_set {tokens : List Token} (htokens : NamesAre good tokens) :
    Keeps good (set tokens : Parser PUnit) :=
  fun _ _ => ⟨trivial, htokens⟩

end Laws

section Parsers

variable {good : String → Prop}

@[grind ←]
theorem keeps_peek? : Keeps good peek? := by
  apply keeps_bind keeps_get
  intro tokens htokens
  apply keeps_pure
  intro next hnext
  exact htokens next (List.mem_of_mem_head? hnext)

@[grind ←]
theorem keeps_skip : Keeps good skip := by
  intro tokens htokens
  exact ⟨trivial, fun token htoken => htokens token (List.mem_of_mem_tail htoken)⟩

@[grind ←]
theorem keeps_accept (token : Token) : Keeps good (accept token) := by
  grind [accept]

@[grind ←]
theorem keeps_acceptSign (text : String) : Keeps good (acceptSign text) :=
  keeps_accept _

@[grind ←]
theorem keeps_acceptKeyword (text : String) : Keeps good (acceptKeyword text) :=
  keeps_accept _

@[grind ←]
theorem keeps_expect (token : Token) : Keeps good (expect token) := by
  grind [expect]

@[grind ←]
theorem keeps_expectSign (text : String) : Keeps good (expectSign text) :=
  keeps_expect _

@[grind ←]
theorem keeps_expectName : Keeps good expectName := by
  grind [expectName]

@[grind ←]
theorem keeps_signAmong? {α : Type} [Nameless α] (meanings : List (String × α)) :
    Keeps good (signAmong? meanings) := by
  induction meanings with
  | nil => grind [signAmong?]
  | cons => grind [signAmong?]

@[grind ←]
theorem keeps_steps : Keeps good steps := by
  grind [steps]

/-! ## Expressions -/

section Expressions

variable {operand inner : Parser Expr}

@[grind ←]
theorem keeps_binaryFrom (operators : List (String × BinaryOp)) (hoperand : Keeps good operand)
    (count : Nat) (hleft : NamesAre good left) :
    Keeps good (binaryFrom operators operand count left) := by
  induction count generalizing left with
  | zero => grind [binaryFrom]
  | succ => grind [binaryFrom]

@[grind ←]
theorem keeps_binaryLevel (operators : List (String × BinaryOp)) (hoperand : Keeps good operand) :
    Keeps good (binaryLevel operators operand) := by
  grind [binaryLevel]

@[grind ←]
theorem keeps_logicalFrom (word : String) (operator : LogicalOp) (hoperand : Keeps good operand)
    (count : Nat) (hleft : NamesAre good left) :
    Keeps good (logicalFrom word operator operand count left) := by
  induction count generalizing left with
  | zero => grind [logicalFrom]
  | succ => grind [logicalFrom]

@[grind ←]
theorem keeps_logicalLevel (word : String) (operator : LogicalOp) (hoperand : Keeps good operand) :
    Keeps good (logicalLevel word operator operand) := by
  grind [logicalLevel]

@[grind ←]
theorem keeps_compareOp? : Keeps good compareOp? := by
  apply keeps_bind (keeps_signAmong? _)
  intro operator _
  cases operator with
  | some => exact keeps_pure trivial
  | none =>
    apply keeps_branch (keeps_acceptKeyword "in") (keeps_pure trivial)
    apply keeps_branch (keeps_acceptKeyword "is")
    · exact keeps_branch (keeps_acceptKeyword "not") (keeps_pure trivial) (keeps_pure trivial)
    · apply keeps_bind keeps_get
      grind

@[grind ←]
theorem keeps_compareChain (hoperand : Keeps good operand) (count : Nat) :
    Keeps good (compareChain operand count) := by
  induction count with
  | zero => exact keeps_pure ⟨trivial, trivial⟩
  | succ _ ih =>
    apply keeps_bind keeps_compareOp?
    intro operator _
    cases operator with
    | none => exact keeps_pure ⟨trivial, trivial⟩
    | some =>
      apply keeps_bind hoperand
      intro right hright
      apply keeps_bind ih
      intro more hmore
      exact keeps_pure ⟨trivial, hright, hmore.2⟩

@[grind ←]
theorem keeps_comparison (hoperand : Keeps good operand) : Keeps good (comparison operand) := by
  apply keeps_bind hoperand
  intro left hleft
  apply keeps_bind keeps_steps
  intro count _
  apply keeps_bind (keeps_compareChain hoperand count)
  intro more hmore
  obtain ⟨operators, operands⟩ := more
  cases operators with
  | nil => exact keeps_pure hleft
  | cons =>
    cases operands with
    | nil => exact keeps_pure hleft
    | cons => exact keeps_pure ⟨hleft, hmore.2.1, hmore.2.2⟩

@[grind ←]
theorem keeps_itemsUntil (closing : String) (hoperand : Keeps good operand) (count : Nat) :
    Keeps good (itemsUntil closing operand count) := by
  induction count with
  | zero => exact keeps_fail
  | succ _ ih =>
    apply keeps_branch (keeps_acceptSign closing)
    · exact keeps_pure ⟨trivial, trivial⟩
    · apply keeps_bind hoperand
      intro first hfirst
      apply keeps_branch (keeps_acceptSign ",")
      · apply keeps_bind ih
        intro rest hrest
        exact keeps_pure ⟨⟨hfirst, hrest.1⟩, trivial⟩
      · apply keeps_bind (keeps_expectSign closing)
        intro _ _
        exact keeps_pure ⟨⟨hfirst, trivial⟩, trivial⟩

@[grind ←]
theorem keeps_parenthesized (hinner : Keeps good inner) : Keeps good (parenthesized inner) := by
  grind [parenthesized]

@[grind ←]
theorem keeps_adjacentTexts (count : Nat) (text : String) :
    Keeps good (adjacentTexts count text) := by
  induction count generalizing text with
  | zero => grind [adjacentTexts]
  | succ => grind [adjacentTexts]

section

variable (hinner : Keeps good inner)

include hinner

@[grind ←]
theorem keeps_atom : Keeps good (atom inner) := by
  apply keeps_bind keeps_peek?
  intro next hnext
  split <;> grind

@[grind ←]
theorem keeps_bound? : Keeps good (bound? inner) := by
  grind [bound?]

@[grind ←]
theorem keeps_sliceItem : Keeps good (sliceItem inner) := by
  apply keeps_bind (keeps_bound? hinner)
  intro lower hlower
  apply keeps_branch (keeps_acceptSign ":")
  · apply keeps_bind (keeps_bound? hinner)
    intro upper hupper
    apply keeps_bind (keeps_acceptSign ":")
    intro hasStep _
    cases hasStep with
    | true =>
      apply keeps_bind (keeps_bound? hinner)
      intro step hstep
      exact keeps_pure ⟨hlower, hupper, hstep⟩
    | false => exact keeps_pure ⟨hlower, hupper, trivial⟩
  · cases lower with
    | some => exact keeps_pure hlower
    | none => exact keeps_fail

@[grind ←]
theorem keeps_subscriptIndex : Keeps good (subscriptIndex inner) := by
  grind [subscriptIndex]

@[grind ←]
theorem keeps_trailers (count : Nat) {value : Expr} (hvalue : NamesAre good value) :
    Keeps good (trailers inner count value) := by
  induction count generalizing value with
  | zero => grind [trailers]
  | succ => grind [trailers]

@[grind ←]
theorem keeps_power (hfactor : Keeps good factor) : Keeps good (power inner factor) := by
  apply keeps_bind (keeps_atom hinner)
  intro value hvalue
  apply keeps_bind keeps_steps
  intro count _
  apply keeps_bind (keeps_trailers hinner count hvalue)
  grind

@[grind ←]
theorem keeps_factorOver (hfactor : Keeps good factor) : Keeps good (factorOver inner factor) := by
  grind [factorOver]

end

@[grind ←]
theorem keeps_inversionOver (hfactor : Keeps good factor) (hinversion : Keeps good inversion) :
    Keeps good (inversionOver factor inversion) := by
  have hlevels : ∀ levels : List (List (String × BinaryOp)), ∀ operand : Parser Expr,
      Keeps good operand →
      Keeps good (levels.foldl (fun operand operators => binaryLevel operators operand) operand) := by
    intro levels
    induction levels with
    | nil => exact fun _ hoperand => hoperand
    | cons level _ ih =>
      intro operand hoperand
      exact ih _ (keeps_binaryLevel level hoperand)
  apply keeps_branch (keeps_acceptKeyword "not")
  · grind
  · exact keeps_comparison (hlevels binaryLevels factor hfactor)

theorem keeps_expressionOver (hinversion : Keeps good inversion) :
    Keeps good (expressionOver inversion) :=
  keeps_logicalLevel "or" .or (keeps_logicalLevel "and" .and hinversion)

/-- All parts of the grammar keep to the names of the tokens. -/
theorem keeps_grammarAt (depth : Nat) :
    Keeps good (grammarAt depth).factor ∧ Keeps good (grammarAt depth).inversion ∧
      Keeps good (grammarAt depth).expression := by
  induction depth with
  | zero => exact ⟨keeps_fail, keeps_fail, keeps_fail⟩
  | succ _ ih =>
    obtain ⟨hfactor, hinversion, hexpression⟩ := ih
    have hfactorOver := keeps_factorOver hexpression hfactor
    have hinversionOver := keeps_inversionOver hfactorOver hinversion
    exact ⟨hfactorOver, hinversionOver, keeps_expressionOver hinversionOver⟩

@[grind ←]
theorem keeps_expression : Keeps good expression := by
  apply keeps_bind keeps_steps
  intro count _
  exact (keeps_grammarAt count).2.2

@[grind ←]
theorem keeps_tupleFrom (count : Nat) : Keeps good (tupleFrom count) := by
  induction count with
  | zero => grind [tupleFrom]
  | succ => grind [tupleFrom]

@[grind ←]
theorem keeps_expressions : Keeps good expressions := by
  apply keeps_bind keeps_expression
  intro first hfirst
  apply keeps_branch (keeps_acceptSign ",")
  · apply keeps_bind keeps_steps
    grind
  · exact keeps_pure hfirst

end Expressions

/-! ## Statements -/

@[grind ←]
theorem keeps_assignedTo (count : Nat) {targets : List Expr} {target : Expr}
    (htargets : NamesAre good targets) (htarget : NamesAre good target) :
    Keeps good (assignedTo count targets target) := by
  induction count generalizing targets target with
  | zero => exact keeps_fail
  | succ _ ih =>
    rw [assignedTo]
    split
    · exact keeps_fail_bind
    · apply keeps_bind keeps_expressions
      intro next hnext
      have hall : NamesAre good (targets ++ [target]) :=
        (namesOfAll_append _ _).mpr ⟨htargets, htarget, trivial⟩
      exact keeps_branch (keeps_acceptSign "=") (ih hall hnext) (keeps_pure ⟨hall, hnext⟩)

@[grind ←]
theorem keeps_expressionStatement : Keeps good expressionStatement := by
  apply keeps_bind keeps_expressions
  intro first hfirst
  apply keeps_branch (keeps_acceptSign "=")
  · grind
  · apply keeps_bind (keeps_signAmong? augmentedSigns)
    intro operator _
    cases operator with
    | some => grind
    | none =>
      apply keeps_branch (keeps_acceptSign ":")
      · split <;> grind
      · exact keeps_pure hfirst

@[grind ←]
theorem keeps_simpleStatement : Keeps good simpleStatement := by
  apply keeps_branch (keeps_acceptKeyword "pass") (keeps_pure trivial)
  apply keeps_branch (keeps_acceptKeyword "break") (keeps_pure trivial)
  apply keeps_branch (keeps_acceptKeyword "continue") (keeps_pure trivial)
  apply keeps_branch (keeps_acceptKeyword "return")
  · grind
  · apply keeps_branch (keeps_acceptKeyword "assert")
    · grind
    · exact keeps_expressionStatement

@[grind ←]
theorem keeps_simpleStatements (count : Nat) : Keeps good (simpleStatements count) := by
  induction count with
  | zero => grind [simpleStatements]
  | succ => grind [simpleStatements]

@[grind ←]
theorem keeps_parameter : Keeps good parameter := by
  grind [parameter]

@[grind ←]
theorem keeps_parameters (needsDefault : Bool) (count : Nat) :
    Keeps good (parameters needsDefault count) := by
  induction count generalizing needsDefault with
  | zero => exact keeps_fail
  | succ =>
    apply keeps_branch (keeps_acceptSign ")") (keeps_pure trivial)
    apply keeps_branch (keeps_acceptSign "**")
    · grind
    · apply keeps_branch (keeps_acceptSign "*")
      · grind
      · apply keeps_branch (keeps_acceptSign "/")
        · grind
        · grind

@[grind ←]
theorem keeps_decorators (count : Nat) : Keeps good (decorators count) := by
  induction count with
  | zero => grind [decorators]
  | succ => grind [decorators]

section Blocks

variable {block : Parser (List Stmt)}

@[grind ←]
theorem keeps_functionDef (hblock : Keeps good block) : Keeps good (functionDef block) := by
  apply keeps_bind (keeps_expect (.keyword "def"))
  intro _ _
  apply keeps_bind keeps_expectName
  intro name _
  apply keeps_bind (keeps_expectSign "(")
  intro _ _
  apply keeps_bind keeps_steps
  grind

@[grind ←]
theorem keeps_elseBlock (hblock : Keeps good block) : Keeps good (elseBlock block) := by
  grind [elseBlock]

@[grind ←]
theorem keeps_conditional (hblock : Keeps good block) (count : Nat) :
    Keeps good (conditional block count) := by
  induction count with
  | zero => exact keeps_fail
  | succ =>
    apply keeps_bind keeps_expression
    intro test htest
    apply keeps_bind hblock
    grind

@[grind ←]
theorem keeps_forTarget (count : Nat) : Keeps good (forTarget count) := by
  have hoperand : Keeps good forTarget.binaryOperand := by
    apply keeps_bind keeps_steps
    intro depth _
    exact (keeps_grammarAt depth).1
  induction count with
  | zero => exact keeps_fail
  | succ _ ih =>
    apply keeps_bind hoperand
    intro operand hfirst
    apply keeps_branch (keeps_acceptSign ",")
    · apply keeps_bind keeps_peek?
      intro next _
      split
      · grind
      · apply keeps_bind ih
        intro last hlast
        split
        · exact keeps_pure ⟨hfirst, hlast⟩
        · exact keeps_pure ⟨hfirst, hlast, trivial⟩
    · exact keeps_pure hfirst

@[grind ←]
theorem keeps_statement (hblock : Keeps good block) : Keeps good (statement block) := by
  apply keeps_bind keeps_peek?
  intro next _
  split
  case h_3 =>
    apply keeps_bind keeps_skip
    intro _ _
    apply keeps_bind keeps_steps
    intro count _
    apply keeps_bind (keeps_forTarget count)
    intro target htarget
    split
    · exact keeps_fail_bind
    · apply keeps_bind (keeps_expect (.keyword "in"))
      intro _ _
      apply keeps_bind keeps_expressions
      intro iterated hiterated
      apply keeps_bind hblock
      intro body hbody
      grind
  all_goals grind

@[grind ←]
theorem keeps_statements (hblock : Keeps good block) (count : Nat) :
    Keeps good (statements block count) := by
  induction count with
  | zero => exact keeps_fail
  | succ =>
    apply keeps_bind keeps_peek?
    intro next _
    split <;> grind

@[grind ←]
theorem keeps_blockAt (depth : Nat) : Keeps good (blockAt depth) := by
  induction depth with
  | zero => grind [blockAt]
  | succ => grind [blockAt]

end Blocks

theorem keeps_program : Keeps good program := by
  grind [program]

end Parsers

end Parser

/-! ## Programs -/

/-- What holds of the names that can be written holds of the names of a program,
and a text that is none is ill formed. -/
theorem yields_parse {good : String → Prop} (hwords : HoldsOfWords good) (text : String) :
    Yields (namesOfBlock good) (parse text) := by
  apply yields_bind (yields_lex hwords text)
  intro tokens htokens
  apply yields_bind (Parser.keeps_program tokens htokens)
  intro result hresult
  exact hresult.1

theorem fault_of_parse {text : String} {fault : Fault} (hparse : parse text = .error fault) :
    fault = .illFormedSource := by
  have hwords : HoldsOfWords fun _ => True := fun _ _ => trivial
  have hyields := yields_parse hwords text
  rw [hparse] at hyields
  exact hyields

end HoareCheck.Source
