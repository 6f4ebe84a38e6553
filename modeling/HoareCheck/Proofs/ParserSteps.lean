import HoareCheck.Claim.Parser
import HoareCheck.Proofs.Gives

/-!
# Steps of the claim parser

What each parser does, given the tokens ahead of it.  The laws open a parser
one step at a time: a parser that looks for a token is the parser that follows,
after the token if it is there and before it otherwise.
-/

namespace HoareCheck.Parser

variable {rest : List Token} {token : Token} {kind : TokenKind}

variable {α : Type} {tokens : Array Token} {count after : Nat}

/-! ## Tokens ahead -/

/-- The tokens that have not been read. -/
def ahead (tokens : Array Token) (count : Nat) : List Token :=
  tokens.toList.drop count

/-- The kind of the next token. -/
def kindAhead (tokens : Array Token) (count : Nat) : Option TokenKind :=
  tokens[count]?.map Token.kind

theorem ahead_add {read : List Token} (hahead : ahead tokens count = read ++ rest) :
    ahead tokens (count + read.length) = rest := by
  calc
    ahead tokens (count + read.length) = (ahead tokens count).drop read.length := by
      simp [ahead, List.drop_drop]
    _ = rest := by rw [hahead, List.drop_left]

section

variable (hahead : ahead tokens count = token :: rest)

include hahead

theorem ahead_succ : ahead tokens (count + 1) = rest := by
  have hread : ahead tokens count = [token] ++ rest := hahead
  exact ahead_add hread

theorem getElem?_of_ahead : tokens[count]? = some token := by
  have hhead := congrArg List.head? hahead
  simpa [ahead] using hhead

theorem kindAhead_cons : kindAhead tokens count = some token.kind := by
  rw [kindAhead, getElem?_of_ahead hahead, Option.map_some]

end

theorem ahead_of_kindAhead (hkind : kindAhead tokens count = some kind) :
    ∃ token, token.kind = kind ∧ tokens[count]? = some token ∧
      ahead tokens count = token :: ahead tokens (count + 1) := by
  obtain ⟨_, htoken, hkind⟩ := Option.map_eq_some_iff.mp hkind
  obtain ⟨hsize, rfl⟩ := Array.getElem?_eq_some_iff.mp htoken
  refine ⟨tokens[count], hkind, htoken, ?_⟩
  simp only [ahead]
  rw [List.drop_eq_getElem_cons (by simpa using hsize), Array.getElem_toList]

/-- No more tokens lie ahead than there are. -/
theorem length_le_size {read : List Token} (hahead : ahead tokens count = read ++ rest) :
    read.length ≤ tokens.size := by
  have hlength := congrArg List.length hahead
  simp only [ahead, List.length_drop, Array.length_toList, List.length_append] at hlength
  omega

/-! ## Single tokens -/

theorem gives_get_bind {next : Nat → Parser α} {value : α} :
    Gives ((get >>= next).run tokens) count value after ↔
      Gives ((next count).run tokens) count value after :=
  Iff.rfl

theorem gives_set_bind {state : Nat} {next : PUnit → Parser α} {value : α} :
    Gives ((set state >>= next).run tokens) count value after ↔
      Gives ((next ⟨⟩).run tokens) state value after :=
  Iff.rfl

theorem gives_read_bind {next : Array Token → Parser α} {value : α} :
    Gives ((read >>= next).run tokens) count value after ↔
      Gives ((next tokens).run tokens) count value after :=
  Iff.rfl

@[simp]
theorem not_gives_throw_run {fault : Fault} {value : α} :
    ¬ Gives ((throw fault : Parser α).run tokens) count value after :=
  not_gives_throw

theorem gives_consume_bind {next : Bool → Parser α} {value : α} :
    Gives ((consume kind >>= next).run tokens) count value after ↔
      if kindAhead tokens count = some kind then
        Gives ((next true).run tokens) (count + 1) value after
      else Gives ((next false).run tokens) count value after := by
  by_cases hahead : kindAhead tokens count = some kind
  · obtain ⟨_, hkind, htoken, -⟩ := ahead_of_kindAhead hahead
    simp only [consume, bind_assoc, gives_get_bind, gives_read_bind, gives_set_bind, htoken,
      hkind, hahead, if_true, pure_bind]
  · simp only [consume, bind_assoc, gives_get_bind, gives_read_bind, hahead, if_false]
    cases htoken : tokens[count]? with
    | none => simp only [pure_bind]
    | some token =>
      have hkind : token.kind ≠ kind := by
        intro hkind
        exact hahead (by simp [kindAhead, htoken, hkind])
      simp only [hkind, if_false, pure_bind]

/-- The operator of a level that is next. -/
def operatorAhead (level : Level) (tokens : Array Token) (count : Nat) : Option Operator :=
  (kindAhead tokens count).bind fun kind => List.lookup kind level

theorem gives_operator?_bind {level : Level} {next : Option Operator → Parser α} {value : α} :
    Gives ((operator? level >>= next).run tokens) count value after ↔
      Gives ((next (operatorAhead level tokens count)).run tokens)
        (count + (operatorAhead level tokens count).toList.length) value after := by
  induction level with
  | nil =>
    have hnone : operatorAhead [] tokens count = none := by
      simp [operatorAhead]
    simp only [hnone, operator?, pure_bind]
    rfl
  | cons entry rest ih =>
    obtain ⟨kind, operator⟩ := entry
    simp only [operator?, bind_assoc, gives_consume_bind]
    by_cases hahead : kindAhead tokens count = some kind
    · have hsome : operatorAhead ((kind, operator) :: rest) tokens count = some operator := by
        simp [operatorAhead, hahead]
      simp only [hahead, hsome, if_true, pure_bind]
      rfl
    · have hrest : operatorAhead ((kind, operator) :: rest) tokens count =
          operatorAhead rest tokens count := by
        cases hkind : kindAhead tokens count with
        | none => simp [operatorAhead, hkind]
        | some found =>
          have hne : (found == kind) = false := by
            simpa [hkind] using hahead
          simp [operatorAhead, hkind, List.lookup_cons, hne]
      simp only [hahead, if_false, hrest, Bool.false_eq_true]
      exact ih

/-! ## Operands and operators -/

section

variable {operand primary : Parser Term} {level : Level} {steps : Nat} {left claim : Term}

theorem gives_bind_run {β : Type} {first : Parser β} {next : β → Parser α} {value : α} :
    Gives ((first >>= next).run tokens) count value after ↔
      ∃ between middle, Gives (first.run tokens) count between middle ∧
        Gives ((next between).run tokens) middle value after := by
  rw [ReaderT.run_bind, gives_bind]

theorem gives_pure_run {value result : α} :
    Gives ((pure value : Parser α).run tokens) count result after ↔
      value = result ∧ count = after := by
  rw [ReaderT.run_pure, gives_pure]

theorem gives_chainFrom_zero :
    Gives ((chainFrom level operand 0 left).run tokens) count claim after ↔
      left = claim ∧ count = after :=
  gives_pure_run

theorem gives_chainFrom_succ :
    Gives ((chainFrom level operand (steps + 1) left).run tokens) count claim after ↔
      match operatorAhead level tokens count with
      | some operator => ∃ right middle, Gives (operand.run tokens) (count + 1) right middle ∧
          Gives ((chainFrom level operand steps (.binary left operator right)).run tokens)
            middle claim after
      | none => left = claim ∧ count = after := by
  rw [chainFrom, gives_operator?_bind]
  cases operatorAhead level tokens count with
  | none => exact gives_pure_run
  | some => exact gives_bind_run

theorem gives_chain : Gives ((chain level operand).run tokens) count claim after ↔
      ∃ left middle, Gives (operand.run tokens) count left middle ∧
        Gives ((chainFrom level operand tokens.size left).run tokens) middle claim after := by
  rw [chain, gives_bind_run]
  rfl

theorem exists_and_ends {reads : Term → Nat → Prop} {makes : Term → Prop} :
    (∃ inner middle, reads inner middle ∧ makes inner ∧ middle = after) ↔
      ∃ inner, reads inner after ∧ makes inner := by
  constructor
  · rintro ⟨inner, _, hinner, hmakes, rfl⟩
    exact ⟨inner, hinner, hmakes⟩
  · rintro ⟨inner, hinner, hmakes⟩
    exact ⟨inner, after, hinner, hmakes, rfl⟩

theorem gives_unaryOver : Gives ((unaryOver primary).run tokens) count claim after ↔
      match operatorAhead unaryLevel tokens count with
      | some operator => ∃ inner, Gives (primary.run tokens) (count + 1) inner after ∧
          .unary operator inner = claim
      | none => Gives (primary.run tokens) count claim after := by
  rw [unaryOver, gives_operator?_bind]
  cases operatorAhead unaryLevel tokens count with
  | none => rfl
  | some =>
    simp only [gives_bind_run, gives_pure_run]
    exact exists_and_ends

theorem gives_logicalOver : Gives ((logicalOver primary).run tokens) count claim after ↔
      if kindAhead tokens count = some .not then
        ∃ inner, Gives ((equalityOver primary).run tokens) (count + 1) inner after ∧
          .unary .not inner = claim
      else Gives ((chain logicalLevel (equalityOver primary)).run tokens) count claim after := by
  rw [logicalOver, gives_consume_bind]
  by_cases hnot : kindAhead tokens count = some .not
  · simp only [hnot, if_true, gives_bind_run, gives_pure_run]
    exact exists_and_ends
  · simp only [hnot, if_false, Bool.false_eq_true]

end

/-! ## Quantifiers -/

section

variable {primary expression : Parser Term} {quantifier : Quantifier} {claim : Term}

theorem gives_close {quantified : Term} : Gives ((close quantified).run tokens) count claim after ↔
      (quantified.closeBinder.run WriteLog.empty).1 = .ok claim ∧ count = after := by
  unfold close
  cases (quantified.closeBinder.run WriteLog.empty).1 with
  | error => simp
  | ok => simp

/-- What follows the word of a quantifier whose bound variable has no type. -/
theorem gives_quantifiedBy
    (hcolon : ∀ binder middle, Gives (primary.run tokens) count binder middle →
      kindAhead tokens middle ≠ some .colon) :
    Gives ((quantifiedBy quantifier primary expression).run tokens) count claim after ↔
      ∃ binder middle body, Gives (primary.run tokens) count binder middle ∧
        kindAhead tokens middle = some .doubleColon ∧
        Gives (expression.run tokens) (middle + 1) body after ∧
        ((Term.quantified quantifier binder none .missing body false).closeBinder.run
          WriteLog.empty).1 = .ok claim := by
  rw [quantifiedBy, gives_bind_run]
  refine exists_congr fun binder => exists_congr fun middle => ?_
  rw [exists_and_left]
  refine and_congr_right fun hbinder => ?_
  simp only [gives_consume_bind, hcolon binder middle hbinder, if_false, Bool.false_eq_true]
  by_cases hseparator : kindAhead tokens middle = some .doubleColon
  · simp only [hseparator, if_true, gives_bind_run, gives_close, true_and]
    exact exists_and_ends
  · simp only [hseparator, if_false, false_and, exists_false, gives_bind_run,
      not_gives_throw_run, and_false]

theorem gives_expressionOver :
    Gives ((expressionOver primary expression).run tokens) count claim after ↔
      if kindAhead tokens count = some .forallKind then
        Gives ((quantifiedBy .universal primary expression).run tokens) (count + 1) claim after
      else if kindAhead tokens count = some .existsKind then
        Gives ((quantifiedBy .existential primary expression).run tokens) (count + 1) claim after
      else Gives ((logicalOver primary).run tokens) count claim after := by
  simp only [expressionOver, gives_consume_bind, if_true, Bool.false_eq_true, if_false]

end

/-! ## Primaries -/

section

variable {expression sum : Parser Term} {claim : Term} {token : Token}

theorem gives_current_bind {next : Option Token → Parser α} {value : α} :
    Gives ((current >>= next).run tokens) (count + 1) value after ↔
      Gives ((next tokens[count]?).run tokens) (count + 1) value after :=
  Iff.rfl

theorem gives_currentText_bind {next : String → Parser α} {value : α}
    (htoken : tokens[count]? = some token) :
    Gives ((currentText >>= next).run tokens) (count + 1) value after ↔
      Gives ((next token.text).run tokens) (count + 1) value after := by
  simp only [currentText, bind_assoc, gives_current_bind, htoken, pure_bind]

theorem gives_advance_bind {next : Unit → Parser α} {value : α} :
    Gives ((advance >>= next).run tokens) count value after ↔
      Gives ((next ()).run tokens) (if count ≤ tokens.size then count + 1 else count)
        value after := by
  simp only [advance, bind_assoc, gives_get_bind, gives_read_bind]
  by_cases hsize : count ≤ tokens.size
  · simp only [hsize, if_true, gives_set_bind]
  · simp only [hsize, if_false, pure_bind]

/-- The token in the place of the closing parenthesis is passed over first and
looked at then; past the end there is none. -/
theorem gives_advance_current_bind {next : Option Token → Parser α} {value : α}
    (hnone : ∀ state, ¬ Gives ((next none).run tokens) state value after) :
    Gives ((advance >>= fun _ => current >>= next).run tokens) count value after ↔
      Gives ((next tokens[count]?).run tokens) (count + 1) value after := by
  rw [gives_advance_bind]
  by_cases hsize : count ≤ tokens.size
  · rw [if_pos hsize, gives_current_bind]
  · rw [if_neg hsize]
    obtain ⟨index, rfl⟩ : ∃ index, count = index + 1 := ⟨count - 1, by omega⟩
    rw [gives_current_bind, Array.getElem?_eq_none (by omega), Array.getElem?_eq_none (by omega)]
    exact iff_of_false (hnone _) (hnone _)

theorem gives_parenthesized : Gives ((parenthesized expression).run tokens) count claim after ↔
      ∃ middle, Gives (expression.run tokens) count claim middle ∧
        kindAhead tokens middle = some .rparen ∧ middle + 1 = after := by
  rw [parenthesized, gives_bind_run, exists_comm]
  refine exists_congr fun middle => ?_
  refine (exists_congr fun inner => and_congr_right fun _ => (?_ : _ ↔
    inner = claim ∧ kindAhead tokens middle = some .rparen ∧ middle + 1 = after)).trans ?_
  · rw [gives_advance_current_bind (by simp)]
    cases htoken : tokens[middle]? with
    | none => simp [kindAhead, htoken]
    | some token =>
      by_cases hkind : token.kind = .rparen
      · simp [kindAhead, htoken, hkind]
      · simp [kindAhead, htoken, hkind]
  · constructor
    · rintro ⟨_, hinner, rfl, hrest⟩
      exact ⟨hinner, hrest⟩
    · rintro ⟨hinner, hrest⟩
      exact ⟨claim, hinner, rfl, hrest⟩

theorem gives_integerLiteral {digits : String} :
    Gives ((integerLiteral digits).run tokens) count claim after ↔
      ∃ value, Text.readInteger? digits = some value ∧ .int value = claim ∧ count = after := by
  unfold integerLiteral
  cases Text.readInteger? digits with
  | none => simp
  | some => simp

/-- What follows an opening bracket where no slice is written. -/
theorem gives_indexOf {array : Term} (hstart : kindAhead tokens count ≠ some .colon)
    (hcolon : ∀ index middle, Gives (sum.run tokens) count index middle →
      kindAhead tokens middle ≠ some .colon) :
    Gives ((indexOf array sum).run tokens) count claim after ↔
      ∃ index middle, Gives (sum.run tokens) count index middle ∧
        kindAhead tokens middle = some .rbracket ∧
        .subscript 0 array index = claim ∧ middle + 1 = after := by
  simp only [indexOf, gives_consume_bind, hstart, if_false, Bool.false_eq_true]
  rw [gives_bind_run]
  refine exists_congr fun index => exists_congr fun middle => and_congr_right fun hindex => ?_
  simp only [gives_consume_bind, hcolon index middle hindex, if_false, Bool.false_eq_true]
  by_cases hclosing : kindAhead tokens middle = some .rbracket
  · simp only [hclosing, if_true, gives_pure_run, true_and]
  · simp only [hclosing, if_false, gives_bind_run, not_gives_throw_run, and_false,
      exists_false, false_and]

theorem gives_primaryOver_lparen (hkind : kindAhead tokens count = some .lparen) :
    Gives ((primaryOver expression sum).run tokens) count claim after ↔
      Gives ((parenthesized expression).run tokens) (count + 1) claim after := by
  simp only [primaryOver, gives_consume_bind, hkind, if_true]

theorem gives_primaryOver_int (hkind : kindAhead tokens count = some .int)
    (htoken : tokens[count]? = some token) :
    Gives ((primaryOver expression sum).run tokens) count claim after ↔
      ∃ value, Text.readInteger? token.text = some value ∧ .int value = claim ∧
        count + 1 = after := by
  simp only [primaryOver, gives_consume_bind, hkind, Option.some.injEq, reduceCtorEq, if_true,
    if_false, Bool.false_eq_true, gives_currentText_bind htoken, gives_integerLiteral]

theorem gives_primaryOver_bool (hkind : kindAhead tokens count = some .bool)
    (htoken : tokens[count]? = some token) :
    Gives ((primaryOver expression sum).run tokens) count claim after ↔
      .bool (token.text = "True") = claim ∧ count + 1 = after := by
  simp only [primaryOver, gives_consume_bind, hkind, Option.some.injEq, reduceCtorEq, if_true,
    if_false, Bool.false_eq_true, gives_currentText_bind htoken, gives_pure_run]

theorem gives_primaryOver_var (hkind : kindAhead tokens count = some .var)
    (htoken : tokens[count]? = some token) :
    Gives ((primaryOver expression sum).run tokens) count claim after ↔
      if kindAhead tokens (count + 1) = some .lbracket then
        Gives ((indexOf (.var token.text) sum).run tokens) (count + 2) claim after
      else .var token.text = claim ∧ count + 1 = after := by
  simp only [primaryOver, gives_consume_bind, hkind, Option.some.injEq, reduceCtorEq, if_true,
    if_false, Bool.false_eq_true, gives_currentText_bind htoken, gives_pure_run]

/-- Where no primary starts, the operand is missing. -/
theorem gives_primaryOver_missing (hkind : ∀ kind ∈ [TokenKind.lparen, .int, .bool, .var],
      kindAhead tokens count ≠ some kind) :
    Gives ((primaryOver expression sum).run tokens) count claim after ↔
      .missing = claim ∧ count = after := by
  simp only [List.forall_mem_cons] at hkind
  obtain ⟨hlparen, hint, hbool, hvar, -⟩ := hkind
  simp only [primaryOver, gives_consume_bind, hlparen, hint, hbool, hvar, if_false,
    Bool.false_eq_true, gives_pure_run]

end

end HoareCheck.Parser
