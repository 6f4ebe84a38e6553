import HoareCheck.Source.Parser
import Mathlib.Data.List.TakeWhile
import Mathlib.Tactic.SplitIfs

/-!
# Names and faults of the lexer

The names that a program mentions, and those among its tokens.  What holds of the
words that can be written holds of the names among the tokens of a text, and a
text without tokens is ill formed (`yields_lex`).
-/

namespace HoareCheck.Source

variable {state : LexerState}

/-! ## Names of programs -/

mutual

/-- All names that an expression mentions are of a kind; fields are no names. -/
def Expr.NamesAre (good : String → Prop) : Expr → Prop
  | .name id => good id
  | .constant _ => True
  | .logical _ left right | .binary left _ right | .subscript left right =>
    left.NamesAre good ∧ right.NamesAre good
  | .compare left _ right _ more =>
    left.NamesAre good ∧ right.NamesAre good ∧ namesOfAll good more
  | .unary _ operand | .member operand _ => operand.NamesAre good
  | .call function arguments => function.NamesAre good ∧ namesOfAll good arguments
  | .slice lower upper step =>
    namesOfBound good lower ∧ namesOfBound good upper ∧ namesOfBound good step
  | .tuple items | .list items => namesOfAll good items

@[inherit_doc Expr.NamesAre]
def namesOfAll (good : String → Prop) : List Expr → Prop
  | [] => True
  | first :: rest => first.NamesAre good ∧ namesOfAll good rest

@[inherit_doc Expr.NamesAre]
def namesOfBound (good : String → Prop) : Option Expr → Prop
  | none => True
  | some bound => bound.NamesAre good

end

mutual

/-- All names that a statement mentions are of a kind; the name of a function
that is defined is none. -/
def Stmt.NamesAre (good : String → Prop) : Stmt → Prop
  | .functionDef _ body => namesOfBlock good body
  | .assign targets value => namesOfAll good targets ∧ value.NamesAre good
  | .augmented target _ value => target.NamesAre good ∧ value.NamesAre good
  | .annotated target type value =>
    target.NamesAre good ∧ type.NamesAre good ∧ namesOfBound good value
  | .ifElse test body orElse | .whileLoop test body orElse =>
    test.NamesAre good ∧ namesOfBlock good body ∧ namesOfBlock good orElse
  | .forLoop target iterated body orElse =>
    target.NamesAre good ∧ iterated.NamesAre good ∧ namesOfBlock good body ∧
      namesOfBlock good orElse
  | .assert test message => test.NamesAre good ∧ namesOfBound good message
  | .returned value => namesOfBound good value
  | .pass | .breakLoop | .continueLoop => True
  | .expr value => value.NamesAre good

@[inherit_doc Stmt.NamesAre]
def namesOfBlock (good : String → Prop) : List Stmt → Prop
  | [] => True
  | first :: rest => first.NamesAre good ∧ namesOfBlock good rest

end

/-- What a parser may give, with the names in it. -/
class Named (α : Type) where
  NamesAre : (String → Prop) → α → Prop

open Named (NamesAre)

instance : Named Expr := ⟨Expr.NamesAre⟩

instance : Named Stmt := ⟨Stmt.NamesAre⟩

instance : Named (List Expr) := ⟨namesOfAll⟩

instance : Named (Option Expr) := ⟨namesOfBound⟩

instance : Named (List Stmt) := ⟨namesOfBlock⟩

instance {α β : Type} [Named α] [Named β] : Named (α × β) :=
  ⟨fun good pair => NamesAre good pair.1 ∧ NamesAre good pair.2⟩

/-- The names of a token. -/
def Token.NamesAre (good : String → Prop) : Token → Prop
  | .name text => good text
  | _ => True

instance : Named Token := ⟨Token.NamesAre⟩

instance : Named (List Token) := ⟨fun good tokens => ∀ token ∈ tokens, token.NamesAre good⟩

instance : Named (Option Token) := ⟨fun good token => ∀ next, token = some next → next.NamesAre good⟩

/-- Values that hold no name. -/
class Nameless (α : Type)

instance : Nameless Bool where
instance : Nameless Nat where
instance : Nameless PUnit where
instance : Nameless String where
instance : Nameless BinaryOp where
instance : Nameless UnaryOp where
instance : Nameless CompareOp where
instance {α : Type} [Nameless α] : Nameless (List α) where
instance {α : Type} [Nameless α] : Nameless (Option α) where

instance {α : Type} [Nameless α] : Named α := ⟨fun _ _ => True⟩

attribute [grind =] Expr.NamesAre namesOfAll namesOfBound Stmt.NamesAre namesOfBlock
  Token.NamesAre

section Names

variable {α β : Type} [Named α] [Named β] {good : String → Prop}

@[grind =]
theorem namesAre_expr (value : Expr) : NamesAre good value = value.NamesAre good := rfl

@[grind =]
theorem namesAre_stmt (value : Stmt) : NamesAre good value = value.NamesAre good := rfl

@[grind =]
theorem namesAre_exprs (values : List Expr) : NamesAre good values = namesOfAll good values := rfl

@[grind =]
theorem namesAre_bound (value : Option Expr) : NamesAre good value = namesOfBound good value := rfl

@[grind =]
theorem namesAre_block (values : List Stmt) : NamesAre good values = namesOfBlock good values := rfl

@[grind =]
theorem namesAre_pair {first : α} {second : β} :
    NamesAre good (first, second) = (NamesAre good first ∧ NamesAre good second) := rfl

@[grind .]
theorem namesAre_of_nameless {γ : Type} [Nameless γ] (value : γ) : NamesAre good value :=
  trivial

@[grind =]
theorem namesAre_tokens (tokens : List Token) : NamesAre good tokens = ∀ token ∈ tokens, token.NamesAre good := rfl

@[grind =]
theorem namesAre_next (token : Option Token) : NamesAre good token = ∀ next, token = some next → next.NamesAre good := rfl

@[grind =]
theorem namesOfAll_append (first second : List Expr) :
    namesOfAll good (first ++ second) ↔ namesOfAll good first ∧ namesOfAll good second := by
  induction first with
  | nil => simp [namesOfAll]
  | cons _ _ ih => simp [namesOfAll, ih, and_assoc]

@[grind =]
theorem namesOfBlock_append (first second : List Stmt) : namesOfBlock good (first ++ second) ↔
      namesOfBlock good first ∧ namesOfBlock good second := by
  induction first with
  | nil => simp [namesOfBlock]
  | cons _ _ ih => simp [namesOfBlock, ih, and_assoc]

end Names

/-- An outcome is a value of a kind, or the text is ill formed. -/
def Yields {α : Type} (kind : α → Prop) : Except Fault α → Prop
  | .ok value => kind value
  | .error fault => fault = .illFormedSource

theorem yields_bind {α β : Type} {first : Except Fault α} {next : α → Except Fault β}
    {kind : α → Prop} {resultKind : β → Prop} (hfirst : Yields kind first)
    (hnext : ∀ value, kind value → Yields resultKind (next value)) :
    Yields resultKind (first >>= next) := by
  cases first with
  | error => exact hfirst
  | ok value => exact hnext value hfirst

/-! ## Tokens -/

section Tokens

variable {good : String → Prop}

theorem yields_closeTo (depth : Indentation) {tokens : List Token} (htokens : NamesAre good tokens)
    (indentations : List Indentation) : Yields (fun closed => NamesAre good closed.2)
      (LexerState.closeTo depth tokens indentations) := by
  induction indentations generalizing tokens with
  | nil => rfl
  | cons _ _ ih =>
    rw [LexerState.closeTo]
    split_ifs
    · exact htokens
    · rfl
    · exact ih (List.forall_mem_cons.mpr ⟨trivial, htokens⟩)
    · rfl

theorem yields_indentTo (depth : Indentation) (htokens : NamesAre good state.tokens) :
    Yields (fun next => NamesAre good next.tokens) (state.indentTo depth) := by
  rw [LexerState.indentTo]
  cases state.indentations with
  | nil => rfl
  | cons current rest =>
    dsimp only
    split_ifs
    · exact List.forall_mem_cons.mpr ⟨trivial, htokens⟩
    · rfl
    · apply yields_bind (yields_closeTo depth htokens (current :: rest))
      intro closed hclosed
      exact hclosed

theorem namesAre_push {token : Token} (htoken : token.NamesAre good)
    (htokens : NamesAre good state.tokens) : NamesAre good (state.push token).tokens :=
  List.forall_mem_cons.mpr ⟨htoken, htokens⟩

theorem yields_addSign (sign : String) (htokens : NamesAre good state.tokens) :
    Yields (fun next => NamesAre good next.tokens) (state.addSign sign) := by
  have hpushed : NamesAre good (state.push (.sign sign)).tokens := namesAre_push trivial htokens
  rw [LexerState.addSign]
  cases closing? sign with
  | some => exact hpushed
  | none =>
    dsimp only
    split_ifs
    · cases (state.push (.sign sign)).awaited with
      | nil => rfl
      | cons =>
        dsimp only
        split_ifs
        · exact hpushed
        · rfl
    · exact hpushed

theorem yields_finish (inLine : Bool) (htokens : NamesAre good state.tokens) :
    Yields (NamesAre good) (state.finish inLine) := by
  rw [LexerState.finish]
  split_ifs with hawaited hline
  · intro token htoken
    simp only [List.mem_reverse, List.mem_append, List.mem_replicate, List.mem_cons] at htoken
    rcases htoken with ⟨-, rfl⟩ | rfl | htoken
    · trivial
    · trivial
    · exact htokens token htoken
  · intro token htoken
    simp only [List.mem_reverse, List.mem_append, List.mem_replicate] at htoken
    rcases htoken with ⟨-, rfl⟩ | htoken
    · trivial
    · exact htokens token htoken
  · rfl

/-! A number or a text is a constant. -/

theorem yields_lexText (quote : Char) (text : List Char) :
    Yields (fun read => read.1.NamesAre good) (lexText quote text) := by
  rw [lexText]
  split
  · trivial
  · rfl

theorem yields_lexBase (base : Nat) (isDigit : Char → Bool) (text : List Char) :
    Yields (fun read => read.1.NamesAre good) (lexBase base isDigit text) := by
  rw [lexBase]
  rcases digitRun isDigit text with ⟨digits, rest⟩
  dsimp only
  split_ifs
  · rfl
  · trivial

theorem yields_decimalInteger (digits : List Char) :
    Yields (fun _ => True) (decimalInteger digits) := by
  rw [decimalInteger]
  split_ifs
  · rfl
  · rfl
  · trivial

theorem yields_lexDecimal (text : List Char) :
    Yields (fun read => read.1.NamesAre good) (lexDecimal text) := by
  unfold lexDecimal
  dsimp only
  split_ifs
  · rfl
  · rfl
  · trivial
  · exact yields_bind (yields_decimalInteger _) fun _ _ => trivial

theorem yields_lexNumber (text : List Char) :
    Yields (fun read => read.1.NamesAre good) (lexNumber text) := by
  unfold lexNumber
  split
  · split_ifs
    · exact yields_lexBase _ _ _
    · exact yields_lexBase _ _ _
    · exact yields_lexBase _ _ _
    · exact yields_lexDecimal _
  · exact yields_lexDecimal _

/-- The kind holds of the normal form of every word that may be a name. -/
def HoldsOfWords (good : String → Prop) : Prop :=
  ∀ word : List Char,
    (∀ char ∈ word, Text.startsIdentifier char = true ∨ Text.continuesIdentifier char = true) →
    good (Text.normalForm (String.ofList word))

theorem yields_lexToken (hwords : HoldsOfWords good) (htokens : NamesAre good state.tokens)
    (text : List Char) :
    Yields (fun read => NamesAre good read.1.tokens) (lexToken state text) := by
  cases text with
  | nil => exact htokens
  | cons char rest =>
    rw [lexToken]
    dsimp only
    split_ifs with hnumber hquote hstart hkeyword
    · apply yields_bind (yields_lexNumber (char :: rest))
      intro read hread
      exact namesAre_push hread htokens
    · apply yields_bind (yields_lexText char rest)
      intro read hread
      exact namesAre_push hread htokens
    · exact namesAre_push trivial htokens
    · refine namesAre_push (hwords _ ?_) htokens
      intro other hother
      rcases List.mem_cons.mp hother with rfl | hother
      · exact .inl hstart
      · exact .inr (List.mem_takeWhile_imp hother)
    · split
      · apply yields_bind (yields_addSign _ htokens)
        intro next hnext
        exact hnext
      · rfl

theorem yields_lexFrom (hwords : HoldsOfWords good) (htokens : NamesAre good state.tokens)
    (inLine : Bool) (text : List Char) (count : Nat) :
    Yields (NamesAre good) (lexFrom state inLine text count) := by
  induction count generalizing state inLine text with
  | zero => rfl
  | succ _ ih =>
    cases text with
    | nil => exact yields_finish inLine htokens
    | cons char rest =>
      unfold lexFrom
      dsimp only
      split_ifs with hline hblank hcomment hend hawaited hbackslash
      · split
        · exact yields_finish false htokens
        · exact ih htokens _ _
        · exact ih htokens _ _
        · apply yields_bind (yields_indentTo _ htokens)
          intro next hnext
          exact ih hnext _ _
      · exact ih htokens _ _
      · exact ih htokens _ _
      · apply ih
        exact namesAre_push trivial htokens
      · exact ih htokens _ _
      · split
        · split_ifs
          · rfl
          · exact ih htokens _ _
        · rfl
      · apply yields_bind (yields_lexToken hwords htokens (char :: rest))
        intro read hread
        exact ih hread _ _

theorem yields_lex (hwords : HoldsOfWords good) (program : String) :
    Yields (NamesAre good) (lex program) := by
  rw [lex]
  split_ifs
  · rfl
  · exact yields_lexFrom hwords (fun _ htoken => absurd htoken List.not_mem_nil) false _ _

end Tokens

end HoareCheck.Source
