import HoareCheck.Claim.Substitution
import HoareCheck.Claim.Token
import HoareCheck.Text.Integer
import Mathlib.Data.Nat.Digits.Defs

/-!
# Grammar of claims

The claim language as a context-free grammar over tokens, each production with
the term that it writes:

```
expression = ("forall" | "exists") primary "::" expression | logical
logical    = "not" equality | connection
connection = equality | connection ("and" | "or" | "==>" | "<==>") equality
equality   = relational | equality ("==" | "!=" | "~") relational
relational = sum | relational ("<" | "<=" | ">" | ">=") sum
sum        = product | sum ("+" | "-") product
product    = unary | product ("*" | "/" | "%") unary
unary      = primary | ("+" | "-" | "||") primary
primary    = bool | int | var | var "[" sum "]" | "(" expression ")"
```

Left recursion makes every binary operator associate to the left.  Slices and
the types of bound variables, which a single colon introduces, have no place
here.
-/

namespace HoareCheck

/-- The levels of binary operators, from the loosest to the tightest. -/
inductive Tier
  | connection | equality | relational | sum | product
  deriving DecidableEq, Repr

/-- The syntactic categories of claims. -/
inductive Category
  | expression | logical
  | tier (tier : Tier)
  | unary | primary
  deriving DecidableEq, Repr

namespace Tier

/-- The operators of a level, by the kind of the token that writes them. -/
def operators : Tier → List (TokenKind × Operator)
  | .connection => [(.and, .and), (.or, .or), (.implies, .implies), (.iff, .iff)]
  | .equality => [(.eq, .eq), (.neq, .neq), (.adjacent, .adjacent)]
  | .relational => [(.lt, .lt), (.le, .le), (.gt, .gt), (.ge, .ge)]
  | .sum => [(.plus, .add), (.minus, .minus)]
  | .product => [(.mult, .mult), (.div, .div), (.mod, .mod)]

/-- What the operators of a level join. -/
def operand : Tier → Category
  | .connection => .tier .equality
  | .equality => .tier .relational
  | .relational => .tier .sum
  | .sum => .tier .product
  | .product => .unary

end Tier

/-- The operators that stand before a primary. -/
def signOperators : List (TokenKind × Operator) :=
  [(.plus, .add), (.minus, .minus), (.abs, .abs)]

namespace Quantifier

/-- The kind of the token that writes a quantifier. -/
def tokenKind : Quantifier → TokenKind
  | .universal => .forallKind
  | .existential => .existsKind

end Quantifier

namespace Token

/-- The number that an integer token writes in decimal, if it is not too long. -/
def Writes (token : Token) (value : Nat) : Prop :=
  ∃ digits : List Nat, token.text.toList.map Text.digitValue? = digits.map some ∧
    digits ≠ [] ∧ digits.length ≤ Text.maxDigits ∧ value = Nat.ofDigits 10 digits.reverse

end Token

/-- A category derives a row of tokens, which writes a term. -/
inductive Derives : Category → List Token → Term → Prop
  | logical {read : List Token} {claim : Term} (hclaim : Derives .logical read claim) :
      Derives .expression read claim
  /-- The bound variable is renamed apart as soon as the quantifier is complete. -/
  | quantified {quantifier : Quantifier} {word separator : Token} {name : String}
      {binder read : List Token} {body closed : Term}
      (hword : word.kind = quantifier.tokenKind)
      (hbinder : Derives .primary binder (.var name))
      (hseparator : separator.kind = .doubleColon)
      (hbody : Derives .expression read body)
      (hclosed : ((Term.quantified quantifier (.var name) none .missing body
        false).closeBinder.run WriteLog.empty).1 = .ok closed) :
      Derives .expression (word :: (binder ++ separator :: read)) closed
  | negation {word : Token} {read : List Token} {claim : Term} (hword : word.kind = .not)
      (hclaim : Derives (.tier .equality) read claim) :
      Derives .logical (word :: read) (.unary .not claim)
  | connection {read : List Token} {claim : Term}
      (hclaim : Derives (.tier .connection) read claim) : Derives .logical read claim
  | operand {tier : Tier} {read : List Token} {claim : Term}
      (hclaim : Derives tier.operand read claim) : Derives (.tier tier) read claim
  | operation {tier : Tier} {sign : Token} {operator : Operator}
      {first second : List Token} {left right : Term}
      (hleft : Derives (.tier tier) first left)
      (hsign : (sign.kind, operator) ∈ tier.operators)
      (hright : Derives tier.operand second right) :
      Derives (.tier tier) (first ++ sign :: second) (.binary left operator right)
  | unsigned {read : List Token} {claim : Term} (hclaim : Derives .primary read claim) :
      Derives .unary read claim
  | signed {sign : Token} {operator : Operator} {read : List Token} {claim : Term}
      (hsign : (sign.kind, operator) ∈ signOperators) (hclaim : Derives .primary read claim) :
      Derives .unary (sign :: read) (.unary operator claim)
  | truth {word : Token} (hword : word.kind = .bool) :
      Derives .primary [word] (.bool (word.text = "True"))
  | number {digits : Token} {value : Nat} (hdigits : digits.kind = .int)
      (hvalue : digits.Writes value) : Derives .primary [digits] (.int value)
  | name {name : Token} (hname : name.kind = .var) :
      Derives .primary [name] (.var name.text)
  | element {name opening closing : Token} {read : List Token} {index : Term}
      (hname : name.kind = .var) (hopening : opening.kind = .lbracket)
      (hindex : Derives (.tier .sum) read index) (hclosing : closing.kind = .rbracket) :
      Derives .primary (name :: opening :: (read ++ [closing]))
        (.subscript 0 (.var name.text) index)
  | group {opening closing : Token} {read : List Token} {claim : Term}
      (hopening : opening.kind = .lparen) (hclaim : Derives .expression read claim)
      (hclosing : closing.kind = .rparen) :
      Derives .primary (opening :: (read ++ [closing])) claim

/-- The kinds of tokens that a row of a category may start with. -/
def Category.starts : Category → List TokenKind
  | .expression =>
    [.forallKind, .existsKind, .not, .plus, .minus, .abs, .bool, .int, .var, .lparen]
  | .logical => [.not, .plus, .minus, .abs, .bool, .int, .var, .lparen]
  | .tier _ | .unary => [.plus, .minus, .abs, .bool, .int, .var, .lparen]
  | .primary => [.bool, .int, .var, .lparen]

/-- Every category derives at least one token, and its first one tells what the
row may be. -/
theorem Derives.exists_head {category : Category} {read : List Token} {claim : Term}
    (hderives : Derives category read claim) :
    ∃ token rest, read = token :: rest ∧ token.kind ∈ category.starts := by
  induction hderives with
  | logical _ ih | connection _ ih | unsigned _ ih =>
    obtain ⟨token, rest, rfl, hkind⟩ := ih
    exact ⟨token, rest, rfl, by revert hkind; simp only [Category.starts]; grind⟩
  | @operand tier _ _ _ ih =>
    obtain ⟨token, rest, rfl, hkind⟩ := ih
    exact ⟨token, rest, rfl, by cases tier <;> exact hkind⟩
  | operation _ _ _ ihleft =>
    obtain ⟨token, _, rfl, hkind⟩ := ihleft
    exact ⟨token, _, rfl, hkind⟩
  | @quantified quantifier _ _ _ _ _ _ _ hword =>
    refine ⟨_, _, rfl, ?_⟩
    cases quantifier <;> simp [hword, Quantifier.tokenKind, Category.starts]
  | signed hsign =>
    refine ⟨_, _, rfl, ?_⟩
    simp only [signOperators, List.mem_cons, Prod.mk.injEq, List.not_mem_nil, or_false] at hsign
    simp only [Category.starts]
    grind
  | negation htoken | truth htoken | number htoken | name htoken | element htoken | group htoken =>
    exact ⟨_, _, rfl, by simp [htoken, Category.starts]⟩

namespace Term

/-- Whether a term is an expression none of whose operands is missing.  The
type of a bound variable is no operand. -/
def isComplete : Term → Bool
  | .var _ | .literal _ => true
  | .slice lower upper => lower.isComplete && upper.isComplete
  | .subscript _ array index => array.isComplete && index.isComplete
  | .unary _ operand => operand.isComplete
  | .binary left _ right => left.isComplete && right.isComplete
  | .quantified _ binder _ _ body _ => binder.isComplete && body.isComplete
  | _ => false

end Term

end HoareCheck
