import HoareCheck.Proofs.Characters

/-!
# Tokens and the texts that write them

A text writes a row of tokens if it spells them one after the other, with
blanks between them.  The scanner finds the tokens of such a text.  Of any text
at all, the scanner takes every character into a token or passes over it.
-/

namespace HoareCheck

variable {spelling rest text : List Char} {char first : Char}
  {spellings : List (List Char × TokenKind)} {before : Option Char} {kind : TokenKind}
  {tokens : List Token} {found : List Char × TokenKind}

/-- The one spelling of a sign or a keyword. -/
def TokenKind.spelling? : TokenKind → Option String
  | .plus => some "+"
  | .minus => some "-"
  | .mult => some "*"
  | .div => some "/"
  | .mod => some "%"
  | .abs => some "||"
  | .and => some "and"
  | .or => some "or"
  | .not => some "not"
  | .iff => some "<==>"
  | .implies => some "==>"
  | .forallKind => some "forall"
  | .existsKind => some "exists"
  | .le => some "<="
  | .lt => some "<"
  | .ge => some ">="
  | .gt => some ">"
  | .eq => some "=="
  | .neq => some "!="
  | .adjacent => some "~"
  | .lparen => some "("
  | .rparen => some ")"
  | .lbracket => some "["
  | .rbracket => some "]"
  | .comma => some ","
  | .doubleColon => some "::"
  | .colon => some ":"
  | .int | .bool | .var => none

namespace Token

/-- The words that no variable is called, not even before a `#`. -/
def reservedWords : List String :=
  ["True", "False", "and", "or", "not", "forall", "exists"]

/-- Whether a token is spelled as the language asks.  The digits of a number and
the characters of a name are those of ASCII. -/
def isSpelled (token : Token) : Bool :=
  match token.kind, token.text.toList with
  | .int, text => !text.isEmpty && text.all Char.isDigit
  | .bool, _ => token.text = "True" || token.text = "False"
  | .var, [] => false
  | .var, first :: rest =>
    (first.isAlpha || first = '_') &&
      rest.all (fun char => char.isAlphanum || char = '_' || char = '#') &&
      !reservedWords.contains (String.ofList ((first :: rest).takeWhile (· ≠ '#')))
  | kind, _ => kind.spelling? = some token.text

/-- Nothing, or a blank, is next in a text. -/
def IsGap (text : List Char) : Prop :=
  ∀ char ∈ text.head?, Text.isBlank char = true

/-- A text that spells a row of tokens with blanks between them. -/
inductive Written : List Token → List Char → Prop
  | nil : Written [] []
  | blank {tokens : List Token} {char : Char} {text : List Char}
      (hblank : Text.isBlank char = true) (hwritten : Written tokens text) :
      Written tokens (char :: text)
  | token {token : Token} {tokens : List Token} {text : List Char}
      (hspelled : token.isSpelled = true) (hgap : IsGap text) (hwritten : Written tokens text) :
      Written (token :: tokens) (token.text.toList ++ text)

/-! ## Spellings -/

section

variable {text gap : List Char} {before : Option Char}

theorem isPrefixOf_append_gap (hspelling : ∀ char ∈ spelling, Text.isBlank char = false)
    (hgap : IsGap gap) : spelling.isPrefixOf (text ++ gap) = spelling.isPrefixOf text := by
  induction spelling generalizing text with
  | nil => simp
  | cons char _ ih =>
    cases text with
    | nil =>
      cases gap with
      | nil => rfl
      | cons next =>
        have hne : char ≠ next := by
          rintro rfl
          have hblank := hgap char (by simp)
          rw [hspelling char (by simp)] at hblank
          contradiction
        simp [List.isPrefixOf, hne]
    | cons =>
      simp only [List.cons_append, List.isPrefixOf]
      rw [ih fun other hother => hspelling other (by simp [hother])]

theorem head?_drop_append_gap {length : Nat} (hlength : length ≤ text.length) (hgap : IsGap gap) :
    isWordAt ((text ++ gap).drop length).head? = isWordAt (text.drop length).head? := by
  rw [List.drop_append_of_le_length hlength]
  cases hdrop : text.drop length with
  | cons => rfl
  | nil =>
    cases gap with
    | nil => rfl
    | cons char =>
      simp [isWordAt, Text.isWord_eq_false_of_isBlank (hgap char (by simp))]

/-- A check of the characters of all entries of a table. -/
theorem of_all_all {α : Type} {entries : List (List Char × α)} {holds : Char → Bool}
    (hall : entries.all (·.1.all holds) = true) {entry : List Char × α} (hentry : entry ∈ entries)
    (hchar : char ∈ entry.1) : holds char = true :=
  List.all_eq_true.mp (List.all_eq_true.mp hall entry hentry) char hchar

theorem keyword?_append_gap (hgap : IsGap gap) :
    keyword? before (text ++ gap) = keyword? before text := by
  have hplain : ∀ keyword ∈ keywords, ∀ char ∈ keyword.1, Text.isBlank char = false := by
    intro keyword hkeyword char hchar
    simpa using of_all_all (by decide : keywords.all (·.1.all (!Text.isBlank ·)) = true)
      hkeyword hchar
  unfold keyword?
  congr 1
  refine List.find?_congr fun keyword hkeyword => ?_
  rw [isPrefixOf_append_gap (hplain keyword hkeyword) hgap]
  cases hstarts : keyword.1.isPrefixOf text with
  | false => rfl
  | true =>
    have hlength := (List.isPrefixOf_iff_prefix.mp hstarts).length_le
    rw [head?_drop_append_gap hlength hgap]

theorem spelled?_append_gap (hgap : IsGap gap) :
    spelled? signs (text ++ gap) = spelled? signs text := by
  have hplain : ∀ sign ∈ signs, ∀ char ∈ sign.1, Text.isBlank char = false := by
    intro sign hsign char hchar
    simpa using of_all_all (by decide : signs.all (·.1.all (!Text.isBlank ·)) = true) hsign hchar
  exact List.find?_congr fun sign hsign => isPrefixOf_append_gap (hplain sign hsign) hgap

theorem takeWhile_append_gap {keeps : Char → Bool}
    (hkeeps : ∀ char, Text.isBlank char = true → keeps char = false) (hgap : IsGap gap) :
    (text ++ gap).takeWhile keeps = text.takeWhile keeps := by
  have hstop : gap.takeWhile keeps = [] := by
    cases gap with
    | nil => rfl
    | cons char => simp [hkeeps char (hgap char (by simp))]
  rw [List.takeWhile_append, hstop, List.append_nil]
  split
  · next hall => exact (List.takeWhile_prefix keeps).eq_of_length hall |>.symm
  · rfl

theorem continuesVariable_eq_false_of_isBlank (hblank : Text.isBlank char = true) :
    continuesVariable char = false := by
  have hmark : char ≠ '#' := by
    rintro rfl
    exact absurd hblank (by decide)
  simp [continuesVariable, Text.isWord_eq_false_of_isBlank hblank, hmark]

/-- What follows a token after a gap does not matter to it. -/
theorem first?_append_gap (hne : text ≠ []) (hgap : IsGap gap) :
    first? before (text ++ gap) = first? before text := by
  cases text with
  | nil => contradiction
  | cons char rest =>
    have hkeyword : keyword? before (char :: rest ++ gap) = keyword? before (char :: rest) :=
      keyword?_append_gap hgap
    have hsign : spelled? signs (char :: rest ++ gap) = spelled? signs (char :: rest) :=
      spelled?_append_gap hgap
    rw [List.cons_append] at hkeyword hsign
    simp only [List.cons_append, first?, hkeyword, hsign,
      takeWhile_append_gap (fun _ => Text.isDigit_eq_false_of_isBlank) hgap,
      takeWhile_append_gap (fun _ => continuesVariable_eq_false_of_isBlank) hgap]

/-- No spelling stands at the front of a text that starts with a character of a
class in which no spelling starts. -/
theorem not_isPrefixOf_of_head {starts : Char → Bool}
    (hspellings : ∀ spelling ∈ spellings, spelling.1.head?.map starts = some false)
    (hchar : starts char = true) (text : List Char) :
    ∀ spelling ∈ spellings, spelling.1.isPrefixOf (char :: text) = false := by
  intro spelling hspelling
  have hhead := hspellings spelling hspelling
  cases hchars : spelling.1 with
  | nil => simp [hchars] at hhead
  | cons first =>
    have hne : first ≠ char := by
      rintro rfl
      simp [hchars, hchar] at hhead
    simp [List.isPrefixOf, hne]

theorem first?_of_isBlank (hblank : Text.isBlank char = true) :
    first? before (char :: text) = none := by
  have hkeywords := not_isPrefixOf_of_head
    (by decide : ∀ keyword ∈ keywords, keyword.1.head?.map Text.isBlank = some false) hblank text
  have hsigns := not_isPrefixOf_of_head
    (by decide : ∀ sign ∈ signs, sign.1.head?.map Text.isBlank = some false) hblank text
  have hkeyword : keyword? before (char :: text) = none := by
    unfold keyword?
    split
    · rfl
    · rw [List.find?_eq_none]
      intro keyword hkeyword
      simp [hkeywords keyword hkeyword]
  have hsign : spelled? signs (char :: text) = none := by
    rw [spelled?, List.find?_eq_none]
    intro sign hsign
    simp [hsigns sign hsign]
  have hstarts : startsVariable char = false := by
    rw [Bool.eq_false_iff]
    intro hstarts
    have hword := Text.isWord_of_startsVariable hstarts
    rw [Text.isWord_eq_false_of_isBlank hblank] at hword
    contradiction
  simp [first?, Text.isDigit_eq_false_of_isBlank hblank, hkeyword, hsign, hstarts]

end

/-! ## Spelled tokens are found -/

theorem first?_number (hdigits : ∀ char ∈ first :: rest, char.isDigit = true) :
    first? before (first :: rest) = some (first :: rest, .int) := by
  have hall : ∀ char ∈ rest, Text.isDigit char = true :=
    fun char hchar => Text.isDigit_of_ascii (hdigits char (by simp [hchar]))
  rw [first?, if_pos (Text.isDigit_of_ascii (hdigits first (by simp))),
    List.takeWhile_eq_self_iff.mpr hall]

theorem isWord_of_isAlphanum (hchar : char.isAlphanum = true ∨ char = '_') :
    Text.isWord char = true := by
  rcases hchar with hchar | rfl
  · rcases Bool.or_eq_true_iff.mp hchar with halpha | hdigit
    · exact Text.isWord_of_startsVariable (by simp [startsVariable, halpha])
    · exact Text.isWord_of_ascii_digit hdigit
  · decide

section

variable {before : Option Char} (hbefore : isWordAt before = false)

include hbefore

theorem first?_eq_first?_none (text : List Char) : first? before text = first? none text := by
  have hkeyword : keyword? before text = keyword? none text := by
    simp only [keyword?, hbefore]
    rfl
  cases text with
  | nil => rfl
  | cons => simp only [first?, hkeyword]

theorem first?_fixed {text : String} (hspelling : kind.spelling? = some text) :
    first? before text.toList = some (text.toList, kind) := by
  rw [first?_eq_first?_none hbefore]
  cases kind <;> cases hspelling <;> decide

/-- A keyword at the front of a name goes on, at most up to a `#`. -/
theorem keyword?_name (hrest : ∀ char ∈ rest, char.isAlphanum = true ∨ char = '_' ∨ char = '#')
    (hword : String.ofList ((first :: rest).takeWhile (· ≠ '#')) ∉ reservedWords) :
    keyword? before (first :: rest) = none := by
  rw [keyword?, hbefore, if_neg (by decide), List.find?_eq_none]
  intro keyword hkeyword hfound
  obtain ⟨hstarts, hends⟩ := Bool.and_eq_true_iff.mp hfound
  obtain ⟨tail, htail⟩ := List.isPrefixOf_iff_prefix.mp hstarts
  rw [← htail, List.drop_left, Bool.not_eq_true'] at hends
  have hne : keyword.1 ≠ [] := (by decide : ∀ keyword ∈ keywords, keyword.1 ≠ []) keyword hkeyword
  have hmark : ∀ char ∈ keyword.1, char ≠ '#' := by
    intro char hchar
    simpa using of_all_all (by decide : keywords.all (·.1.all (· != '#')) = true) hkeyword hchar
  have hstop : tail.takeWhile (· ≠ '#') = [] := by
    cases tail with
    | nil => rfl
    | cons char =>
      have hchar : char ∈ rest := by
        obtain ⟨_, _, hspelled⟩ := List.exists_cons_of_ne_nil hne
        rw [hspelled, List.cons_append] at htail
        simp [← (List.cons.inj htail).2]
      have hchar := hrest char hchar
      rw [← or_assoc] at hchar
      rcases hchar with hchar | rfl
      · simp [isWordAt, isWord_of_isAlphanum hchar] at hends
      · simp
  have htake : (first :: rest).takeWhile (· ≠ '#') = keyword.1 := by
    rw [← htail, List.takeWhile_append_of_pos (by simpa using hmark), hstop, List.append_nil]
  have hreserved : ∀ keyword ∈ keywords, String.ofList keyword.1 ∈ reservedWords := by decide
  exact hword (htake ▸ hreserved keyword hkeyword)

theorem first?_name (hfirst : first.isAlpha = true ∨ first = '_')
    (hrest : ∀ char ∈ rest, char.isAlphanum = true ∨ char = '_' ∨ char = '#')
    (hword : String.ofList ((first :: rest).takeWhile (· ≠ '#')) ∉ reservedWords) :
    first? before (first :: rest) = some (first :: rest, .var) := by
  have hstarts : startsVariable first = true := by
    simpa [startsVariable] using hfirst
  have hcontinues : ∀ char ∈ rest, continuesVariable char = true := by
    intro char hchar
    rcases or_assoc.mpr (hrest char hchar) with hchar | rfl
    · simp [continuesVariable, isWord_of_isAlphanum hchar]
    · simp [continuesVariable]
  have hsign : spelled? signs (first :: rest) = none := by
    have hsigns := not_isPrefixOf_of_head
      (by decide : ∀ sign ∈ signs, sign.1.head?.map startsVariable = some false) hstarts rest
    rw [spelled?, List.find?_eq_none]
    intro sign hsign
    simp [hsigns sign hsign]
  simp [first?, Text.isDigit_eq_false_of_startsVariable hstarts,
    keyword?_name hbefore hrest hword, hsign, hstarts, List.takeWhile_eq_self_iff.mpr hcontinues]

theorem first?_of_isSpelled {token : Token} (hspelled : token.isSpelled = true) :
    first? before token.text.toList = some (token.text.toList, token.kind) := by
  obtain ⟨kind, text⟩ := token
  cases kind with
  | int =>
    cases htext : text.toList with
    | nil => simp [isSpelled, htext] at hspelled
    | cons =>
      simp only [isSpelled, htext, List.isEmpty_cons, Bool.not_false, Bool.true_and,
        List.all_eq_true] at hspelled
      exact first?_number hspelled
  | bool =>
    rw [first?_eq_first?_none hbefore]
    simp only [isSpelled, Bool.or_eq_true, decide_eq_true_eq] at hspelled
    rcases hspelled with rfl | rfl <;> decide
  | var =>
    cases htext : text.toList with
    | nil => simp [isSpelled, htext] at hspelled
    | cons =>
      simp only [isSpelled, htext, Bool.and_eq_true, Bool.or_eq_true, decide_eq_true_eq,
        List.all_eq_true, Bool.not_eq_true', List.contains_eq_mem, decide_eq_false_iff_not,
        or_assoc] at hspelled
      obtain ⟨⟨hfirst, hrest⟩, hword⟩ := hspelled
      exact first?_name hbefore hfirst hrest hword
  | _ => exact first?_fixed hbefore (by simpa [isSpelled] using hspelled)

end

/-! ## Scanning -/

theorem scanFrom_of_first? (hne : spelling ≠ [])
    (hfirst : first? before (spelling ++ text) = some (spelling, kind)) :
    scanFrom before (spelling ++ text) =
      { kind, text := String.ofList spelling } :: scanFrom spelling.getLast? text := by
  cases spelling with
  | nil => contradiction
  | cons =>
    rw [List.cons_append] at hfirst ⊢
    rw [scanFrom, hfirst]
    simp [List.getLast?_cons]

/-- The scanner finds the tokens that a text spells with blanks between them. -/
theorem Written.scanFrom_eq (hwritten : Written tokens text)
    (hbefore : isWordAt before = false ∨ IsGap text) : scanFrom before text = tokens := by
  induction hwritten generalizing before with
  | nil => rw [scanFrom]
  | blank hblank _ ih =>
    rw [scanFrom, first?_of_isBlank hblank]
    exact ih (.inl (Text.isWord_eq_false_of_isBlank hblank))
  | @token token _ text hspelled hgap _ ih =>
    have hne : token.text.toList ≠ [] := by
      intro hnil
      have hfirst := first?_of_isSpelled (by rfl : isWordAt none = false) hspelled
      simp [hnil, first?] at hfirst
    have hword : isWordAt before = false := by
      rcases hbefore with hword | hblank
      · exact hword
      · -- No spelled token starts with a blank.
        obtain ⟨char, rest, hchars⟩ := List.exists_cons_of_ne_nil hne
        have hnone : first? none (char :: rest) = none :=
          first?_of_isBlank (hblank char (by simp [hchars]))
        have hsome := first?_of_isSpelled (by rfl : isWordAt none = false) hspelled
        rw [hchars, hnone] at hsome
        contradiction
    have hfirst : first? before (token.text.toList ++ text) =
        some (token.text.toList, token.kind) := by
      rw [first?_append_gap hne hgap]
      exact first?_of_isSpelled hword hspelled
    rw [scanFrom_of_first? hne hfirst, ih (.inr hgap), String.ofList_toList]

/-- The scanner finds the tokens of a written text. -/
theorem Written.scan_eq {text : String} (hwritten : Written tokens text.toList) :
    scan text = tokens :=
  hwritten.scanFrom_eq (.inl rfl)

/-- Every row of spelled tokens is written by a text. -/
theorem written_spaced (hspelled : ∀ token ∈ tokens, token.isSpelled = true) :
    Written tokens (tokens.flatMap fun token => token.text.toList ++ [' ']) := by
  induction tokens with
  | nil => exact .nil
  | cons token _ ih =>
    rw [List.flatMap_cons, List.append_assoc]
    have hrest := ih fun other hother => hspelled other (by simp [hother])
    exact .token (hspelled token (by simp)) (by simp [IsGap]; decide) (.blank (by decide) hrest)

/-! ## Characters outside the tokens -/

/-- The characters that the scanner passes over, given the one before the text. -/
def passedOverFrom (before : Option Char) (text : List Char) : List Char :=
  match text with
  | [] => []
  | char :: rest =>
    match first? before (char :: rest) with
    | none => char :: passedOverFrom (some char) rest
    | some (spelling, _) =>
      passedOverFrom (spelling.getLast?.or (some char)) (rest.drop (spelling.length - 1))
termination_by text.length
decreasing_by
  · exact Nat.lt_succ_self rest.length
  · simp only [List.length_drop, List.length_cons]
    omega

/-- The characters of a claim that belong to no token. -/
def passedOver (text : String) : List Char :=
  passedOverFrom none text.toList

/-- A text that spells a row of tokens with nothing but blanks around them. -/
inductive Layout : List Token → List Char → Prop
  | nil : Layout [] []
  | blank {tokens : List Token} {char : Char} {text : List Char}
      (hblank : Text.isBlank char = true) (hlayout : Layout tokens text) :
      Layout tokens (char :: text)
  | token {token : Token} {tokens : List Token} {text : List Char}
      (hlayout : Layout tokens text) : Layout (token :: tokens) (token.text.toList ++ text)

theorem mem_of_keyword? (hfound : keyword? before text = some found) :
    found ∈ keywords ∧ found.1 <+: text := by
  unfold keyword? at hfound
  split at hfound
  · contradiction
  · have hspelled := List.find?_some hfound
    rw [Bool.and_eq_true, List.isPrefixOf_iff_prefix] at hspelled
    exact ⟨List.mem_of_find?_eq_some hfound, hspelled.1⟩

theorem mem_of_spelled? (hfound : spelled? spellings text = some found) :
    found ∈ spellings ∧ found.1 <+: text := by
  unfold spelled? at hfound
  have hspelled := List.find?_some hfound
  exact ⟨List.mem_of_find?_eq_some hfound, List.isPrefixOf_iff_prefix.mp hspelled⟩

theorem Written.layout (hwritten : Written tokens text) : Layout tokens text := by
  induction hwritten with
  | nil => exact .nil
  | blank hblank _ ih => exact .blank hblank ih
  | token _ _ _ ih => exact .token ih

/-- What the scanner finds stands at the front of the text, and as an integer it
consists of digits. -/
theorem of_first? (hfirst : first? before text = some (spelling, kind)) :
    spelling ≠ [] ∧ spelling <+: text ∧
      (kind = .int → ∀ char ∈ spelling, Text.isDigit char = true) := by
  cases text with
  | nil => simp [first?] at hfirst
  | cons char =>
    by_cases hdigit : Text.isDigit char = true
    · rw [first?, if_pos hdigit, Option.some.injEq, Prod.mk.injEq] at hfirst
      obtain ⟨rfl, rfl⟩ := hfirst
      refine ⟨by simp, (List.prefix_cons_inj char).mpr (List.takeWhile_prefix _), ?_⟩
      intro _ other hother
      rcases List.mem_cons.mp hother with rfl | hother
      · exact hdigit
      · exact List.mem_takeWhile_imp hother
    · rw [first?, if_neg hdigit] at hfirst
      have hspellings : ∀ entry ∈ keywords ++ signs, entry.1 ≠ [] ∧ entry.2 ≠ .int := by
        decide
      rcases Option.or_eq_some_iff.mp hfirst with hkeyword | ⟨-, hfirst⟩
      · obtain ⟨hmem, hstarts⟩ := mem_of_keyword? hkeyword
        obtain ⟨hne, hkind⟩ := hspellings _ (List.mem_append_left _ hmem)
        exact ⟨hne, hstarts, fun hint => absurd hint hkind⟩
      rcases Option.or_eq_some_iff.mp hfirst with hsign | ⟨-, hfirst⟩
      · obtain ⟨hmem, hstarts⟩ := mem_of_spelled? hsign
        obtain ⟨hne, hkind⟩ := hspellings _ (List.mem_append_right _ hmem)
        exact ⟨hne, hstarts, fun hint => absurd hint hkind⟩
      by_cases hname : startsVariable char = true
      · rw [if_pos hname, Option.some.injEq, Prod.mk.injEq] at hfirst
        obtain ⟨rfl, rfl⟩ := hfirst
        exact ⟨by simp, (List.prefix_cons_inj char).mpr (List.takeWhile_prefix _), by simp⟩
      · rw [if_neg hname] at hfirst
        contradiction

theorem passedOverFrom_of_first? (hne : spelling ≠ [])
    (hfirst : first? before (spelling ++ text) = some (spelling, kind)) :
    passedOverFrom before (spelling ++ text) = passedOverFrom spelling.getLast? text := by
  cases spelling with
  | nil => contradiction
  | cons =>
    rw [List.cons_append] at hfirst ⊢
    rw [passedOverFrom, hfirst]
    simp [List.getLast?_cons]

/-- Induction along a scan. -/
theorem scan_induction {motive : Option Char → List Char → Prop} (nil : ∀ before, motive before [])
    (passed : ∀ before char rest, first? before (char :: rest) = none →
      motive (some char) rest → motive before (char :: rest))
    (token : ∀ before spelling kind text, spelling ≠ [] →
      first? before (spelling ++ text) = some (spelling, kind) →
      motive spelling.getLast? text → motive before (spelling ++ text))
    (before : Option Char) (text : List Char) : motive before text := by
  induction hlength : text.length using Nat.strong_induction_on generalizing before text with
  | _ length ih =>
    cases text with
    | nil => exact nil before
    | cons char rest =>
      cases hfirst : first? before (char :: rest) with
      | none =>
        exact passed before char rest hfirst (ih rest.length (by simp [← hlength]) _ rest rfl)
      | some found =>
        obtain ⟨spelling, kind⟩ := found
        obtain ⟨hne, ⟨tail, htail⟩, -⟩ := of_first? hfirst
        have hpositive : 0 < spelling.length := List.length_pos_iff.mpr hne
        have hlengths := congrArg List.length htail
        rw [List.length_append] at hlengths
        rw [← htail] at hfirst ⊢
        exact token before spelling kind tail hne hfirst (ih tail.length (by omega) _ tail rfl)

theorem scanFrom_of_passed (hfirst : first? before (char :: rest) = none) :
    scanFrom before (char :: rest) = scanFrom (some char) rest := by
  rw [scanFrom, hfirst]

theorem passedOverFrom_of_passed (hfirst : first? before (char :: rest) = none) :
    passedOverFrom before (char :: rest) = char :: passedOverFrom (some char) rest := by
  rw [passedOverFrom, hfirst]

/-- The integer tokens of a text are rows of digits. -/
theorem isDigit_of_mem_scanFrom (before : Option Char) (text : List Char) :
    ∀ token ∈ scanFrom before text, token.kind = .int →
      token.text.toList ≠ [] ∧ ∀ char ∈ token.text.toList, Text.isDigit char = true := by
  induction before, text using scan_induction with
  | nil => simp [scanFrom]
  | passed _ _ _ hfirst => rwa [scanFrom_of_passed hfirst]
  | token _ _ _ _ hne hfirst ih =>
    rw [scanFrom_of_first? hne hfirst]
    intro token htoken hkind
    rcases List.mem_cons.mp htoken with rfl | htoken
    · rw [String.toList_ofList]
      exact ⟨hne, (of_first? hfirst).2.2 hkind⟩
    · exact ih token htoken hkind

/-- Every character of a text is in a token or passed over. -/
theorem perm_scanFrom (before : Option Char) (text : List Char) :
    text.Perm ((scanFrom before text).flatMap (·.text.toList) ++ passedOverFrom before text) := by
  induction before, text using scan_induction with
  | nil => simp [scanFrom, passedOverFrom]
  | passed _ char _ hfirst ih =>
    rw [scanFrom_of_passed hfirst, passedOverFrom_of_passed hfirst]
    exact (ih.cons char).trans List.perm_middle.symm
  | token _ spelling _ _ hne hfirst ih =>
    rw [scanFrom_of_first? hne hfirst, passedOverFrom_of_first? hne hfirst,
      List.flatMap_cons, String.toList_ofList, List.append_assoc]
    exact ih.append_left spelling

theorem layout_scanFrom (before : Option Char) (text : List Char)
    (hblank : ∀ char ∈ passedOverFrom before text, Text.isBlank char = true) :
    Layout (scanFrom before text) text := by
  induction before, text using scan_induction with
  | nil =>
    rw [scanFrom]
    exact .nil
  | passed _ char _ hfirst ih =>
    rw [passedOverFrom_of_passed hfirst] at hblank
    rw [scanFrom_of_passed hfirst]
    exact .blank (hblank char (by simp)) (ih fun other hother => hblank other (by simp [hother]))
  | token _ spelling kind text hne hfirst ih =>
    rw [passedOverFrom_of_first? hne hfirst] at hblank
    rw [scanFrom_of_first? hne hfirst]
    have hlayout : Layout (⟨kind, String.ofList spelling⟩ :: scanFrom spelling.getLast? text)
        ((String.ofList spelling).toList ++ text) := .token (ih hblank)
    rwa [String.toList_ofList] at hlayout

theorem Layout.exists_perm (hlayout : Layout tokens text) :
    ∃ blanks : List Char, (∀ char ∈ blanks, Text.isBlank char = true) ∧
      text.Perm (tokens.flatMap (·.text.toList) ++ blanks) := by
  induction hlayout with
  | nil => exact ⟨[], by simp, by simp⟩
  | @blank _ char _ hblank _ ih =>
    obtain ⟨blanks, hblanks, hperm⟩ := ih
    exact ⟨char :: blanks, by simpa [hblank] using hblanks,
      (hperm.cons char).trans List.perm_middle.symm⟩
  | @token _ _ _ _ ih =>
    obtain ⟨blanks, hblanks, hperm⟩ := ih
    refine ⟨blanks, hblanks, ?_⟩
    rw [List.flatMap_cons, List.append_assoc]
    exact hperm.append_left _

/-- A text is the spellings of its tokens and blanks exactly if the scanner
passes over blanks only. -/
theorem layout_scan_iff (text : String) : Layout (scan text) text.toList ↔
      ∀ char ∈ passedOver text, Text.isBlank char = true := by
  constructor
  · intro hlayout
    obtain ⟨_, hblanks, hperm⟩ := hlayout.exists_perm
    have hsame := hperm.symm.trans (perm_scanFrom none text.toList)
    rw [scan, List.perm_append_left_iff] at hsame
    exact fun char hchar => hblanks char (hsame.mem_iff.mpr hchar)
  · exact layout_scanFrom none text.toList

end Token

end HoareCheck
