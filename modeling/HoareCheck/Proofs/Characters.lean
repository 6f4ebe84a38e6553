import HoareCheck.Claim.Token
import HoareCheck.Text.Integer
import Mathlib

/-!
# Classes of characters

Blanks, digits and word characters as sets: which of them are disjoint, where
the letters and digits of ASCII belong, and which number a row of digits
writes.
-/

namespace HoareCheck.Text

variable {char : Char}

namespace CharRanges

theorem holds_iff {ranges : CharRanges} : ranges.holds char = true ↔
      ∃ range ∈ ranges, range.1 ≤ char.toNat ∧ char.toNat ≤ range.2 := by
  simp [holds, rangeOf?, List.find?_isSome]

/-- Whether each range of one class ends before, or starts after, each range of
another. -/
def areApart (left right : CharRanges) : Bool :=
  left.all fun first => right.all fun second =>
    first.2.blt second.1 || second.2.blt first.1

/-- No character is in two classes whose ranges lie apart. -/
theorem not_holds_of_apart {left right : CharRanges} (hapart : left.areApart right = true)
    (hleft : left.holds char = true) : right.holds char = false := by
  rw [Bool.eq_false_iff]
  intro hright
  obtain ⟨first, hfirst, _, _⟩ := holds_iff.mp hleft
  obtain ⟨second, hsecond, _, _⟩ := holds_iff.mp hright
  have hranges := List.all_eq_true.mp (List.all_eq_true.mp hapart first hfirst) second hsecond
  rw [Bool.or_eq_true, Nat.blt_eq, Nat.blt_eq] at hranges
  omega

end CharRanges

theorem isDigit_eq_false_of_isBlank (hblank : isBlank char = true) : isDigit char = false :=
  CharRanges.not_holds_of_apart rfl hblank

theorem isWord_eq_false_of_isBlank (hblank : isBlank char = true) : isWord char = false :=
  CharRanges.not_holds_of_apart (by decide +kernel) hblank

theorem isBlank_eq_false_of_isDigit (hdigit : isDigit char = true) : isBlank char = false := by
  rw [Bool.eq_false_iff]
  intro hblank
  rw [isDigit_eq_false_of_isBlank hblank] at hdigit
  exact Bool.false_ne_true hdigit

/-! ## ASCII -/

/-- The characters that may start a variable. -/
def letterRanges : CharRanges :=
  [(0x41, 0x5A), (0x5F, 0x5F), (0x61, 0x7A)]

theorem startsVariable_iff : Token.startsVariable char = true ↔ letterRanges.holds char = true := by
  have hunderscore : char = '_' ↔ char.toNat = 0x5F := by
    rw [← Char.toNat_inj]
    rfl
  have hval : char.val.toNat = char.toNat := rfl
  simp only [Token.startsVariable, CharRanges.holds_iff, letterRanges, Char.isAlpha,
    Char.isUpper, Char.isLower, Bool.or_eq_true, Bool.and_eq_true, decide_eq_true_eq,
    List.mem_cons, List.not_mem_nil, or_false, exists_eq_or_imp, exists_eq_left, hunderscore,
    UInt32.le_iff_toNat_le, ge_iff_le, hval, Char.reduceVal, UInt32.reduceToNat]
  omega

theorem isDigit_eq_false_of_startsVariable (hstarts : Token.startsVariable char = true) :
    isDigit char = false :=
  CharRanges.not_holds_of_apart rfl (startsVariable_iff.mp hstarts)

theorem isWord_of_startsVariable (hstarts : Token.startsVariable char = true) :
    isWord char = true := by
  have hsubset : ∀ range ∈ letterRanges, range ∈ wordRanges := by decide
  obtain ⟨range, hrange, hbounds⟩ := CharRanges.holds_iff.mp (startsVariable_iff.mp hstarts)
  exact CharRanges.holds_iff.mpr ⟨range, hsubset range hrange, hbounds⟩

section

variable {char : Char} (hdigit : char.isDigit = true)

include hdigit

theorem ascii_digit_bounds : 0x30 ≤ char.toNat ∧ char.toNat ≤ 0x39 := by
  simpa [Char.isDigit, UInt32.le_iff_toNat_le] using hdigit

theorem isDigit_of_ascii : isDigit char = true :=
  CharRanges.holds_iff.mpr ⟨(0x30, 0x39), by decide, ascii_digit_bounds hdigit⟩

theorem isWord_of_ascii_digit : isWord char = true :=
  CharRanges.holds_iff.mpr ⟨(0x30, 0x39), by decide, ascii_digit_bounds hdigit⟩

end

/-! ## Numbers -/

theorem isDigit_of_digitValue? {digit : Nat} (hdigit : digitValue? char = some digit) :
    isDigit char = true := by
  obtain ⟨_, hrange, -⟩ := Option.map_eq_some_iff.mp hdigit
  simp [isDigit, CharRanges.holds, hrange]

theorem digitValue?_of_isDigit (hdigit : isDigit char = true) :
    ∃ digit, digitValue? char = some digit := by
  obtain ⟨_, hrange⟩ := Option.isSome_iff_exists.mp hdigit
  exact ⟨_, by rw [digitValue?, hrange, Option.map_some]⟩

/-- Every row of digits has the digits that it writes. -/
theorem exists_digits {text : List Char} (hdigits : ∀ char ∈ text, isDigit char = true) :
    ∃ digits : List Nat, text.map digitValue? = digits.map some := by
  induction text with
  | nil => exact ⟨[], rfl⟩
  | cons char _ ih =>
    obtain ⟨digit, hdigit⟩ := digitValue?_of_isDigit (hdigits char (by simp))
    obtain ⟨digits, hrest⟩ := ih fun other hother => hdigits other (by simp [hother])
    exact ⟨digit :: digits, by simp [hdigit, hrest]⟩

theorem ofDigits_eq (digits : List Nat) : ofDigits digits = Nat.ofDigits 10 digits.reverse := by
  rw [Nat.ofDigits_eq_foldr, List.foldr_reverse, ofDigits]
  congr
  funext value digit
  simp [add_comm]

section

variable {text : List Char} {digits : List Nat}
  (hdigits : text.map digitValue? = digits.map some) (hne : digits ≠ [])

include hdigits

theorem isDigit_of_mem_digits (char : Char) (hchar : char ∈ text) : isDigit char = true := by
  have hmem : digitValue? char ∈ digits.map some := by
    rw [← hdigits]
    exact List.mem_map_of_mem hchar
  obtain ⟨_, -, hdigit⟩ := List.mem_map.mp hmem
  exact isDigit_of_digitValue? hdigit.symm

include hne

theorem groupedDigits?_of_digits : groupedDigits? text = some digits := by
  fun_induction groupedDigits? text generalizing digits with
  | case1 => simp_all
  | case2 =>
    cases digits with
    | nil => contradiction
    | cons =>
      simp only [List.map_cons, List.map_nil, List.cons.injEq, List.nil_eq,
        List.map_eq_nil_iff] at hdigits
      simp [hdigits]
  | case3 =>
    have hunderscore := isDigit_of_mem_digits hdigits '_' (by simp)
    exact absurd hunderscore (by decide)
  | case4 _ _ hrest _ ih =>
    cases digits with
    | nil => contradiction
    | cons _ digits =>
      simp only [List.map_cons, List.cons.injEq] at hdigits
      have hdigits_ne : digits ≠ [] := by
        rintro rfl
        exact hrest (by simpa using hdigits.2)
      simp [hdigits.1, ih hdigits.2 hdigits_ne]

end

/-- A row of digits is read as the number that it writes in decimal, unless it
is too long. -/
theorem readInteger?_of_digits {text : String} {digits : List Nat}
    (hdigits : text.toList.map digitValue? = digits.map some) (hne : digits ≠ []) :
    readInteger? text = if maxDigits < digits.length then none
      else some ((Nat.ofDigits 10 digits.reverse : Nat) : Int) := by
  have hsurrounds : ∀ char ∈ text.toList, surroundsNumber char = false := by
    intro char hchar
    simp [surroundsNumber, isBlank_eq_false_of_isDigit (isDigit_of_mem_digits hdigits char hchar)]
  have hkept : ∀ chars : List Char, (∀ char ∈ chars, surroundsNumber char = false) →
      chars.dropWhile surroundsNumber = chars := by
    intro chars hchars
    cases chars with
    | nil => rfl
    | cons char => simp [hchars char (by simp)]
  have hnatural : (readNatural? text.toList).map Int.ofNat =
      if maxDigits < digits.length then none
      else some ((Nat.ofDigits 10 digits.reverse : Nat) : Int) := by
    simp only [readNatural?, groupedDigits?_of_digits hdigits hne, Option.bind_eq_bind,
      Option.bind_some, ofDigits_eq]
    split <;> rfl
  rw [← hnatural, readInteger?, hkept _ hsurrounds,
    hkept _ (by simpa using hsurrounds), List.reverse_reverse]
  split
  · next rest hminus =>
      have hdigit := isDigit_of_mem_digits hdigits '-' (by simp [hminus])
      exact absurd hdigit (by decide)
  · next rest hplus =>
      have hdigit := isDigit_of_mem_digits hdigits '+' (by simp [hplus])
      exact absurd hdigit (by decide)
  · rfl

end HoareCheck.Text
