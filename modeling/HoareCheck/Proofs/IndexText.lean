import HoareCheck.Proofs.ElementWrites

/-!
# Texts of indices

A write to an array element is recorded under the text of its index.  The text
of an expression can be read in one way only, so it tells indices apart: what
is found under the text of an index was recorded for an index of the same tree.
-/

namespace HoareCheck

variable {term first second : Term} {log other : WriteLog} {rest more : List Char}

/-- A text falls apart at the first occurrence of a mark in one way. -/
theorem append_first_inj {mark : Char} {left right : List Char}
    (hleft : mark ∉ left) (hright : mark ∉ right)
    (heq : left ++ mark :: rest = right ++ mark :: more) : left = right ∧ rest = more := by
  have hbefore (text behind : List Char) (htext : mark ∉ text) :
      (text ++ mark :: behind).takeWhile (· != mark) = text := by
    rw [List.takeWhile_append_of_pos, List.takeWhile_cons_of_neg, List.append_nil]
    · simp
    · exact fun char hchar => bne_iff_ne.mpr fun hsame => htext (hsame ▸ hchar)
  have hsame : left = right := by
    rw [← hbefore left rest hleft, heq, hbefore right more hright]
  rw [hsame] at heq
  exact ⟨hsame, (List.cons.inj (List.append_cancel_left heq)).2⟩

/-- A printed operator ends at the first blank. -/
theorem Operator.shown_append_inj {operator found : Operator}
    (heq : operator.shown.toList ++ ' ' :: rest = found.shown.toList ++ ' ' :: more) :
    operator = found ∧ rest = more := by
  have hblank (operator : Operator) : ' ' ∉ operator.shown.toList := by
    cases operator <;> decide
  have hnamed (operator : Operator) : ofName? operator.name = some operator := by
    cases operator <;> rfl
  obtain ⟨hshown, hrest⟩ := append_first_inj (hblank _) (hblank _) heq
  have hname : operator.name = found.name :=
    (String.append_right_inj _).mp (String.toList_inj.mp hshown)
  exact ⟨Option.some.inj (by rw [← hnamed, hname, hnamed]), hrest⟩

namespace Literal

/-- An integer or a truth value. -/
def isValue : Literal → Bool
  | .int _ | .bool _ => true
  | _ => false

/-- A printed integer or truth value ends at the first parenthesis. -/
theorem shown_append_inj {value found : Literal}
    (hvalue : value.isValue = true) (hfound : found.isValue = true)
    (heq : value.shown.toList ++ ')' :: rest = found.shown.toList ++ ')' :: more) :
    value = found ∧ rest = more := by
  have hopen (value : Literal) (hvalue : value.isValue = true) : ')' ∉ value.shown.toList := by
    cases value with
    | int value =>
      have hdigits : ')' ∉ (toString value).toList := not_mem_toString (by decide) (by decide) value
      simpa [shown] using hdigits
    | bool value => cases value <;> decide
    | _ => cases hvalue
  obtain ⟨hshown, hrest⟩ := append_first_inj (hopen _ hvalue) (hopen _ hfound) heq
  refine ⟨?_, hrest⟩
  cases value with
  | int value =>
    cases found with
    | int found =>
      have hdigits : value.repr.toList = found.repr.toList := by simpa [shown] using hshown
      exact congrArg _ (Int.repr_injective (String.toList_inj.mp hdigits))
    | bool => simp [shown] at hshown
    | _ => cases hfound
  | bool value =>
    cases found with
    | int => simp [shown] at hshown
    | bool found => revert hshown; cases value <;> cases found <;> decide
    | _ => cases hfound
  | _ => cases hvalue

end Literal

namespace Term

/-- An expression without quantifiers.  Its names hold no closing parenthesis,
its literals are integers and truth values, and nothing is recorded against its
reads. -/
def IsKey (log : WriteLog) : Term → Prop
  | .missing => True
  | .var name => ')' ∉ name.toList
  | .literal value => value.isValue = true
  | .slice lower upper => lower.IsKey log ∧ upper.IsKey log
  | .subscript site array index => log.writesAt site = [] ∧ array.IsKey log ∧ index.IsKey log
  | .unary _ operand => operand.IsKey log
  | .binary left _ right => left.IsKey log ∧ right.IsKey log
  | _ => False

/-- The tree of an expression, without the sites of its reads. -/
def tree : Term → Term
  | .slice lower upper => .slice lower.tree upper.tree
  | .subscript _ array index => .subscript 0 array.tree index.tree
  | .unary operator operand => .unary operator operand.tree
  | .binary left operator right => .binary left.tree operator right.tree
  | term => term

/-- The characters of the text of such an expression. -/
def keyChars : Term → List Char
  | .missing => ['N', 'o', 'n', 'e']
  | .var name => ['(', 'V', 'a', 'r', ' '] ++ name.toList ++ [')']
  | .literal value =>
    ['(', 'L', 'i', 't', 'e', 'r', 'a', 'l', ' '] ++ value.shown.toList ++ [')']
  | .slice lower upper =>
    ['(', 'S', 'l', 'i', 'c', 'e', ' '] ++ lower.keyChars ++ [' ', '-', '>', ' '] ++
      upper.keyChars ++ [')']
  | .subscript _ array index =>
    ['(', 'S', 'u', 'b', 's', 'c', 'r', 'i', 'p', 't', ' '] ++ array.keyChars ++ [' '] ++
      index.keyChars ++ [')']
  | .unary operator operand =>
    ['(', 'U', 'n', 'O', 'p', ' '] ++ operator.shown.toList ++ [' '] ++ operand.keyChars ++ [')']
  | .binary left operator right =>
    ['(', 'B', 'i', 'n', 'O', 'p', ' '] ++ left.keyChars ++ [' '] ++ operator.shown.toList ++
      [' '] ++ right.keyChars ++ [')']
  | _ => []

theorem toList_print (hkey : term.IsKey log) : (log.print term).toList = term.keyChars := by
  rw [WriteLog.print]
  induction term with
  | missing => exact String.toList_ofList ..
  | var name =>
    change ("(Var " ++ name ++ ")").toList = _
    simp [keyChars]
  | literal value =>
    change ("(Literal " ++ value.shown ++ ")").toList = _
    simp [keyChars]
  | slice _ _ ihlower ihupper =>
    change ("(Slice " ++ _ ++ " -> " ++ _ ++ ")").toList = _
    simp [keyChars, ihlower hkey.1, ihupper hkey.2]
  | subscript site _ _ iharray ihindex =>
    change ("(Subscript " ++ _ ++ " " ++ _ ++ log.note _ _ site ++ ")").toList = _
    have hnote : log.note (log.sites.size + 1) [] site = "" := by
      rw [WriteLog.note, hkey.1]
    simp [keyChars, iharray hkey.2.1, ihindex hkey.2.2, hnote]
  | unary operator _ ih =>
    change ("(UnOp " ++ operator.shown ++ " " ++ _ ++ ")").toList = _
    simp [keyChars, ih hkey]
  | binary _ operator _ ihleft ihright =>
    change ("(BinOp " ++ _ ++ " " ++ operator.shown ++ " " ++ _ ++ ")").toList = _
    simp [keyChars, ihleft hkey.1, ihright hkey.2]
  | _ => cases hkey

theorem keyChars_tree (term : Term) : term.tree.keyChars = term.keyChars := by
  induction term <;> simp_all [tree, keyChars]

/-- No text of an expression begins the text of another. -/
theorem keyChars_append_inj (hfirst : first.IsKey log) (hsecond : second.IsKey other)
    (heq : first.keyChars ++ rest = second.keyChars ++ more) :
    first.tree = second.tree ∧ rest = more := by
  induction first generalizing second rest more with
  | missing =>
    cases second with
    | missing => exact ⟨rfl, List.append_cancel_left heq⟩
    | _ => first | contradiction | simp [keyChars] at heq
  | var =>
    cases second with
    | var =>
      simp only [keyChars, List.append_assoc, List.append_cancel_left_eq] at heq
      obtain ⟨hname, hrest⟩ := append_first_inj hfirst hsecond heq
      exact ⟨by rw [String.toList_inj.mp hname], hrest⟩
    | _ => first | contradiction | simp [keyChars] at heq
  | literal =>
    cases second with
    | literal =>
      simp only [keyChars, List.append_assoc, List.append_cancel_left_eq] at heq
      obtain ⟨rfl, hrest⟩ := Literal.shown_append_inj hfirst hsecond heq
      exact ⟨rfl, hrest⟩
    | _ => first | contradiction | simp [keyChars] at heq
  | slice _ _ ihlower ihupper =>
    cases second with
    | slice =>
      simp only [keyChars, List.append_assoc, List.append_cancel_left_eq] at heq
      obtain ⟨hlower, heq⟩ := ihlower hfirst.1 hsecond.1 heq
      obtain ⟨hupper, heq⟩ := ihupper hfirst.2 hsecond.2 (List.append_cancel_left heq)
      exact ⟨by rw [tree, tree, hlower, hupper], List.append_cancel_left heq⟩
    | _ => first | contradiction | simp [keyChars] at heq
  | subscript _ _ _ iharray ihindex =>
    cases second with
    | subscript =>
      simp only [keyChars, List.append_assoc, List.append_cancel_left_eq] at heq
      obtain ⟨harray, heq⟩ := iharray hfirst.2.1 hsecond.2.1 heq
      obtain ⟨hindex, heq⟩ := ihindex hfirst.2.2 hsecond.2.2 (List.append_cancel_left heq)
      exact ⟨by rw [tree, tree, harray, hindex], List.append_cancel_left heq⟩
    | _ => first | contradiction | simp [keyChars] at heq
  | unary _ _ ih =>
    cases second with
    | unary _ inner =>
      simp only [keyChars, List.append_assoc, List.append_cancel_left_eq] at heq
      obtain ⟨rfl, hafter⟩ := Operator.shown_append_inj heq
      obtain ⟨hoperand, hrest⟩ := ih hfirst (show inner.IsKey other from hsecond) hafter
      exact ⟨by rw [tree, tree, hoperand], List.append_cancel_left hrest⟩
    | _ => first | contradiction | simp [keyChars] at heq
  | binary _ _ _ ihleft ihright =>
    cases second with
    | binary =>
      simp only [keyChars, List.append_assoc, List.append_cancel_left_eq] at heq
      obtain ⟨hleft, heq⟩ := ihleft hfirst.1 hsecond.1 heq
      obtain ⟨rfl, hafter⟩ := Operator.shown_append_inj (List.append_cancel_left heq)
      obtain ⟨hright, hrest⟩ := ihright hfirst.2 hsecond.2 hafter
      exact ⟨by rw [tree, tree, hleft, hright], List.append_cancel_left hrest⟩
    | _ => first | contradiction | simp [keyChars] at heq
  | _ => cases hfirst

theorem print_eq_print_iff (hfirst : first.IsKey log) (hsecond : second.IsKey other) :
    log.print first = other.print second ↔ first.tree = second.tree := by
  rw [← String.toList_inj, toList_print hfirst, toList_print hsecond]
  constructor
  · intro hchars
    exact (keyChars_append_inj hfirst hsecond (congrArg (· ++ []) hchars)).1
  · intro htree
    rw [← keyChars_tree, htree, keyChars_tree]

end Term

/-- A write to an array element: the log at the time, the index and the value. -/
structure RecordedAt where
  log : WriteLog
  index : Term
  value : Term

/-- The writes recorded one after the other under the texts of their indices. -/
def Writes.recordAll (entries : List RecordedAt) : Writes :=
  entries.foldl (fun writes entry => writes.record (entry.log.print entry.index) entry.value) []

/-- Texts of indices are equal exactly if the indices are trees of one form, so
what is found under the text of an index is the value recorded last for an index
of its tree. -/
theorem text_identifies_index (hfirst : first.IsKey log) (hsecond : second.IsKey other) :
    (log.print first = other.print second ↔ first.tree = second.tree) ∧
    ∀ entries : List RecordedAt, (∀ entry ∈ entries, entry.index.IsKey entry.log) →
      (Writes.recordAll entries).find? (log.print first) =
        (entries.reverse.find? fun entry => entry.index.tree = first.tree).map
          RecordedAt.value := by
  refine ⟨Term.print_eq_print_iff hfirst hsecond, fun entries hentries => ?_⟩
  induction entries using List.reverseRecOn with
  | nil => rfl
  | append_singleton _ last ih =>
    simp only [List.forall_mem_append, List.forall_mem_singleton] at hentries
    have hlast := Term.print_eq_print_iff hfirst hentries.2
    rw [Writes.recordAll, List.foldl_append, List.foldl_cons, List.foldl_nil,
      Writes.find?_record, List.reverse_append, List.reverse_singleton, List.singleton_append,
      List.find?_cons]
    by_cases htree : first.tree = last.index.tree
    · rw [if_pos (hlast.mpr htree), decide_eq_true htree.symm, Option.map_some]
    · rw [if_neg (mt hlast.mp htree), decide_eq_false (Ne.symm htree)]
      exact ih hentries.1

/-- `A[i - 1]` written twice and `A[i:]` between: the later value is found. -/
theorem text_identifies_index_rewritten :
    let index := Term.binary (.var "i") .minus (.int 1)
    let range := Term.slice (.var "i") .missing
    let entries : List RecordedAt :=
      [⟨.empty, index, .var "x"⟩, ⟨.empty, range, .var "y"⟩, ⟨.empty, index, .var "z"⟩]
    index.IsKey .empty ∧ range.IsKey .empty ∧
      WriteLog.empty.print index ≠ WriteLog.empty.print range ∧
      (Writes.recordAll entries).find? (WriteLog.empty.print index) = some (.var "z") ∧
      (Writes.recordAll entries).find? (WriteLog.empty.print range) = some (.var "y") := by
  intro index range entries
  have hindex : index.IsKey .empty := ⟨by simp [Term.IsKey], rfl⟩
  have hrange : range.IsKey .empty := ⟨by simp [Term.IsKey], trivial⟩
  have hentries : ∀ entry ∈ entries, entry.index.IsKey entry.log := by
    simp [entries, hindex, hrange]
  obtain ⟨hprint, hfound⟩ := text_identifies_index hindex hrange
  exact ⟨hindex, hrange, fun hsame => absurd (hprint.mp hsame) (by decide), hfound _ hentries,
    (text_identifies_index hrange hindex).2 _ hentries⟩

end HoareCheck
