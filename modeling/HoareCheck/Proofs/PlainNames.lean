import HoareCheck.Proofs.ClaimScanning
import HoareCheck.Proofs.MarkedNames
import HoareCheck.Proofs.SourceReading

/-!
# Written names are plain

No name that a program or a claim can write holds the mark of a havoc or that of a
bound variable: not even the normal form of a name brings one in.
-/

namespace HoareCheck

variable {char base other : Char} {code target : Nat} {text : List Char} {program : Program}

/-- A name as programs and claims write it, without the mark of a havoc and that of
a bound variable. -/
def IsWritten (name : String) : Prop :=
  IsPlain name ∧ '$' ∉ name.toList

instance (name : String) : Decidable (IsWritten name) :=
  inferInstanceAs (Decidable ('@' ∉ name.toList ∧ '$' ∉ name.toList))

namespace Text

/-- The code is that of no mark. -/
def IsUnmarkedCode (code : Nat) : Prop :=
  code ≠ 0x40 ∧ code ≠ 0x24

instance (code : Nat) : Decidable (IsUnmarkedCode code) :=
  inferInstanceAs (Decidable (_ ∧ _))

/-- The text holds no mark. -/
def Unmarked (text : List Char) : Prop :=
  '@' ∉ text ∧ '$' ∉ text

theorem unmarked_singleton : Unmarked [char] ↔ '@' ≠ char ∧ '$' ≠ char := by
  simp [Unmarked]

theorem unmarked_of_mem (htext : Unmarked text) (hchar : char ∈ text) : Unmarked [char] :=
  unmarked_singleton.mpr
    ⟨fun heq => htext.1 (heq ▸ hchar), fun heq => htext.2 (heq ▸ hchar)⟩

theorem Unmarked.append {first second : List Char} (hfirst : Unmarked first)
    (hsecond : Unmarked second) : Unmarked (first ++ second) := by
  simp only [Unmarked, List.mem_append, not_or]
  exact ⟨⟨hfirst.1, hsecond.1⟩, hfirst.2, hsecond.2⟩

/-- What is put for characters without marks has none. -/
theorem Unmarked.flatMap {text : List Char} {change : Char → List Char} (htext : Unmarked text)
    (hchange : ∀ char, Unmarked [char] → Unmarked (change char)) :
    Unmarked (text.flatMap change) := by
  induction text with
  | nil => exact ⟨List.not_mem_nil, List.not_mem_nil⟩
  | cons char rest ih =>
    have hrest : Unmarked rest := by
      simp only [Unmarked, List.mem_cons, not_or] at htext
      exact ⟨htext.1.2, htext.2.2⟩
    exact (hchange char (unmarked_of_mem htext List.mem_cons_self)).append (ih hrest)

theorem unmarked_ofNat (hcode : IsUnmarkedCode code) : Unmarked [Char.ofNat code] := by
  have hne (mark : Char) (hmark : code ≠ mark.toNat) (hzero : mark.toNat ≠ 0) :
      mark ≠ Char.ofNat code := by
    intro heq
    have hnat := congrArg Char.toNat heq
    rw [Char.toNat_ofNat] at hnat
    split_ifs at hnat
    · exact hmark hnat.symm
    · exact hzero hnat
  exact unmarked_singleton.mpr ⟨hne '@' hcode.1 (by decide), hne '$' hcode.2 (by decide)⟩

/-! ## Replacements -/

theorem unmarked_shifted? (htarget : shifted? code = some target) : IsUnmarkedCode target := by
  have hruns : ∀ run ∈ shiftedReplacements,
      (run.2.2 + (run.2.1 - run.1) < 0x40 ∨ 0x40 < run.2.2) ∧ 0x24 < run.2.2 := by
    decide +kernel
  obtain ⟨run, hrun, rfl⟩ := Option.map_eq_some_iff.mp htarget
  have hbounds := List.find?_some hrun
  have happart := hruns run (List.mem_of_find?_eq_some hrun)
  simp only [Bool.and_eq_true, decide_eq_true_eq] at hbounds
  constructor <;> omega

theorem unmarked_listed? (htarget : listed? code = some target) : IsUnmarkedCode target := by
  have htargets : ∀ entry ∈ listedReplacements, ∀ target ∈ entry.2, IsUnmarkedCode target := by
    decide +kernel
  obtain ⟨entry, hentry, hfound⟩ := List.exists_of_findSome?_eq_some htarget
  dsimp only at hfound
  split_ifs at hfound
  exact htargets entry hentry target (List.mem_of_getElem? hfound)

theorem unmarked_map_ofNat {codes : List Nat} (hcodes : ∀ code ∈ codes, IsUnmarkedCode code) :
    Unmarked (codes.map Char.ofNat) := by
  induction codes with
  | nil => exact ⟨List.not_mem_nil, List.not_mem_nil⟩
  | cons _ _ ih =>
    rw [List.forall_mem_cons] at hcodes
    exact (unmarked_ofNat hcodes.1).append (ih hcodes.2)

theorem unmarked_replacement (hchar : Unmarked [char]) : Unmarked (replacement char) := by
  have htargets : ∀ entry ∈ expansions, ∀ target ∈ entry.2, IsUnmarkedCode target := by
    decide +kernel
  rw [replacement]
  by_cases hplain : char.toNat < 0x00AA
  · rwa [if_pos hplain]
  · rw [if_neg hplain]
    cases hshifted : shifted? char.toNat with
    | some => exact unmarked_ofNat (unmarked_shifted? hshifted)
    | none =>
      cases hlisted : listed? char.toNat with
      | some => exact unmarked_ofNat (unmarked_listed? hlisted)
      | none =>
        cases hexpansion : expansions.find? fun entry => entry.1 = char.toNat with
        | some entry =>
          exact unmarked_map_ofNat (htargets entry (List.mem_of_find?_eq_some hexpansion))
        | none => exact hchar

/-! ## Composites -/

theorem unmarked_compositeTable : ∀ row ∈ compositeTable, IsUnmarkedCode row.1 ∧
    ∀ join ∈ row.2, IsUnmarkedCode join.1 ∧ IsUnmarkedCode join.2 := by
  decide +kernel

theorem unmarked_partsWithin (hchar : Unmarked [char]) (depth : Nat) :
    Unmarked (partsWithin depth char) := by
  induction depth generalizing char with
  | zero => exact hchar
  | succ _ ih =>
    rw [partsWithin]
    cases hparts : baseAndMark? char with
    | none => exact hchar
    | some =>
      obtain ⟨row, hrow, hfound⟩ := List.exists_of_findSome?_eq_some hparts
      obtain ⟨join, hjoin, rfl⟩ := Option.map_eq_some_iff.mp hfound
      obtain ⟨hmark, hjoins⟩ := unmarked_compositeTable row hrow
      have hbase := (hjoins join (List.mem_of_find?_eq_some hjoin)).1
      exact (ih (unmarked_ofNat hbase)).append (unmarked_ofNat hmark)

/-- Syllables and their parts stand far behind the marks. -/
theorem isUnmarkedCode_of_le {start : Nat} (hstart : 0x40 < start) (hcode : start ≤ code) :
    IsUnmarkedCode code := by
  constructor <;> omega

theorem unmarked_parts (hchar : Unmarked [char]) : Unmarked (parts char) := by
  have hsyllable : ∀ code ∈ syllableParts char.toNat, IsUnmarkedCode code := by
    have hleading : 0x40 < firstLeading := by decide
    have hvowel : 0x40 < firstVowel := by decide
    have htrailing : 0x40 < noTrailing := by decide
    intro code hcode
    rw [syllableParts] at hcode
    have hsum {start offset : Nat} (hstart : 0x40 < start) (hcode : code = start + offset) :
        IsUnmarkedCode code :=
      isUnmarkedCode_of_le hstart (hcode ▸ Nat.le_add_right start offset)
    split_ifs at hcode
    · simp only [List.mem_cons, List.not_mem_nil, or_false] at hcode
      rcases hcode with hcode | hcode
      · exact hsum hleading hcode
      · exact hsum hvowel hcode
    · simp only [List.cons_append, List.nil_append, List.mem_cons, List.not_mem_nil,
        or_false] at hcode
      rcases hcode with hcode | hcode | hcode
      · exact hsum hleading hcode
      · exact hsum hvowel hcode
      · exact hsum htrailing hcode
  rw [parts]
  split_ifs
  · exact hchar
  · exact unmarked_map_ofNat hsyllable
  · exact unmarked_partsWithin hchar 3

theorem unmarked_joinedSyllable? {base mark : Nat} (hcode : joinedSyllable? base mark = some code) :
    IsUnmarkedCode code := by
  have hfirst : 0x40 < firstSyllable := by decide
  unfold joinedSyllable? at hcode
  split at hcode
  · obtain rfl := Option.some.inj hcode
    exact isUnmarkedCode_of_le hfirst (Nat.le_add_right _ _)
  · split at hcode
    · rename_i hsyllable
      obtain rfl := Option.some.inj hcode
      simp only [isSyllable, Bool.and_eq_true, decide_eq_true_eq] at hsyllable
      exact isUnmarkedCode_of_le hfirst (Nat.le_trans hsyllable.1.1.1.1 (Nat.le_add_right _ _))
    · cases hcode

theorem unmarked_composite? {mark composite : Char}
    (hcomposite : composite? base mark = some composite) : Unmarked [composite] := by
  rw [composite?] at hcomposite
  split_ifs at hcomposite
  obtain ⟨code, hcode, rfl⟩ := Option.map_eq_some_iff.mp hcomposite
  apply unmarked_ofNat
  cases hrow : compositeTable.find? fun entry => entry.1 = mark.toNat with
  | none => exact unmarked_joinedSyllable? (by simpa [hrow] using hcode)
  | some row =>
    cases hjoin : row.2.find? fun entry => entry.1 = base.toNat with
    | none => exact unmarked_joinedSyllable? (by simpa [hrow, hjoin] using hcode)
    | some join =>
      obtain rfl : join.2 = code := by simpa [hrow, hjoin] using hcode
      exact ((unmarked_compositeTable row (List.mem_of_find?_eq_some hrow)).2 join
        (List.mem_of_find?_eq_some hjoin)).2

/-! ## Normal forms -/

theorem mem_insertMark (hother : other ∈ insertMark char text) : other = char ∨ other ∈ text := by
  fun_induction insertMark char text <;> grind

theorem mem_orderMarks (hother : other ∈ orderMarks text) : other ∈ text := by
  induction text with
  | nil => exact hother
  | cons char _ ih =>
    rcases mem_insertMark hother with rfl | hrest
    · exact List.mem_cons_self
    · exact List.mem_cons_of_mem char (ih hrest)

theorem unmarked_joinMarks {before : List Char} (hbase : Unmarked [base])
    (hbefore : Unmarked before) (htext : Unmarked text) :
    Unmarked (joinMarks base before text) := by
  fun_induction joinMarks base before text <;> grind [unmarked_composite?, Unmarked]

/-- The normal form of a text brings no mark in. -/
theorem isWritten_normalForm {word : List Char} (hword : Unmarked word) :
    IsWritten (normalForm (String.ofList word)) := by
  have hparted : Unmarked ((word.flatMap replacement).flatMap parts) :=
    (hword.flatMap fun _ => unmarked_replacement).flatMap fun _ => unmarked_parts
  have hordered : Unmarked (orderMarks ((word.flatMap replacement).flatMap parts)) :=
    ⟨fun hmem => hparted.1 (mem_orderMarks hmem), fun hmem => hparted.2 (mem_orderMarks hmem)⟩
  rw [IsWritten, IsPlain, normalForm, String.toList_ofList, String.toList_ofList]
  cases htext : orderMarks ((word.flatMap replacement).flatMap parts) with
  | nil => exact ⟨List.not_mem_nil, List.not_mem_nil⟩
  | cons _ rest =>
    rw [htext] at hordered
    have hrest : Unmarked rest := by
      simp only [Unmarked, List.mem_cons, not_or] at hordered
      exact ⟨hordered.1.2, hordered.2.2⟩
    exact unmarked_joinMarks (unmarked_of_mem hordered List.mem_cons_self)
      ⟨List.not_mem_nil, List.not_mem_nil⟩ hrest

end Text

/-! ## Names of programs and claims -/

namespace Source

theorem holdsOfWords_isWritten : HoldsOfWords IsWritten := by
  intro word hword
  apply Text.isWritten_normalForm
  constructor
  · intro hmem
    rcases hword '@' hmem with hstarts | hcontinues
    · exact absurd hstarts (by decide +kernel)
    · exact absurd hcontinues (by decide +kernel)
  · intro hmem
    rcases hword '$' hmem with hstarts | hcontinues
    · exact absurd hstarts (by decide +kernel)
    · exact absurd hcontinues (by decide +kernel)

theorem isWritten_of_parse {text : String} (hparse : parse text = .ok program) :
    namesOfBlock IsWritten program := by
  have hyields := yields_parse holdsOfWords_isWritten text
  rw [hparse] at hyields
  exact hyields

theorem isPlain_of_parse {text : String} (hparse : parse text = .ok program) :
    namesOfBlock IsPlain program := by
  have hwords : HoldsOfWords IsPlain := fun word hword => (holdsOfWords_isWritten word hword).1
  have hyields := yields_parse hwords text
  rw [hparse] at hyields
  exact hyields

end Source

namespace Token

theorem unmarked_of_first? {before : Option Char} {spelling : List Char} {kind : TokenKind}
    (hfirst : first? before text = some (spelling, kind)) : Text.Unmarked spelling := by
  have hspellings : ∀ entry ∈ keywords ++ signs, '@' ∉ entry.1 ∧ '$' ∉ entry.1 := by decide
  cases text with
  | nil => simp [first?] at hfirst
  | cons char rest =>
    have hrun {keeps : Char → Bool} (hchar : ∀ mark, mark = '@' ∨ mark = '$' → char ≠ mark)
        (hkeeps : keeps '@' = false ∧ keeps '$' = false) :
        Text.Unmarked (char :: rest.takeWhile keeps) := by
      have hmark : ∀ mark, mark = '@' ∨ mark = '$' → mark ∉ char :: rest.takeWhile keeps := by
        intro mark hmark hmem
        rcases List.mem_cons.mp hmem with heq | hmem
        · exact hchar mark hmark heq.symm
        · have hkept := List.mem_takeWhile_imp hmem
          rcases hmark with rfl | rfl
          · rw [hkeeps.1] at hkept
            cases hkept
          · rw [hkeeps.2] at hkept
            cases hkept
      exact ⟨hmark '@' (.inl rfl), hmark '$' (.inr rfl)⟩
    by_cases hdigit : Text.isDigit char = true
    · rw [first?, if_pos hdigit] at hfirst
      obtain ⟨rfl, -⟩ := Prod.mk.inj (Option.some.inj hfirst)
      refine hrun ?_ ⟨by decide +kernel, by decide +kernel⟩
      rintro _ (rfl | rfl) rfl
      · exact absurd hdigit (by decide +kernel)
      · exact absurd hdigit (by decide +kernel)
    · rw [first?, if_neg hdigit] at hfirst
      rcases Option.or_eq_some_iff.mp hfirst with hkeyword | ⟨-, hfirst⟩
      · exact hspellings _ (List.mem_append_left _ (mem_of_keyword? hkeyword).1)
      rcases Option.or_eq_some_iff.mp hfirst with hsign | ⟨-, hfirst⟩
      · exact hspellings _ (List.mem_append_right _ (mem_of_spelled? hsign).1)
      by_cases hname : startsVariable char = true
      · rw [if_pos hname] at hfirst
        obtain ⟨rfl, -⟩ := Prod.mk.inj (Option.some.inj hfirst)
        refine hrun ?_ ⟨by decide +kernel, by decide +kernel⟩
        rintro _ (rfl | rfl) rfl
        · exact absurd hname (by decide)
        · exact absurd hname (by decide)
      · rw [if_neg hname] at hfirst
        cases hfirst

theorem isWritten_of_mem_scanFrom (before : Option Char) (text : List Char) :
    ∀ token ∈ scanFrom before text, IsWritten token.text := by
  induction before, text using scan_induction with
  | nil => simp [scanFrom]
  | passed _ _ _ hfirst => rwa [scanFrom_of_passed hfirst]
  | token _ _ _ _ hne hfirst ih =>
    rw [scanFrom_of_first? hne hfirst]
    intro token htoken
    rcases List.mem_cons.mp htoken with rfl | htoken
    · rw [IsWritten, IsPlain, String.toList_ofList]
      exact unmarked_of_first? hfirst
    · exact ih token htoken

end Token

end HoareCheck
