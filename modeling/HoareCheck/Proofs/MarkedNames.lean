import HoareCheck.Hoare.Precondition
import Mathlib

/-!
# Names and the marks in them

The havoc of a variable introduces another, written with a mark and a number
after its name.  Names that hold no such mark are plain: no havoc introduces
them, and different havocs of plain names introduce different variables.

Copies of a variable carry another mark; a name without it is no copy.
-/

namespace HoareCheck

theorem toList_havocName (name : String) (count : Int) :
    (havocName name count).toList = name.toList ++ '@' :: (toString count).toList := by
  simp [havocName]

/-- A number is written in digits, after a sign perhaps. -/
theorem not_mem_toString {char : Char} (hdigit : char.isDigit = false) (hsign : char ≠ '-')
    (count : Int) : char ∉ (toString count).toList := by
  intro hmem
  have hdigits : ∀ value : Nat, char ∉ value.repr.toList := by
    intro value hvalue
    rw [Nat.toList_repr] at hvalue
    have hisDigit := Nat.isDigit_of_mem_toDigits (by decide) (by decide) hvalue
    rw [hdigit] at hisDigit
    cases hisDigit
  cases count with
  | ofNat value => exact hdigits value hmem
  | negSucc value =>
    have hsigned : char ∈ ("-" ++ (value + 1).repr).toList := hmem
    simp only [String.toList_append, List.mem_append] at hsigned
    rcases hsigned with hfirst | hvalue
    · exact hsign (List.mem_singleton.mp hfirst)
    · exact hdigits _ hvalue

/-- The number of a havoc is written without the mark before it. -/
theorem at_not_mem_toString (count : Int) : '@' ∉ (toString count).toList :=
  not_mem_toString (by decide) (by decide) count

/-- A text falls apart at its last mark in one way. -/
theorem append_at_inj {left right first second : List Char}
    (hfirst : '@' ∉ first) (hsecond : '@' ∉ second)
    (heq : left ++ '@' :: first = right ++ '@' :: second) : left = right ∧ first = second := by
  rcases List.append_eq_append_iff.mp heq with ⟨rest, rfl, hrest⟩ | ⟨rest, rfl, hrest⟩
  · cases rest with
    | nil => simpa using hrest
    | cons =>
      obtain ⟨rfl, rfl⟩ := List.cons.inj hrest
      simp at hfirst
  · cases rest with
    | nil => simpa [eq_comm] using hrest
    | cons =>
      obtain ⟨rfl, rfl⟩ := List.cons.inj hrest
      simp at hsecond

/-- A havoc is known by the variable that it introduces. -/
theorem havocName_inj {name other : String} {count number : Int} :
    havocName name count = havocName other number ↔ name = other ∧ count = number := by
  constructor
  · intro heq
    have hlist := congrArg String.toList heq
    rw [toList_havocName, toList_havocName] at hlist
    obtain ⟨hname, hcount⟩ :=
      append_at_inj (at_not_mem_toString count) (at_not_mem_toString number) hlist
    exact ⟨String.toList_inj.mp hname, Int.repr_injective (String.toList_inj.mp hcount)⟩
  · rintro ⟨rfl, rfl⟩
    rfl

/-- A name that holds no mark of a havoc. -/
def IsPlain (name : String) : Prop :=
  '@' ∉ name.toList

theorem not_isPlain_havocName (name : String) (count : Int) : ¬ IsPlain (havocName name count) := by
  simp [IsPlain, toList_havocName]

/-- A name that does not hold a mark is all that stands before the first one. -/
theorem ofList_takeWhile_ne {name : String} {mark : Char} (hmark : mark ∉ name.toList) :
    String.ofList (name.toList.takeWhile (· ≠ mark)) = name := by
  have hall : name.toList.takeWhile (· ≠ mark) = name.toList := by
    rw [List.takeWhile_eq_self_iff]
    intro char hchar
    have hne : char ≠ mark := fun heq => hmark (heq ▸ hchar)
    simpa using hne
  rw [hall, String.ofList_toList]

theorem plainName_eq_self {name : String} (hname : '#' ∉ name.toList) : plainName name = name :=
  ofList_takeWhile_ne hname

/-- What stands before the first mark of a havoc in a name. -/
def baseName (name : String) : String :=
  String.ofList (name.toList.takeWhile (· ≠ '@'))

theorem baseName_eq_self {name : String} (hname : IsPlain name) : baseName name = name :=
  ofList_takeWhile_ne hname

theorem baseName_havocName {name : String} (hname : IsPlain name) (count : Int) :
    baseName (havocName name count) = name := by
  rw [baseName, toList_havocName, List.takeWhile_append_of_pos]
  · simp
  · intro char hchar
    have hne : char ≠ '@' := fun heq => hname (heq ▸ hchar)
    simpa using hne

end HoareCheck
