import HoareCheck.Text.CombiningClass
import HoareCheck.Text.Composite
import HoareCheck.Text.Replacement

/-!
# Normal form of names

Two spellings of a name are the same name if they differ only in the shape of
characters, in the order of marks that do not touch, or in the use of
composites.  The normal form is the one spelling that stands for all of them:
plain characters, taken apart, their marks in the order of their classes, and
joined again (the form NFKC of Unicode).
-/

namespace HoareCheck.Text

/-- Puts a character in front of a text in order.  A mark goes behind the marks
of lower class that follow it. -/
def insertMark (char : Char) : List Char → List Char
  | [] => [char]
  | next :: rest =>
    if 0 < combiningClass next && combiningClass next < combiningClass char then
      next :: insertMark char rest
    else
      char :: next :: rest

/-- A text with each run of marks in the order of their classes; marks of one
class keep their order. -/
def orderMarks (text : List Char) : List Char :=
  text.foldr insertMark []

/-- Whether a mark is kept from joining the base by the mark before it, which
has to be of lower class. -/
def isBlocked (before : List Char) (char : Char) : Bool :=
  match before with
  | [] => false
  | last :: _ => combiningClass char ≤ combiningClass last

/-- Joins the marks that follow a base with it.  `before` holds the marks
already found not to join it, the last first. -/
def joinMarks (base : Char) (before : List Char) : List Char → List Char
  | [] => base :: before.reverse
  | char :: rest =>
    match if isBlocked before char then none else composite? base char with
    | some composite => joinMarks composite before rest
    | none =>
      if combiningClass char = 0 then base :: before.reverse ++ joinMarks char [] rest
      else joinMarks base (char :: before) rest

def joined : List Char → List Char
  | [] => []
  | base :: rest => joinMarks base [] rest

/-- The normal form of a name. -/
def normalForm (name : String) : String :=
  String.ofList (joined (orderMarks ((name.toList.flatMap replacement).flatMap parts)))

/-! ## Names in normal form -/

theorem insertMark_of_class_zero {char : Char} (hclass : combiningClass char = 0)
    (text : List Char) : insertMark char text = char :: text := by
  cases text with
  | nil => rfl
  | cons next rest => simp [insertMark, hclass]

theorem orderMarks_eq_self {text : List Char}
    (hclass : ∀ char ∈ text, combiningClass char = 0) : orderMarks text = text := by
  induction text with
  | nil => rfl
  | cons char rest ih =>
    have hrest : orderMarks rest = rest :=
      ih fun other hother => hclass other (List.mem_cons_of_mem char hother)
    change insertMark char (orderMarks rest) = char :: rest
    rw [hrest, insertMark_of_class_zero (hclass char List.mem_cons_self)]

theorem joinMarks_eq_cons {text : List Char} (base : Char)
    (hbefore : ∀ char ∈ text, char.toNat < 0x300) : joinMarks base [] text = base :: text := by
  induction text generalizing base with
  | nil => rfl
  | cons char rest ih =>
    have hchar := hbefore char List.mem_cons_self
    have hrest := ih char fun other hother => hbefore other (List.mem_cons_of_mem char hother)
    simp [joinMarks, composite?_eq_none base hchar, combiningClass_eq_zero hchar, hrest]

theorem flatMap_eq_self {f : Char → List Char} {text : List Char}
    (hself : ∀ char ∈ text, f char = [char]) : text.flatMap f = text := by
  induction text with
  | nil => rfl
  | cons char rest ih =>
    have hrest := ih fun other hother => hself other (List.mem_cons_of_mem char hother)
    rw [List.flatMap_cons, hself char List.mem_cons_self, hrest]
    rfl

/-- A name of plain characters is its own normal form. -/
theorem normalForm_eq_self {name : String}
    (hplain : ∀ char ∈ name.toList, char.toNat < 0xAA) : normalForm name = name := by
  have hreplaced : name.toList.flatMap replacement = name.toList :=
    flatMap_eq_self fun char hchar => replacement_eq_self (hplain char hchar)
  have hparted : name.toList.flatMap parts = name.toList :=
    flatMap_eq_self fun char hchar => parts_eq_self (Nat.lt_trans (hplain char hchar) (by decide))
  have hbefore : ∀ char ∈ name.toList, char.toNat < 0x300 :=
    fun char hchar => Nat.lt_trans (hplain char hchar) (by decide)
  have hordered : orderMarks name.toList = name.toList :=
    orderMarks_eq_self fun char hchar => combiningClass_eq_zero (hbefore char hchar)
  have hjoined : joined name.toList = name.toList := by
    cases htext : name.toList with
    | nil => rfl
    | cons base rest =>
      exact joinMarks_eq_cons base fun char hchar =>
        hbefore char (htext ▸ List.mem_cons_of_mem base hchar)
  rw [normalForm, hreplaced, hparted, hordered, hjoined, String.ofList_toList]

end HoareCheck.Text
