import HoareCheck.Elaboration.Expr
import HoareCheck.Proofs.Renaming

/-!
# Forked claims and joint stores

To speak of two runs at once, each forked name `v` is replaced by its copies
`v#1` and `v#2`, one name after the other.  No copy is a name of a program, so
that this replaces all names at once.  A joint store (`Store.joint`) holds the
variables of both runs under the copies; in it the copies of a claim have the
values that the claim has in the two runs.
-/

namespace HoareCheck

open Function

variable {copy : String → String} {name : String} {names : List String}

/-! ## Copies of names -/

theorem firstCopy_injective : Function.Injective firstCopy := by
  intro left right hsame
  simpa [firstCopy] using hsame

theorem secondCopy_injective : Function.Injective secondCopy := by
  intro left right hsame
  simpa [secondCopy] using hsame

theorem firstCopy_ne_secondCopy (left right : String) : firstCopy left ≠ secondCopy right := by
  intro hsame
  have hlast := congrArg (fun name : String => name.toList.getLast?) hsame
  simp [firstCopy, secondCopy, String.toList_append] at hlast

/-- A name of a source program: none holds a number sign, which would start a
comment. -/
def IsUnmarked (name : String) : Prop :=
  '#' ∉ name.toList

theorem not_isUnmarked_firstCopy (name : String) : ¬ IsUnmarked (firstCopy name) := by
  simp [IsUnmarked, firstCopy, String.toList_append]

theorem not_isUnmarked_secondCopy (name : String) : ¬ IsUnmarked (secondCopy name) := by
  simp [IsUnmarked, secondCopy, String.toList_append]

/-! ## Joint stores -/

/-- The store of two runs: the copies of the forked names hold the variables of
the two runs, and all other names are those of `base`. -/
def Store.joint (names : List String) (base first second : Store) : Store := fun name =>
  match names.find? (firstCopy · = name), names.find? (secondCopy · = name) with
  | some original, _ => first original
  | none, some original => second original
  | none, none => base name

section Joint

variable {names : List String} {base first second : Store}

theorem find?_copy (hcopy : Function.Injective copy) (hname : name ∈ names) :
    names.find? (copy · = copy name) = some name := by
  cases hfind : names.find? (copy · = copy name) with
  | none =>
    have hnot := List.find?_eq_none.mp hfind name hname
    simp at hnot
  | some found =>
    have hsame : copy found = copy name := by simpa using List.find?_some hfind
    rw [hcopy hsame]

theorem find?_copy_eq_none (hname : ∀ original ∈ names, copy original ≠ name) :
    names.find? (copy · = name) = none := by
  rw [List.find?_eq_none]
  simpa using hname

theorem Store.joint_firstCopy (hname : name ∈ names) :
    Store.joint names base first second (firstCopy name) = first name := by
  simp only [joint, find?_copy firstCopy_injective hname]

theorem Store.joint_secondCopy (hname : name ∈ names) :
    Store.joint names base first second (secondCopy name) = second name := by
  have hfirst : names.find? (firstCopy · = secondCopy name) = none :=
    find?_copy_eq_none fun original _ => firstCopy_ne_secondCopy original name
  simp only [joint, hfirst, find?_copy secondCopy_injective hname]

theorem Store.joint_other (hfirst : ∀ original ∈ names, firstCopy original ≠ name)
    (hsecond : ∀ original ∈ names, secondCopy original ≠ name) :
    Store.joint names base first second name = base name := by
  simp only [joint, find?_copy_eq_none hfirst, find?_copy_eq_none hsecond]

theorem Store.joint_unmarked (hname : IsUnmarked name) :
    Store.joint names base first second name = base name := by
  apply joint_other
  · rintro original - rfl
    exact not_isUnmarked_firstCopy original hname
  · rintro original - rfl
    exact not_isUnmarked_secondCopy original hname

/-- A joint store is known by its copies and by the names that are none. -/
theorem Store.eq_joint {store : Store}
    (hfirst : ∀ name ∈ names, store (firstCopy name) = first name)
    (hsecond : ∀ name ∈ names, store (secondCopy name) = second name)
    (hother : ∀ name, (∀ original ∈ names, firstCopy original ≠ name) →
      (∀ original ∈ names, secondCopy original ≠ name) → store name = base name) :
    store = Store.joint names base first second := by
  funext name
  by_cases hisFirst : ∃ original ∈ names, firstCopy original = name
  · obtain ⟨original, horiginal, rfl⟩ := hisFirst
    rw [hfirst original horiginal, joint_firstCopy horiginal]
  by_cases hisSecond : ∃ original ∈ names, secondCopy original = name
  · obtain ⟨original, horiginal, rfl⟩ := hisSecond
    rw [hsecond original horiginal, joint_secondCopy horiginal]
  push Not at hisFirst hisSecond
  rw [hother name hisFirst hisSecond, joint_other hisFirst hisSecond]

theorem Store.update_joint_firstCopy (hname : name ∈ names) (value : Value) :
    Function.update (Store.joint names base first second) (firstCopy name) value =
      Store.joint names base (Function.update first name value) second := by
  apply eq_joint
  · intro other hother
    by_cases hsame : other = name
    · subst hsame
      rw [update_self, update_self]
    · rw [update_of_ne (firstCopy_injective.ne hsame), update_of_ne hsame, joint_firstCopy hother]
  · intro other hother
    rw [update_of_ne (firstCopy_ne_secondCopy name other).symm, joint_secondCopy hother]
  · intro other hfirst hsecond
    rw [update_of_ne (hfirst name hname).symm, joint_other hfirst hsecond]

theorem Store.update_joint_secondCopy (hname : name ∈ names) (value : Value) :
    Function.update (Store.joint names base first second) (secondCopy name) value =
      Store.joint names base first (Function.update second name value) := by
  apply eq_joint
  · intro other hother
    rw [update_of_ne (firstCopy_ne_secondCopy other name), joint_firstCopy hother]
  · intro other hother
    by_cases hsame : other = name
    · subst hsame
      rw [update_self, update_self]
    · rw [update_of_ne (secondCopy_injective.ne hsame), update_of_ne hsame, joint_secondCopy hother]
  · intro other hfirst hsecond
    rw [update_of_ne (hsecond name hname).symm, joint_other hfirst hsecond]

end Joint

/-! ## Forked claims -/

/-- The names after some of them have been replaced by copies. -/
def copied (copy : String → String) (names : List String) (name : String) : String :=
  if name ∈ names then copy name else name

namespace Term

/-- A claim without binders that speaks of the given names, in this order. -/
structure IsOver (term : Term) (names : List String) : Prop where
  isClaim : term.isClaim = true
  unbound : term.boundNames = []
  free : term.freeNames = names

theorem IsOver.unary {operand : Term} {names : List String} (hoperand : operand.IsOver names)
    (operator : Operator) : (Term.unary operator operand).IsOver names :=
  ⟨hoperand.isClaim, hoperand.unbound, hoperand.free⟩

theorem IsOver.binary {left right : Term} {leftNames rightNames : List String}
    (hleft : left.IsOver leftNames) (hright : right.IsOver rightNames) (operator : Operator) :
    (Term.binary left operator right).IsOver (leftNames ++ rightNames) where
  isClaim := by simp [hleft.isClaim, hright.isClaim]
  unbound := by simp [hleft.unbound, hright.unbound]
  free := by simp [hleft.free, hright.free]

theorem RenamedTo.substitute {rename : String → String} {claim current : Term}
    (hrenamed : claim.RenamedTo rename current) (name new : String) (log : WriteLog) :
    ∃ renamed, Gives (current.substitute (.var name) (.var new)) log renamed log ∧
      claim.RenamedTo (Function.update id name new ∘ rename) renamed := by
  have hgives : Gives (current.substitute (.var name) (.var new)) log
      (current.instantiate (replacing name (.var new))) log :=
    (gives_substitute hrenamed.isClaim_renamed).mpr ⟨rfl, rfl⟩
  have hplain : Gives (Term.substituteWith (fun _ _ => pure ()) (.var name) (.var new) current)
      log (current.instantiate (replacing name (.var new))) log :=
    (gives_substituteWith hrenamed.isClaim_renamed).mpr ⟨rfl, rfl⟩
  exact ⟨_, hgives, hrenamed.substituteWith hplain⟩

/-- Replacing the names one after the other replaces them all at once, because no
copy is a name again. -/
theorem RenamedTo.renameAll {copy rename : String → String} {claim current : Term}
    {names : List String} (hcopy : ∀ name ∈ names, copy name ∉ names)
    (hrenamed : claim.RenamedTo rename current) (log : WriteLog) :
    ∃ renamed, Gives (current.renameAll (names.map fun name => (name, copy name))) log renamed log ∧
      claim.RenamedTo (copied copy names ∘ rename) renamed := by
  induction names generalizing rename current with
  | nil => exact ⟨current, gives_pure.mpr ⟨rfl, rfl⟩, hrenamed⟩
  | cons name names ih =>
    obtain ⟨between, hbetween, hrenamed⟩ := hrenamed.substitute name (copy name) log
    obtain ⟨renamed, hgives, hrenamed⟩ := ih
      (fun other hother hmem => hcopy other (by simp [hother]) (by simp [hmem])) hrenamed
    refine ⟨renamed, ?_, ?_⟩
    · rw [Term.renameAll, List.map_cons, List.foldlM_cons, gives_bind]
      exact ⟨between, log, hbetween, hgives⟩
    · have hsame : copied copy (name :: names) ∘ rename =
          copied copy names ∘ Function.update id name (copy name) ∘ rename := by
        funext other
        by_cases hother : rename other = name
        · have hfresh : copy name ∉ names := fun hmem => hcopy name (by simp) (by simp [hmem])
          simp [copied, hother, hfresh]
        · simp [copied, hother]
      rw [hsame]
      exact hrenamed

/-- The copies of a claim for the two runs. -/
theorem gives_fork {claim : Term} (hclaim : claim.isClaim = true)
    (hnames : ∀ name ∈ names, IsUnmarked name) :
    ∃ first second, (∀ log, Gives (claim.fork names) log (first, second) log) ∧
      claim.RenamedTo (copied firstCopy names) first ∧
      claim.RenamedTo (copied secondCopy names) second := by
  have hcopies : ∀ copy : String → String, (∀ name, ¬ IsUnmarked (copy name)) →
      ∃ renamed, (∀ log, Gives (claim.renameAll (names.map fun name => (name, copy name))) log
        renamed log) ∧ claim.RenamedTo (copied copy names) renamed := by
    intro copy hmarked
    have hcopy : ∀ name ∈ names, copy name ∉ names :=
      fun name _ hmem => hmarked name (hnames _ hmem)
    obtain ⟨renamed, -, hrenamed⟩ := (RenamedTo.refl hclaim).renameAll hcopy WriteLog.empty
    refine ⟨renamed, fun log => ?_, hrenamed⟩
    obtain ⟨_, _, hother⟩ := (RenamedTo.refl hclaim).renameAll hcopy log
    rwa [hrenamed.eq, ← hother.eq]
  obtain ⟨first, hfirst, hfirstRenamed⟩ := hcopies firstCopy not_isUnmarked_firstCopy
  obtain ⟨second, hsecond, hsecondRenamed⟩ := hcopies secondCopy not_isUnmarked_secondCopy
  refine ⟨first, second, fun log => ?_, hfirstRenamed, hsecondRenamed⟩
  simp only [fork, gives_bind, gives_copy hclaim, gives_pure]
  exact ⟨claim, log, ⟨rfl, rfl⟩, claim, log, ⟨rfl, rfl⟩, first, log, hfirst log, second, log,
    hsecond log, rfl, rfl⟩

/-- A claim without binders has the same value under names that hold the same
values. -/
theorem RenamedTo.eval_of_unmarked {free : List String} {claim renamed : Term}
    {store newStore : Store} {interp : Interpretation}
    (hrenamed : claim.RenamedTo (copied copy names) renamed) (hcopy : Function.Injective copy)
    (hmarked : ∀ name, ¬ IsUnmarked (copy name)) (hover : claim.IsOver free)
    (hfree : ∀ name ∈ free, IsUnmarked name)
    (hfollows : ∀ name, IsUnmarked name → newStore (copied copy names name) = store name) :
    renamed.eval interp newStore = claim.eval interp store := by
  have hinj : Set.InjOn (copied copy names) {name | IsUnmarked name} := by
    intro left hleft right hright hsame
    by_cases hmemLeft : left ∈ names <;> by_cases hmemRight : right ∈ names <;>
      simp only [copied, hmemLeft, hmemRight, if_true, if_false] at hsame
    · exact hcopy hsame
    · exact absurd (hsame ▸ hright) (hmarked left)
    · exact absurd (hsame ▸ hleft) (hmarked right)
    · exact hsame
  refine hrenamed.eval_eq hinj ⟨?_, ?_⟩ hfollows
  · rw [hover.free]
    exact hfree
  · simp [hover.unbound]

end Term

end HoareCheck
