import HoareCheck.Claim.Copy
import HoareCheck.Claim.Substitution
import HoareCheck.Proofs.Execution

/-!
# Instantiation of variables

`Term.instantiate` puts a term in the place of every variable at once.  On
claims and programs, where nothing is recorded against array reads, it is what
substitution and copying compute; on values it is a change of the store.
-/

namespace HoareCheck

variable {claim new result : Term} {before after : WriteLog} {image : String → Term}
  {interp : Interpretation} {name : String}

namespace Term

/-- Puts the image of every variable in its place.  Binders stay as they are,
and an assignment loses its mark of a privacy charge. -/
@[simp]
def instantiate (image : String → Term) : Term → Term
  | .var name => image name
  | .unary operator operand => .unary operator (operand.instantiate image)
  | .binary left operator right =>
    .binary (left.instantiate image) operator (right.instantiate image)
  | .quantified quantifier binder type written body closed =>
    .quantified quantifier binder type written (body.instantiate image) closed
  | .assign target value _ =>
    .assign (target.instantiate image) (value.instantiate image) false
  | .ifElse condition thenBranch elseBranch =>
    .ifElse (condition.instantiate image) (thenBranch.instantiate image)
      (elseBranch.instantiate image)
  | .seq first second => .seq (first.instantiate image) (second.instantiate image)
  | .assume claim => .assume (claim.instantiate image)
  | .assert claim => .assert (claim.instantiate image)
  | .loop invariant condition body =>
    .loop (invariant.instantiate image) (condition.instantiate image)
      (body.instantiate image)
  | term => term

/-- The image of every variable when one of them is replaced. -/
def replacing (name : String) (new : Term) : String → Term :=
  Function.update Term.var name new

theorem instantiate_instantiate (first second : String → Term) (term : Term) :
    (term.instantiate first).instantiate second =
      term.instantiate fun name => (first name).instantiate second := by
  induction term <;> simp_all [instantiate]

/-! ## Claims -/

theorem instantiate_var (hclaim : claim.isClaim = true) : claim.instantiate Term.var = claim := by
  induction claim with
  | unary _ _ ih =>
    rw [instantiate, ih (by simpa using hclaim)]
  | binary _ _ _ ihleft ihright =>
    simp only [isClaim, Bool.and_eq_true] at hclaim
    rw [instantiate, ihleft hclaim.1, ihright hclaim.2]
  | quantified _ _ _ _ _ _ _ _ ihbody =>
    obtain ⟨_, rfl, hbody⟩ := isClaim_quantified hclaim
    rw [instantiate, ihbody hbody]
  | var | literal => rfl
  | _ => simp at hclaim

theorem isClaim_instantiate (hclaim : claim.isClaim = true)
    (himage : ∀ name ∈ claim.freeNames ++ claim.boundNames, (image name).isClaim = true) :
    (claim.instantiate image).isClaim = true := by
  induction claim with
  | var name => exact himage name (by simp)
  | literal => rfl
  | unary _ _ ih =>
    simp only [isClaim, instantiate] at hclaim ⊢
    exact ih hclaim himage
  | binary _ _ _ ihleft ihright =>
    simp only [isClaim, Bool.and_eq_true, instantiate] at hclaim ⊢
    simp only [freeNames, boundNames, List.mem_append] at himage ihleft ihright
    exact ⟨ihleft hclaim.1 fun name hname => himage name (by tauto),
      ihright hclaim.2 fun name hname => himage name (by tauto)⟩
  | quantified _ _ _ _ _ _ _ _ ihbody =>
    obtain ⟨bound, rfl, hbody⟩ := isClaim_quantified hclaim
    simp only [isClaim, instantiate]
    refine ihbody hbody fun name hname => himage name ?_
    by_cases hbound : name = bound
    · simp [hbound, name?]
    · simp only [List.mem_append] at hname
      simpa [name?, hbound] using hname
  | _ => simp at hclaim

/-- No binder of a claim catches a variable of the images: bound variables stay
as they are, and the images of the others do not speak of them. -/
def CaptureFree (image : String → Term) (claim : Term) : Prop :=
  ∀ bound ∈ claim.boundNames, image bound = .var bound ∧
    ∀ name ∈ claim.freeNames, name ≠ bound → bound ∉ (image name).freeNames

namespace CaptureFree

variable {image : String → Term}

theorem left {left right : Term} {operator : Operator}
    (hcapture : CaptureFree image (.binary left operator right)) : CaptureFree image left := by
  intro bound hbound
  obtain ⟨hvar, hfree⟩ := hcapture bound (by simp [hbound])
  exact ⟨hvar, fun name hname => hfree name (by simp [hname])⟩

theorem right {left right : Term} {operator : Operator}
    (hcapture : CaptureFree image (.binary left operator right)) : CaptureFree image right := by
  intro bound hbound
  obtain ⟨hvar, hfree⟩ := hcapture bound (by simp [hbound])
  exact ⟨hvar, fun name hname => hfree name (by simp [hname])⟩

theorem body {quantifier : Quantifier} {binder : String} {type : Option Ty}
    {written body : Term} {closed : Bool} (hcapture : CaptureFree image
      (.quantified quantifier (.var binder) type written body closed)) :
    CaptureFree image body := by
  intro bound hbound
  obtain ⟨hvar, hfree⟩ := hcapture bound (by simp [hbound])
  refine ⟨hvar, fun name hname hne => ?_⟩
  by_cases hbinder : name = binder
  · subst hbinder
    have himage := (hcapture name (by simp [name?])).1
    simpa [himage] using hne.symm
  · exact hfree name (by simp [name?, hname, hbinder]) hne

end CaptureFree

/-- Instantiation is a change of the store. -/
theorem eval_instantiate (hclaim : claim.isClaim = true) (hcapture : CaptureFree image claim)
    (store : Store) :
    (claim.instantiate image).eval interp store =
      claim.eval interp fun name => (image name).eval interp store := by
  induction claim generalizing store with
  | var | literal => rfl
  | unary _ _ ih =>
    simp only [instantiate, eval_unary]
    rw [ih (by simpa using hclaim) hcapture]
  | binary _ _ _ ihleft ihright =>
    simp only [isClaim, Bool.and_eq_true] at hclaim
    simp only [instantiate, eval_binary]
    rw [ihleft hclaim.1 hcapture.left, ihright hclaim.2 hcapture.right]
  | quantified _ _ _ _ _ _ _ _ ihbody =>
    obtain ⟨bound, rfl, hbody⟩ := isClaim_quantified hclaim
    simp only [instantiate, eval_quantified]
    congr 2
    funext value
    rw [ihbody hbody hcapture.body]
    congr 1
    apply eval_congr
    intro name hname
    obtain ⟨hvar, hfree⟩ := hcapture bound (by simp [name?])
    simp only [Store.bind_var]
    by_cases hname' : name = bound
    · rw [hname', hvar]
      simp
    · rw [Function.update_of_ne hname']
      apply eval_congr
      intro other hother
      have hne : other ≠ bound := by
        rintro rfl
        exact hfree name (by simp [name?, hname, hname']) hname' hother
      exact Function.update_of_ne hne _ _
  | _ => simp at hclaim

/-- What an instantiated claim speaks of, the images of its variables do. -/
theorem mem_freeNames_instantiate (hclaim : claim.isClaim = true)
    (hcapture : CaptureFree image claim) (hname : name ∈ (claim.instantiate image).freeNames) :
    ∃ source ∈ claim.freeNames, name ∈ (image source).freeNames := by
  induction claim with
  | var source => exact ⟨source, by simp, hname⟩
  | literal => simp at hname
  | unary _ _ ih =>
    exact ih (by simpa using hclaim) hcapture hname
  | binary _ _ _ ihleft ihright =>
    simp only [isClaim, Bool.and_eq_true] at hclaim
    simp only [instantiate, freeNames, List.mem_append] at hname
    rcases hname with hname | hname
    · obtain ⟨source, hsource, himage⟩ := ihleft hclaim.1 hcapture.left hname
      exact ⟨source, by simp [hsource], himage⟩
    · obtain ⟨source, hsource, himage⟩ := ihright hclaim.2 hcapture.right hname
      exact ⟨source, by simp [hsource], himage⟩
  | quantified _ _ _ _ _ _ _ _ ihbody =>
    obtain ⟨bound, rfl, hbody⟩ := isClaim_quantified hclaim
    simp only [instantiate, freeNames, name?, List.mem_filter, ne_eq,
      Option.some.injEq, decide_not, Bool.not_eq_true', decide_eq_false_iff_not]
      at hname
    obtain ⟨source, hsource, himage⟩ := ihbody hbody hcapture.body hname.1
    refine ⟨source, ?_, himage⟩
    have hne : source ≠ bound := by
      rintro rfl
      have hvar := (hcapture source (by simp [name?])).1
      rw [hvar] at himage
      exact hname.2 (by simpa using himage)
    simp [name?, hsource, hne]
  | _ => simp at hclaim

theorem mem_boundNames_instantiate (hclaim : claim.isClaim = true)
    (hname : name ∈ (claim.instantiate image).boundNames) : name ∈ claim.boundNames ∨
      ∃ source ∈ claim.freeNames ++ claim.boundNames, name ∈ (image source).boundNames := by
  induction claim with
  | var source => exact .inr ⟨source, by simp, hname⟩
  | literal => simp at hname
  | unary _ _ ih =>
    exact ih (by simpa using hclaim) hname
  | binary _ _ _ ihleft ihright =>
    simp only [isClaim, Bool.and_eq_true] at hclaim
    simp only [instantiate, boundNames, List.mem_append] at hname
    simp only [freeNames, boundNames, List.mem_append] at ihleft ihright ⊢
    rcases hname with hname | hname
    · rcases ihleft hclaim.1 hname with hbound | ⟨source, hsource, himage⟩
      · exact .inl (.inl hbound)
      · exact .inr ⟨source, by tauto, himage⟩
    · rcases ihright hclaim.2 hname with hbound | ⟨source, hsource, himage⟩
      · exact .inl (.inr hbound)
      · exact .inr ⟨source, by tauto, himage⟩
  | quantified _ _ _ _ _ _ _ _ ihbody =>
    obtain ⟨bound, rfl, hbody⟩ := isClaim_quantified hclaim
    simp only [instantiate, boundNames, name?, Option.toList_some,
      List.singleton_append, List.mem_cons] at hname
    rcases hname with hname | hname
    · exact .inl (by simp [name?, hname])
    · rcases ihbody hbody hname with hinner | ⟨source, hsource, himage⟩
      · exact .inl (by simp [hinner])
      · refine .inr ⟨source, ?_, himage⟩
        by_cases hsource' : source = bound
        · simp [name?, hsource']
        · simp only [List.mem_append] at hsource
          simpa [name?, hsource'] using hsource
  | _ => simp at hclaim

/-! ## Replacing one variable -/

theorem captureFree_replacing
    (hbound : ∀ bound ∈ claim.boundNames, bound ≠ name ∧ bound ∉ new.freeNames) :
    CaptureFree (replacing name new) claim := by
  intro bound hmem
  obtain ⟨hne, hfresh⟩ := hbound bound hmem
  refine ⟨Function.update_of_ne hne _ _, fun other _ hother => ?_⟩
  by_cases hname : other = name
  · simpa [replacing, hname] using hfresh
  · simpa [replacing, hname] using hother.symm

section

variable (hclaim : claim.isClaim = true)

include hclaim

/-- Replacing a variable is assigning to it. -/
theorem eval_replacing (hbound : ∀ bound ∈ claim.boundNames, bound ≠ name ∧ bound ∉ new.freeNames)
    (store : Store) :
    (claim.instantiate (replacing name new)).eval interp store =
      claim.eval interp (Function.update store name (new.eval interp store)) := by
  rw [eval_instantiate hclaim (captureFree_replacing hbound)]
  congr 1
  funext other
  by_cases hother : other = name <;> simp [replacing, hother]

theorem isClaim_replacing (hnew : new.isClaim = true) :
    (claim.instantiate (replacing name new)).isClaim = true := by
  apply isClaim_instantiate hclaim
  intro other _
  by_cases hother : other = name <;> simp [replacing, hother, hnew]

/-- Substitution in a claim always succeeds, and touches no recorded writes. -/
theorem gives_substituteWith {atRead : Site → Term → Logged Unit} :
    Gives (substituteWith atRead (.var name) new claim) before result after ↔
      claim.instantiate (replacing name new) = result ∧ before = after := by
  induction claim generalizing before result after with
  | var other =>
    by_cases hother : other = name <;>
      simp [substituteWith, replacing, hother]
  | literal => simp [substituteWith]
  | unary _ _ ih =>
    simp [substituteWith, instantiate, ih (by simpa using hclaim)]
  | binary _ _ _ ihleft ihright =>
    simp only [isClaim, Bool.and_eq_true] at hclaim
    simp [substituteWith, ihleft hclaim.1, ihright hclaim.2, and_comm]
  | quantified _ _ _ _ _ _ _ _ ihbody =>
    obtain ⟨_, rfl, hbody⟩ := isClaim_quantified hclaim
    simp [substituteWith, ihbody hbody]
  | _ => simp at hclaim

theorem gives_substitute :
    Gives (claim.substitute (.var name) new) before result after ↔
      claim.instantiate (replacing name new) = result ∧ before = after := by
  simp [substitute, gives_substituteWith hclaim, and_comm]

/-- A claim is its own copy. -/
theorem gives_copy : Gives claim.copy before result after ↔ claim = result ∧ before = after := by
  induction claim generalizing before result after with
  | var | literal => simp [copy]
  | unary _ _ ih =>
    simp [copy, ih (by simpa using hclaim)]
  | binary _ _ _ ihleft ihright =>
    simp only [isClaim, Bool.and_eq_true] at hclaim
    simp [copy, ihleft hclaim.1, ihright hclaim.2, and_comm]
  | quantified _ _ _ _ _ _ _ _ ihbody =>
    obtain ⟨_, rfl, hbody⟩ := isClaim_quantified hclaim
    simp [copy, ihbody hbody]
  | _ => simp at hclaim

end

end Term

end HoareCheck
