import HoareCheck.Claim.Copy
import HoareCheck.Proofs.Gives
import HoareCheck.Proofs.SubstitutionSteps

/-!
# Frames

A frame says which sites and names the terms of a computation may have, and which
quantifiers and statements may stand in them.  A computation builds in a frame if
its results fit the frame, what it records fits too, and it records nothing
against sites outside.  New sites have to be in the frame as well.
-/

namespace HoareCheck

variable {term condition : Term} {log : WriteLog} {site : Site} {writes : Writes}
  {entry : String × Term} {α : Type}

/-- What may stand in a term.  A quantifier is looked at by the name of its
variable and the type given for it; the term written for a type need not be
looked at. -/
structure Frame where
  site : Site → Prop
  name : String → Prop
  binder : String → Option Ty → Prop
  reachesWritten : Prop
  statements : Prop
  havocs : Prop

/-- A term stays in a frame. -/
@[grind =]
def Term.InFrame (frame : Frame) : Term → Prop
  | .missing | .literal _ => True
  | .var name => frame.name name
  | .slice lower upper => lower.InFrame frame ∧ upper.InFrame frame
  | .subscript site array index => frame.site site ∧ array.InFrame frame ∧ index.InFrame frame
  | .unary _ operand => operand.InFrame frame
  | .binary left _ right => left.InFrame frame ∧ right.InFrame frame
  | .quantified _ binder type written body _ =>
    (∃ name, binder = .var name ∧ frame.name name ∧ frame.binder name type) ∧
      (frame.reachesWritten → written.InFrame frame) ∧ body.InFrame frame
  | .skip => frame.statements
  | .assign target value _ => frame.statements ∧ target.InFrame frame ∧ value.InFrame frame
  | .ifElse condition thenBranch elseBranch =>
    frame.statements ∧ condition.InFrame frame ∧ thenBranch.InFrame frame ∧
      elseBranch.InFrame frame
  | .seq first second => frame.statements ∧ first.InFrame frame ∧ second.InFrame frame
  | .assume claim | .assert claim => frame.statements ∧ claim.InFrame frame
  | .loop invariant condition body =>
    frame.statements ∧ invariant.InFrame frame ∧ condition.InFrame frame ∧ body.InFrame frame
  | .havoc _ _ => frame.statements ∧ frame.havocs

/-- What is recorded against the sites of a frame fits it. -/
def WriteLog.InFrame (frame : Frame) (log : WriteLog) : Prop :=
  ∀ site, frame.site site → ∀ entry ∈ log.writesAt site, entry.2.InFrame frame

theorem WriteLog.inFrame_empty (frame : Frame) : WriteLog.empty.InFrame frame := by
  intro site _ entry hentry
  cases site with
  | zero => cases hentry
  | succ => cases hentry

/-! ## Logs -/

namespace WriteLog

theorem size_set (log : WriteLog) (site : Site) (writes : Writes) :
    (log.set site writes).sites.size = log.sites.size :=
  Array.size_setIfInBounds

theorem writesAt_set (hsite : site < log.sites.size) (writes : Writes) (other : Site) :
    (log.set site writes).writesAt other = if other = site then writes else log.writesAt other := by
  simp only [set, writesAt, Array.getElem?_setIfInBounds]
  grind

theorem writesAt_of_le (hsite : log.sites.size ≤ site) : log.writesAt site = [] := by
  rw [writesAt, Array.getElem?_eq_none hsite]
  rfl

/-- Recording against a site changes no other one. -/
theorem writesAt_set_of_ne (log : WriteLog) {other : Site} (hother : other ≠ site)
    (writes : Writes) :
    (log.set site writes).writesAt other = log.writesAt other := by
  simp only [set, writesAt, Array.getElem?_setIfInBounds]
  grind

theorem mem_writesAt_set (hentry : entry ∈ (log.set site writes).writesAt site) :
    entry ∈ writes := by
  by_cases hsite : site < log.sites.size
  · rwa [writesAt_set hsite, if_pos rfl] at hentry
  · rw [writesAt_of_le] at hentry
    · cases hentry
    · rw [size_set]
      exact Nat.le_of_not_lt hsite

/-- A new site changes nothing that is recorded. -/
theorem writesAt_fresh (log : WriteLog) (site : Site) :
    log.fresh.2.writesAt site = log.writesAt site := by
  simp only [fresh, writesAt, Array.getElem?_push]
  grind

theorem size_fresh (log : WriteLog) : log.fresh.2.sites.size = log.sites.size + 1 :=
  Array.size_push []

end WriteLog

theorem Writes.mem_record {key : String} (hentry : entry ∈ writes.record key term) :
    entry ∈ writes ∨ entry = (key, term) := by
  fun_induction Writes.record writes key term <;> grind

/-! ## Computations -/

/-- States that hold a log of writes. -/
class HoldsLog (σ : Type) where
  logOf : σ → WriteLog

/-- What a computation may give, with the terms in it. -/
class Framed (α : Type) where
  IsInFrame : Frame → α → Prop

/-- Values of which no term is looked at. -/
class Unframed (α : Type)

open HoldsLog (logOf)
open Framed (IsInFrame)

instance : HoldsLog WriteLog := ⟨id⟩

instance : Unframed Bool where
instance : Unframed Int where
instance : Unframed String where
instance : Unframed PUnit where

instance {α : Type} [Unframed α] : Framed α := ⟨fun _ _ => True⟩

instance : Framed Term := ⟨Term.InFrame⟩

instance : Framed WriteLog := ⟨WriteLog.InFrame⟩

instance {α β : Type} [Framed α] [Framed β] : Framed (α × β) :=
  ⟨fun frame pair => IsInFrame frame pair.1 ∧ IsInFrame frame pair.2⟩

instance {α : Type} [Framed α] : Framed (List α) :=
  ⟨fun frame values => ∀ value ∈ values, IsInFrame frame value⟩

instance {α : Type} [Framed α] : Framed (Option α) :=
  ⟨fun frame value => ∀ inner, value = some inner → IsInFrame frame inner⟩

section Values

variable {α β : Type} [Framed α] [Framed β] {frame : Frame}

@[grind =]
theorem isInFrame_term (term : Term) : IsInFrame frame term = term.InFrame frame := rfl

@[grind =]
theorem isInFrame_pair (first : α) (second : β) :
    IsInFrame frame (first, second) = (IsInFrame frame first ∧ IsInFrame frame second) := rfl

@[grind →]
theorem isInFrame_of_pair {pair : α × β} (hpair : IsInFrame frame pair) :
    IsInFrame frame pair.1 ∧ IsInFrame frame pair.2 := hpair

@[grind =]
theorem isInFrame_option (value : Option α) :
    IsInFrame frame value = ∀ inner, value = some inner → IsInFrame frame inner := rfl

@[grind ←]
theorem isInFrame_of_unframed {γ : Type} [Unframed γ] (value : γ) : IsInFrame frame value := trivial

end Values

section Laws

variable {σ α β : Type} [HoldsLog σ] {frame : Frame}

/-- The computation takes no site away. -/
def Grows (computation : ExceptT Fault (StateM σ) α) : Prop :=
  ∀ before value after, Gives computation before value after →
    (logOf before).sites.size ≤ (logOf after).sites.size

/-- The computation makes no new site. -/
def Steady (computation : ExceptT Fault (StateM σ) α) : Prop :=
  ∀ before value after, Gives computation before value after →
    (logOf after).sites.size = (logOf before).sites.size

theorem Steady.grows {computation : ExceptT Fault (StateM σ) α} (hsteady : Steady computation) :
    Grows computation :=
  fun before value after hgives => Nat.le_of_eq (hsteady before value after hgives).symm

/-- The computation builds in a frame, if its new sites are in the frame. -/
def Builds [Framed α] (frame : Frame) (computation : ExceptT Fault (StateM σ) α) : Prop :=
  ∀ before value after, Gives computation before value after →
    (logOf before).InFrame frame →
    (∀ site, (logOf before).sites.size ≤ site → site < (logOf after).sites.size → frame.site site) →
    IsInFrame frame value ∧ (logOf after).InFrame frame ∧
      ∀ site, ¬ frame.site site → (logOf after).writesAt site = (logOf before).writesAt site

@[grind ←]
theorem steady_pure (value : α) : Steady (pure value : ExceptT Fault (StateM σ) α) :=
  fun _ _ _ hgives => congrArg (logOf · |>.sites.size) (gives_pure.mp hgives).2.symm

@[grind ←]
theorem steady_throw (fault : Fault) : Steady (throw fault : ExceptT Fault (StateM σ) α) :=
  fun _ _ _ hgives => absurd hgives not_gives_throw

@[grind ←]
theorem steady_bind {first : ExceptT Fault (StateM σ) α} {next : α → ExceptT Fault (StateM σ) β}
    (hfirst : Steady first) (hnext : ∀ value, Steady (next value)) : Steady (first >>= next) := by
  intro before result after hgives
  obtain ⟨value, _, hvalue, hresult⟩ := gives_bind.mp hgives
  exact (hnext value _ _ _ hresult).trans (hfirst _ _ _ hvalue)

@[grind ←]
theorem steady_get : Steady (get : ExceptT Fault (StateM σ) σ) :=
  fun _ _ _ hgives => congrArg (logOf · |>.sites.size) (gives_get.mp hgives).2.symm

theorem steady_forM {items : List β} {action : β → ExceptT Fault (StateM σ) PUnit}
    (haction : ∀ item, Steady (action item)) : Steady (items.forM action) := by
  induction items with
  | nil => exact steady_pure _
  | cons item _ ih => exact steady_bind (haction item) fun _ => ih

@[grind ←]
theorem grows_pure (value : α) : Grows (pure value : ExceptT Fault (StateM σ) α) :=
  (steady_pure value).grows

@[grind ←]
theorem grows_throw (fault : Fault) : Grows (throw fault : ExceptT Fault (StateM σ) α) :=
  (steady_throw fault).grows

@[grind ←]
theorem grows_bind {first : ExceptT Fault (StateM σ) α} {next : α → ExceptT Fault (StateM σ) β}
    (hfirst : Grows first) (hnext : ∀ value, Grows (next value)) : Grows (first >>= next) := by
  intro before result after hgives
  obtain ⟨value, _, hvalue, hresult⟩ := gives_bind.mp hgives
  exact Nat.le_trans (hfirst _ _ _ hvalue) (hnext value _ _ _ hresult)

@[grind ←]
theorem grows_get : Grows (get : ExceptT Fault (StateM σ) σ) :=
  steady_get.grows

@[grind ←]
theorem builds_pure [Framed α] {value : α} (hvalue : IsInFrame frame value) :
    Builds frame (pure value : ExceptT Fault (StateM σ) α) := by
  intro before result after hgives hlog _
  obtain ⟨rfl, rfl⟩ := gives_pure.mp hgives
  exact ⟨hvalue, hlog, fun _ _ => rfl⟩

@[grind ←]
theorem builds_throw [Framed α] (fault : Fault) :
    Builds frame (throw fault : ExceptT Fault (StateM σ) α) :=
  fun _ _ _ hgives => absurd hgives not_gives_throw

theorem builds_throw_bind [Framed β] (fault : Fault) (next : α → ExceptT Fault (StateM σ) β) :
    Builds frame (throw fault >>= next) := by
  intro before result after hgives
  obtain ⟨_, _, hthrow, -⟩ := gives_bind.mp hgives
  exact absurd hthrow not_gives_throw

theorem builds_bind [Framed α] [Framed β] {first : ExceptT Fault (StateM σ) α}
    {next : α → ExceptT Fault (StateM σ) β} (hgrows : Grows first) (hfirst : Builds frame first)
    (hlater : ∀ value, Grows (next value))
    (hnext : ∀ value, IsInFrame frame value → Builds frame (next value)) :
    Builds frame (first >>= next) := by
  intro before result after hgives hlog hsites
  obtain ⟨value, _, hvalue, hresult⟩ := gives_bind.mp hgives
  have hbefore := hgrows _ _ _ hvalue
  have hbetween := hlater value _ _ _ hresult
  have hfirst := hfirst _ _ _ hvalue hlog fun site hold hnew =>
    hsites site hold (Nat.lt_of_lt_of_le hnew hbetween)
  have hnext := hnext value hfirst.1 _ _ _ hresult hfirst.2.1 fun site hold hnew =>
    hsites site (Nat.le_trans hbefore hold) hnew
  refine ⟨hnext.1, hnext.2.1, ?_⟩
  intro site hsite
  rw [hnext.2.2 site hsite, hfirst.2.2 site hsite]

/-- The law of sequences in the form that automation can use. -/
@[grind ←]
theorem builds_step [Framed α] [Framed β] {first : ExceptT Fault (StateM σ) α}
    {next : α → ExceptT Fault (StateM σ) β} (hgrows : Grows first) (hfirst : Builds frame first)
    (hnext : ∀ value, Grows (next value) ∧ (IsInFrame frame value → Builds frame (next value))) :
    Builds frame (first >>= next) :=
  builds_bind hgrows hfirst (fun value => (hnext value).1) fun value => (hnext value).2

@[grind ←]
theorem builds_get : Builds frame (get : Logged WriteLog) := by
  intro before result after hgives hlog _
  obtain ⟨rfl, rfl⟩ := gives_get.mp hgives
  exact ⟨hlog, hlog, fun _ _ => rfl⟩

theorem builds_forM {items : List β} {action : β → ExceptT Fault (StateM σ) PUnit}
    (hsteady : ∀ item, Steady (action item))
    (haction : ∀ item ∈ items, Builds frame (action item)) : Builds frame (items.forM action) := by
  induction items with
  | nil => exact builds_pure trivial
  | cons item _ ih =>
    apply builds_bind (hsteady item).grows (haction item List.mem_cons_self)
      (fun _ => (steady_forM hsteady).grows)
    intro _ _
    exact ih fun other hother => haction other (List.mem_cons_of_mem item hother)

end Laws

/-! ## Terms -/

section Terms

variable {frame : Frame}

@[grind ←]
theorem Term.inFrame_orSkip (hstatements : frame.statements) (hterm : term.InFrame frame) :
    term.orSkip.InFrame frame := by
  cases term with
  | missing => exact hstatements
  | _ => exact hterm

@[grind ←]
theorem Term.inFrame_ofBounds {lower upper : Term} (hlower : lower.InFrame frame)
    (hupper : upper.InFrame frame) : (ofBounds lower upper).InFrame frame := by
  cases lower with
  | missing => exact ⟨trivial, hupper⟩
  | _ => exact ⟨hlower, hupper⟩

@[grind ←]
theorem Term.inFrame_andThen {first second : Term} (hstatements : frame.statements)
    (hfirst : first.InFrame frame) (hsecond : second.InFrame frame) :
    (first.andThen second).InFrame frame :=
  ⟨hstatements, inFrame_orSkip hstatements hfirst, inFrame_orSkip hstatements hsecond⟩

@[grind ←]
theorem Term.inFrame_branch {thenBranch elseBranch : Term} (hstatements : frame.statements)
    (hcondition : condition.InFrame frame) (hthen : thenBranch.InFrame frame)
    (helse : elseBranch.InFrame frame) : (condition.branch thenBranch elseBranch).InFrame frame :=
  ⟨hstatements, hcondition, inFrame_orSkip hstatements hthen, inFrame_orSkip hstatements helse⟩

@[grind ←]
theorem Term.inFrame_repeatWhile {invariant body : Term} (hstatements : frame.statements)
    (hinvariant : invariant.InFrame frame) (hcondition : condition.InFrame frame)
    (hbody : body.InFrame frame) : (invariant.repeatWhile condition body).InFrame frame :=
  ⟨hstatements, hinvariant, hcondition, inFrame_orSkip hstatements hbody⟩

@[grind ←]
theorem steady_ofOption (fault : Fault) (value : Option α) :
    Steady (Logged.ofOption fault value) := by
  cases value with
  | none => exact steady_throw fault
  | some value => exact steady_pure value

@[grind ←]
theorem grows_ofOption (fault : Fault) (value : Option α) : Grows (Logged.ofOption fault value) :=
  (steady_ofOption fault value).grows

@[grind ←]
theorem builds_ofOption [Framed α] (fault : Fault) {value : Option α}
    (hvalue : IsInFrame frame value) : Builds frame (Logged.ofOption fault value) := by
  cases value with
  | none => exact builds_throw fault
  | some value => exact builds_pure (hvalue value rfl)

end Terms

/-! ## Placing and copying -/

/-- What may stand in terms of one frame may stand in those of another, their
sites apart. -/
structure Frame.Allows (source target : Frame) : Prop where
  name : ∀ name, source.name name → target.name name
  binder : ∀ name type, source.binder name type → target.binder name type
  reachesWritten : target.reachesWritten → source.reachesWritten
  statements : source.statements → target.statements
  havocs : source.havocs → target.havocs

theorem Frame.Allows.refl (frame : Frame) : frame.Allows frame :=
  ⟨fun _ => id, fun _ _ => id, id, id, id⟩

section Places

variable {source target frame : Frame}

theorem Term.InFrame.mono (hallows : source.Allows target)
    (hsites : ∀ site, source.site site → target.site site) (hterm : term.InFrame source) :
    term.InFrame target := by
  obtain ⟨_, _, _, _, _⟩ := hallows
  induction term <;> grind

namespace Term

theorem size_le_place (term : Term) (log : WriteLog) :
    log.sites.size ≤ (term.place log).2.sites.size := by
  induction term generalizing log <;> grind [place, WriteLog.size_fresh]

theorem writesAt_place (term : Term) (log : WriteLog) (site : Site) :
    (term.place log).2.writesAt site = log.writesAt site := by
  induction term generalizing log <;> grind [place, WriteLog.writesAt_fresh]

theorem name?_place (term : Term) (log : WriteLog) : (term.place log).1.name? = term.name? := by
  cases term <;> rfl

theorem inFrame_place (hallows : source.Allows target)
    (hkept : ∀ site, site ≠ 0 → source.site site → target.site site) (hterm : term.InFrame source)
    (log : WriteLog)
    (hnew : ∀ site, log.sites.size ≤ site → site <
    (term.place log).2.sites.size → target.site site) :
    (term.place log).1.InFrame target := by
  obtain ⟨_, _, _, _, _⟩ := hallows
  induction term generalizing log with
  | subscript site array index iharray ihindex =>
    simp only [place] at hnew ⊢
    have harray := array.size_le_place log
    have hindex := index.size_le_place (array.place log).2
    by_cases hsite : site = 0
    · rw [if_pos hsite] at hnew ⊢
      simp only [WriteLog.size_fresh] at hnew
      refine ⟨hnew _ (Nat.le_trans harray hindex) (Nat.lt_succ_self _), ?_, ?_⟩
      · exact iharray hterm.2.1 _ fun site hold hbound => hnew site hold (by omega)
      · exact ihindex hterm.2.2 _ fun site hold hbound => hnew site (by omega) (by omega)
    · rw [if_neg hsite] at hnew ⊢
      dsimp only at hnew ⊢
      refine ⟨hkept site hsite hterm.1, ?_, ?_⟩
      · exact iharray hterm.2.1 _ fun site hold hbound => hnew site hold (by omega)
      · exact ihindex hterm.2.2 _ fun site hold hbound => hnew site (by omega) hbound
  | _ => grind [place, size_le_place]

end Term

@[grind ←]
theorem grows_place (term : Term) : Grows (Logged.place term) := by
  intro before placed after hgives
  obtain ⟨-, rfl⟩ := gives_place.mp hgives
  exact term.size_le_place before

theorem builds_place (hallows : source.Allows target)
    (hkept : ∀ site, site ≠ 0 → source.site site → target.site site) (hterm : term.InFrame source) :
    Builds target (Logged.place term) := by
  intro before placed after hgives hlog hnew
  obtain ⟨rfl, rfl⟩ := gives_place.mp hgives
  refine ⟨Term.inFrame_place hallows hkept hterm before hnew, ?_, ?_⟩
  · intro site hsite entry hentry
    rw [show logOf (term.place before).2 = (term.place before).2 from rfl,
      Term.writesAt_place] at hentry
    exact hlog site hsite entry hentry
  · intro site _
    exact term.writesAt_place before site

@[grind ←]
theorem grows_copy (term : Term) : Grows term.copy := by
  fun_induction Term.copy <;> grind

/-- A read of fitting parts is given a new site. -/
@[grind ←]
theorem builds_read {array index : Term} (harray : array.InFrame frame)
    (hindex : index.InFrame frame) : Builds frame (Logged.place (.subscript 0 array index)) := by
  let unplaced : Frame := { frame with site := fun site => site = 0 ∨ frame.site site }
  have hunplaced : frame.Allows unplaced := ⟨fun _ => id, fun _ _ => id, id, id, id⟩
  have hplaced : unplaced.Allows frame := ⟨fun _ => id, fun _ _ => id, id, id, id⟩
  apply builds_place hplaced fun site hsite hor => hor.resolve_left hsite
  exact ⟨.inl rfl, harray.mono hunplaced fun _ => .inr, hindex.mono hunplaced fun _ => .inr⟩

/-- A copy fits a frame that has all new sites.  The term written for the type of
a bound variable is shared with the copy. -/
theorem builds_copy_of (hallows : source.Allows target)
    (hshared : target.reachesWritten → ∀ site, source.site site → target.site site)
    (hterm : term.InFrame source) : Builds target term.copy := by
  have hnames := hallows.name
  have hstatements := hallows.statements
  have hhavocs := hallows.havocs
  induction term with
  | quantified _ _ type written =>
    obtain ⟨⟨name, rfl, _, hbinder⟩, hwritten, _⟩ := hterm
    have hcopied : target.reachesWritten → written.InFrame target := fun hreaches =>
      (hwritten (hallows.reachesWritten hreaches)).mono hallows (hshared hreaches)
    have hbinder := hallows.binder name type hbinder
    grind [Term.copy]
  | _ => grind [Term.copy]

@[grind ←]
theorem builds_copy (hterm : term.InFrame frame) : Builds frame term.copy :=
  builds_copy_of (.refl frame) (fun _ _ => id) hterm

end Places

/-! ## Substitution -/

section Substitution

variable {frame : Frame} {atRead : Site → Term → Logged Unit} {old new : Term}

/-- Recording a term against a site makes no new one. -/
theorem steady_record (site : Site) (key : String) (new : Term) :
    Steady (modify fun log : WriteLog => log.set site ((log.writesAt site).record key new) :
      Logged PUnit) := by
  intro before _ after hgives
  rw [gives_modify] at hgives
  rw [← hgives]
  exact before.size_set site _

/-- Substitution makes no new site. -/
def Substituting.steady : Substituting where
  Holds computation := Steady computation
  Allows _ := True
  pure := steady_pure
  throw fault _ := steady_throw fault
  bind _ _ := steady_bind
  get := steady_get
  record := steady_record
  noSuchPart := trivial
  nestedTooDeeply := trivial

@[grind ←]
theorem steady_substituteWith (hread : ∀ site array, Steady (atRead site array)) (term : Term) :
    Steady (Term.substituteWith atRead old new term) :=
  Substituting.steady.substituteWith hread old new term

theorem builds_substituteWith (hsteady : ∀ site array, Steady (atRead site array))
    (hread : ∀ site array, frame.site site → Builds frame (atRead site array))
    (hnew : new.InFrame frame) (hterm : term.InFrame frame) :
    Builds frame (Term.substituteWith atRead old new term) := by
  have hgrows (part : Term) : Grows (Term.substituteWith atRead old new part) :=
    (steady_substituteWith hsteady part).grows
  induction term with
  | subscript site array =>
    exact builds_bind (hsteady site array).grows (hread site array hterm.1)
      (fun _ => grows_pure _) fun _ _ => builds_pure hterm
  | var name =>
    cases old with
    | var other =>
      apply builds_pure
      by_cases hsame : name = other
      · rwa [if_pos hsame]
      · rwa [if_neg hsame]
    | _ => exact builds_pure hterm
  | _ => grind [Term.substituteWith]

theorem builds_arrayName (array : Term) : Builds frame array.arrayName :=
  builds_ofOption _ fun _ _ => trivial

theorem grows_arrayName (array : Term) : Grows array.arrayName :=
  grows_ofOption _ _

theorem builds_writeKey? (old array : Term) : Builds frame (old.writeKey? array) := by
  cases old <;> grind [Term.writeKey?, builds_arrayName, grows_arrayName]

theorem builds_record (hsite : frame.site site) (key : String) (hnew : new.InFrame frame) :
    Builds frame (modify fun log : WriteLog =>
      log.set site ((log.writesAt site).record key new) : Logged PUnit) := by
  intro before _ after hgives hlog _
  rw [gives_modify] at hgives
  subst hgives
  change before.InFrame frame at hlog
  refine ⟨trivial, ?_, ?_⟩
  · intro other hother entry hentry
    by_cases hsame : other = site
    · subst hsame
      rcases Writes.mem_record (WriteLog.mem_writesAt_set hentry) with hentry | rfl
      · exact hlog other hother entry hentry
      · exact hnew
    · apply hlog other hother entry
      rwa [← before.writesAt_set_of_ne hsame]
  · intro other hother
    have hne : other ≠ site := fun hsame => hother (hsame ▸ hsite)
    exact before.writesAt_set_of_ne hne _

theorem builds_substituteAt (hnew : new.InFrame frame) (steps : Nat) (hsite : frame.site site)
    (array : Term) : Builds frame (Term.substituteAt old new steps site array) := by
  induction steps generalizing site array with
  | zero => exact builds_throw _
  | succ steps ih =>
    have hinner := Substituting.steady.substituteAt old new steps
    -- A write is recorded, or the replacement is carried out in those that are there.
    have hrewrites (entry : String × Term) : Steady (do
        let term ← Term.substituteWith (Term.substituteAt old new steps) old new entry.2
        modify fun log : WriteLog => log.set site ((log.writesAt site).record entry.1 term) :
          Logged PUnit) :=
      steady_bind (steady_substituteWith hinner entry.2) fun term =>
        steady_record site entry.1 term
    apply builds_bind (Substituting.steady.writeKey? old array).grows (builds_writeKey? old array)
    · intro key
      cases key with
      | some key => exact (steady_record site key new).grows
      | none => exact grows_bind grows_get fun log => (steady_forM hrewrites).grows
    · intro key _
      cases key with
      | some key => exact builds_record hsite key hnew
      | none =>
        apply builds_bind grows_get builds_get (fun log => (steady_forM hrewrites).grows)
        intro log hlog
        apply builds_forM hrewrites
        intro entry hentry
        apply builds_bind (steady_substituteWith hinner entry.2).grows
          (builds_substituteWith hinner (fun site array hsite => ih hsite array) hnew
            (hlog site hsite entry hentry))
          (fun term => (steady_record site entry.1 term).grows)
        intro term hterm
        exact builds_record hsite entry.1 hterm

@[grind ←]
theorem grows_substitute (term old new : Term) : Grows (term.substitute old new) :=
  (Substituting.steady.substitute term old new).grows

@[grind ←]
theorem builds_substitute (hterm : term.InFrame frame) (hnew : new.InFrame frame) (old : Term) :
    Builds frame (term.substitute old new) := by
  apply builds_bind grows_get builds_get
  · intro log
    exact (steady_substituteWith (Substituting.steady.substituteAt old new _) term).grows
  · intro log _
    exact builds_substituteWith (Substituting.steady.substituteAt old new _)
      (fun site array hsite => builds_substituteAt hnew _ hsite array) hnew hterm

@[grind ←]
theorem grows_renameAll (renamings : List (String × String)) (term : Term) :
    Grows (term.renameAll renamings) := by
  rw [Term.renameAll]
  induction renamings generalizing term with
  | nil => exact grows_pure term
  | cons _ _ ih =>
    rw [List.foldlM_cons]
    exact grows_bind (grows_substitute _ _ _) ih

@[grind ←]
theorem builds_renameAll {renamings : List (String × String)}
    (hnames : ∀ pair ∈ renamings, frame.name pair.2) (hterm : term.InFrame frame) :
    Builds frame (term.renameAll renamings) := by
  rw [Term.renameAll]
  induction renamings generalizing term with
  | nil => exact builds_pure hterm
  | cons pair rest ih =>
    rw [List.foldlM_cons]
    have hname : (Term.var pair.2).InFrame frame := hnames pair List.mem_cons_self
    apply builds_bind (grows_substitute _ _ _) (builds_substitute hterm hname _)
      (fun term => grows_renameAll rest term)
    intro renamed hrenamed
    exact ih (fun other hother => hnames other (List.mem_cons_of_mem pair hother)) hrenamed

end Substitution

end HoareCheck
