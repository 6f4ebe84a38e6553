import HoareCheck.Proofs.TaskFrames

/-!
# Logs with more sites

A log may be extended by further sites, with records of their own.  A computation
that stays below a bound gives the same over the extended log, and records the
same below the bound (`Tracks`).  So the conditions of a program are the same
whether or not the conditions of its invariants were computed before.
-/

namespace HoareCheck

open HoldsLog (logOf)
open Framed (IsInFrame)

/-- A log that has as many sites as the bound, and one with more that agrees with
it below. -/
structure WriteLog.Extends (bound : Nat) (log other : WriteLog) : Prop where
  size_eq : log.sites.size = bound
  size_le : bound ≤ other.sites.size
  writesAt_eq : ∀ site < bound, other.writesAt site = log.writesAt site

/-! ## Printing -/

theorem Term.printWith_congr {frame : Frame} (hreaches : frame.reachesWritten)
    {note other : Site → String} (hnotes : ∀ site, frame.site site → note site = other site)
    {term : Term} (hterm : term.InFrame frame) : term.printWith note = term.printWith other := by
  induction term with
  | missing | var | literal | skip | havoc => rfl
  -- `change` opens the text: the equations of `printWith` are slow to derive
  | slice _ _ ihfirst ihsecond | binary _ _ _ ihfirst ihsecond =>
    change _ ++ _ = _ ++ _
    rw [ihfirst hterm.1, ihsecond hterm.2]
  | subscript site _ _ ihfirst ihsecond =>
    change _ ++ _ = _ ++ _
    rw [ihfirst hterm.2.1, ihsecond hterm.2.2, hnotes site hterm.1]
  | unary _ _ ih =>
    change _ ++ _ = _ ++ _
    rw [ih hterm]
  | quantified _ _ _ _ _ _ _ ihwritten ihbody =>
    obtain ⟨⟨_, rfl, -, -⟩, hwritten, hbody⟩ := hterm
    change _ ++ _ = _ ++ _
    rw [ihwritten (hwritten hreaches), ihbody hbody]
    rfl
  | assign _ _ _ ihfirst ihsecond | seq _ _ ihfirst ihsecond =>
    change _ ++ _ = _ ++ _
    rw [ihfirst hterm.2.1, ihsecond hterm.2.2]
  | ifElse _ _ _ ihfirst ihsecond ihthird =>
    change _ ++ _ = _ ++ _
    rw [ihfirst hterm.2.1, ihsecond hterm.2.2.1, ihthird hterm.2.2.2]
  | assume _ ih | assert _ ih =>
    change _ ++ _ = _ ++ _
    rw [ih hterm.2]
  | loop _ _ _ _ ihcondition ihbody =>
    change _ ++ _ = _ ++ _
    rw [ihcondition hterm.2.2.1, ihbody hterm.2.2.2]

/-- A path without repetition is no longer than the number of sites. -/
theorem length_le_of_nodup {path : List Site} {bound : Nat} (hnodup : path.Nodup)
    (hbelow : ∀ site ∈ path, site < bound) : path.length ≤ bound := by
  have hsubset : path ⊆ List.range bound := fun site hsite => List.mem_range.mpr (hbelow site hsite)
  have hlength := (hnodup.subperm hsubset).length_le
  rwa [List.length_range] at hlength

section Extension

variable {bound : Nat} {log other : WriteLog}

section

variable (hextends : WriteLog.Extends bound log other)

include hextends

/-- What stands after an index does not depend on further sites.  The steps
suffice, since each adds a site to the path. -/
theorem note_eq_of_extends (hlog : log.InFrame (.below bound)) (steps more : Nat) (path : List Site)
    (site : Site) (hnodup : path.Nodup) (hbelow : ∀ site ∈ path, site < bound)
    (hsteps : bound < path.length + steps) (hmore : bound < path.length + more)
    (hsite : site < bound) : other.note more path site = log.note steps path site := by
  have hlength := length_le_of_nodup hnodup hbelow
  induction steps generalizing more path site with
  | zero => omega
  | succ steps ih =>
    cases more with
    | zero => omega
    | succ more =>
      rw [WriteLog.note, WriteLog.note, hextends.writesAt_eq site hsite]
      cases hwrites : log.writesAt site with
      | nil => rfl
      | cons first rest =>
        dsimp only
        by_cases hpath : path.contains site = true
        · rw [if_pos hpath, if_pos hpath]
        · rw [if_neg hpath, if_neg hpath]
          have hfresh : (site :: path).Nodup :=
            List.nodup_cons.mpr ⟨fun hmem => hpath (List.contains_iff_mem.mpr hmem), hnodup⟩
          have hgrown : ∀ inner ∈ site :: path, inner < bound := by
            rw [List.forall_mem_cons]
            exact ⟨hsite, hbelow⟩
          have hentries : (first :: rest).map (fun entry => Text.quoted entry.1 ++ ": " ++
                entry.2.printWith (other.note more (site :: path))) =
              (first :: rest).map fun entry => Text.quoted entry.1 ++ ": " ++
                entry.2.printWith (log.note steps (site :: path)) := by
            apply List.map_congr_left
            intro entry hentry
            have hterm := hlog site hsite entry (hwrites ▸ hentry)
            rw [Term.printWith_congr trivial _ hterm]
            intro inner hinner
            have hlonger : (site :: path).length = path.length + 1 := List.length_cons
            exact ih more _ inner hfresh hgrown (by omega) (by omega) hinner
              (length_le_of_nodup hfresh hgrown)
          rw [hentries]

theorem print_eq_of_extends (hlog : log.InFrame (.below bound)) {term : Term}
    (hterm : term.InFrame (.below bound)) : other.print term = log.print term := by
  apply Term.printWith_congr trivial _ hterm
  intro site hsite
  have hsize := hextends.size_eq
  have hlarger := hextends.size_le
  exact note_eq_of_extends hextends hlog _ _ [] site List.nodup_nil nofun (by grind) (by grind)
    hsite

theorem sortByText_eq_of_extends (hlog : log.InFrame (.below bound)) {terms : List Term}
    (hterms : ∀ term ∈ terms, term.InFrame (.below bound)) :
    sortByText other terms = sortByText log terms := by
  rw [sortByText, sortByText]
  congr 1
  apply List.foldl_ext
  intro sorted term hterm
  rw [print_eq_of_extends hextends hlog (hterms term hterm)]

end

end Extension

/-! ## Computations -/

/-- A computation below a bound is tracked over a log with more sites by another
one. -/
def Tracks {α : Type} (bound : Nat) (first second : Logged α) : Prop :=
  ∀ log other value next, WriteLog.Extends bound log other → log.InFrame (.below bound) →
    Gives first log value next →
    ∃ final, Gives second other value final ∧ WriteLog.Extends bound next final

section Tracking

variable {α β : Type} {bound : Nat}

@[grind ←]
theorem tracks_pure (value : α) : Tracks bound (pure value) (pure value) := by
  intro log other result next hextends _ hgives
  obtain ⟨rfl, rfl⟩ := gives_pure.mp hgives
  exact ⟨other, gives_pure.mpr ⟨rfl, rfl⟩, hextends⟩

@[grind ←]
theorem tracks_throw (fault : Fault) (second : Logged α) : Tracks bound (throw fault) second :=
  fun _ _ _ _ _ _ hgives => absurd hgives not_gives_throw

/-- What the first step gives is below the bound, and so is what it records. -/
@[grind ←]
theorem tracks_bind [Framed α] {first second : Logged α} {next continued : α → Logged β}
    (hbuilds : Builds (.below bound) first) (hfirst : Tracks bound first second)
    (hnext : ∀ value, IsInFrame (.below bound) value →
      Tracks bound (next value) (continued value)) :
    Tracks bound (first >>= next) (second >>= continued) := by
  intro log other result after hextends hlog hgives
  obtain ⟨value, _, hvalue, hresult⟩ := gives_bind.mp hgives
  obtain ⟨reached, hreached, hagrees⟩ := hfirst _ _ _ _ hextends hlog hvalue
  obtain ⟨hframed, hbetween, -⟩ := hbuilds _ _ _ hvalue hlog fun site _ hnew =>
    hagrees.size_eq ▸ hnew
  obtain ⟨final, hfinal, hlast⟩ := hnext value hframed _ _ _ _ hagrees hbetween hresult
  exact ⟨final, gives_bind.mpr ⟨value, reached, hreached, hfinal⟩, hlast⟩

/-- The two logs may be looked at. -/
theorem tracks_get_bind {next continued : WriteLog → Logged β}
    (hnext : ∀ log other, WriteLog.Extends bound log other → log.InFrame (.below bound) →
      Tracks bound (next log) (continued other)) :
    Tracks bound (get >>= next) (get >>= continued) := by
  intro log other result after hextends hlog hgives
  obtain ⟨_, _, hget, hresult⟩ := gives_bind.mp hgives
  obtain ⟨rfl, rfl⟩ := gives_get.mp hget
  obtain ⟨final, hfinal, hlast⟩ := hnext log other hextends hlog _ _ _ _ hextends hlog hresult
  exact ⟨final, gives_bind.mpr ⟨other, other, gives_get.mpr ⟨rfl, rfl⟩, hfinal⟩, hlast⟩

theorem tracks_forM {items : List β} {action other : β → Logged PUnit}
    (hbuilds : ∀ item ∈ items, Builds (.below bound) (action item))
    (haction : ∀ item ∈ items, Tracks bound (action item) (other item)) :
    Tracks bound (items.forM action) (items.forM other) := by
  induction items with
  | nil => exact tracks_pure _
  | cons _ _ ih =>
    rw [List.forall_mem_cons] at hbuilds haction
    exact tracks_bind hbuilds.1 haction.1 fun _ _ => ih hbuilds.2 haction.2

theorem tracks_record {site : Site} (hsite : site < bound) (key : String) (new : Term) :
    Tracks bound
      (modify fun log : WriteLog => log.set site ((log.writesAt site).record key new))
      (modify fun log : WriteLog => log.set site ((log.writesAt site).record key new)) := by
  intro log other _ next hextends _ hgives
  rw [gives_modify] at hgives
  subst hgives
  refine ⟨_, gives_modify.mpr rfl, ?_, ?_, ?_⟩
  · rw [WriteLog.size_set, hextends.size_eq]
  · rw [WriteLog.size_set]
    exact hextends.size_le
  · intro inner hinner
    have hsmall : site < log.sites.size := hextends.size_eq ▸ hsite
    have hlarge : site < other.sites.size := Nat.lt_of_lt_of_le hsite hextends.size_le
    rw [WriteLog.writesAt_set hlarge, WriteLog.writesAt_set hsmall,
      hextends.writesAt_eq inner hinner, hextends.writesAt_eq site hsite]

end Tracking

/-! ## Substitution -/

section Substitution

variable {bound : Nat} {old new : Term}

theorem tracks_substituteWith {atRead atOther : Site → Term → Logged Unit}
    (hsteady : ∀ site array, Steady (atRead site array))
    (hbuilds : ∀ site array, site < bound → Builds (.below bound) (atRead site array))
    (hread : ∀ site array, site < bound → Tracks bound (atRead site array) (atOther site array))
    (hnew : new.InFrame (.below bound)) {term : Term} (hterm : term.InFrame (.below bound)) :
    Tracks bound (Term.substituteWith atRead old new term)
      (Term.substituteWith atOther old new term) := by
  have hparts {part : Term} (hpart : part.InFrame (.below bound)) :
      Builds (.below bound) (Term.substituteWith atRead old new part) :=
    builds_substituteWith hsteady hbuilds hnew hpart
  induction term with
  | subscript site array =>
    exact tracks_bind (hbuilds site array hterm.1) (hread site array hterm.1)
      fun _ _ => tracks_pure _
  | var => cases old <;> exact tracks_pure _
  | _ => grind [Term.substituteWith]

theorem tracks_arrayName (array : Term) : Tracks bound array.arrayName array.arrayName := by
  rw [Term.arrayName]
  cases array.name? with
  | none => exact tracks_throw _ _
  | some name => exact tracks_pure name

/-- The index of a write prints the same. -/
theorem tracks_writeKey? (hold : old.InFrame (.below bound)) (array : Term) :
    Tracks bound (old.writeKey? array) (old.writeKey? array) := by
  cases old with
  | subscript _ oldArray =>
    apply tracks_bind (builds_arrayName array) (tracks_arrayName array)
    intro name _
    apply tracks_bind (builds_arrayName oldArray) (tracks_arrayName oldArray)
    intro oldName _
    by_cases hsame : name = oldName
    · rw [if_pos hsame]
      apply tracks_get_bind
      intro log other hextends hlog
      rw [print_eq_of_extends hextends hlog hold.2.2]
      exact tracks_pure _
    · rw [if_neg hsame]
      exact tracks_pure none
  | _ => exact tracks_pure none

theorem tracks_substituteAt (hold : old.InFrame (.below bound)) (hnew : new.InFrame (.below bound))
    {steps more : Nat} (hsteps : steps ≤ more) {site : Site} (hsite : site < bound) (array : Term) :
    Tracks bound (Term.substituteAt old new steps site array)
      (Term.substituteAt old new more site array) := by
  induction steps generalizing more site array with
  | zero => exact tracks_throw _ _
  | succ steps ih =>
    cases more with
    | zero => omega
    | succ =>
      apply tracks_bind (builds_writeKey? old array) (tracks_writeKey? hold array)
      intro key _
      cases key with
      | some key => exact tracks_record hsite key new
      | none =>
        apply tracks_get_bind
        intro log other hextends hlog
        rw [hextends.writesAt_eq site hsite]
        have hsteady := Substituting.steady.substituteAt old new steps
        have hbuilds (inner : Site) (array : Term) (hinner : inner < bound) :
            Builds (.below bound) (Term.substituteAt old new steps inner array) :=
          builds_substituteAt hnew steps hinner array
        have hreads (inner : Site) (array : Term) (hinner : inner < bound) :=
          ih (Nat.le_of_succ_le_succ hsteps) hinner array
        have hrewritten (entry : String × Term) (hentry : entry ∈ log.writesAt site) :
            Builds (.below bound)
              (Term.substituteWith (Term.substituteAt old new steps) old new entry.2) :=
          builds_substituteWith hsteady hbuilds hnew (hlog site hsite entry hentry)
        apply tracks_forM
        · intro entry hentry
          exact builds_bind (steady_substituteWith hsteady entry.2).grows
            (hrewritten entry hentry) (fun term => (steady_record site entry.1 term).grows)
            fun term hterm => builds_record hsite entry.1 hterm
        · intro entry hentry
          apply tracks_bind (hrewritten entry hentry)
            (tracks_substituteWith hsteady hbuilds hreads hnew
              (hlog site hsite entry hentry))
          intro term _
          exact tracks_record hsite entry.1 term

/-- Substitution is given as many steps as there are sites, and one more. -/
theorem tracks_substitute (hold : old.InFrame (.below bound)) (hnew : new.InFrame (.below bound))
    {term : Term} (hterm : term.InFrame (.below bound)) :
    Tracks bound (term.substitute old new) (term.substitute old new) := by
  apply tracks_get_bind
  intro log other hextends _
  have hsize : log.sites.size + 1 ≤ other.sites.size + 1 := by
    rw [hextends.size_eq]
    exact Nat.succ_le_succ hextends.size_le
  exact tracks_substituteWith (Substituting.steady.substituteAt old new _)
    (fun site array hsite => builds_substituteAt hnew _ hsite array)
    (fun site array hsite => tracks_substituteAt hold hnew hsize hsite array) hnew hterm

end Substitution

/-! ## Conditions -/

section Conditions

variable {bound : Nat} {env : Option TypeEnv}

theorem Frame.below_bindsHavocs : (Frame.below bound).BindsHavocs :=
  False.elim

theorem tracks_obligations {statement post : Term} (hstatement : statement.InFrame (.below bound))
    (hpost : post.InFrame (.below bound)) :
    Tracks bound (statement.obligations env post) (statement.obligations env post) := by
  have hbuilds {statement post : Term} (hstatement : statement.InFrame (.below bound))
      (hpost : post.InFrame (.below bound)) :
      Builds (.below bound) (statement.obligations env post) :=
    builds_obligations Frame.below_bindsHavocs hstatement hpost
  induction statement generalizing post with
  | havoc => exact hstatement.2.elim
  | assign target =>
    apply tracks_bind (builds_substitute hpost hstatement.2.2 target)
      (tracks_substitute hstatement.2.1 hstatement.2.2 hpost)
    exact fun _ _ => tracks_pure _
  | loop _ _ _ _ _ ihbody =>
    have hinvariant := inFrame_invariantOrTrue hstatement.2.1
    apply tracks_bind (hbuilds hstatement.2.2.2 hinvariant) (ihbody hstatement.2.2.2 hinvariant)
    exact fun _ _ => tracks_pure _
  | _ => grind [Term.obligations]

theorem WriteLog.Extends.inFrame {log other : WriteLog} (hextends : Extends bound log other)
    (hlog : log.InFrame (.below bound)) : other.InFrame (.below bound) := by
  intro site hsite entry hentry
  rw [hextends.writesAt_eq site hsite] at hentry
  exact hlog site hsite entry hentry

namespace Task

variable {scope : String} {pre statement post : Term} {aboutInvariant : Bool}
  {before after other : RunState} {conditions : List Condition}

/-- The conditions of a program are below the sites of its parts, and so are the
records they leave. -/
theorem Fits.inFrame_conditions (hfits : Fits statement pre post before.log)
    (hgives : Gives (conditionsOf scope pre statement post aboutInvariant) before conditions
      after) :
    after.log.InFrame (.below before.log.sites.size) ∧
      ∀ condition ∈ conditions, condition.claim.InFrame (.below before.log.sites.size) := by
  obtain ⟨-, _, _, _, -, hobligations, rfl, rfl⟩ := gives_conditionsOf.mp hgives
  have hsize := steady_obligations _ _ _ _ _ hobligations
  obtain ⟨hframed, hlog, -⟩ := builds_obligations Frame.below_bindsHavocs hfits.statement hfits.post
    _ _ _ hobligations hfits.log fun site _ hnew => hsize ▸ hnew
  refine ⟨hlog, ?_⟩
  intro condition hcondition
  rcases (mem_listed.mp hcondition).2 with hclaim | hclaim
  · rw [hclaim]
    exact ⟨hfits.pre, hframed.1⟩
  · exact hframed.2 _ hclaim

/-- Over a log with more sites the conditions of a program are the same, and
nothing is recorded against the further sites. -/
theorem Fits.exists_conditions (hfits : Fits statement pre post before.log)
    (hgives : Gives (conditionsOf scope pre statement post aboutInvariant) before conditions
      after)
    (hscopes : other.verifier.scopes = before.verifier.scopes)
    (hextends : WriteLog.Extends before.log.sites.size before.log other.log) :
    ∃ log, Gives (conditionsOf scope pre statement post aboutInvariant) other conditions
        { other with log } ∧
      WriteLog.Extends before.log.sites.size after.log log ∧
      ∀ site, before.log.sites.size ≤ site → log.writesAt site = other.log.writesAt site := by
  obtain ⟨hlog, hclaims⟩ := hfits.inFrame_conditions hgives
  obtain ⟨hstatement, env, obligations, reached, hscope, hobligations, rfl, rfl⟩ :=
    gives_conditionsOf.mp hgives
  obtain ⟨log, hfollows, hagrees⟩ := tracks_obligations hfits.statement hfits.post _ _ _ _ hextends
    hfits.log hobligations
  have hsize := steady_obligations _ _ _ _ _ hfollows
  obtain ⟨-, -, hkept⟩ := builds_obligations Frame.below_bindsHavocs hfits.statement hfits.post
    _ _ _ hfollows (hextends.inFrame hfits.log) fun site hold hnew =>
      absurd (hsize ▸ hnew) (Nat.not_lt_of_le hold)
  have hsorted : sortByText log obligations.sideConditions =
      sortByText reached obligations.sideConditions := by
    apply sortByText_eq_of_extends hagrees hlog
    intro claim hclaim
    exact hclaims ⟨claim, aboutInvariant⟩ (mem_listed.mpr ⟨rfl, .inr hclaim⟩)
  refine ⟨log, gives_conditionsOf.mpr ⟨hstatement, env, obligations, log, ?_, hfollows, ?_, rfl⟩,
    hagrees, fun site hsite => hkept site (Nat.not_lt_of_le hsite)⟩
  · rw [hscopes, hscope]
  · rw [listed, listed, hsorted]

end Task

end Conditions

end HoareCheck
