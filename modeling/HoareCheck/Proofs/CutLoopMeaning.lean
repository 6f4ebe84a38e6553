import HoareCheck.Proofs.LoopCutSoundness
import HoareCheck.Proofs.LoopFree

/-!
# Meaning of the precondition of a cut loop

A cut loop asserts the invariant, and what follows the assertion is quantified
over the values of the targets.  For the renamed invariant as postcondition, that
is the claim that iterations keep the invariant, from all stores that the loop
can come to (`ClaimsKept`).  The precondition of an assertion is that what follows
implies the asserted claim, so the precondition of the cut loop is that the
invariant is true if iterations keep it (`IsCut.of_gives_obligations`).
-/

namespace HoareCheck

open Term Store Function

variable {claim quantified : Term} {before after : WriteLog} {name : String} {names : List String}
  {havocs : List (String × Int)} {computed : Obligations}

/-! ## Obligations of a sequence -/

namespace Term

variable {env : Option TypeEnv}

/-- The obligations of statements that run one after the other. -/
def obligationsThrough (env : Option TypeEnv) : List Term → Term → Logged Obligations
  | [], post => return ⟨post, []⟩
  | statement :: rest, post => do
      let after ← obligationsThrough env rest post
      let before ← statement.orSkip.obligations env after.precondition
      return ⟨before.precondition, before.sideConditions ++ after.sideConditions⟩

/-- A sequence nested to the left has the obligations of its statements. -/
theorem obligations_foldl (head : Term) (rest : List Term) (post : Term) :
    (rest.foldl andThen head).orSkip.obligations env post =
      obligationsThrough env (head :: rest) post := by
  induction rest generalizing head with
  | nil => simp [obligationsThrough]
  | cons _ _ ih =>
    rw [List.foldl_cons, ih]
    simp [obligationsThrough, andThen, orSkip, obligations]

theorem obligationsThrough_append (first second : List Term) (post : Term) :
    obligationsThrough env (first ++ second) post = (do
      let after ← obligationsThrough env second post
      let before ← obligationsThrough env first after.precondition
      return ⟨before.precondition, before.sideConditions ++ after.sideConditions⟩) := by
  induction first with
  | nil => simp [obligationsThrough]
  | cons _ _ ih => simp [obligationsThrough, ih]

end Term

/-! ## Havocs of the targets -/

theorem pairwise_insertName (hnames : names.Pairwise (· < ·)) :
    (insertName name names).Pairwise (· < ·) := by
  induction names with
  | nil => simp [insertName]
  | cons _ _ ih =>
    obtain ⟨hhead, hrest⟩ := List.pairwise_cons.mp hnames
    simp only [insertName]
    split_ifs with hsame hless
    · exact hnames
    · refine List.pairwise_cons.mpr ⟨fun other hother => ?_, hnames⟩
      rcases List.mem_cons.mp hother with rfl | hother
      · exact hless
      · exact hless.trans (hhead other hother)
    · refine List.pairwise_cons.mpr ⟨fun other hother => ?_, ih hrest⟩
      rcases mem_insertName.mp hother with rfl | hother
      · exact lt_of_le_of_ne (not_lt.mp hless) (Ne.symm hsame)
      · exact hhead other hother

theorem nodup_ascending (names : List String) : (ascending names).Nodup := by
  have hsorted : (ascending names).Pairwise (· < ·) := by
    induction names with
    | nil => exact .nil
    | cons _ _ ih => exact pairwise_insertName ih
  exact hsorted.imp fun hless => hless.ne

/-- The value is one that the variable may have by its declared type. -/
def Interpretation.Admits (interp : Interpretation) (env : Option TypeEnv) (name : String)
    (value : Value) : Prop :=
  ∃ entry, env.bind (·.find? name) = some entry ∧ value ∈ interp.domain entry

theorem Store.havoced_congr (hplain : ∀ havoc ∈ havocs, IsPlain havoc.1) {goal other : Store}
    (hagree : ∀ name ∈ havocs.map Prod.fst, goal name = other name) (store : Store) :
    Store.havoced havocs goal store = Store.havoced havocs other store := by
  funext name
  rw [Store.havoced, Store.havoced]
  split_ifs with htouched
  · obtain ⟨havoc, hhavoc, hname⟩ := List.mem_flatMap.mp htouched
    have hbase : baseName name = havoc.1 := by
      simp only [List.mem_cons, List.not_mem_nil, or_false] at hname
      rcases hname with rfl | rfl
      · exact baseName_eq_self (hplain havoc hhavoc)
      · exact baseName_havocName (hplain havoc hhavoc) _
    rw [hbase]
    exact hagree _ (List.mem_map_of_mem hhavoc)
  · rfl

/-- The variables that a list of havocs introduces. -/
def introduced (havocs : List (String × Int)) : List String :=
  havocs.map fun havoc => havocName havoc.1 havoc.2

section Havocs

variable {interp : Interpretation} {env : Option TypeEnv}

/-- The second claim says the first of all values that the havocs may give, and
speaks of the variables that they introduce no more. -/
structure Quantifies (interp : Interpretation) (env : Option TypeEnv)
    (havocs : List (String × Int)) (claim quantified : Term) : Prop where
  isClaim : quantified.isClaim = true
  free : ∀ name ∈ quantified.freeNames, name ∈ claim.freeNames ∧ name ∉ introduced havocs
  bound : ∀ name ∈ quantified.boundNames, name ∈ claim.boundNames ++ introduced havocs
  holds_iff : ∀ store, quantified.Holds interp store ↔
    ∀ goal : Store, (∀ name ∈ havocs.map Prod.fst, interp.Admits env name (goal name)) →
      claim.Holds interp (Store.havoced havocs goal store)

theorem quantifies_nil (hclaim : claim.isClaim = true) : Quantifies interp env [] claim claim := by
  refine ⟨hclaim, fun name hname => ⟨hname, by simp [introduced]⟩, fun name hname => by
    simp [hname], fun store => ?_⟩
  have hsame : ∀ goal, Store.havoced [] goal store = store := by
    intro goal
    funext name
    simp [Store.havoced, touched]
  simp only [hsame, List.map_nil, List.not_mem_nil, false_imp_iff, implies_true, true_imp_iff]
  exact ⟨fun hholds _ => hholds, fun hall => hall store⟩

/-- One more havoc before the others quantifies once more. -/
theorem Quantifies.cons {entry : String × Int}
    (hquantifies : Quantifies interp env havocs claim quantified)
    (hplain : ∀ havoc ∈ entry :: havocs, IsPlain havoc.1) (hfresh : entry.1 ∉ havocs.map Prod.fst)
    (hbound : ∀ name ∈ claim.boundNames, IsPlain name ∧ name ≠ entry.1)
    (hgives : Gives
    ((Term.havoc entry.1 entry.2).obligations env quantified) before computed after) :
    Quantifies interp env (entry :: havocs) claim computed.precondition := by
  obtain ⟨type, htype, -, rfl⟩ := of_gives_havoc hquantifies.isClaim hgives
  have hentry : IsPlain entry.1 := hplain entry (by simp)
  have hrest : ∀ havoc ∈ havocs, IsPlain havoc.1 :=
    fun havoc hhavoc => hplain havoc (by simp [hhavoc])
  have hnew : havocName entry.1 entry.2 ∉ introduced havocs := by
    intro hmem
    obtain ⟨_, hhavoc, heq⟩ := List.mem_map.mp hmem
    exact hfresh ((havocName_inj.mp heq).1 ▸ List.mem_map_of_mem hhavoc)
  have hcapture : ∀ name ∈ quantified.boundNames, name ≠ entry.1 ∧
      name ∉ (Term.var (havocName entry.1 entry.2)).freeNames := by
    intro name hname
    rcases List.mem_append.mp (hquantifies.bound name hname) with hclaim | hhavoc
    · obtain ⟨hname, hne⟩ := hbound name hclaim
      refine ⟨hne, fun hmem => ?_⟩
      rw [List.mem_singleton.mp hmem] at hname
      exact not_isPlain_havocName _ _ hname
    · refine ⟨?_, fun hmem => hnew (List.mem_singleton.mp hmem ▸ hhavoc)⟩
      rintro rfl
      obtain ⟨_, _, heq⟩ := List.mem_map.mp hhavoc
      exact not_isPlain_havocName _ _ (heq ▸ hentry)
  refine ⟨isClaim_replacing hquantifies.isClaim rfl, fun name hname => ?_,
    fun name hname => ?_, fun store => ?_⟩
  · simp only [freeNames, name?, List.mem_filter, ne_eq, Option.some.injEq,
      decide_not, Bool.not_eq_true', decide_eq_false_iff_not] at hname
    obtain ⟨source, hsource, himage⟩ := mem_freeNames_instantiate hquantifies.isClaim
      (captureFree_replacing hcapture) hname.1
    by_cases hsame : source = entry.1
    · simp only [Term.replacing, hsame, update_self, freeNames, List.mem_singleton] at himage
      exact absurd himage hname.2
    · simp only [Term.replacing, update_of_ne hsame, freeNames, List.mem_singleton] at himage
      subst himage
      obtain ⟨hclaim, hhavocs⟩ := hquantifies.free name hsource
      exact ⟨hclaim, by simpa [introduced, hname.2] using hhavocs⟩
  · simp only [boundNames, name?, Option.toList_some, List.singleton_append, List.mem_cons] at hname
    rcases hname with rfl | hname
    · simp [introduced]
    · rcases mem_boundNames_instantiate hquantifies.isClaim hname with
        hold | ⟨source, -, himage⟩
      · have hmem := hquantifies.bound name hold
        simp only [introduced, List.map_cons, List.mem_append, List.mem_cons] at hmem ⊢
        tauto
      · by_cases hsame : source = entry.1 <;> simp [Term.replacing, hsame] at himage
  · have hne : entry.1 ≠ havocName entry.1 entry.2 :=
      fun heq => not_isPlain_havocName _ _ (heq ▸ hentry)
    have hbody : ∀ value,
        (quantified.instantiate
            (Term.replacing entry.1 (.var (havocName entry.1 entry.2)))).Holds interp
            (Function.update store (havocName entry.1 entry.2) value) ↔
          quantified.Holds interp (Function.update (Function.update store entry.1 value)
            (havocName entry.1 entry.2) value) := by
      intro value
      rw [Term.Holds, Term.Holds, eval_replacing hquantifies.isClaim hcapture,
        eval_var, update_self, update_comm hne]
    simp only [holds_forall, Interpretation.domain_ofBinder_toBinder, bind_var,
      hbody, hquantifies.holds_iff]
    constructor
    · intro hall goal hgoal
      rw [havoced_cons hentry]
      obtain ⟨_, hfound, hvalue⟩ := hgoal entry.1 (by simp)
      cases htype.symm.trans hfound
      exact hall _ hvalue goal fun name hname => hgoal name (by simp [hname])
    · intro hall value hvalue goal hgoal
      have hagree : ∀ name ∈ havocs.map Prod.fst,
          Function.update goal entry.1 value name = goal name := by
        intro name hname
        apply update_of_ne
        rintro rfl
        exact hfresh hname
      have hholds := hall (Function.update goal entry.1 value) (by
        intro name hname
        rcases List.mem_cons.mp hname with rfl | hname
        · exact ⟨type, htype, by simpa using hvalue⟩
        · rw [hagree name hname]
          exact hgoal name hname)
      rwa [havoced_cons hentry, update_self,
        havoced_congr hrest hagree] at hholds

/-- The havocs of different variables quantify over the values of all of them. -/
theorem quantifies_of_gives (hclaim : claim.isClaim = true)
    (hplain : ∀ havoc ∈ havocs, IsPlain havoc.1) (hnodup : (havocs.map Prod.fst).Nodup)
    (hbound : ∀ name ∈ claim.boundNames, IsPlain name ∧ name ∉ havocs.map Prod.fst)
    (hgives : Gives (Term.obligationsThrough env
      (havocs.map fun havoc => .havoc havoc.1 havoc.2) claim) before computed after) :
    Quantifies interp env havocs claim computed.precondition ∧ computed.sideConditions = [] := by
  induction havocs generalizing computed before after with
  | nil =>
    simp only [List.map_nil, Term.obligationsThrough, gives_pure] at hgives
    rw [← hgives.1]
    exact ⟨quantifies_nil hclaim, rfl⟩
  | cons entry _ ih =>
    simp only [List.map_cons, Term.obligationsThrough, Term.orSkip, gives_bind,
      gives_pure] at hgives
    obtain ⟨_, _, hrest, _, _, hwhole, rfl, _⟩ := hgives
    obtain ⟨hfresh, hnodup⟩ := List.nodup_cons.mp hnodup
    obtain ⟨hquantifies, hside⟩ := ih (fun havoc hhavoc => hplain havoc (by simp [hhavoc]))
      hnodup (fun name hname => ⟨(hbound name hname).1, fun hmem =>
        (hbound name hname).2 (by simp [hmem])⟩) hrest
    have hwholeBound : ∀ name ∈ claim.boundNames, IsPlain name ∧ name ≠ entry.1 := by
      intro name hname
      refine ⟨(hbound name hname).1, ?_⟩
      rintro rfl
      exact (hbound _ hname).2 (by simp)
    have hquantified := hquantifies.cons hplain hfresh hwholeBound hwhole
    exact ⟨hquantified, by simp [sideConditions_eq_nil rfl hwhole, hside]⟩

end Havocs

/-! ## The claim made of a cut loop -/

section Kept

variable (interp : Interpretation) (havoc : HavocRule) (env : Option TypeEnv)

/-- An iteration of the loop from a store keeps the invariant. -/
def Keeps (invariant condition body : Term) (store : Store) : Prop :=
  invariant.Holds interp store → condition.Holds interp store →
    ∀ after, Exec interp havoc body store (.done after) → invariant.Holds interp after

/-- Iterations keep the invariant from every store that differs from the given one
in the targets only, and in which these have values of their types. -/
def KeptFrom (targets : List String) (invariant condition body : Term) (entered : Store) : Prop :=
  ∀ reached : Store, (∀ name ∉ targets, reached name = entered name) →
    (∀ name ∈ targets, interp.Admits env name (reached name)) →
    Keeps interp havoc invariant condition body reached

end Kept

theorem Term.orSkip_guarded (entered : Term) (parts : List Term) :
    (guarded entered parts).orSkip = guarded entered parts := by
  cases parts with
  | nil => rfl
  | cons =>
    rw [guarded, foldl_extend]
    rfl

/-- What follows the first assertion of a cut loop implies the invariant. -/
theorem obligations_guarded (env : Option TypeEnv) (invariant assumption iteration post : Term)
    (havocs : List (String × Int)) :
    (guarded invariant (cutParts havocs assumption iteration)).obligations env post = (do
      let inner ← (Term.seq assumption.orSkip iteration.orSkip).obligations env post
      let quantified ← Term.obligationsThrough env
        (havocs.map fun havoc => .havoc havoc.1 havoc.2) inner.precondition
      return ⟨.binary quantified.precondition .implies invariant,
        quantified.sideConditions ++ inner.sideConditions⟩) := by
  have hparts : (guarded invariant (cutParts havocs assumption iteration)).obligations env
      post = (do
        let after ← Term.obligationsThrough env (cutParts havocs assumption iteration) post
        return ⟨.binary after.precondition .implies invariant, after.sideConditions⟩) := by
    cases hcut : cutParts havocs assumption iteration with
    | nil => simp [cutParts] at hcut
    | cons =>
      rw [guarded, foldl_extend, Term.obligations, Term.obligations_foldl]
      rfl
  have hinner : Term.obligationsThrough env [assumption, iteration] post =
      (Term.seq assumption.orSkip iteration.orSkip).obligations env post :=
    (Term.obligations_foldl assumption [iteration] post).symm
  rw [hparts, cutParts, Term.obligationsThrough_append, hinner]
  simp only [bind_assoc, pure_bind]

section Cut

variable {interp : Interpretation} {havoc : HavocRule} {env : Option TypeEnv}
variable {invariant condition body assumption iteration kept : Term}
  {havocs : List (String × Int)}

/-- A renamed name of a loop is one of a havoc, or a name that is no target. -/
theorem mem_of_mem_map_havocRenaming (hplain : ∀ havoc ∈ havocs, IsPlain havoc.1)
    (hname : name ∈ names.map (havocRenaming havocs)) :
    name ∈ introduced havocs ∨ name ∈ names := by
  obtain ⟨source, _, rfl⟩ := List.mem_map.mp hname
  rcases havocRenaming_cases hplain source with ⟨count, hcount, hrename⟩ | ⟨_, hrename⟩
  · left
    rw [hrename]
    exact List.mem_map.mpr ⟨(source, count), hcount, rfl⟩
  · right
    rwa [hrename]

theorem not_isPlain_of_mem_introduced (hname : name ∈ introduced havocs) : ¬ IsPlain name := by
  obtain ⟨_, _, rfl⟩ := List.mem_map.mp hname
  exact not_isPlain_havocName _ _

/-- What follows the havocs of a cut loop, over the variables of the loop. -/
def Term.assumedIteration (invariant condition body : Term) : Term :=
  .seq (.assume invariant) (Term.iteration invariant condition body)

theorem mem_freeNames_assumedIteration :
    name ∈ (assumedIteration invariant condition body).freeNames ↔
      name ∈ (Term.loop invariant condition body).freeNames := by
  simp only [assumedIteration, Term.iteration, freeNames, Term.bool, List.mem_append,
    List.not_mem_nil]
  tauto

theorem mem_boundNames_assumedIteration :
    name ∈ (assumedIteration invariant condition body).boundNames ↔
      name ∈ (Term.loop invariant condition body).boundNames := by
  simp only [assumedIteration, Term.iteration, boundNames, Term.bool, List.mem_append,
    List.not_mem_nil]
  tauto

/-- The iteration, from a store with the invariant, ends in the invariant. -/
theorem pre_assumedIteration_iff {rule : HavocRule} (hbody : body.isProgram = true)
    (hhavocs : body.havocs = []) (hloops : body.isLoopFree = true)
    (hasserts : body.isAssertFree = true) {store : Store} :
    (assumedIteration invariant condition body).Pre interp rule (invariant.Holds interp)
        store ↔ Keeps interp havoc invariant condition body store := by
  -- What follows the second assertion is true, whatever the postcondition is: a
  -- false assumption is made there.
  have hpost : (Term.assert invariant).Pre interp rule
      ((Term.assume (.bool false)).Pre interp rule (invariant.Holds interp)) =
        invariant.Holds interp := by
    funext after
    simp [Term.Pre]
  simp only [assumedIteration, Term.iteration, Term.Pre, Keeps] at hpost ⊢
  rw [hpost, pre_iff_exec hbody hhavocs hloops hasserts]
  tauto

/-- The claim that an iteration keeps the invariant, over the variables that the
havocs introduce. -/
structure ClaimsStep (interp : Interpretation) (havoc : HavocRule)
    (havocs : List (String × Int)) (invariant condition body claim : Term) : Prop where
  isClaim : claim.isClaim = true
  free : ∀ name ∈ claim.freeNames, name ∈ introduced havocs ∨
    name ∈ (Term.loop invariant condition body).freeNames
  bound : ∀ name ∈ claim.boundNames, name ∈ (Term.loop invariant condition body).boundNames
  holds_iff : ∀ {reached havoced : Store},
    reached.Follows (havocRenaming havocs) {name | IsPlain name} havoced →
    (claim.Holds interp havoced ↔ Keeps interp havoc invariant condition body reached)

theorem IsCut.claimsStep (hcut : IsCut interp invariant condition body havocs assumption iteration)
    (hkept : invariant.RenamedTo (havocRenaming havocs) kept)
    (hnames : (Term.loop invariant condition body).HasPlainNames) (hbody : body.isProgram = true)
    (hhavocs : body.havocs = []) (hloops : body.isLoopFree = true)
    (hasserts : body.isAssertFree = true)
    (hgives : Gives ((Term.seq assumption.orSkip iteration.orSkip).obligations env kept) before
      computed after) :
    ClaimsStep interp havoc havocs invariant condition body computed.precondition ∧
      computed.sideConditions = [] := by
  have hinj := havocRenaming_injOn hcut.plain
  have hrenames : Renames (havocRenaming havocs)
      (assumedIteration invariant condition body)
      (.seq assumption.orSkip iteration.orSkip) := .seq hcut.assumed hcut.iterated
  have hloopFree : (assumedIteration invariant condition body).isLoopFree = true := by
    simp [assumedIteration, Term.iteration, isLoopFree, hloops]
  have hfits : (assumedIteration invariant condition body).Fits (havocRenaming havocs)
      {name | IsPlain name} :=
    hcut.fits.part (fun _ => mem_freeNames_assumedIteration.mp)
      (fun _ => mem_boundNames_assumedIteration.mp)
  obtain ⟨hprogram, hnoLoops, hnoHavocs⟩ := hrenames.shape hloopFree
  generalize Term.seq assumption.orSkip iteration.orSkip = renamed at *
  have hfree : ∀ name ∈ renamed.freeNames ++ kept.freeNames, name ∈ introduced havocs ∨
      name ∈ (Term.loop invariant condition body).freeNames := by
    intro name hname
    rw [hrenames.freeNames_eq hloopFree hinj hfits, hkept.freeNames_eq hinj hcut.fits.invariant,
      ← List.map_append] at hname
    refine (mem_of_mem_map_havocRenaming hcut.plain hname).imp_right fun hmem => ?_
    rcases List.mem_append.mp hmem with hmem | hmem
    · exact mem_freeNames_assumedIteration.mp hmem
    · simp [hmem]
  have hbound : ∀ name ∈ renamed.boundNames ++ kept.boundNames,
      name ∈ (Term.loop invariant condition body).boundNames := by
    intro name hname
    rw [hrenames.boundNames_eq hloopFree, hkept.boundNames_eq] at hname
    rcases List.mem_append.mp hname with hmem | hmem
    · exact mem_boundNames_assumedIteration.mp hmem
    · simp [hmem]
  have hapart : renamed.Apart kept := by
    apply apart_of_havocs_eq_nil hnoHavocs
    intro name hname hmem
    rcases hfree name hmem with hnew | hloop
    · exact not_isPlain_of_mem_introduced hnew (hcut.fits.bound name (hbound name hname)).1
    · exact hnames.bound name (hbound name hname) hloop
  obtain ⟨-, hdescribed⟩ := obligations_describe interp (fun _ => True) hprogram
    hkept.isClaim_renamed hapart hgives
  refine ⟨⟨hdescribed.names.isClaim, fun name hname => ?_, fun name hname => ?_,
    fun hfollows => ?_⟩, sideConditions_eq_nil hnoLoops hgives⟩
  · exact hfree name (hdescribed.names.free name hname)
  · have hmem := hdescribed.names.bound name hname
    rw [havocNames, hnoHavocs, List.map_nil, List.append_nil] at hmem
    exact hbound name hmem
  · rw [hdescribed.pre, ← pre_assumedIteration_iff hbody hhavocs hloops hasserts]
    exact hrenames.pre_iff hloopFree hinj hfits
      (fun hfollows => hkept.holds_iff hinj hcut.fits.invariant hfollows) hfollows

/-- The claim that iterations keep the invariant from a store on: it speaks of the
variables of the loop, and may bind those that the havocs introduce. -/
structure ClaimsKept (interp : Interpretation) (havoc : HavocRule) (env : Option TypeEnv)
    (targets : List String) (invariant condition body claim : Term) : Prop where
  isClaim : claim.isClaim = true
  free : ∀ name ∈ claim.freeNames, name ∈ (Term.loop invariant condition body).freeNames
  bound : ∀ name ∈ claim.boundNames,
    name ∈ (Term.loop invariant condition body).boundNames ∨ ¬ IsPlain name
  holds_iff : ∀ store, claim.Holds interp store ↔
    KeptFrom interp havoc env targets invariant condition body store

/-- Quantified over the values of the targets, the claim about an iteration is one
about all that the loop can come to. -/
theorem ClaimsStep.claimsKept
    (hstep : ClaimsStep interp havoc havocs invariant condition body claim)
    (hquantifies : Quantifies interp env havocs claim quantified)
    (hplain : ∀ havoc ∈ havocs, IsPlain havoc.1) :
    ClaimsKept interp havoc env (havocs.map Prod.fst) invariant condition body quantified := by
  refine ⟨hquantifies.isClaim, fun name hname => ?_, fun name hname => ?_, fun store => ?_⟩
  · obtain ⟨hclaim, hnew⟩ := hquantifies.free name hname
    exact (hstep.free name hclaim).resolve_left hnew
  · rcases List.mem_append.mp (hquantifies.bound name hname) with hclaim | hnew
    · exact .inl (hstep.bound name hclaim)
    · exact .inr (not_isPlain_of_mem_introduced hnew)
  · rw [hquantifies.holds_iff]
    constructor
    · intro hall reached hoff hvalues
      have hfollows := (follows_havoced hplain (fun name _ htarget => hoff name htarget)).2
      exact (hstep.holds_iff hfollows).mp (hall reached hvalues)
    · intro hkept goal hvalues
      -- The store in which the targets have the values of the goal.
      let reached : Store := fun name =>
        if name ∈ havocs.map Prod.fst then goal name else store name
      have hgoal : ∀ name ∈ havocs.map Prod.fst, goal name = reached name := by
        intro name hname
        exact (if_pos hname).symm
      have hoff : ∀ name ∉ havocs.map Prod.fst, reached name = store name :=
        fun name hname => if_neg hname
      have hfollows := (follows_havoced hplain (fun name _ htarget => hoff name htarget)).2
      rw [havoced_congr hplain hgoal, hstep.holds_iff hfollows]
      apply hkept reached hoff
      intro name hname
      rw [← hgoal name hname]
      exact hvalues name hname

/-- The check of a cut loop is that the invariant is true on entry if iterations
keep it. -/
theorem IsCut.of_gives_obligations
    (hcut : IsCut interp invariant condition body havocs assumption iteration)
    (hkept : invariant.RenamedTo (havocRenaming havocs) kept) (hnodup : (havocs.map Prod.fst).Nodup)
    (hnames : (Term.loop invariant condition body).HasPlainNames) (hbody : body.isProgram = true)
    (hhavocs : body.havocs = []) (hloops : body.isLoopFree = true)
    (hasserts : body.isAssertFree = true)
    (hgives : Gives ((guarded invariant (cutParts havocs assumption iteration)).obligations
      env kept) before computed after) :
    ∃ claim, computed = ⟨.binary claim .implies invariant, []⟩ ∧
      ClaimsKept interp havoc env (havocs.map Prod.fst) invariant condition body claim := by
  simp only [obligations_guarded, gives_bind, gives_pure] at hgives
  obtain ⟨inner, _, hinner, quantified, _, hquantified, rfl, -⟩ := hgives
  obtain ⟨hstep, hinnerSide⟩ := hcut.claimsStep hkept hnames hbody hhavocs hloops hasserts hinner
  have hbound : ∀ name ∈ inner.precondition.boundNames,
      IsPlain name ∧ name ∉ havocs.map Prod.fst := by
    intro name hname
    obtain ⟨hname, hfixed⟩ := hcut.fits.bound name (hstep.bound name hname)
    refine ⟨hname, fun htarget => ?_⟩
    rcases havocRenaming_cases hcut.plain name with ⟨count, _, hrename⟩ | ⟨hother, _⟩
    · rw [← hfixed, hrename] at hname
      exact not_isPlain_havocName name count hname
    · exact hother htarget
  obtain ⟨hquantifies, hside⟩ :=
    quantifies_of_gives hstep.isClaim hcut.plain hnodup hbound hquantified
  refine ⟨quantified.precondition, ?_, hstep.claimsKept hquantifies hcut.plain⟩
  rw [hside, hinnerSide, List.append_nil]

end Cut

end HoareCheck
