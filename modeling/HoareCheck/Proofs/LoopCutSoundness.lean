import HoareCheck.Hoare.LoopCut
import HoareCheck.Proofs.MarkedNames
import HoareCheck.Proofs.Renaming

/-!
# Soundness of cutting loops

A cut loop asserts the invariant, runs one iteration from an arbitrary store in
which the invariant is true, and asserts it again.  If no run of the cut program
fails, then every loop at the top level is entered in its invariant, each time
around, and every run of the program has a run of the cut program beside it that
ends with the same values (`cutLoops_sound`).

The havocs of a cut loop can lead to any store that differs from the one before
the loop in the targets of the loop only, so to each store in which the loop is
entered again.  What follows the havocs speaks of the variables they introduce,
which have the values of the targets then.
-/

namespace HoareCheck

open Term hiding havoc

variable {program statement copy first second head entered invariant condition body : Term}
  {store final between reached : Store} {before after : CutState} {targets names : List String}
  {rest parts : List Term} {havocs : List (String × Int)} {name : String} {outcome : Outcome}
  {cut : CutProgram}

/-- A havoc gives a variable and the one it introduces a common value. -/
def jointHavoc : HavocRule := fun name count before after => ∃ value, after =
    Function.update (Function.update before name value) (havocName name count) value

section Visits

variable (interp : Interpretation) (havoc : HavocRule)

/-- A run of the program comes to the head of a loop at its top level, in the
store `reached`. -/
inductive VisitsTop : Term → Store → Term → Store → Prop
  | first {first second invariant : Term} {store reached : Store} :
      VisitsTop first store invariant reached →
      VisitsTop (.seq first second) store invariant reached
  | second {first second invariant : Term} {store between reached : Store} :
      Exec interp havoc first store (.done between) →
      VisitsTop second between invariant reached →
      VisitsTop (.seq first second) store invariant reached
  | head {invariant condition body : Term} {store : Store} :
      VisitsTop (.loop invariant condition body) store invariant store
  | again {outer condition body invariant : Term} {store between reached : Store} :
      condition.Holds interp store → Exec interp havoc body store (.done between) →
      VisitsTop (.loop outer condition body) between invariant reached →
      VisitsTop (.loop outer condition body) store invariant reached

end Visits

/-! ## What the cutting computes -/

theorem Gives.of_logged {α : Type} {computation : Logged α} {value : α}
    (hgives : Gives (Cutting.logged computation) before value after) :
    Gives computation before.log value after.log := by
  simp only [Cutting.logged, gives_bind, gives_get] at hgives
  obtain ⟨_, _, ⟨rfl, rfl⟩, hvalue⟩ := hgives
  rcases houtcome : outcomeOn computation before.log with ⟨outcome, log⟩
  rw [show ExceptT.run computation before.log = (outcome, log) from houtcome] at hvalue
  cases outcome with
  | error => simp at hvalue
  | ok =>
    simp only [gives_bind, gives_set, gives_pure] at hvalue
    obtain ⟨_, _, rfl, rfl, rfl⟩ := hvalue
    exact houtcome

/-- There is one havoc for each target. -/
theorem map_fst_of_gives_havocs (hgives : Gives (Cutting.havocs targets) before havocs after) :
    havocs.map Prod.fst = targets := by
  induction targets generalizing before havocs with
  | nil =>
    simp only [Cutting.havocs, List.mapM_nil, gives_pure] at hgives
    simp [← hgives.1]
  | cons _ targets ih =>
    simp only [Cutting.havocs, List.mapM_cons, gives_bind, gives_pure] at hgives
    obtain ⟨_, _, ⟨_, _, _, rfl, rfl⟩, rest, _, hrest, rfl, rfl⟩ := hgives
    have hrest : rest.map Prod.fst = targets := ih hrest
    simp [hrest]

theorem mem_insertName {other : String} :
    other ∈ insertName name names ↔ other = name ∨ other ∈ names := by
  induction names with
  | nil => simp [insertName]
  | cons _ _ ih =>
    simp only [insertName]
    split_ifs with hsame hless
    · subst hsame
      simp
    · simp
    · simp only [List.mem_cons, ih]
      tauto

theorem mem_ascending : name ∈ ascending names ↔ name ∈ names := by
  induction names with
  | nil => simp [ascending]
  | cons _ _ ih =>
    rw [ascending, List.foldr_cons, mem_insertName, List.mem_cons, ← ih]
    rfl

/-- What a program assigns, it speaks of. -/
theorem Term.mem_freeNames_of_assigned (hprogram : program.isProgram = true)
    (hassigned : program.assigned = .ok names) (hname : name ∈ names) :
    name ∈ program.freeNames := by
  induction program generalizing names with
  | skip | assume | assert | havoc =>
    cases hassigned
    simp at hname
  | assign =>
    obtain ⟨_, rfl, _⟩ := isProgram_assign hprogram
    cases hassigned
    simpa using Or.inl hname
  | ifElse _ _ _ _ ihthen ihelse =>
    simp only [isProgram, Bool.and_eq_true] at hprogram
    obtain ⟨_, _, hleft, hright, rfl⟩ := append_eq_ok hassigned
    simp only [freeNames, List.mem_append] at hname ⊢
    rcases hname with hname | hname
    · exact .inl (.inr (ihthen hprogram.1.2 hleft hname))
    · exact .inr (ihelse hprogram.2 hright hname)
  | seq _ _ ihfirst ihsecond =>
    simp only [isProgram, Bool.and_eq_true] at hprogram
    obtain ⟨_, _, hleft, hright, rfl⟩ := append_eq_ok hassigned
    simp only [freeNames, List.mem_append] at hname ⊢
    rcases hname with hname | hname
    · exact .inl (ihfirst hprogram.1 hleft hname)
    · exact .inr (ihsecond hprogram.2 hright hname)
  | loop _ _ _ _ _ ihbody =>
    simp only [isProgram, Bool.and_eq_true] at hprogram
    simp only [freeNames, List.mem_append]
    exact .inr (ihbody hprogram.2 hassigned hname)
  | _ => simp [isProgram] at hprogram

/-- A copy assigns what its model does. -/
theorem Renames.assigned_eq (hrenames : Renames id statement copy) :
    copy.assigned = statement.assigned := by
  induction hrenames with
  | ifElse _ _ _ ihthen ihelse => rw [Term.assigned, Term.assigned, ihthen, ihelse]
  | seq _ _ ihfirst ihsecond => rw [Term.assigned, Term.assigned, ihfirst, ihsecond]
  | loop _ _ ihbody => exact ihbody
  | skip | assign | assume | assert => rfl

/-! ## The renaming of a cut loop -/

/-- Every name after a list of havocs: that of a target is the variable which
its havoc introduces. -/
def havocRenaming : List (String × Int) → String → String
  | [], name => name
  | havoc :: rest, name =>
    havocRenaming rest (Function.update id havoc.1 (havocName havoc.1 havoc.2) name)

section

variable (hplain : ∀ havoc ∈ havocs, IsPlain havoc.1)

include hplain

theorem havocRenaming_of_not_isPlain (hname : ¬ IsPlain name) :
    havocRenaming havocs name = name := by
  induction havocs with
  | nil => rfl
  | cons havoc _ ih =>
    have hne : name ≠ havoc.1 := fun heq => hname (heq ▸ hplain havoc (by simp))
    rw [havocRenaming, Function.update_of_ne hne]
    exact ih fun other hother => hplain other (by simp [hother])

/-- A plain name is renamed by the havoc of it, if there is one. -/
theorem havocRenaming_cases (name : String) :
    (∃ count, (name, count) ∈ havocs ∧ havocRenaming havocs name = havocName name count) ∨
      name ∉ havocs.map Prod.fst ∧ havocRenaming havocs name = name := by
  induction havocs with
  | nil => exact .inr ⟨by simp, rfl⟩
  | cons havoc rest ih =>
    have hrest : ∀ other ∈ rest, IsPlain other.1 :=
      fun other hother => hplain other (by simp [hother])
    by_cases hname : name = havoc.1
    · subst hname
      left
      refine ⟨havoc.2, by simp, ?_⟩
      rw [havocRenaming, Function.update_self]
      exact havocRenaming_of_not_isPlain hrest (not_isPlain_havocName _ _)
    · rw [havocRenaming, Function.update_of_ne hname]
      rcases ih hrest with ⟨count, hmem, hcount⟩ | ⟨hmem, hsame⟩
      · exact .inl ⟨count, by simp [hmem], hcount⟩
      · exact .inr ⟨by simpa [hname] using hmem, hsame⟩

theorem havocRenaming_injOn : Set.InjOn (havocRenaming havocs) {name | IsPlain name} := by
  intro left hleft right hright heq
  rcases havocRenaming_cases hplain left with ⟨count, _, hcount⟩ | ⟨_, hsame⟩ <;>
    rcases havocRenaming_cases hplain right with ⟨number, _, hnumber⟩ | ⟨_, hother⟩
  · rw [hcount, hnumber] at heq
    exact (havocName_inj.mp heq).1
  · rw [hcount, hother] at heq
    exact absurd (heq ▸ hright) (not_isPlain_havocName _ _)
  · rw [hsame, hnumber] at heq
    exact absurd (heq ▸ hleft) (not_isPlain_havocName _ _)
  · rwa [hsame, hother] at heq

end

/-- What stands after the havocs of a loop is renamed by them. -/
theorem Renames.afterHavocs {rename : String → String} {statement renamed result : Term}
    {havocs : List (String × Int)} {before after : WriteLog}
    (hrenames : Renames rename statement renamed)
    (hgives : Gives (renamed.afterHavocs havocs) before result after) :
    Renames (havocRenaming havocs ∘ rename) statement result.orSkip := by
  induction havocs generalizing rename renamed before with
  | nil =>
    simp only [Term.afterHavocs, Term.renameAll, List.map_nil, List.foldlM_nil,
      gives_pure] at hgives
    rw [← hgives.1, hrenames.orSkip_eq]
    exact hrenames
  | cons _ rest ih =>
    simp only [Term.afterHavocs, Term.renameAll, List.map_cons, List.foldlM_cons,
      gives_bind] at hgives
    obtain ⟨next, _, hnext, hrest⟩ := hgives
    simp only [Term.substitute, gives_bind, gives_get] at hnext
    obtain ⟨_, _, _, hnext⟩ := hnext
    have hstep := hrenames.substituteWith hnext
    by_cases hmissing : next = .missing
    · cases rest with
      | nil =>
        simp only [List.map_nil, List.foldlM_nil, gives_pure] at hrest
        rw [← hrest.1]
        exact hstep
      | cons =>
        simp [hmissing, Term.substitute, Term.substituteWith] at hrest
    · rw [orSkip_eq_self hmissing] at hstep
      exact ih hstep hrest

theorem Term.RenamedTo.afterHavocs {rename : String → String} {claim renamed result : Term}
    {havocs : List (String × Int)} {before after : WriteLog}
    (hrenamed : claim.RenamedTo rename renamed)
    (hgives : Gives (renamed.afterHavocs havocs) before result after) :
    claim.RenamedTo (havocRenaming havocs ∘ rename) result := by
  induction havocs generalizing rename renamed before with
  | nil =>
    simp only [Term.afterHavocs, Term.renameAll, List.map_nil, List.foldlM_nil,
      gives_pure] at hgives
    rw [← hgives.1]
    exact hrenamed
  | cons _ _ ih =>
    simp only [Term.afterHavocs, Term.renameAll, List.map_cons, List.foldlM_cons,
      gives_bind] at hgives
    obtain ⟨_, _, hnext, hrest⟩ := hgives
    simp only [Term.substitute, gives_bind, gives_get] at hnext
    obtain ⟨_, _, _, hnext⟩ := hnext
    exact ih (hrenamed.substituteWith hnext) hrest

/-! ## Running the parts of a cut loop -/

section Parts

variable {interp : Interpretation} {havoc : HavocRule}

/-- Running statements one after the other, up to the first that fails. -/
inductive RunsThrough (interp : Interpretation) (havoc : HavocRule) :
    List Term → Store → Outcome → Prop
  | nil {store : Store} : RunsThrough interp havoc [] store (.done store)
  | cons {statement : Term} {rest : List Term} {store between : Store}
      {outcome : Outcome} :
      Exec interp havoc statement.orSkip store (.done between) →
      RunsThrough interp havoc rest between outcome →
      RunsThrough interp havoc (statement :: rest) store outcome
  | failed {statement : Term} {rest : List Term} {store : Store} :
      Exec interp havoc statement.orSkip store .failed →
      RunsThrough interp havoc (statement :: rest) store .failed

theorem runsThrough_nil_iff : RunsThrough interp havoc [] store (.done final) ↔ store = final := by
  constructor
  · rintro ⟨⟩
    rfl
  · rintro rfl
    exact .nil

theorem runsThrough_cons_iff :
    RunsThrough interp havoc (statement :: rest) store (.done final) ↔
      ∃ between, Exec interp havoc statement.orSkip store (.done between) ∧
        RunsThrough interp havoc rest between (.done final) := by
  constructor
  · rintro (_ | ⟨hstatement, hrest⟩)
    exact ⟨_, hstatement, hrest⟩
  · rintro ⟨_, hstatement, hrest⟩
    exact .cons hstatement hrest

namespace RunsThrough

theorem append {first second : List Term}
    (hfirst : RunsThrough interp havoc first store (.done between))
    (hsecond : RunsThrough interp havoc second between outcome) :
    RunsThrough interp havoc (first ++ second) store outcome := by
  generalize hdone : Outcome.done between = done at hfirst
  induction hfirst with
  | nil =>
    cases hdone
    exact hsecond
  | cons hexec _ ih => exact .cons hexec (ih hdone)
  | failed => cases hdone

theorem exec_failed (rest : List Term) (hhead : Exec interp havoc head.orSkip store .failed) :
    Exec interp havoc (rest.foldl andThen head).orSkip store .failed := by
  induction rest generalizing head with
  | nil => exact hhead
  | cons _ _ ih => exact ih (.seqFailed hhead)

/-- A sequence nested to the left runs its statements in order. -/
theorem exec (hrest : RunsThrough interp havoc rest between outcome)
    (hhead : Exec interp havoc head.orSkip store (.done between)) :
    Exec interp havoc (rest.foldl andThen head).orSkip store outcome := by
  induction rest generalizing head between with
  | nil =>
    cases hrest
    exact hhead
  | cons _ rest ih =>
    cases hrest with
    | cons hexec hrest => exact ih hrest (.seq hhead hexec)
    | failed hexec => exact exec_failed rest (.seq hhead hexec)

end RunsThrough

theorem Term.foldl_extend (first second : Term) (rest : List Term) :
    rest.foldl extend (andThen first second) =
      .seq first.orSkip (rest.foldl andThen second).orSkip := by
  induction rest generalizing second with
  | nil => rfl
  | cons statement _ ih =>
    have hsecond : second.orSkip.andThen statement = second.andThen statement := by
      cases second <;> rfl
    rw [List.foldl_cons, List.foldl_cons, ← ih]
    congr 1
    exact congrArg (Term.seq first.orSkip) hsecond

/-- The program of a cut loop, from what it asserts first and what follows. -/
def Term.guarded (entered : Term) : List Term → Term
  | [] => .assert entered
  | first :: rest => rest.foldl Term.extend (Term.andThen (.assert entered) first)

theorem exec_guarded (hentered : entered.Holds interp store)
    (hparts : RunsThrough interp havoc parts store outcome) :
    Exec interp havoc (guarded entered parts) store outcome := by
  cases hparts with
  | nil => exact .assertTrue hentered
  | cons hexec hrest =>
    rw [guarded, foldl_extend]
    exact .seq (.assertTrue hentered) (hrest.exec hexec)
  | failed hexec =>
    rw [guarded, foldl_extend]
    exact .seq (.assertTrue hentered) (RunsThrough.exec_failed _ hexec)

theorem exec_guarded_failed (hentered : ¬ entered.Holds interp store) :
    Exec interp havoc (guarded entered parts) store .failed := by
  cases parts with
  | nil => exact .assertFalse hentered
  | cons =>
    rw [guarded, foldl_extend]
    exact .seqFailed (.assertFalse hentered)

/-- The names that a list of havocs gives new values. -/
def touched (havocs : List (String × Int)) : List String :=
  havocs.flatMap fun havoc => [havoc.1, havocName havoc.1 havoc.2]

/-- The store after the havocs of a list, when they give the variables that they
are of the values of another store. -/
def Store.havoced (havocs : List (String × Int)) (goal store : Store) : Store := fun name =>
  if name ∈ touched havocs then goal (baseName name) else store name

/-- The first havoc of a list can be made before the others. -/
theorem Store.havoced_cons {entry : String × Int} (hplain : IsPlain entry.1) (goal store : Store) :
    Store.havoced (entry :: havocs) goal store =
      Store.havoced havocs goal (Function.update (Function.update store entry.1 (goal entry.1))
        (havocName entry.1 entry.2) (goal entry.1)) := by
  funext name
  have htouched : name ∈ touched (entry :: havocs) ↔
      name = entry.1 ∨ name = havocName entry.1 entry.2 ∨ name ∈ touched havocs := by
    simp [touched]
  by_cases hnew : name = havocName entry.1 entry.2
  · subst hnew
    simp [Store.havoced, htouched, baseName_havocName hplain]
  · by_cases hold : name = entry.1
    · subst hold
      simp [Store.havoced, htouched, hnew, baseName_eq_self hplain]
    · simp [Store.havoced, htouched, hnew, hold]

/-- The havocs of plain names can lead to any values of these. -/
theorem runsThrough_havocs (hplain : ∀ havoc ∈ havocs, IsPlain havoc.1) (goal store : Store) :
    RunsThrough interp jointHavoc (havocs.map fun havoc => .havoc havoc.1 havoc.2) store
      (.done (Store.havoced havocs goal store)) := by
  induction havocs generalizing store with
  | nil =>
    have hsame : Store.havoced [] goal store = store := by
      funext name
      simp [Store.havoced, touched]
    rw [hsame]
    exact .nil
  | cons havoc _ ih =>
    rw [Store.havoced_cons (hplain havoc (by simp))]
    exact .cons (.havoc ⟨goal havoc.1, rfl⟩)
      (ih (fun other hother => hplain other (by simp [hother])) _)

end Parts

/-! ## Loops and their cut forms -/

section Loops

variable {interp : Interpretation} {havoc : HavocRule}

/-- What every iteration of a loop preserves holds at each visit of its head. -/
theorem VisitsTop.loop {invariant condition body visited : Term} {store reached : Store}
    {kept : Store → Prop}
    (hvisits : VisitsTop interp havoc (.loop invariant condition body) store visited reached)
    (hstep : ∀ before after, kept before → condition.Holds interp before →
      Exec interp havoc body before (.done after) → kept after)
    (hstore : kept store) : visited = invariant ∧ kept reached := by
  generalize hloop : Term.loop invariant condition body = loop at hvisits
  induction hvisits with
  | first | second => cases hloop
  | head =>
    cases hloop
    exact ⟨rfl, hstore⟩
  | again hcondition hbody _ ih =>
    cases hloop
    exact ih (hstep _ _ hstore hcondition hbody) rfl

/-- What every iteration of a loop preserves holds at its end. -/
theorem Exec.loop {invariant condition body : Term} {store after : Store} {kept : Store → Prop}
    (hexec : Exec interp havoc (.loop invariant condition body) store (.done after))
    (hstep : ∀ before after, kept before → condition.Holds interp before →
      Exec interp havoc body before (.done after) → kept after)
    (hstore : kept store) : kept after ∧ ¬ condition.Holds interp after := by
  generalize hloop : Term.loop invariant condition body = loop at hexec
  generalize houtcome : Outcome.done after = outcome at hexec
  induction hexec with
  | loopEnd hcondition =>
    cases hloop
    cases houtcome
    exact ⟨hstore, hcondition⟩
  | loopAgain hcondition hbody _ _ ihloop =>
    cases hloop
    exact ihloop (hstep _ _ hstore hcondition hbody) rfl houtcome
  | loopFailed => cases houtcome
  | _ => cases hloop

/-- The cut program stands for the program.  From stores that agree on plain
names, if no run of the cut program fails, then the top-level loops of the
program are entered in their invariants, and the cut program follows every run
of the program that ends. -/
structure StandsFor (interp : Interpretation) (program cut : Term) : Prop where
  invariants : ∀ {store cutStore : Store},
    store.Follows id {name | IsPlain name} cutStore →
    ¬ Exec interp jointHavoc cut cutStore .failed →
    ∀ invariant reached, VisitsTop interp jointHavoc program store invariant reached →
      invariant.Holds interp reached
  final : ∀ {store cutStore : Store},
    store.Follows id {name | IsPlain name} cutStore →
    ¬ Exec interp jointHavoc cut cutStore .failed →
    ∀ after, Exec interp jointHavoc program store (.done after) →
      ∃ cutAfter, Exec interp jointHavoc cut cutStore (.done cutAfter) ∧
        after.Follows id {name | IsPlain name} cutAfter

theorem standsFor_seq {cutFirst cutSecond : Term} (hfirst : StandsFor interp first cutFirst)
    (hsecond : StandsFor interp second cutSecond) :
    StandsFor interp (.seq first second) (andThen cutFirst cutSecond) := by
  have hsafeFirst : ∀ {cutStore : Store},
      ¬ Exec interp jointHavoc (andThen cutFirst cutSecond) cutStore .failed →
      ¬ Exec interp jointHavoc cutFirst cutStore .failed :=
    fun hsafe hfailed => hsafe (.seqFailed hfailed.orSkip)
  have hsafeSecond : ∀ {cutStore cutBetween : Store},
      ¬ Exec interp jointHavoc (andThen cutFirst cutSecond) cutStore .failed →
      Exec interp jointHavoc cutFirst cutStore (.done cutBetween) →
      ¬ Exec interp jointHavoc cutSecond cutBetween .failed :=
    fun hsafe hexec hfailed => hsafe (.seq hexec.orSkip hfailed.orSkip)
  constructor
  · intro store cutStore hfollows hsafe invariant reached hvisits
    cases hvisits with
    | first hvisits =>
      exact hfirst.invariants hfollows (hsafeFirst hsafe) invariant reached hvisits
    | second hexec hvisits =>
      obtain ⟨_, hcut, hbetween⟩ := hfirst.final hfollows (hsafeFirst hsafe) _ hexec
      exact hsecond.invariants hbetween (hsafeSecond hsafe hcut) invariant reached hvisits
  · intro store cutStore hfollows hsafe after hexec
    cases hexec with
    | seq hexecFirst hexecSecond =>
      obtain ⟨_, hcut, hbetween⟩ := hfirst.final hfollows (hsafeFirst hsafe) _ hexecFirst
      obtain ⟨cutAfter, hcutSecond, hafter⟩ :=
        hsecond.final hbetween (hsafeSecond hsafe hcut) _ hexecSecond
      exact ⟨cutAfter, .seq hcut.orSkip hcutSecond.orSkip, hafter⟩

/-- What a loop becomes after its havocs: one iteration that ends in an
assertion of the invariant, and then in a false assumption. -/
def Term.iteration (invariant condition body : Term) : Term :=
  .ifElse condition (.seq (.seq body (.assert invariant)) (.assume (.bool false))) .skip

/-- After the havocs of a loop the targets have the values of the store that the
havocs lead to, under their own names and under the new ones. -/
theorem Store.follows_havoced (hplain : ∀ havoc ∈ havocs, IsPlain havoc.1)
    (hreached : ∀ name, IsPlain name → name ∉ havocs.map Prod.fst → reached name = store name) :
    reached.Follows id {name | IsPlain name} (Store.havoced havocs reached store) ∧
      reached.Follows (havocRenaming havocs) {name | IsPlain name}
        (Store.havoced havocs reached store) := by
  have hsame : reached.Follows id {name | IsPlain name}
      (Store.havoced havocs reached store) := by
    intro name hname
    rw [id, Store.havoced, baseName_eq_self hname]
    split_ifs with htouched
    · rfl
    · rw [hreached name hname]
      intro htarget
      obtain ⟨havoc, hhavoc, rfl⟩ := List.mem_map.mp htarget
      exact htouched (List.mem_flatMap.mpr ⟨havoc, hhavoc, by simp⟩)
  refine ⟨hsame, fun name hname => ?_⟩
  rcases havocRenaming_cases hplain name with ⟨count, hcount, hrename⟩ | ⟨_, hrename⟩
  · have htouched : havocName name count ∈ touched havocs :=
      List.mem_flatMap.mpr ⟨(name, count), hcount, by simp⟩
    rw [hrename, Store.havoced, if_pos htouched, baseName_havocName hname]
  · rw [hrename]
    exact hsame name hname

/-- The havocs of a loop can lead to any store that differs from the one before
the loop in the targets only. -/
theorem exists_havoced (hplain : ∀ havoc ∈ havocs, IsPlain havoc.1) {cutStore : Store}
    (hfollows : store.Follows id {name | IsPlain name} cutStore)
    (hreached : ∀ name ∉ havocs.map Prod.fst, reached name = store name) : ∃ havoced : Store,
      RunsThrough interp jointHavoc (havocs.map fun havoc => .havoc havoc.1 havoc.2)
        cutStore (.done havoced) ∧
      reached.Follows (havocRenaming havocs) {name | IsPlain name} havoced ∧
      reached.Follows id {name | IsPlain name} havoced := by
  have hoff : ∀ name, IsPlain name → name ∉ havocs.map Prod.fst →
      reached name = cutStore name := by
    intro name hname htarget
    rw [hreached name htarget]
    exact (hfollows name hname).symm
  obtain ⟨hsame, hrenamed⟩ := Store.follows_havoced hplain hoff
  exact ⟨_, runsThrough_havocs hplain reached cutStore, hrenamed, hsame⟩

/-- What follows the first assertion of a cut loop. -/
def cutParts (havocs : List (String × Int)) (assumption iteration : Term) : List Term :=
  havocs.map (fun havoc => .havoc havoc.1 havoc.2) ++ [assumption, iteration]

theorem Term.cutLoop_eq (targets : List String) (invariant condition body : Term) :
    cutLoop targets invariant condition body = (do
      let havocs ← Cutting.havocs targets
      Cutting.logged do
        let assumed ← invariant.copy
        let kept ← invariant.copy
        let assumption ← Term.afterHavocs havocs (.assume assumed)
        let iteration ← Term.afterHavocs havocs (Term.branch condition
          (andThen (andThen body (.assert kept)) (.assume (.bool false))) .skip)
        let entered ← invariant.copy
        let havoced ← Term.afterHavocs havocs (← invariant.copy)
        return ⟨guarded entered (cutParts havocs assumption iteration), [havoced]⟩) :=
  rfl

/-- A loop and what it is cut into.  The assumption and the iteration speak of
the variables that the havocs introduce, and there is a havoc for every variable
that the body changes. -/
structure IsCut (interp : Interpretation) (invariant condition body : Term)
    (havocs : List (String × Int)) (assumption iteration : Term) : Prop where
  plain : ∀ havoc ∈ havocs, IsPlain havoc.1
  fits : (Term.loop invariant condition body).Fits (havocRenaming havocs)
    {name | IsPlain name}
  assumed : Renames (havocRenaming havocs) (.assume invariant) assumption.orSkip
  iterated : Renames (havocRenaming havocs) (Term.iteration invariant condition body)
    iteration.orSkip
  frame : ∀ before after, Exec interp jointHavoc body before (.done after) →
    ∀ name ∉ havocs.map Prod.fst, after name = before name

/-- A store in which a loop that was started in `store` is entered again. -/
structure Reentered (interp : Interpretation) (invariant : Term)
    (havocs : List (String × Int)) (store reached : Store) : Prop where
  off : ∀ name ∉ havocs.map Prod.fst, reached name = store name
  holds : invariant.Holds interp reached

namespace IsCut

variable {invariant condition body assumption iteration : Term}
  {havocs : List (String × Int)} {store cutStore havoced reached after : Store}

section

variable (hcut : IsCut interp invariant condition body havocs assumption iteration)
  (hfollows : reached.Follows (havocRenaming havocs) {name | IsPlain name} havoced)

include hcut hfollows

/-- The assumption lets pass a store in which the invariant is true. -/
theorem exec_assumption (hinvariant : invariant.Holds interp reached) :
    Exec interp jointHavoc assumption.orSkip havoced (.done havoced) := by
  have hassumed := hcut.assumed
  generalize assumption.orSkip = assumed at hassumed ⊢
  cases hassumed with
  | assume hrenamed =>
    apply Exec.assume
    exact (hrenamed.holds_iff (havocRenaming_injOn hcut.plain) hcut.fits.invariant
      hfollows).mpr hinvariant

/-- The iteration fails if the body leaves the invariant. -/
theorem exec_iteration_failed (hcondition : condition.Holds interp reached)
    (hbody : Exec interp jointHavoc body reached (.done after))
    (hinvariant : ¬ invariant.Holds interp after) :
    Exec interp jointHavoc iteration.orSkip havoced .failed := by
  have hinj := havocRenaming_injOn hcut.plain
  have hiterated := hcut.iterated
  generalize iteration.orSkip = iterated at hiterated ⊢
  cases hiterated with
  | ifElse htest hthen =>
    cases hthen with
    | seq hkept =>
      cases hkept with
      | seq hbodyRenames hassert =>
        cases hassert with
        | assert hrenamed =>
          obtain ⟨_, hexec, hafter⟩ := hbodyRenames.exec hinj hcut.fits.body hfollows hbody
          refine .ifTrue ?_ (.seqFailed (.seq hexec (.assertFalse ?_)))
          · exact (htest.holds_iff hinj hcut.fits.condition hfollows).mpr hcondition
          · rwa [hrenamed.holds_iff hinj hcut.fits.invariant hafter]

/-- The iteration does nothing where the loop ends. -/
theorem exec_iteration_skip (hcondition : ¬ condition.Holds interp reached) :
    Exec interp jointHavoc iteration.orSkip havoced (.done havoced) := by
  have hiterated := hcut.iterated
  generalize iteration.orSkip = iterated at hiterated ⊢
  cases hiterated with
  | ifElse htest _ helse =>
    cases helse
    refine .ifFalse ?_ .skip
    rwa [htest.holds_iff (havocRenaming_injOn hcut.plain) hcut.fits.condition hfollows]

end

theorem holds_of_safe (hsafe : ¬ Exec interp jointHavoc
      (guarded invariant (cutParts havocs assumption iteration)) cutStore .failed) :
    invariant.Holds interp cutStore := by
  by_contra hfalse
  exact hsafe (exec_guarded_failed hfalse)

section

variable (hcut : IsCut interp invariant condition body havocs assumption iteration)

include hcut

theorem reentered_start (hfollows : store.Follows id {name | IsPlain name} cutStore)
    (hsafe : ¬ Exec interp jointHavoc
      (guarded invariant (cutParts havocs assumption iteration)) cutStore .failed) :
    Reentered interp invariant havocs store store := by
  refine ⟨fun _ _ => rfl, ?_⟩
  rw [holds_congr fun name hname => (hfollows name (hcut.fits.invariant.free name hname)).symm]
  exact holds_of_safe hsafe

/-- An iteration that left the invariant would make the cut loop fail. -/
theorem reentered_step (hfollows : store.Follows id {name | IsPlain name} cutStore)
    (hsafe : ¬ Exec interp jointHavoc
      (guarded invariant (cutParts havocs assumption iteration)) cutStore .failed)
    (hreached : Reentered interp invariant havocs store reached)
    (hcondition : condition.Holds interp reached)
    (hbody : Exec interp jointHavoc body reached (.done after)) :
    Reentered interp invariant havocs store after := by
  refine ⟨fun name hname => ?_, ?_⟩
  · rw [hcut.frame reached after hbody name hname, hreached.off name hname]
  · by_contra hfalse
    obtain ⟨_, hruns, hhavoced, _⟩ := exists_havoced hcut.plain hfollows hreached.off
    have hassumption := hcut.exec_assumption hhavoced hreached.holds
    have hiteration := hcut.exec_iteration_failed hhavoced hcondition hbody hfalse
    apply hsafe
    exact exec_guarded (holds_of_safe hsafe) (hruns.append (.cons hassumption (.failed hiteration)))

/-- A cut loop stands for the loop. -/
theorem standsFor :
    StandsFor interp (.loop invariant condition body)
      (guarded invariant (cutParts havocs assumption iteration)) := by
  constructor
  · intro store cutStore hfollows hsafe visited reached hvisits
    obtain ⟨rfl, hreached⟩ := hvisits.loop
      (fun _ _ => hcut.reentered_step hfollows hsafe) (hcut.reentered_start hfollows hsafe)
    exact hreached.holds
  · intro store cutStore hfollows hsafe after hexec
    obtain ⟨hafter, hcondition⟩ := hexec.loop
      (fun _ _ => hcut.reentered_step hfollows hsafe) (hcut.reentered_start hfollows hsafe)
    obtain ⟨havoced, hruns, hhavoced, hsame⟩ := exists_havoced hcut.plain hfollows hafter.off
    have hassumption := hcut.exec_assumption hhavoced hafter.holds
    have hiteration := hcut.exec_iteration_skip hhavoced hcondition
    exact ⟨havoced, exec_guarded (holds_of_safe hsafe)
      (hruns.append (.cons hassumption (.cons hiteration .nil))), hsame⟩

end

end IsCut

/-! ## Programs and their cut forms -/

/-- A loop whose invariant can be copied has one. -/
theorem isClaim_of_copy {before after : WriteLog}
    (hloop : (Term.loop invariant condition body).isProgram = true)
    (hgives : Gives invariant.copy before copy after) : invariant.isClaim = true := by
  simp only [isProgram, Bool.and_eq_true, Bool.or_eq_true] at hloop
  cases invariant with
  | missing => simp [Term.copy] at hgives
  | _ => exact hloop.1.1.resolve_left (by simp [isMissing])

/-- The parts of a cut loop, and the invariant that comes with them, are a
renaming of the loop. -/
theorem cutLoop_parts (hloop : (Term.loop invariant condition body).isProgram = true)
    (hbody : Renames id body copy)
    (hgives : Gives (cutLoop targets invariant condition copy) before cut after) :
    ∃ (havocs : List (String × Int)) (assumption iteration : Term), havocs.map Prod.fst = targets ∧
      Renames (havocRenaming havocs) (.assume invariant) assumption.orSkip ∧
      Renames (havocRenaming havocs) (Term.iteration invariant condition body) iteration.orSkip ∧
      (∃ kept, cut.invariants = [kept] ∧ invariant.RenamedTo (havocRenaming havocs) kept) ∧
      cut.program = guarded invariant (cutParts havocs assumption iteration) := by
  simp only [cutLoop_eq, gives_bind] at hgives
  obtain ⟨havocs, _, hhavocs, hparts⟩ := hgives
  have hparts := hparts.of_logged
  simp only [gives_bind, gives_pure] at hparts
  obtain ⟨_, _, hcopied, _⟩ := id hparts
  have hinvariant := isClaim_of_copy hloop hcopied
  simp only [isProgram, Bool.and_eq_true] at hloop
  simp only [gives_copy hinvariant] at hparts
  obtain ⟨_, _, ⟨rfl, _⟩, _, _, ⟨rfl, _⟩, assumption, _, hassumption, iteration, _,
    hiteration, _, _, ⟨rfl, _⟩, _, _, ⟨rfl, _⟩, kept, _, hkept, rfl, _⟩ := hparts
  refine ⟨havocs, assumption, iteration, map_fst_of_gives_havocs hhavocs, ?_, ?_,
    ⟨kept, rfl, (Term.RenamedTo.refl hinvariant).afterHavocs hkept⟩, rfl⟩
  · exact (Renames.assume (.refl hinvariant)).afterHavocs hassumption
  · have hstart : Renames id (Term.iteration invariant condition body)
        (.ifElse condition (.seq (.seq copy.orSkip (.assert invariant))
          (.assume (.bool false))) .skip) := by
      rw [hbody.orSkip_eq]
      exact .ifElse (.refl hloop.1.2) (.seq (.seq hbody (.assert (.refl hinvariant)))
        (.assume (.refl rfl))) .skip
    exact hstart.afterHavocs hiteration

/-- The names of a program are plain, and its bound variables are not among its
other variables. -/
structure Term.HasPlainNames (program : Term) : Prop where
  plain : ∀ name ∈ program.freeNames ++ program.boundNames, IsPlain name
  bound : ∀ name ∈ program.boundNames, name ∉ program.freeNames

theorem Term.HasPlainNames.part {program part : Term} (hnames : program.HasPlainNames)
    (hfree : part.freeNames ⊆ program.freeNames)
    (hbound : part.boundNames ⊆ program.boundNames) : part.HasPlainNames := by
  refine ⟨fun name hname => hnames.plain name ?_, fun name hname hmem =>
    hnames.bound name (hbound hname) (hfree hmem)⟩
  rcases List.mem_append.mp hname with hname | hname
  · exact List.mem_append_left _ (hfree hname)
  · exact List.mem_append_right _ (hbound hname)

theorem Term.HasPlainNames.fits (hnames : program.HasPlainNames)
    (hplain : ∀ havoc ∈ havocs, IsPlain havoc.1)
    (htargets : ∀ name ∈ havocs.map Prod.fst, name ∈ program.freeNames) :
    program.Fits (havocRenaming havocs) {name | IsPlain name} := by
  refine ⟨fun name hname => hnames.plain name (List.mem_append_left _ hname),
    fun name hname => ⟨hnames.plain name (List.mem_append_right _ hname), ?_⟩⟩
  rcases havocRenaming_cases hplain name with ⟨count, hcount, _⟩ | ⟨_, hrename⟩
  · exact absurd (htargets name (List.mem_map.mpr ⟨_, hcount, rfl⟩)) (hnames.bound name hname)
  · exact hrename

variable (interp) in
/-- What cutting makes of a loop is a cut form of it, with one invariant. -/
theorem isCut_of_cutOneLoop (hloop : (Term.loop invariant condition body).isProgram = true)
    (hhavocs : body.havocs = []) (hnames : (Term.loop invariant condition body).HasPlainNames)
    (hcopy : Renames id body copy)
    (hgives : Gives (cutOneLoop invariant condition copy) before cut after) :
    ∃ targets havocs assumption iteration kept,
      body.assigned = .ok targets ∧ havocs.map Prod.fst = ascending targets ∧
      IsCut interp invariant condition body havocs assumption iteration ∧
      invariant.RenamedTo (havocRenaming havocs) kept ∧ cut.invariants = [kept] ∧
      cut.program = guarded invariant (cutParts havocs assumption iteration) := by
  have hprogram := hloop
  simp only [isProgram, Bool.and_eq_true] at hprogram
  rw [cutOneLoop, hcopy.assigned_eq] at hgives
  cases hassigned : body.assigned with
  | error => simp [hassigned] at hgives
  | ok targets =>
    simp only [hassigned] at hgives
    obtain ⟨havocs, assumption, iteration, htargets, hassumed, hiterated,
      ⟨kept, hinvariants, hkept⟩, hcut⟩ := cutLoop_parts hloop hcopy hgives
    have htarget : ∀ name, name ∈ havocs.map Prod.fst ↔ name ∈ targets := by
      intro name
      rw [htargets, mem_ascending]
    have hfree : ∀ name ∈ havocs.map Prod.fst,
        name ∈ (Term.loop invariant condition body).freeNames := by
      intro name hname
      have hbody := mem_freeNames_of_assigned hprogram.2 hassigned ((htarget name).mp hname)
      simp [hbody]
    have hplain : ∀ havoc ∈ havocs, IsPlain havoc.1 := by
      intro havoc hhavoc
      exact hnames.plain havoc.1
        (List.mem_append_left _ (hfree _ (List.mem_map.mpr ⟨havoc, hhavoc, rfl⟩)))
    have hframe : ∀ before after, Exec interp jointHavoc body before (.done after) →
        ∀ name ∉ havocs.map Prod.fst, after name = before name := by
      intro before after hexec name hname
      exact hexec.eq_of_not_assigned hhavocs hassigned (fun hmem => hname ((htarget name).mpr hmem))
    exact ⟨targets, havocs, assumption, iteration, kept, rfl, htargets,
      ⟨hplain, hnames.fits hplain hfree, hassumed, hiterated, hframe⟩, hkept, hinvariants, hcut⟩

/-- A loop stands for its cut form. -/
theorem standsFor_cutOneLoop (hloop : (Term.loop invariant condition body).isProgram = true)
    (hhavocs : body.havocs = []) (hnames : (Term.loop invariant condition body).HasPlainNames)
    (hcopy : Renames id body copy)
    (hgives : Gives (cutOneLoop invariant condition copy) before cut after) :
    StandsFor interp (.loop invariant condition body) cut.program := by
  obtain ⟨_, _, _, _, _, _, _, hcut, _, _, hprogram⟩ :=
    isCut_of_cutOneLoop interp hloop hhavocs hnames hcopy hgives
  rw [hprogram]
  exact hcut.standsFor

/-- A statement that is no sequence and no loop stands for its copies. -/
theorem standsFor_simple (hnames : statement.HasPlainNames) (hcopy : Renames id statement copy)
    (hsimple : ∀ store invariant reached,
      ¬ VisitsTop interp jointHavoc statement store invariant reached) :
    StandsFor interp statement copy := by
  constructor
  · intro store cutStore _ _ invariant reached hvisits
    exact absurd hvisits (hsimple store invariant reached)
  · intro store cutStore hfollows _ after hexec
    refine hcopy.exec (Set.injOn_id _) ⟨fun name hname => ?_, fun name hname => ⟨?_, rfl⟩⟩
      hfollows hexec
    · exact hnames.plain name (List.mem_append_left _ hname)
    · exact hnames.plain name (List.mem_append_right _ hname)

/-- A statement that is no loop, and has no parts that are statements. -/
def Term.isStep : Term → Bool
  | .skip | .assign .. | .assume _ | .assert _ => true
  | _ => false

/-- The second term is the first, or a copy of it. -/
def Term.IsCopied (term copied : Term) : Prop :=
  copied = term ∨ ∃ before after, Gives term.copy before copied after

theorem Term.IsCopied.of_copy {term copied : Term} {motive : Term → Prop}
    (hcopied : term.IsCopied copied) (hterm : motive term)
    (hcopy : ∀ {before after}, Gives term.copy before copied after → motive copied) :
    motive copied := by
  obtain rfl | ⟨_, _, hgives⟩ := hcopied
  · exact hterm
  · exact hcopy hgives

/-- What a program comes to when its loops are cut.  What is cut is the program, or its parts
are copied first. -/
inductive Term.CutsInto : Term → CutProgram → Prop
  | seq {first second : Term} {cutFirst cutSecond : CutProgram} :
      CutsInto first cutFirst → CutsInto second cutSecond →
      CutsInto (.seq first second) ⟨andThen cutFirst.program cutSecond.program,
        cutFirst.invariants ++ cutSecond.invariants⟩
  | loop {invariant condition body kept test round : Term} {before after : CutState}
      {cut : CutProgram} :
      invariant.IsCopied kept → condition.IsCopied test → body.IsCopied round →
      Gives (cutOneLoop kept test round) before cut after →
      CutsInto (.loop invariant condition body) cut
  | step {statement copied : Term} : statement.isStep = true → statement.IsCopied copied →
      CutsInto statement ⟨copied, []⟩
  | havoc {name : String} {count : Int} {copied : Term} :
      CutsInto (.havoc name count) ⟨copied, []⟩

theorem cutsInto_of_cutCopy (hgives : Gives program.cutCopy before cut after) :
    program.CutsInto cut := by
  induction program generalizing before cut after with
  | seq _ _ ihfirst ihsecond =>
    simp only [cutCopy, gives_bind, gives_pure] at hgives
    obtain ⟨_, _, hfirst, _, _, hsecond, rfl, _⟩ := hgives
    exact .seq (ihfirst hfirst) (ihsecond hsecond)
  | loop =>
    simp only [cutCopy, gives_bind] at hgives
    obtain ⟨_, _, hinvariant, _, _, hcondition, _, _, hbody, hcut⟩ := hgives
    exact .loop (.inr ⟨_, _, hinvariant.of_logged⟩) (.inr ⟨_, _, hcondition.of_logged⟩)
      (.inr ⟨_, _, hbody.of_logged⟩) hcut
  | skip | assign | assume | assert =>
    obtain ⟨_, _, hcopy, hgives⟩ := gives_bind.mp hgives
    obtain ⟨rfl, _⟩ := gives_pure.mp hgives
    exact .step rfl (.inr ⟨_, _, hcopy.of_logged⟩)
  | havoc =>
    obtain ⟨_, _, _, hgives⟩ := gives_bind.mp hgives
    obtain ⟨rfl, _⟩ := gives_pure.mp hgives
    exact .havoc
  | _ => exact absurd hgives not_gives_throw

theorem cutsInto_of_cutLoops (hgives : Gives program.cutLoops before cut after) :
    program.CutsInto cut := by
  cases program with
  | seq =>
    simp only [cutLoops, gives_bind, gives_pure] at hgives
    obtain ⟨_, _, _, _, _, hfirst, _, _, _, _, _, hsecond, rfl, _⟩ := hgives
    exact .seq (cutsInto_of_cutCopy hfirst) (cutsInto_of_cutCopy hsecond)
  | loop => exact .loop (.inl rfl) (.inl rfl) (.inl rfl) hgives
  | skip | assign | assume | assert =>
    obtain ⟨rfl, _⟩ := gives_pure.mp hgives
    exact .step rfl (.inl rfl)
  | havoc =>
    obtain ⟨rfl, _⟩ := gives_pure.mp hgives
    exact .havoc
  | _ => exact absurd hgives not_gives_throw

theorem Term.IsCopied.renames (hcopied : program.IsCopied copy)
    (hprogram : program.isProgram = true) (hhavocs : program.havocs = []) :
    Renames id program copy :=
  hcopied.of_copy (.refl hprogram hhavocs) (.of_copy hprogram hhavocs)

/-- A loop is cut with its own invariant and condition, and its body or a copy of it. -/
theorem eq_of_isCopied_loop {kept test : Term}
    (hloop : (Term.loop invariant condition body).isProgram = true)
    (hinvariant : invariant.IsCopied kept) (hcondition : condition.IsCopied test) :
    invariant = kept ∧ condition = test := by
  constructor
  · exact hinvariant.of_copy rfl fun hgives =>
      ((gives_copy (isClaim_of_copy hloop hgives)).mp hgives).1
  · simp only [isProgram, Bool.and_eq_true] at hloop
    exact hcondition.of_copy rfl fun hgives => ((gives_copy hloop.1.2).mp hgives).1

theorem Term.CutsInto.standsFor (hcuts : program.CutsInto cut)
    (hprogram : program.isProgram = true) (hhavocs : program.havocs = [])
    (hnames : program.HasPlainNames) : StandsFor interp program cut.program := by
  induction hcuts with
  | seq _ _ ihfirst ihsecond =>
    simp only [isProgram, Bool.and_eq_true] at hprogram
    simp only [Term.havocs, List.append_eq_nil_iff] at hhavocs
    exact standsFor_seq
      (ihfirst hprogram.1 hhavocs.1 (hnames.part (by simp) (by simp)))
      (ihsecond hprogram.2 hhavocs.2 (hnames.part (by simp) (by simp)))
  | loop hinvariant hcondition hbody hcut =>
    obtain ⟨rfl, rfl⟩ := eq_of_isCopied_loop hprogram hinvariant hcondition
    have hparts := hprogram
    simp only [isProgram, Bool.and_eq_true] at hparts
    exact standsFor_cutOneLoop hprogram hhavocs hnames (hbody.renames hparts.2 hhavocs) hcut
  | step hstep hcopied =>
    refine standsFor_simple hnames (hcopied.renames hprogram hhavocs) ?_
    intro store invariant reached hvisits
    cases hvisits <;> cases hstep
  | havoc => simp [Term.havocs] at hhavocs

/-- Cutting the loops of a program is sound.  If no run of the cut program fails
an assertion, then every visit of a top-level loop finds its invariant true, and
for every run of the program that ends there is a run of the cut program that
ends with the same values of all variables of the program. -/
theorem cutLoops_sound {program : Term} {before after : CutState} {cut : CutProgram}
    {start : Store} (hprogram : program.isProgram = true) (hhavocs : program.havocs = [])
    (hplain : ∀ name ∈ program.freeNames ++ program.boundNames, '@' ∉ name.toList)
    (hbound : ∀ name ∈ program.boundNames, name ∉ program.freeNames)
    (hgives : Gives program.cutLoops before cut after)
    (hsafe : ¬ Exec interp jointHavoc cut.program start .failed) :
    (∀ invariant reached, VisitsTop interp jointHavoc program start invariant reached →
      invariant.Holds interp reached) ∧
    ∀ final, Exec interp jointHavoc program start (.done final) →
      ∃ cutFinal, Exec interp jointHavoc cut.program start (.done cutFinal) ∧
        ∀ name ∈ program.freeNames, cutFinal name = final name := by
  have hstands : StandsFor interp program cut.program :=
    (cutsInto_of_cutLoops hgives).standsFor hprogram hhavocs ⟨hplain, hbound⟩
  have hsame : start.Follows id {name | IsPlain name} start := fun _ _ => rfl
  refine ⟨hstands.invariants hsame hsafe, fun final hexec => ?_⟩
  obtain ⟨cutFinal, hcut, hfollows⟩ := hstands.final hsame hsafe final hexec
  refine ⟨cutFinal, hcut, fun name hname => ?_⟩
  exact hfollows name (hplain name (List.mem_append_left _ hname))

/-- A sequence is safe if its first part is, and the second wherever it leads. -/
theorem not_failed_seq (hfirst : ¬ Exec interp havoc first store .failed)
    (hsecond : ∀ between, Exec interp havoc first store (.done between) →
      ¬ Exec interp havoc second between .failed) :
    ¬ Exec interp havoc (.seq first second) store .failed := by
  intro hfailed
  cases hfailed with
  | seq hexec hfailed => exact hsecond _ hexec hfailed
  | seqFailed hfailed => exact hfirst hfailed

theorem not_failed_assert {claim : Term} (hclaim : claim.Holds interp store) :
    ¬ Exec interp havoc (.assert claim) store .failed := by
  intro hfailed
  cases hfailed with
  | assertFalse hfalse => exact hfalse hclaim

/-- A variable is set to two and counted down to zero. -/
theorem cutLoops_sound_countdown :
    let program := Term.seq (.assign (.var "x") (.int 2) false) countdown
    let iteration := Term.iteration (atLeast 0 (.var "x@0")) (atLeast 1 (.var "x@0"))
      (.assign (.var "x@0") (.binary (.var "x@0") .minus (.int 1)) false)
    let cut := Term.seq (.assign (.var "x") (.int 2) false)
      (.seq (.assert (atLeast 0 (.var "x")))
        (.seq (.seq (.havoc "x" 0) (.assume (atLeast 0 (.var "x@0")))) iteration))
    let start : Store := fun _ => .int 5
    ¬ Exec .standard jointHavoc cut start .failed ∧
    (∀ invariant reached, VisitsTop .standard jointHavoc program start invariant reached →
      invariant.Holds .standard reached) ∧
    ∀ final, Exec .standard jointHavoc program start (.done final) →
      ∃ cutFinal, Exec .standard jointHavoc cut start (.done cutFinal) ∧
        ∀ name ∈ program.freeNames, cutFinal name = final name := by
  intro program iteration cut start
  have hgives : Gives program.cutLoops ⟨.empty, []⟩ ⟨cut, [atLeast 0 (.var "x@0")]⟩
      ⟨.empty, [("x", 0)]⟩ := rfl
  have hsafe : ¬ Exec .standard jointHavoc cut start .failed := by
    refine not_failed_seq nofun ?_
    rintro _ ⟨⟩
    have hinvariant : (atLeast 0 (.var "x")).Holds .standard
        (Function.update start "x" (.int 2)) := holds_atLeast.mpr ⟨2, rfl, by decide⟩
    refine not_failed_seq (not_failed_assert hinvariant) ?_
    rintro _ ⟨⟩
    refine not_failed_seq (not_failed_seq nofun fun _ _ => nofun) ?_
    intro havoced _ hfailed
    unfold iteration Term.iteration at hfailed
    cases hfailed with
    | ifTrue hcondition hbody =>
      revert hbody
      refine not_failed_seq (not_failed_seq nofun ?_) fun _ _ => nofun
      rintro _ ⟨⟩
      obtain ⟨value, hvalue, hone⟩ := holds_atLeast.mp hcondition
      refine not_failed_assert (holds_atLeast.mpr ⟨value - 1, ?_, by omega⟩)
      rw [Term.eval_var, Function.update_self]
      change Interpretation.standard.binary .minus (havoced "x@0") (.int 1) = _
      rw [show havoced "x@0" = .int value from hvalue]
      rfl
    | ifFalse _ hskip => cases hskip
  exact ⟨hsafe, cutLoops_sound (by decide) (by decide) (by decide) (by decide) hgives hsafe⟩

end Loops

end HoareCheck
