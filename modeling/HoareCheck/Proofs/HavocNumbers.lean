import HoareCheck.Proofs.TaskFrames

/-!
# Numbers of havocs

A table of counters outlives the programs whose loops are cut with it.  Every cut
numbers havocs of the targets of the loops that it comes to, whether it succeeds
or not, and each number continues those before it.  So over any row of cuts, and
over any session of a verifier, no havoc is numbered twice.
-/

namespace HoareCheck

variable {term result program : Term} {before after : WriteLog} {fault : Fault} {cut : CutProgram}
  {names : List String} {call : CutCall} {calls : List CutCall}
  {issued : List (List (String × Int))} {verifier : Verifier}

/-! ## Tables of counters -/

namespace HavocCounts

theorem find?_insert (counts : HavocCounts) (name other : String) (count : Int) :
    (counts.insert name count).find? other =
      if other = name then some count else counts.find? other := by
  induction counts with
  | nil =>
    simp only [insert, find?, List.find?_cons, List.find?_nil]
    grind
  | cons _ _ ih =>
    simp only [find?, insert] at ih ⊢
    grind

/-- Numbers a havoc of each name, one after the other. -/
def number (counts : HavocCounts) : List String → List (String × Int) × HavocCounts
  | [] => ([], counts)
  | name :: rest =>
    let numbered := (counts.insert name (counts.next name)).number rest
    ((name, counts.next name) :: numbered.1, numbered.2)

theorem number_append (counts : HavocCounts) (first second : List String) :
    counts.number (first ++ second) =
      ((counts.number first).1 ++ ((counts.number first).2.number second).1,
        ((counts.number first).2.number second).2) := by
  induction first generalizing counts with
  | nil => rfl
  | cons _ _ ih => simp [number, ih]

theorem map_fst_number (counts : HavocCounts) (names : List String) :
    (counts.number names).1.map Prod.fst = names := by
  induction names generalizing counts with
  | nil => rfl
  | cons _ _ ih => simp [number, ih]

theorem next_insert (counts : HavocCounts) (name other : String) :
    (counts.insert name (counts.next name)).next other =
      counts.next other + if other = name then 1 else 0 := by
  rw [next, find?_insert]
  by_cases hsame : other = name
  · simp [hsame]
  · simp [hsame, next]

/-- The table holds the last number of every name. -/
theorem find?_number (counts : HavocCounts) (names : List String) (name : String) :
    (counts.number names).2.find? name =
      if name ∈ names then some (counts.next name + names.count name - 1)
      else counts.find? name := by
  induction names generalizing counts with
  | nil => rfl
  | cons head rest ih =>
    have hnumber : (counts.number (head :: rest)).2 =
        ((counts.insert head (counts.next head)).number rest).2 := rfl
    rw [hnumber, ih, next_insert, find?_insert, List.count_cons]
    by_cases hsame : name = head
    · subst hsame
      by_cases hrest : name ∈ rest
      · simp only [hrest, if_true, List.mem_cons, or_true, beq_self_eq_true]
        congr 1
        omega
      · simp [hrest, List.count_eq_zero_of_not_mem hrest]
    · have hne : (head == name) = false := by simpa using Ne.symm hsame
      simp [hsame, hne]

end HavocCounts

/-- The numbers that havocs give to a name, in order. -/
def numbersOf (name : String) (havocs : List (String × Int)) : List Int :=
  (havocs.filter (·.1 = name)).map Prod.snd

theorem numbersOf_number (counts : HavocCounts) (names : List String) (name : String) :
    numbersOf name (counts.number names).1 =
      (List.range (names.count name)).map fun index : Nat => counts.next name + index := by
  induction names generalizing counts with
  | nil => rfl
  | cons head rest ih =>
    have hnumber : (counts.number (head :: rest)).1 =
        (head, counts.next head) ::
          ((counts.insert head (counts.next head)).number rest).1 := rfl
    have hrest := ih (counts.insert head (counts.next head))
    rw [HavocCounts.next_insert] at hrest
    by_cases hsame : name = head
    · subst hsame
      rw [hnumber, numbersOf, List.filter_cons_of_pos (by simp), List.map_cons,
        ← numbersOf, hrest, List.count_cons_self, List.range_succ_eq_map, List.map_cons,
        List.map_map]
      simp [Function.comp_def, Int.add_assoc, Int.add_comm 1]
    · rw [hnumber, numbersOf, List.filter_cons_of_neg (by simpa using Ne.symm hsame),
        ← numbersOf, hrest, List.count_cons_of_ne (Ne.symm hsame)]
      simp [hsame]

/-- Havocs are different if those of each name have different numbers. -/
theorem nodup_of_numbersOf {havocs : List (String × Int)}
    (hnumbers : ∀ name, (numbersOf name havocs).Nodup) : havocs.Nodup := by
  induction havocs with
  | nil => exact List.nodup_nil
  | cons head rest ih =>
    rw [List.nodup_cons]
    constructor
    · intro hmem
      have hhead := hnumbers head.1
      rw [numbersOf, List.filter_cons_of_pos (by simp), List.map_cons, List.nodup_cons] at hhead
      apply hhead.1
      exact List.mem_map.mpr ⟨head, List.mem_filter.mpr ⟨hmem, by simp⟩, rfl⟩
    · apply ih
      intro name
      refine (hnumbers name).sublist ?_
      exact ((List.sublist_cons_self head rest).filter _).map _

/-! ## Havocs of copies and renamings -/

namespace Term

theorem havocs_orSkip (term : Term) : term.orSkip.havocs = term.havocs := by
  cases term <;> rfl

theorem havocs_andThen (first second : Term) :
    (first.andThen second).havocs = first.havocs ++ second.havocs := by
  rw [andThen, havocs, havocs_orSkip, havocs_orSkip]

theorem havocs_extend (term next : Term) :
    (term.extend next).havocs = term.havocs ++ next.havocs := by
  cases term with
  | seq => simp [extend, havocs, havocs_andThen]
  | _ => exact havocs_andThen _ _

theorem havocs_foldl_extend (parts : List Term) (term : Term) :
    (parts.foldl extend term).havocs = term.havocs ++ parts.flatMap havocs := by
  induction parts generalizing term with
  | nil => simp
  | cons _ _ ih => simp [ih, havocs_extend]

/-- A term without the sites of its reads, the numbers of its havocs and the marks
of its charges. -/
def outline : Term → Term
  | .slice lower upper => .slice lower.outline upper.outline
  | .subscript _ array index => .subscript 0 array.outline index.outline
  | .unary operator operand => .unary operator operand.outline
  | .binary left operator right => .binary left.outline operator right.outline
  | .quantified quantifier binder type written body closed =>
    .quantified quantifier binder.outline type written.outline body.outline closed
  | .assign target value _ => .assign target.outline value.outline false
  | .ifElse condition thenBranch elseBranch =>
    .ifElse condition.outline thenBranch.outline elseBranch.outline
  | .seq first second => .seq first.outline second.outline
  | .assume claim => .assume claim.outline
  | .assert claim => .assert claim.outline
  | .loop invariant condition body => .loop invariant.outline condition.outline body.outline
  | .havoc name _ => .havoc name 0
  | term => term

theorem outline_place (term : Term) (log : WriteLog) :
    (term.place log).1.outline = term.outline := by
  induction term generalizing log with
  | subscript _ _ _ iharray ihindex =>
    simp only [place, outline, iharray, ihindex]
  | _ => simp_all [place, outline]

/-- A copy has the outline of its model. -/
theorem outline_of_copy {copy : Term} (hgives : Gives term.copy before copy after) :
    copy.outline = term.outline := by
  induction term generalizing copy before after with
  | missing => exact absurd hgives not_gives_throw
  | subscript _ _ _ iharray ihindex =>
    simp only [Term.copy, gives_bind, gives_place] at hgives
    obtain ⟨_, _, harray, _, _, hindex, rfl, -⟩ := hgives
    rw [outline_place, outline, outline, iharray harray, ihindex hindex]
  | _ =>
    simp only [Term.copy, gives_bind, gives_pure] at hgives
    grind [outline]

theorem variableNames_outline (term : Term) : term.outline.variableNames = term.variableNames := by
  induction term with
  | _ => simp_all [outline, variableNames]

theorem assigned_outline (term : Term) : term.outline.assigned = term.assigned := by
  induction term with
  | _ => simp_all [outline, assigned, variableNames_outline]

theorem havocs_outline (term : Term) :
    term.outline.havocs.map Prod.fst = term.havocs.map Prod.fst := by
  induction term with
  | _ => simp_all [outline, havocs]

/-- A copy assigns what its model does. -/
theorem assigned_of_copy {copy : Term} (hgives : Gives term.copy before copy after) :
    copy.assigned = term.assigned := by
  rw [← assigned_outline, outline_of_copy hgives, assigned_outline]

theorem havocs_of_copy {copy : Term} (hgives : Gives term.copy before copy after)
    (hhavocs : term.havocs = []) : copy.havocs = [] := by
  have hnames := havocs_outline copy
  rw [outline_of_copy hgives, havocs_outline, hhavocs] at hnames
  exact List.map_eq_nil_iff.mp hnames.symm

/-- No havoc is left after a substitution. -/
theorem havocs_of_substituteWith {atRead : Site → Term → Logged Unit} {old new : Term}
    (hnew : new.havocs = [])
    (hgives : Gives (substituteWith atRead old new term) before result after) :
    result.havocs = [] := by
  induction term generalizing result before after with
  | missing => exact absurd hgives not_gives_throw
  | var name =>
    cases old with
    | var other =>
      obtain ⟨rfl, -⟩ := gives_pure.mp hgives
      by_cases hsame : name = other
      · rwa [if_pos hsame]
      · rw [if_neg hsame]
        rfl
    | _ =>
      obtain ⟨rfl, -⟩ := gives_pure.mp hgives
      rfl
  | _ =>
    simp only [substituteWith, gives_bind, gives_pure] at hgives
    grind [havocs, branch, repeatWhile, andThen, havocs_orSkip]

theorem havocs_of_renameAll {renamings : List (String × String)} (hhavocs : term.havocs = [])
    (hgives : Gives (term.renameAll renamings) before result after) : result.havocs = [] := by
  induction renamings generalizing term before with
  | nil =>
    obtain ⟨rfl, -⟩ := gives_pure.mp hgives
    exact hhavocs
  | cons _ _ ih =>
    simp only [renameAll, List.foldlM_cons, gives_bind, substitute] at hgives
    obtain ⟨_, _, ⟨_, _, -, hrenamed⟩, hrest⟩ := hgives
    exact ih (havocs_of_substituteWith (by rfl) hrenamed) hrest

/-- A term in a frame without havocs has none. -/
theorem havocs_of_inFrame {bound : Nat} (hterm : term.InFrame (.below bound)) :
    term.havocs = [] := by
  induction term with
  | ifElse _ _ _ _ ihthen ihelse => simp [havocs, ihthen hterm.2.2.1, ihelse hterm.2.2.2]
  | seq _ _ ihfirst ihsecond => simp [havocs, ihfirst hterm.2.1, ihsecond hterm.2.2]
  | loop _ _ _ _ _ ih => exact ih hterm.2.2.2
  | havoc => exact hterm.2.elim
  | _ => rfl

/-- The variables that a cut of a loop with the given body havocs, in order. -/
def targets (body : Term) : List String :=
  match body.assigned with
  | .ok names => ascending names
  | .error _ => []

/-- The targets of each loop at the top level of a program. -/
def loopTargets : Term → List (List String)
  | .seq first second => first.loopTargets ++ second.loopTargets
  | .loop _ _ body => [body.targets]
  | _ => []

end Term

/-! ## Cutting -/

section Cutting

variable {α : Type} {computation : Logged α} {before after : CutState}

theorem outcomeOn_cutting_logged (computation : Logged α) (before : CutState) :
    outcomeOn (Cutting.logged computation) before =
      ((outcomeOn computation before.log).1,
        { before with log := (outcomeOn computation before.log).2 }) := by
  have hrun : computation.run before.log = outcomeOn computation before.log := rfl
  rcases houtcome : outcomeOn computation before.log with ⟨fault | value, log⟩
  · have hfails : Fails (Cutting.logged computation) before fault { before with log } := by
      simp [Cutting.logged, hrun, houtcome]
    exact hfails
  · have hgives : Gives (Cutting.logged computation) before value { before with log } := by
      simp [Cutting.logged, hrun, houtcome]
    exact hgives

theorem gives_cutting_logged {value : α} :
    Gives (Cutting.logged computation) before value after ↔
      Gives computation before.log value after.log ∧ after.counts = before.counts := by
  obtain ⟨_, _⟩ := after
  rw [Gives, outcomeOn_cutting_logged, Gives]
  simp [Prod.ext_iff, eq_comm, and_assoc]

theorem fails_cutting_logged :
    Fails (Cutting.logged computation) before fault after ↔
      Fails computation before.log fault after.log ∧ after.counts = before.counts := by
  obtain ⟨_, _⟩ := after
  rw [Fails, outcomeOn_cutting_logged, Fails]
  simp [Prod.ext_iff, eq_comm, and_assoc]

theorem gives_count {name : String} {number : Int} :
    Gives (Cutting.count name) before number after ↔
      number = before.counts.next name ∧
        after = { before with counts := before.counts.insert name number } := by
  simp only [Cutting.count, gives_bind, gives_get, gives_set, gives_pure]
  constructor
  · rintro ⟨_, _, ⟨rfl, rfl⟩, _, _, rfl, rfl, rfl⟩
    exact ⟨rfl, rfl⟩
  · rintro ⟨rfl, rfl⟩
    exact ⟨before, before, ⟨rfl, rfl⟩, ⟨⟩, _, rfl, rfl, rfl⟩

/-- Targets are numbered, whatever the table. -/
theorem gives_havocs {targets : List String} {havocs : List (String × Int)} :
    Gives (Cutting.havocs targets) before havocs after ↔
      (before.counts.number targets).1 = havocs ∧
        { before with counts := (before.counts.number targets).2 } = after := by
  have hgives : ∀ before : CutState, Gives (Cutting.havocs targets) before
      (before.counts.number targets).1
      { before with counts := (before.counts.number targets).2 } := by
    induction targets with
    | nil => exact fun before => gives_pure.mpr ⟨rfl, rfl⟩
    | cons _ _ ih =>
      intro before
      simp only [Cutting.havocs, List.mapM_cons, gives_bind, gives_pure]
      exact ⟨_, _, ⟨_, _, gives_count.mpr ⟨rfl, rfl⟩, rfl, rfl⟩, _, _, ih _, rfl, rfl⟩
  constructor
  · exact (hgives before).unique
  · rintro ⟨rfl, rfl⟩
    exact hgives before

theorem not_fails_havocs {targets : List String} :
    ¬ Fails (Cutting.havocs targets) before fault after :=
  (gives_havocs.mpr ⟨rfl, rfl⟩).not_fails

/-- What cutting numbers, of loops with given targets.  A cut that fails has come
to the first few of them. -/
structure Numbers (loops : List (List String)) (cutting : Cutting CutProgram) : Prop where
  gives : ∀ before cut after, Gives cutting before cut after →
    before.counts.number loops.flatten = (cut.program.havocs, after.counts)
  fails : ∀ before fault after, Fails cutting before fault after →
    ∃ reached, reached <+: loops ∧ after.counts = (before.counts.number reached.flatten).2

theorem numbers_throw (loops : List (List String)) (fault : Fault) :
    Numbers loops (throw fault) := by
  refine ⟨fun _ _ _ hgives => absurd hgives not_gives_throw, fun _ _ _ hfails => ?_⟩
  obtain ⟨-, rfl⟩ := fails_throw.mp hfails
  exact ⟨[], List.nil_prefix, rfl⟩

/-- A cut without loops has nothing to number. -/
theorem numbers_pure (hhavocs : cut.program.havocs = []) : Numbers [] (pure cut) := by
  refine ⟨fun before _ after hgives => ?_, fun _ _ _ hfails => absurd hfails not_fails_pure⟩
  obtain ⟨rfl, rfl⟩ := gives_pure.mp hgives
  rw [hhavocs]
  rfl

/-- What is done on the log before a cut changes no number. -/
theorem numbers_logged_bind {loops : List (List String)} {next : α → Cutting CutProgram}
    (hnext : ∀ before value after, Gives computation before value after →
      Numbers loops (next value)) :
    Numbers loops (Cutting.logged computation >>= next) := by
  refine ⟨fun before cut after hgives => ?_, fun before fault after hfails => ?_⟩
  · obtain ⟨_, _, hvalue, hcut⟩ := gives_bind.mp hgives
    obtain ⟨hvalue, hcounts⟩ := gives_cutting_logged.mp hvalue
    rw [← hcounts]
    exact (hnext _ _ _ hvalue).gives _ _ _ hcut
  · rcases fails_bind.mp hfails with hfails | ⟨value, between, hvalue, hfails⟩
    · exact ⟨[], List.nil_prefix, (fails_cutting_logged.mp hfails).2⟩
    · obtain ⟨hvalue, hcounts⟩ := gives_cutting_logged.mp hvalue
      rw [← hcounts]
      exact (hnext _ _ _ hvalue).fails _ _ _ hfails

/-- Two cuts, one after the other. -/
theorem Numbers.seq {first second : List (List String)} {left right : Cutting CutProgram}
    (hleft : Numbers first left) (hright : Numbers second right) :
    Numbers (first ++ second) (do
      let cutFirst ← left
      let cutSecond ← right
      return ⟨Term.andThen cutFirst.program cutSecond.program,
        cutFirst.invariants ++ cutSecond.invariants⟩) := by
  refine ⟨fun before cut after hgives => ?_, fun before fault after hfails => ?_⟩
  · simp only [gives_bind, gives_pure] at hgives
    obtain ⟨_, _, hfirst, _, _, hsecond, rfl, rfl⟩ := hgives
    rw [List.flatten_append, HavocCounts.number_append, hleft.gives _ _ _ hfirst,
      hright.gives _ _ _ hsecond, Term.havocs_andThen]
  · rcases fails_bind.mp hfails with hfirst | ⟨cutFirst, between, hfirst, hfails⟩
    · obtain ⟨reached, hreached, hcounts⟩ := hleft.fails _ _ _ hfirst
      exact ⟨reached, hreached.trans (List.prefix_append _ _), hcounts⟩
    rcases fails_bind.mp hfails with hsecond | ⟨_, _, _, hpure⟩
    · obtain ⟨reached, hreached, hcounts⟩ := hright.fails _ _ _ hsecond
      refine ⟨first ++ reached, (List.prefix_append_right_inj first).mpr hreached, ?_⟩
      rw [List.flatten_append, HavocCounts.number_append, hleft.gives _ _ _ hfirst, hcounts]
    · exact absurd hpure not_fails_pure

end Cutting

namespace Term

variable {invariant condition body : Term}

/-- The cut form of a loop has a havoc for each target. -/
theorem number_of_gives_cutLoop {before after : CutState} (hhavocs : body.havocs = [])
    (hgives : Gives (cutLoop names invariant condition body) before cut after) :
    before.counts.number names = (cut.program.havocs, after.counts) := by
  simp only [cutLoop, gives_bind, gives_havocs, gives_cutting_logged, gives_pure] at hgives
  obtain ⟨havocs, _, ⟨rfl, rfl⟩, ⟨assumed, _, -, kept, _, -, assumption, _, hassumption,
    iteration, _, hiteration, entered, _, -, _, _, -, _, _, -, rfl, -⟩, hcounts⟩ := hgives
  have hassumed : assumption.havocs = [] := havocs_of_renameAll rfl hassumption
  have hiterated : iteration.havocs = [] := by
    refine havocs_of_renameAll ?_ hiteration
    simp [branch, havocs, havocs_orSkip, havocs_andThen, hhavocs]
  have hparts (numbered : List (String × Int)) :
      (numbered.map (fun havoc => Term.havoc havoc.1 havoc.2) ++
        [assumption, iteration]).flatMap havocs = numbered := by
    induction numbered with
    | nil => simp [hassumed, hiterated]
    | cons _ _ ih => simpa [havocs] using ih
  rw [hcounts]
  apply Prod.ext
  · have hnumbered := hparts (before.counts.number names).1
    dsimp only
    generalize (before.counts.number names).1.map (fun havoc => Term.havoc havoc.1 havoc.2) ++
      [assumption, iteration] = parts at hnumbered ⊢
    cases parts with
    | nil => exact hnumbered.symm
    | cons =>
      rw [List.flatMap_cons] at hnumbered
      simp [havocs_foldl_extend, havocs_andThen, havocs, hnumbered]
  · rfl

theorem counts_of_fails_cutLoop {before after : CutState}
    (hfails : Fails (cutLoop names invariant condition body) before fault after) :
    after.counts = (before.counts.number names).2 := by
  rcases fails_bind.mp hfails with hhavocs | ⟨havocs, between, hhavocs, hlogged⟩
  · exact absurd hhavocs not_fails_havocs
  · obtain ⟨-, rfl⟩ := gives_havocs.mp hhavocs
    exact (fails_cutting_logged.mp hlogged).2

theorem numbers_cutOneLoop (invariant condition : Term) (hhavocs : body.havocs = []) :
    Numbers [body.targets] (cutOneLoop invariant condition body) := by
  have hflatten : [body.targets].flatten = body.targets := by simp
  cases hassigned : body.assigned with
  | error fault =>
    simp only [cutOneLoop, hassigned]
    exact numbers_throw _ fault
  | ok names =>
    have hnames : body.targets = ascending names := by simp only [targets, hassigned]
    simp only [cutOneLoop, hassigned]
    refine ⟨fun before cut after hgives => ?_, fun before fault after hfails =>
      ⟨[body.targets], List.prefix_rfl, ?_⟩⟩
    · rw [hflatten, hnames]
      exact number_of_gives_cutLoop hhavocs hgives
    · rw [hflatten, hnames]
      exact counts_of_fails_cutLoop hfails

theorem numbers_cutCopy (hhavocs : program.havocs = []) :
    Numbers program.loopTargets program.cutCopy := by
  induction program with
  | seq _ _ ihfirst ihsecond =>
    simp only [havocs, List.append_eq_nil_iff] at hhavocs
    exact (ihfirst hhavocs.1).seq (ihsecond hhavocs.2)
  | loop invariant condition body =>
    rw [cutCopy]
    apply numbers_logged_bind
    intro _ invariant _ _
    apply numbers_logged_bind
    intro _ condition _ _
    apply numbers_logged_bind
    intro _ copy _ hcopy
    have htargets : copy.targets = body.targets := by
      simp only [targets, assigned_of_copy hcopy]
    rw [loopTargets, ← htargets]
    exact numbers_cutOneLoop invariant condition (havocs_of_copy hcopy hhavocs)
  | ifElse => exact numbers_throw _ _
  | skip | assign | assume | assert | havoc =>
    apply numbers_logged_bind
    intro _ copy _ hcopy
    exact numbers_pure (havocs_of_copy hcopy hhavocs)
  | _ => exact numbers_throw _ _

/-- A cut numbers havocs of the targets of the loops at the top level. -/
theorem numbers_cutLoops (hhavocs : program.havocs = []) :
    Numbers program.loopTargets program.cutLoops := by
  cases program with
  | seq _ second =>
    simp only [havocs, List.append_eq_nil_iff] at hhavocs
    have hsecond : Numbers second.loopTargets (do
        let _ ← Cutting.logged second.copy
        second.cutCopy) :=
      numbers_logged_bind fun _ _ _ _ => numbers_cutCopy hhavocs.2
    have hboth := (numbers_cutCopy hhavocs.1).seq hsecond
    simp only [bind_assoc] at hboth
    exact numbers_logged_bind fun _ _ _ _ => hboth
  | loop invariant condition => exact numbers_cutOneLoop invariant condition hhavocs
  | skip | assign | assume | assert | havoc => exact numbers_pure hhavocs
  | _ => exact numbers_throw _ _

end Term

/-! ## Rows of cuts -/

/-- A program whose loops are cut, and the log to start with. -/
structure CutCall where
  log : WriteLog
  program : Term

namespace CutCall

/-- The table that a call leaves behind, whether it succeeds or not. -/
def countsAfter (call : CutCall) (counts : HavocCounts) : HavocCounts :=
  (outcomeOn call.program.cutLoops ⟨call.log, counts⟩).2.counts

/-- The table after calls that share it. -/
def countsAfterAll (calls : List CutCall) (counts : HavocCounts) : HavocCounts :=
  calls.foldl (fun counts call => call.countsAfter counts) counts

/-- The havocs that a call issues are numbers of targets of the loops that it came
to, and those of the program that it returns. -/
structure Issues (call : CutCall) (counts : HavocCounts) (issued : List (String × Int)) :
    Prop where
  number : counts.number (issued.map Prod.fst) = (issued, call.countsAfter counts)
  reached : ∃ loops, loops <+: call.program.loopTargets ∧ issued.map Prod.fst = loops.flatten
  produced : ∀ cut after, Gives call.program.cutLoops ⟨call.log, counts⟩ cut after →
    issued.map Prod.fst = call.program.loopTargets.flatten ∧ cut.program.havocs = issued

theorem exists_issues (hhavocs : call.program.havocs = []) (counts : HavocCounts) :
    ∃ issued, call.Issues counts issued := by
  have hnumbers := Term.numbers_cutLoops hhavocs
  rcases gives_or_fails call.program.cutLoops ⟨call.log, counts⟩ with
    ⟨cut, after, hgives⟩ | ⟨fault, after, hfails⟩
  · have hnumber := hnumbers.gives _ _ _ hgives
    have hafter : call.countsAfter counts = after.counts := by
      rw [countsAfter, show outcomeOn _ _ = _ from hgives]
    have hnames : cut.program.havocs.map Prod.fst = call.program.loopTargets.flatten := by
      rw [← HavocCounts.map_fst_number counts call.program.loopTargets.flatten, hnumber]
    refine ⟨cut.program.havocs, ?_, ⟨_, List.prefix_rfl, hnames⟩, ?_⟩
    · rw [hnames, hafter]
      exact hnumber
    · intro other _ hother
      obtain ⟨rfl, -⟩ := hgives.unique hother
      exact ⟨hnames, rfl⟩
  · obtain ⟨loops, hloops, hcounts⟩ := hnumbers.fails _ _ _ hfails
    have hafter : call.countsAfter counts = after.counts := by
      rw [countsAfter, show outcomeOn _ _ = _ from hfails]
    have hnames := HavocCounts.map_fst_number counts loops.flatten
    refine ⟨(counts.number loops.flatten).1, ?_, ⟨loops, hloops, hnames⟩, ?_⟩
    · rw [hnames, hafter, hcounts]
    · intro cut _ hgives
      exact absurd hfails hgives.not_fails

/-- The havocs that a row of calls issues, call by call. -/
inductive IssuesAll : List CutCall → HavocCounts → List (List (String × Int)) → Prop
  | nil {counts : HavocCounts} : IssuesAll [] counts []
  | cons {call : CutCall} {calls : List CutCall} {counts : HavocCounts}
      {issued : List (String × Int)} {rest : List (List (String × Int))} :
      call.Issues counts issued → IssuesAll calls (call.countsAfter counts) rest →
      IssuesAll (call :: calls) counts (issued :: rest)

theorem exists_issuesAll (hcalls : ∀ call ∈ calls, call.program.havocs = [])
    (counts : HavocCounts) :
    ∃ issued, IssuesAll calls counts issued := by
  induction calls generalizing counts with
  | nil => exact ⟨[], .nil⟩
  | cons call _ ih =>
    rw [List.forall_mem_cons] at hcalls
    obtain ⟨issued, hissued⟩ := exists_issues hcalls.1 counts
    obtain ⟨others, hothers⟩ := ih hcalls.2 (call.countsAfter counts)
    exact ⟨issued :: others, .cons hissued hothers⟩

namespace IssuesAll

variable {calls : List CutCall} {counts : HavocCounts} {issued : List (List (String × Int))}

theorem length_eq (hissues : IssuesAll calls counts issued) : issued.length = calls.length := by
  induction hissues with
  | nil => rfl
  | cons _ _ ih => simp [ih]

theorem take (hissues : IssuesAll calls counts issued) (count : Nat) :
    IssuesAll (calls.take count) counts (issued.take count) := by
  induction hissues generalizing count with
  | nil => simpa using IssuesAll.nil
  | cons hcall _ ih =>
    cases count with
    | zero => exact .nil
    | succ count => exact .cons hcall (ih count)

/-- The calls number one name after the other, as if they were one. -/
theorem number_flatten (hissues : IssuesAll calls counts issued) :
    counts.number (issued.flatten.map Prod.fst) =
      (issued.flatten, countsAfterAll calls counts) := by
  induction hissues with
  | nil => rfl
  | cons hcall _ ih =>
    rw [List.flatten_cons, List.map_append, HavocCounts.number_append, hcall.number, ih]
    rfl

theorem produced (hissues : IssuesAll calls counts issued) {index : Nat} {call : CutCall}
    {cut : CutProgram} {after : CutState} (hcall : calls[index]? = some call)
    (hgives : Gives call.program.cutLoops
      ⟨call.log, countsAfterAll (calls.take index) counts⟩ cut after) :
    issued[index]? = some cut.program.havocs := by
  induction hissues generalizing index with
  | nil => simp at hcall
  | cons hfirst _ ih =>
    cases index with
    | zero =>
      obtain rfl := Option.some.inj hcall
      exact congrArg some (hfirst.produced cut after hgives).2.symm
    | succ => exact ih hcall hgives

theorem mem_loopTargets (hissues : IssuesAll calls counts issued) {havoc : String × Int}
    (hhavoc : havoc ∈ issued.flatten) :
    ∃ call ∈ calls, ∃ loop ∈ call.program.loopTargets, havoc.1 ∈ loop := by
  induction hissues with
  | nil => simp at hhavoc
  | cons hcall _ ih =>
    rcases List.mem_append.mp hhavoc with hhavoc | hhavoc
    · obtain ⟨_, hloops, hnames⟩ := hcall.reached
      have hname := List.mem_map_of_mem (f := Prod.fst) hhavoc
      rw [hnames, List.mem_flatten] at hname
      obtain ⟨loop, hloop, hname⟩ := hname
      exact ⟨_, List.mem_cons_self, loop, hloops.subset hloop, hname⟩
    · obtain ⟨call, hcall, hloop⟩ := ih hhavoc
      exact ⟨call, List.mem_cons_of_mem _ hcall, hloop⟩

end IssuesAll

/-- The havocs of a row of calls that share a table, which is empty at first.
`issued` lists them call by call. -/
structure NumberedInOrder (calls : List CutCall) (issued : List (List (String × Int))) :
    Prop where
  length_eq : issued.length = calls.length
  /-- A call that succeeds returns a program with the havocs that it issued. -/
  produced : ∀ (index : Nat) (call : CutCall) (cut : CutProgram) (after : CutState),
    calls[index]? = some call →
    Gives call.program.cutLoops ⟨call.log, countsAfterAll (calls.take index) []⟩ cut after →
    issued[index]? = some cut.program.havocs
  /-- No havoc is issued twice. -/
  nodup : issued.flatten.Nodup
  /-- The numbers of a variable count from zero. -/
  numbers : ∀ name, ∃ count : Nat,
    numbersOf name issued.flatten = (List.range count).map Int.ofNat
  /-- After every call, the table has the last number of every variable. -/
  table : ∀ count name, (countsAfterAll (calls.take count) []).find? name =
    (numbersOf name (issued.take count).flatten).getLast?
  /-- The variables in the table are targets of loops. -/
  targets : ∀ count name, ((countsAfterAll (calls.take count) []).find? name).isSome →
    ∃ call ∈ calls.take count, ∃ loop ∈ call.program.loopTargets, name ∈ loop

theorem next_nil (name : String) : HavocCounts.next [] name = 0 := rfl

section

variable (hissues : IssuesAll calls [] issued)

include hissues

theorem IssuesAll.numbersOf_eq (name : String) :
    numbersOf name issued.flatten =
      (List.range ((issued.flatten.map Prod.fst).count name)).map Int.ofNat := by
  have hnumbers := numbersOf_number [] (issued.flatten.map Prod.fst) name
  rw [hissues.number_flatten] at hnumbers
  simp only [next_nil, Int.zero_add] at hnumbers
  exact hnumbers

theorem IssuesAll.find?_eq (name : String) :
    (countsAfterAll calls []).find? name = (numbersOf name issued.flatten).getLast? := by
  have hfind := HavocCounts.find?_number [] (issued.flatten.map Prod.fst) name
  rw [hissues.number_flatten] at hfind
  rw [hissues.numbersOf_eq, hfind]
  by_cases hname : name ∈ issued.flatten.map Prod.fst
  · have hpos := List.count_pos_iff.mpr hname
    obtain ⟨_, hcount⟩ := Nat.exists_eq_succ_of_ne_zero (Nat.ne_of_gt hpos)
    rw [if_pos hname, hcount, List.range_succ, List.map_append, List.map_singleton,
      List.getLast?_concat, next_nil]
    simp
  · rw [if_neg hname, List.count_eq_zero_of_not_mem hname]
    rfl

theorem IssuesAll.numberedInOrder :
    NumberedInOrder calls issued where
  length_eq := hissues.length_eq
  produced _ _ _ _ := hissues.produced
  nodup := by
    apply nodup_of_numbersOf
    intro name
    rw [hissues.numbersOf_eq]
    exact List.nodup_range.map fun _ _ => Int.ofNat.inj
  numbers name := ⟨_, hissues.numbersOf_eq name⟩
  table count := (hissues.take count).find?_eq
  targets count name hname := by
    rw [(hissues.take count).find?_eq] at hname
    obtain ⟨_, hnumber⟩ := Option.isSome_iff_exists.mp hname
    obtain ⟨havoc, hhavoc, -⟩ := List.mem_map.mp (List.mem_of_getLast? hnumber)
    rw [List.mem_filter] at hhavoc
    obtain rfl : havoc.1 = name := by simpa using hhavoc.2
    exact (hissues.take count).mem_loopTargets hhavoc.1

end

end CutCall

/-! ## Sessions of a verifier -/

/-- A computation of a run that leaves the numbers of havocs alone, whether it
succeeds or not. -/
def KeepsCounts {α : Type} (computation : Run α) : Prop :=
  ∀ before, (outcomeOn computation before).2.verifier.counts = before.verifier.counts

section KeepsCounts

variable {α β : Type}

@[grind ←]
theorem keepsCounts_pure (value : α) : KeepsCounts (pure value) :=
  fun _ => rfl

@[grind ←]
theorem keepsCounts_throw (fault : Fault) : KeepsCounts (throw fault : Run α) :=
  fun _ => rfl

@[grind ←]
theorem keepsCounts_get : KeepsCounts (get : Run RunState) :=
  fun _ => rfl

/-- A computation that keeps the numbers leaves those of the one before it. -/
theorem counts_bind {first : Run α} {next : α → Run β} (hnext : ∀ value, KeepsCounts (next value))
    (before : RunState) :
    (outcomeOn (first >>= next) before).2.verifier.counts =
      (outcomeOn first before).2.verifier.counts := by
  have hrun : outcomeOn (first >>= next) before =
      ExceptT.bindCont next (outcomeOn first before).1 (outcomeOn first before).2 := rfl
  rw [hrun]
  cases (outcomeOn first before).1 with
  | error => rfl
  | ok value => exact hnext value _

@[grind ←]
theorem keepsCounts_bind {first : Run α} {next : α → Run β} (hfirst : KeepsCounts first)
    (hnext : ∀ value, KeepsCounts (next value)) : KeepsCounts (first >>= next) :=
  fun before => (counts_bind hnext before).trans (hfirst before)

@[grind ←]
theorem keepsCounts_ofExcept (outcome : Except Fault α) : KeepsCounts (Run.ofExcept outcome) := by
  cases outcome with
  | ok value => exact keepsCounts_pure value
  | error fault => exact keepsCounts_throw fault

@[grind ←]
theorem keepsCounts_logged (computation : Logged α) : KeepsCounts (Run.logged computation) :=
  fun _ => keepsCounts_ofExcept _ _

@[grind ←]
theorem keepsCounts_env (scope : String) : KeepsCounts (Run.env scope) := by
  apply keepsCounts_bind keepsCounts_get
  intro state
  cases state.verifier.scopes.find? scope with
  | none => exact keepsCounts_throw _
  | some env => exact keepsCounts_pure env

/-- The entry of a scope is changed, and nothing else. -/
@[grind ←]
theorem keepsCounts_typing (scope : String) (computation : Typing α) :
    KeepsCounts (Run.typing scope computation) := by
  apply keepsCounts_bind (keepsCounts_env scope)
  intro env
  exact fun _ => keepsCounts_ofExcept _ _

/-- The table after a cut within a run is the one that the cut leaves. -/
theorem counts_cutting (computation : Cutting α) (before : RunState) :
    (outcomeOn (Run.cutting computation) before).2.verifier.counts =
      (outcomeOn computation ⟨before.log, before.verifier.counts⟩).2.counts :=
  keepsCounts_ofExcept _ _

end KeepsCounts

namespace Task

theorem keepsCounts_prepared (task : Task) : KeepsCounts task.prepared := by
  have hstatement : KeepsCounts task.statement := by
    rw [statement]
    grind
  rw [prepared]
  grind

theorem keepsCounts_conditionsOf (scope : String) (pre statement post : Term)
    (aboutInvariant : Bool) :
    KeepsCounts (conditionsOf scope pre statement post aboutInvariant) := by
  have hordered : KeepsCounts (orderedObligations scope statement post) := by
    apply keepsCounts_bind (keepsCounts_env scope)
    intro env
    apply keepsCounts_bind (keepsCounts_logged _)
    intro obligations
    cases obligations with
    | none => exact keepsCounts_throw _
    | some => exact keepsCounts_bind keepsCounts_get fun _ => keepsCounts_pure _
  exact keepsCounts_bind hordered fun _ => keepsCounts_pure _

theorem counts_invariantConditions (scope : String) (pre statement : Term) (before : RunState) :
    (outcomeOn (invariantConditions scope pre statement) before).2.verifier.counts =
      CutCall.countsAfter ⟨before.log, statement⟩ before.verifier.counts := by
  rw [invariantConditions, counts_bind]
  · exact counts_cutting _ before
  · intro cut
    apply keepsCounts_bind keepsCounts_get
    intro state
    cases hsorted : sortByText state.log cut.invariants with
    | nil =>
      simp only [hsorted]
      exact keepsCounts_throw _
    | cons =>
      simp only [hsorted]
      exact keepsCounts_conditionsOf _ _ _ _ _

/-- The cut that a task makes: none if the invariants are not to be checked, or if
the task cannot be read and typed. -/
def cutCall? (task : Task) (verifier : Verifier) : Option CutCall :=
  if task.checksInvariants then
    match outcomeOn task.prepared { log := .empty, verifier } with
    | (.ok parts, state) => some ⟨state.log, parts.1⟩
    | (.error _, _) => none
  else
    none

/-- The program of a task has no havocs. -/
theorem havocs_of_cutCall? {task : Task} (hcall : task.cutCall? verifier = some call) :
    call.program.havocs = [] := by
  rw [cutCall?] at hcall
  split_ifs at hcall
  rcases hprepared : outcomeOn task.prepared { log := .empty, verifier } with
    ⟨fault | parts, state⟩
  · simp [hprepared] at hcall
  · simp only [hprepared, Option.some.injEq] at hcall
    subst hcall
    exact Term.havocs_of_inFrame (fits_of_gives_prepared hprepared).statement

/-- A run keeps what the computation of its conditions leaves. -/
theorem verifier_verify (task : Task) (verifier : Verifier) (verdicts : List Verdict) :
    (verifier.verify task verdicts).verifier =
      (outcomeOn task.conditions { log := .empty, verifier }).2.verifier := by
  rw [Verifier.verify]
  rcases hrun : task.conditions.run { log := .empty, verifier } with ⟨_ | conditions, state⟩
  · rw [show outcomeOn _ _ = _ from hrun]
  · rcases hscope : state.verifier.scopes.find? task.scope with _ | _ | env <;>
      simp only [hscope] <;> rw [show outcomeOn _ _ = _ from hrun]

/-- A task changes the table by its cut alone. -/
theorem counts_verify (task : Task) (verifier : Verifier) (verdicts : List Verdict) :
    (verifier.verify task verdicts).verifier.counts =
      CutCall.countsAfterAll (task.cutCall? verifier).toList verifier.counts := by
  rw [verifier_verify, conditions_eq]
  have hkept := task.keepsCounts_prepared { log := .empty, verifier }
  rcases gives_or_fails task.prepared { log := .empty, verifier } with
    ⟨parts, state, hprepared⟩ | ⟨fault, state, hprepared⟩
  · rw [hprepared.outcomeOn_bind, counts_bind]
    · rw [show outcomeOn task.prepared _ = _ from hprepared] at hkept
      cases hchecks : task.checksInvariants with
      | false =>
        simp only [cutCall?, hchecks]
        exact hkept
      | true =>
        simp only [cutCall?, hchecks, if_true, show outcomeOn task.prepared _ = _ from hprepared]
        rw [counts_invariantConditions, hkept]
        rfl
    · intro ofInvariants
      exact keepsCounts_bind (keepsCounts_conditionsOf _ _ _ _ _) fun _ => keepsCounts_pure _
  · rw [hprepared.outcomeOn_bind]
    rw [show outcomeOn task.prepared _ = _ from hprepared] at hkept
    simp only [cutCall?, show outcomeOn task.prepared _ = _ from hprepared, ite_self]
    exact hkept

end Task

/-- What can be done with a verifier. -/
inductive SessionStep
  | register (scope : String) (env : Option TypeEnv)
  | verify (task : Task) (verdicts : List Verdict)

namespace Verifier

def perform (verifier : Verifier) : SessionStep → Verifier
  | .register scope env => verifier.register scope env
  | .verify task verdicts => (verifier.verify task verdicts).verifier

/-- The cuts that a step makes. -/
def cutsOf (verifier : Verifier) : SessionStep → List CutCall
  | .register _ _ => []
  | .verify task _ => (task.cutCall? verifier).toList

/-- The cuts of a session, in order. -/
def sessionCuts (verifier : Verifier) : List SessionStep → List CutCall
  | [] => []
  | step :: rest => verifier.cutsOf step ++ (verifier.perform step).sessionCuts rest

theorem counts_perform (verifier : Verifier) (step : SessionStep) :
    (verifier.perform step).counts =
      CutCall.countsAfterAll (verifier.cutsOf step) verifier.counts := by
  cases step with
  | register => rfl
  | verify task verdicts => exact task.counts_verify verifier verdicts

theorem counts_session (verifier : Verifier) (steps : List SessionStep) :
    (steps.foldl perform verifier).counts =
      CutCall.countsAfterAll (verifier.sessionCuts steps) verifier.counts := by
  induction steps generalizing verifier with
  | nil => rfl
  | cons _ _ ih =>
    rw [List.foldl_cons, ih, counts_perform, sessionCuts, CutCall.countsAfterAll,
      CutCall.countsAfterAll, CutCall.countsAfterAll, List.foldl_append]

theorem havocs_of_mem_sessionCuts {steps : List SessionStep} :
    ∀ call ∈ verifier.sessionCuts steps, call.program.havocs = [] := by
  induction steps generalizing verifier with
  | nil => exact List.forall_mem_nil _
  | cons step _ ih =>
    refine List.forall_mem_append.mpr ⟨fun call hcall => ?_, ih⟩
    cases step with
    | register => cases hcall
    | verify => exact Task.havocs_of_cutCall? (Option.mem_toList.mp hcall)

end Verifier

/-- Havocs are never numbered twice.  Over every row of cuts of programs without
havocs that share a table, empty at first, the numbers of a variable are those from
zero on, in order, and the table has the last number of every variable, which is a
target of a loop.  The cuts of a session of a verifier are such a row, and the table
of the verifier is theirs. -/
theorem havocs_numbered_once :
    (∀ calls : List CutCall, (∀ call ∈ calls, call.program.havocs = []) →
      ∃ issued, CutCall.NumberedInOrder calls issued) ∧
    ∀ steps : List SessionStep,
      let calls := Verifier.new.sessionCuts steps
      (∀ call ∈ calls, call.program.havocs = []) ∧
        (steps.foldl Verifier.perform .new).counts = CutCall.countsAfterAll calls [] := by
  refine ⟨fun calls hcalls => ?_, fun steps => ?_⟩
  · obtain ⟨issued, hissues⟩ := CutCall.exists_issuesAll hcalls []
    exact ⟨issued, hissues.numberedInOrder⟩
  · exact ⟨Verifier.havocs_of_mem_sessionCuts, Verifier.counts_session _ steps⟩

/-- A countdown is cut three times, the second time in front of a conditional, where
the cut fails. -/
theorem havocs_numbered_once_countdown :
    let interrupted := Term.seq countdown (.ifElse (.bool true) .skip .skip)
    let calls : List CutCall := [⟨.empty, countdown⟩, ⟨.empty, interrupted⟩, ⟨.empty, countdown⟩]
    let steps : List SessionStep :=
      [.register "countdown" (some [("x", .known .int)]),
        .verify { countdownTask with checksInvariants := true } [.sat], .verify countdownTask [],
        .verify { countdownTask with checksInvariants := true } []]
    CutCall.countsAfterAll calls [] = [("x", 2)] ∧
      (∃ issued, CutCall.NumberedInOrder calls issued) ∧
      (steps.foldl Verifier.perform .new).counts = [("x", 1)] ∧
      ∃ issued, CutCall.NumberedInOrder (Verifier.new.sessionCuts steps) issued := by
  intro interrupted calls steps
  refine ⟨by decide, havocs_numbered_once.1 calls (by decide), by decide +kernel, ?_⟩
  exact havocs_numbered_once.1 _ (havocs_numbered_once.2 steps).1

end HoareCheck
