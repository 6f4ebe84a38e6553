import HoareCheck.Proofs.ElaborationFrames
import HoareCheck.Proofs.InvariantCheck
import HoareCheck.Proofs.VerdictIndependence

/-!
# Terms of tasks

The parts of a task have the sites that were placed for them, and plain names.
To cut the loops of its program copies them, so the cut program and its
obligations have new sites only, and all variables that these bind with a type are
variables of havocs.
-/

namespace HoareCheck

open Term

variable {term statement post : Term} {frame : Frame} {names : List String} {task : Task}
  {least : Nat}

open HoldsLog (logOf)
open Framed (IsInFrame)

instance : HoldsLog RunState := ⟨RunState.log⟩

instance : HoldsLog CutState := ⟨CutState.log⟩

instance : Unframed TypeEntry where

instance : Framed Obligations :=
  ⟨fun frame obligations => obligations.precondition.InFrame frame ∧
    ∀ claim ∈ obligations.sideConditions, claim.InFrame frame⟩

instance : Framed CutProgram :=
  ⟨fun frame cut => cut.program.InFrame frame ∧
    ∀ invariant ∈ cut.invariants, invariant.InFrame frame⟩

/-! ## Parts of a task -/

section Runs

variable {σ α : Type} [HoldsLog σ] {frame : Frame}

theorem steady_of_log_eq {computation : ExceptT Fault (StateM σ) α}
    (hlog : ∀ before value after, Gives computation before value after →
      logOf after = logOf before) : Steady computation := by
  intro before value after hgives
  rw [hlog _ _ _ hgives]

/-- A computation on something else than the log builds in every frame. -/
theorem builds_of_log_eq [Framed α] {computation : ExceptT Fault (StateM σ) α}
    (hvalue : ∀ value : α, IsInFrame frame value)
    (hlog : ∀ before value after, Gives computation before value after →
      logOf after = logOf before) : Builds frame computation := by
  intro before value after hgives hbefore _
  rw [hlog _ _ _ hgives]
  exact ⟨hvalue value, hbefore, fun _ _ => rfl⟩

@[grind ←]
theorem grows_logged {computation : Logged α} (hgrows : Grows computation) :
    Grows (Run.logged computation) := by
  intro before value after hgives
  obtain ⟨_, hlogged, rfl⟩ := Run.gives_logged.mp hgives
  exact hgrows _ _ _ hlogged

@[grind ←]
theorem builds_logged [Framed α] {computation : Logged α} (hbuilds : Builds frame computation) :
    Builds frame (Run.logged computation) := by
  intro before value after hgives
  obtain ⟨_, hlogged, rfl⟩ := Run.gives_logged.mp hgives
  exact hbuilds _ _ _ hlogged

theorem log_of_gives_typing {scope : String} {computation : Typing α} :
    ∀ before value after, Gives (Run.typing scope computation) before value after →
      logOf after = logOf before := by
  intro before value after hgives
  obtain ⟨_, _, -, -, rfl⟩ := Run.gives_typing.mp hgives
  rfl

@[grind ←]
theorem grows_typing (scope : String) (computation : Typing α) :
    Grows (Run.typing scope computation) :=
  (steady_of_log_eq log_of_gives_typing).grows

@[grind ←]
theorem builds_typing [Unframed α] (scope : String) (computation : Typing α) :
    Builds frame (Run.typing scope computation) :=
  builds_of_log_eq (fun _ => trivial) log_of_gives_typing

end Runs

section Prepared

variable {bound : Nat}

/-- The assigned names of a term in a frame are names of the frame. -/
theorem Term.name_of_variableNames (hterm : term.InFrame frame)
    (hnames : term.variableNames = .ok names) : ∀ name ∈ names, frame.name name := by
  induction term generalizing names with
  | var name =>
    obtain rfl : [name] = names := Except.ok.inj hnames
    intro other hother
    rw [List.mem_singleton.mp hother]
    exact hterm
  | literal | slice | quantified =>
    obtain rfl : [] = names := Except.ok.inj hnames
    exact List.forall_mem_nil _
  | unary _ _ ih => exact ih hterm hnames
  | binary _ _ _ ihleft ihright =>
    obtain ⟨_, _, hfirst, hsecond, rfl⟩ := append_eq_ok hnames
    exact List.forall_mem_append.mpr ⟨ihleft hterm.1 hfirst, ihright hterm.2 hsecond⟩
  | subscript _ _ _ iharray ihindex =>
    obtain ⟨_, _, hfirst, hsecond, rfl⟩ := append_eq_ok hnames
    exact List.forall_mem_append.mpr ⟨iharray hterm.2.1 hfirst, ihindex hterm.2.2 hsecond⟩
  | _ => cases hnames

theorem Term.name_of_assigned (hterm : term.InFrame frame) (hnames : term.assigned = .ok names) :
    ∀ name ∈ names, frame.name name := by
  induction term generalizing names with
  | skip | assume | assert | havoc =>
    obtain rfl : [] = names := Except.ok.inj hnames
    exact List.forall_mem_nil _
  | assign => exact name_of_variableNames hterm.2.1 hnames
  | ifElse _ _ _ _ ihthen ihelse =>
    obtain ⟨_, _, hfirst, hsecond, rfl⟩ := append_eq_ok hnames
    exact List.forall_mem_append.mpr ⟨ihthen hterm.2.2.1 hfirst, ihelse hterm.2.2.2 hsecond⟩
  | seq _ _ ihfirst ihsecond =>
    obtain ⟨_, _, hfirst, hsecond, rfl⟩ := append_eq_ok hnames
    exact List.forall_mem_append.mpr ⟨ihfirst hterm.2.1 hfirst, ihsecond hterm.2.2 hsecond⟩
  | loop _ _ _ _ _ ih => exact ih hterm.2.2.2 hnames
  | _ => cases hnames

theorem grows_ofExcept {α : Type} (outcome : Except Fault α) : Grows (Run.ofExcept outcome) := by
  cases outcome with
  | ok value => exact grows_pure value
  | error fault => exact grows_throw fault

/-- What is read without the log is there, or the task fails. -/
theorem builds_ofExcept_bind {α β : Type} [Framed β] {outcome : Except Fault α} {next : α → Run β}
    (hnext : ∀ value, outcome = .ok value → Builds frame (next value)) :
    Builds frame (Run.ofExcept outcome >>= next) := by
  cases outcome with
  | ok value => exact hnext value rfl
  | error fault => exact builds_throw_bind fault next

theorem grows_elaborated (mode : RunMode) (program : Source.Program) :
    Grows (Run.logged (Source.elaborate mode program)) :=
  grows_logged (Source.grows_program mode program)

theorem builds_elaborated {mode : RunMode} (hmode : mode.IsPlain) {program : Source.Program}
    (hnames : Source.namesOfBlock IsPlain program) :
    Builds (.below bound) (Run.logged (Source.elaborate mode program)) :=
  builds_logged (Source.builds_program hmode hnames)

@[grind ←]
theorem grows_statement (task : Task) : Grows task.statement := by
  apply grows_bind (grows_ofExcept _)
  intro program
  apply grows_bind (grows_elaborated _ program)
  intro single
  cases task.twoRuns with
  | false => exact grows_pure single
  | true =>
    apply grows_bind (grows_ofExcept _)
    intro names
    exact grows_bind (grows_elaborated _ program) fun _ => grows_pure _

/-- The statement of a task has plain names. -/
@[grind ←]
theorem builds_statement (task : Task) : Builds (.below bound) task.statement := by
  apply builds_ofExcept_bind
  intro program hparse
  have hnames := Source.isPlain_of_parse hparse
  have hsingle : RunMode.single.IsPlain := trivial
  have hcost : IsPlain costName := by
    change '@' ∉ "v_eps#".toList
    decide
  cases task.twoRuns with
  | false =>
    apply builds_bind (grows_elaborated _ program) (builds_elaborated hsingle hnames)
      fun _ => grows_pure _
    exact fun _ => builds_pure
  | true =>
    apply builds_bind (grows_elaborated _ program) (builds_elaborated hsingle hnames)
    · intro single
      apply grows_bind (grows_ofExcept _)
      intro names
      exact grows_bind (grows_elaborated _ program) fun _ => grows_pure _
    · intro single hframed
      apply builds_ofExcept_bind
      intro names hassigned
      have hmode : (RunMode.forked (ascending names)).IsPlain := by
        intro name hname
        exact name_of_assigned hframed hassigned name (mem_ascending.mp hname)
      apply builds_bind (grows_elaborated _ program) (builds_elaborated hmode hnames)
        fun _ => grows_pure _
      intro forked hforked
      exact builds_pure (inFrame_andThen trivial ⟨trivial, hcost, trivial⟩ hforked)

/-- What a task is about fits below the number of sites so far. -/
theorem builds_prepared (task : Task) : Builds (.below bound) task.prepared := by
  apply builds_bind (grows_statement task) (builds_statement task)
  · grind
  · intro statement hstatement
    apply builds_bind (grows_logged (grows_parse _)) (builds_logged (builds_parse_below _))
    · grind
    · grind

/-- A statement that is a block: empty, or a sequence. -/
def Term.IsBlock (term : Term) : Prop :=
  term = .skip ∨ ∃ first second, term = .seq first second

theorem isBlock_asBlock (block : Option Term) : (Source.asBlock block).IsBlock := by
  cases block with
  | none => exact .inl rfl
  | some term => cases term <;> exact .inr ⟨_, _, rfl⟩

/-- The statement of a task is that of its program for one run, or, for two, starts with no
cost and forks the names that the one for a single run assigns. -/
theorem Task.of_gives_statement {before after : RunState}
    (hgives : Gives task.statement before statement after) :
    ∃ program single log later, Source.parse task.code = .ok program ∧
      Gives (Source.elaborate .single program) before.log single log ∧
      after = { before with log := later } ∧
      (statement = single ∧ later = log ∨
        ∃ names forked, single.assigned = .ok names ∧
          Gives (Source.elaborate (.forked (ascending names)) program) log forked later ∧
          statement = (Term.assign (.var costName) (.int 0) false).andThen forked) := by
  simp only [Task.statement, gives_bind, Run.gives_ofExcept, Run.gives_logged] at hgives
  obtain ⟨program, _, ⟨hparse, rfl⟩, single, _, ⟨log, hsingle, rfl⟩, hrest⟩ := hgives
  cases htwo : task.twoRuns with
  | false =>
    simp only [htwo, Bool.false_eq_true, if_false, gives_pure] at hrest
    obtain ⟨rfl, rfl⟩ := hrest
    exact ⟨program, _, log, log, hparse, hsingle, rfl, .inl ⟨rfl, rfl⟩⟩
  | true =>
    simp only [htwo, if_true, gives_bind, Run.gives_ofExcept, Run.gives_logged, gives_pure] at hrest
    obtain ⟨names, _, ⟨hnames, rfl⟩, forked, _, ⟨later, hforked, rfl⟩, rfl, rfl⟩ := hrest
    exact ⟨program, single, log, later, hparse, hsingle, rfl,
      .inr ⟨names, forked, hnames, hforked, rfl⟩⟩

theorem isBlock_of_gives_statement {before after : RunState}
    (hgives : Gives task.statement before statement after) : statement.IsBlock := by
  obtain ⟨_, _, _, _, -, hsingle, -, ⟨rfl, -⟩ | ⟨_, _, -, -, rfl⟩⟩ := Task.of_gives_statement hgives
  · simp only [Source.elaborate, gives_bind, gives_pure] at hsingle
    obtain ⟨block, _, -, rfl, -⟩ := hsingle
    exact isBlock_asBlock block
  · exact .inr ⟨_, _, rfl⟩

/-- The parts of a task, when all of it has been read. -/
structure Task.Fits (statement pre post : Term) (log : WriteLog) : Prop where
  isBlock : statement.IsBlock
  statement : statement.InFrame (.below log.sites.size)
  pre : pre.InFrame (.below log.sites.size)
  post : post.InFrame (.below log.sites.size)
  log : log.InFrame (.below log.sites.size)

theorem Task.fits_of_gives_prepared {verifier : Verifier} {pre : Term} {after : RunState}
    (hgives : Gives task.prepared { log := .empty, verifier } (statement, pre, post) after) :
    Task.Fits statement pre post after.log := by
  obtain ⟨hparts, hlog, -⟩ := builds_prepared task _ _ _ hgives (WriteLog.inFrame_empty _)
    fun site _ hsite => hsite
  refine ⟨?_, hparts.1, hparts.2.1, hparts.2.2, hlog⟩
  simp only [prepared, gives_bind, gives_pure, Prod.mk.injEq] at hgives
  obtain ⟨_, _, hstatement, _, _, -, _, _, -, _, _, -, _, _, -, _, _, -, ⟨rfl, -⟩, -⟩ := hgives
  exact isBlock_of_gives_statement hstatement

end Prepared

/-! ## Obligations -/

section Obligations

variable {frame : Frame} {env : Option TypeEnv}

@[grind =]
theorem isInFrame_obligations (obligations : Obligations) :
    IsInFrame frame obligations = (obligations.precondition.InFrame frame ∧
      ∀ claim ∈ obligations.sideConditions, claim.InFrame frame) := rfl

@[grind ←]
theorem steady_havocType (name : String) : Steady (havocType env name) := by
  cases env with
  | none => exact steady_throw _
  | some => exact steady_ofOption _ _

@[grind ←]
theorem builds_havocType (name : String) : Builds frame (havocType env name) := by
  cases env with
  | none => exact builds_throw _
  | some => exact builds_ofOption _ fun _ _ => trivial

@[grind ←]
theorem inFrame_invariantOrTrue {invariant : Term} (hinvariant : invariant.InFrame frame) :
    invariant.invariantOrTrue.InFrame frame := by
  cases invariant with
  | missing => trivial
  | _ => exact hinvariant

theorem steady_obligations (statement post : Term) : Steady (statement.obligations env post) :=
  Substituting.steady.obligations (fun _ => trivial) env statement post

/-- The variables of havocs may be bound, with any type. -/
def Frame.BindsHavocs (frame : Frame) : Prop :=
  frame.havocs → ¬ frame.reachesWritten ∧
    ∀ name count, frame.name (havocName name count) ∧
      ∀ type, frame.binder (havocName name count) type

theorem builds_obligations (hhavocs : frame.BindsHavocs) (hstatement : statement.InFrame frame)
    (hpost : post.InFrame frame) : Builds frame (statement.obligations env post) := by
  have hgrows (statement post : Term) : Grows (statement.obligations env post) :=
    (steady_obligations statement post).grows
  induction statement generalizing post with
  | havoc name count =>
    obtain ⟨hunreached, hbinds⟩ := hhavocs hstatement.2
    obtain ⟨hname, hbinder⟩ := hbinds name count
    have hbound : (Term.var (havocName name count)).InFrame frame := hname
    apply builds_bind (grows_substitute _ _ _) (builds_substitute hpost hbound _)
    · exact fun _ => grows_bind (steady_havocType name).grows fun _ => grows_pure _
    intro body hbody
    apply builds_bind (steady_havocType name).grows (builds_havocType name) fun _ => grows_pure _
    intro entry _
    apply builds_pure
    exact ⟨⟨⟨_, rfl, hname, hbinder _⟩, fun hreaches => absurd hreaches hunreached, hbody⟩, nofun⟩
  | loop _ _ _ _ _ ihbody =>
    have hinvariant := inFrame_invariantOrTrue hstatement.2.1
    apply builds_bind (hgrows _ _) (ihbody hstatement.2.2.2 hinvariant) fun _ => grows_pure _
    grind
  | _ => grind [Term.obligations]

end Obligations

/-! ## Cut loops -/

/-- What may stand in the terms of a cut program, whose sites have a lower bound. -/
def Frame.above (bound : Nat) : Frame where
  site site := bound ≤ site
  name _ := True
  binder name type := type = none ∨ ¬ IsPlain name
  reachesWritten := False
  statements := True
  havocs := True

section Above

variable {bound : Nat}

theorem Frame.below_allows_above : (Frame.below bound).Allows (.above least) :=
  ⟨fun _ _ => trivial, fun _ _ hbinder => .inl hbinder.1, False.elim, id, False.elim⟩

theorem Frame.above_allows_above : (Frame.above bound).Allows (.above least) :=
  ⟨fun _ => id, fun _ _ => id, id, id, id⟩

theorem Frame.above_bindsHavocs : (Frame.above bound).BindsHavocs :=
  fun _ => ⟨id, fun name count => ⟨trivial, fun _ => .inr (not_isPlain_havocName name count)⟩⟩

@[grind ←]
theorem statements_above : (Frame.above bound).statements := trivial

@[grind ←]
theorem builds_copy_above (hterm : term.InFrame (.below bound)) : Builds (.above bound) term.copy :=
  builds_copy_of Frame.below_allows_above False.elim hterm

end Above

section Cutting

variable {α : Type} {frame : Frame}

@[grind =]
theorem isInFrame_cutProgram (cut : CutProgram) :
    IsInFrame frame cut = (cut.program.InFrame frame ∧
      ∀ invariant ∈ cut.invariants, invariant.InFrame frame) := rfl

@[grind ←]
theorem grows_cutting_logged {computation : Logged α} (hgrows : Grows computation) :
    Grows (Cutting.logged computation) :=
  fun _ _ _ hgives => hgrows _ _ _ hgives.of_logged

@[grind ←]
theorem builds_cutting_logged [Framed α] {computation : Logged α}
    (hbuilds : Builds frame computation) : Builds frame (Cutting.logged computation) :=
  fun _ _ _ hgives => hbuilds _ _ _ hgives.of_logged

theorem log_of_gives_count {name : String} {before after : CutState} {number : Int}
    (hgives : Gives (Cutting.count name) before number after) : after.log = before.log := by
  simp only [Cutting.count, gives_bind, gives_get, gives_set, gives_pure] at hgives
  obtain ⟨_, _, ⟨rfl, rfl⟩, _, _, rfl, -, rfl⟩ := hgives
  rfl

theorem log_of_gives_havocs (targets : List String) :
    ∀ before havocs after, Gives (Cutting.havocs targets) before havocs after →
      logOf after = logOf before := by
  induction targets with
  | nil =>
    intro before havocs after hgives
    simp only [Cutting.havocs, List.mapM_nil, gives_pure] at hgives
    rw [hgives.2]
  | cons _ _ ih =>
    intro before havocs after hgives
    simp only [Cutting.havocs, List.mapM_cons, gives_bind, gives_pure] at hgives
    obtain ⟨_, _, ⟨_, _, hcount, -, rfl⟩, _, _, hrest, -, rfl⟩ := hgives
    exact (ih _ _ _ hrest).trans (log_of_gives_count hcount)

@[grind ←]
theorem grows_havocs (targets : List String) : Grows (Cutting.havocs targets) :=
  (steady_of_log_eq (log_of_gives_havocs targets)).grows

@[grind ←]
theorem builds_havocs (targets : List String) : Builds frame (Cutting.havocs targets) :=
  builds_of_log_eq (fun _ _ _ => ⟨trivial, trivial⟩) (log_of_gives_havocs targets)

theorem inFrame_extend {next : Term} (hstatements : frame.statements) (hterm : term.InFrame frame)
    (hnext : next.InFrame frame) : (term.extend next).InFrame frame := by
  cases term with
  | seq =>
    exact ⟨hstatements, hterm.2.1, inFrame_andThen hstatements hterm.2.2 hnext⟩
  | _ => exact inFrame_andThen hstatements hterm hnext

theorem inFrame_foldl_extend {parts : List Term} (hstatements : frame.statements)
    (hterm : term.InFrame frame) (hparts : ∀ part ∈ parts, part.InFrame frame) :
    (parts.foldl extend term).InFrame frame := by
  induction parts generalizing term with
  | nil => exact hterm
  | cons _ _ ih =>
    rw [List.forall_mem_cons] at hparts
    exact ih (inFrame_extend hstatements hterm hparts.1) hparts.2

end Cutting

section Cuts

variable {bound : Nat} {term invariant condition body : Term}

@[grind ←]
theorem grows_afterHavocs (havocs : List (String × Int)) (term : Term) :
    Grows (term.afterHavocs havocs) :=
  grows_renameAll _ term

@[grind ←]
theorem builds_afterHavocs (havocs : List (String × Int)) (hterm : term.InFrame (.above bound)) :
    Builds (.above bound) (term.afterHavocs havocs) :=
  builds_renameAll (fun _ _ => trivial) hterm

theorem grows_cutLoop (targets : List String) (invariant condition body : Term) :
    Grows (cutLoop targets invariant condition body) := by
  apply grows_bind (grows_havocs targets)
  intro havocs
  apply grows_cutting_logged
  apply grows_bind (grows_copy invariant)
  intro assumed
  apply grows_bind (grows_copy invariant)
  intro kept
  grind

/-- What follows the assertion in a cut loop. -/
theorem inFrame_cutParts (havocs : List (String × Int)) {assumption iteration : Term}
    (hassumption : assumption.InFrame (.above bound))
    (hiteration : iteration.InFrame (.above bound)) :
    ∀ part ∈ havocs.map (fun havoc => Term.havoc havoc.1 havoc.2) ++ [assumption, iteration],
      part.InFrame (.above bound) := by
  intro part hpart
  rcases List.mem_append.mp hpart with hpart | hpart
  · obtain ⟨_, -, rfl⟩ := List.mem_map.mp hpart
    exact ⟨trivial, trivial⟩
  · grind

theorem builds_cutLoop (targets : List String) (hinvariant : invariant.InFrame (.above bound))
    (hcondition : condition.InFrame (.above bound)) (hbody : body.InFrame (.above bound)) :
    Builds (.above bound) (cutLoop targets invariant condition body) := by
  have hcopy : Builds (.above bound) invariant.copy := builds_copy hinvariant
  have hgrows := grows_copy invariant
  apply builds_bind (grows_havocs targets) (builds_havocs targets)
  · intro havocs
    apply grows_cutting_logged
    apply grows_bind hgrows
    intro assumed
    apply grows_bind hgrows
    intro kept
    grind
  intro havocs _
  apply builds_cutting_logged
  apply builds_bind hgrows hcopy
  · intro assumed
    apply grows_bind hgrows
    intro kept
    grind
  intro assumed hassumed
  apply builds_bind hgrows hcopy
  · grind
  intro kept hkept
  have hassume : (Term.assume assumed).InFrame (.above bound) := ⟨trivial, hassumed⟩
  apply builds_bind (grows_afterHavocs _ _) (builds_afterHavocs _ hassume)
  · grind
  intro assumption hassumption
  have hrepeated : (Term.branch condition (andThen (andThen body (.assert kept))
      (.assume (.bool false))) .skip).InFrame (.above bound) := by
    have hend : (Term.assume (.bool false)).InFrame (.above bound) := ⟨trivial, trivial⟩
    have hkeep : (Term.assert kept).InFrame (.above bound) := ⟨trivial, hkept⟩
    have hround := inFrame_andThen trivial (inFrame_andThen trivial hbody hkeep) hend
    exact inFrame_branch trivial hcondition hround trivial
  apply builds_bind (grows_afterHavocs _ _) (builds_afterHavocs _ hrepeated)
  · grind
  intro iteration hiteration
  apply builds_bind hgrows hcopy
  · grind
  intro entered hentered
  apply builds_bind hgrows hcopy
  · grind
  intro copied hcopied
  apply builds_bind (grows_afterHavocs _ _) (builds_afterHavocs _ hcopied) fun _ => grows_pure _
  intro havoced hhavoced
  apply builds_pure
  refine ⟨?_, List.forall_mem_singleton.mpr hhavoced⟩
  have hparts := inFrame_cutParts havocs hassumption hiteration
  have hassert : (Term.assert entered).InFrame (.above bound) := ⟨trivial, hentered⟩
  cases hlist : havocs.map (fun havoc => Term.havoc havoc.1 havoc.2) ++ [assumption, iteration] with
  | nil => exact hassert
  | cons =>
    rw [hlist, List.forall_mem_cons] at hparts
    exact inFrame_foldl_extend trivial (inFrame_andThen trivial hassert hparts.1) hparts.2

@[grind ←]
theorem grows_cutOneLoop (invariant condition body : Term) :
    Grows (cutOneLoop invariant condition body) := by
  rw [cutOneLoop]
  cases body.assigned with
  | ok => exact grows_cutLoop _ _ _ _
  | error fault => exact grows_throw fault

@[grind ←]
theorem builds_cutOneLoop (hinvariant : invariant.InFrame (.above bound))
    (hcondition : condition.InFrame (.above bound)) (hbody : body.InFrame (.above bound)) :
    Builds (.above bound) (cutOneLoop invariant condition body) := by
  rw [cutOneLoop]
  cases body.assigned with
  | ok => exact builds_cutLoop _ hinvariant hcondition hbody
  | error fault => exact builds_throw fault

@[grind ←]
theorem grows_cutCopy (term : Term) : Grows term.cutCopy := by
  induction term <;> grind [cutCopy]

@[grind ←]
theorem builds_cutCopy (hterm : term.InFrame (.below bound)) :
    Builds (.above bound) term.cutCopy := by
  induction term <;> grind [cutCopy]

theorem grows_cutLoops (term : Term) : Grows term.cutLoops := by
  cases term <;> grind [cutLoops]

/-- To cut the loops of a block takes new sites only. -/
theorem builds_cutLoops (hblock : term.IsBlock) (hterm : term.InFrame (.below bound)) :
    Builds (.above bound) term.cutLoops := by
  rcases hblock with rfl | ⟨first, second, rfl⟩
  · exact builds_pure ⟨trivial, nofun⟩
  · apply builds_bind (grows_cutting_logged (grows_copy first))
      (builds_cutting_logged (builds_copy_above hterm.2.1))
    · grind
    · grind

end Cuts

/-! ## Conditions -/

namespace Task

section Conditions

variable {scope : String} {pre statement post : Term} {aboutInvariant : Bool}
  {before after : RunState} {conditions : List Condition}

/-- The conditions of a statement with obligations. -/
def listed (pre : Term) (aboutInvariant : Bool) (obligations : Obligations) (log : WriteLog) :
    List Condition :=
  (.binary pre .implies obligations.precondition :: sortByText log obligations.sideConditions).map
    fun claim => { claim, aboutInvariant }

theorem gives_conditionsOf :
    Gives (conditionsOf scope pre statement post aboutInvariant) before conditions after ↔
      statement.isStatement = true ∧ ∃ env obligations log,
        before.verifier.scopes.find? scope = some env ∧
        Gives (statement.obligations env post) before.log obligations log ∧
        conditions = listed pre aboutInvariant obligations log ∧ after = { before with log } := by
  simp only [conditionsOf, orderedObligations, obligations?, gives_bind, Run.gives_env,
    gives_pure, Run.gives_logged]
  cases statement.isStatement with
  | false =>
    constructor
    · rintro ⟨_, _, ⟨_, _, ⟨-, rfl⟩, _, _, ⟨_, hnone, rfl⟩, hordered⟩, -⟩
      obtain ⟨rfl, -⟩ := gives_pure.mp hnone
      exact absurd hordered not_gives_throw
    · rintro ⟨hstatement, -⟩
      cases hstatement
  | true =>
    constructor
    · rintro ⟨_, _, ⟨env, _, ⟨hscope, rfl⟩, _, _, ⟨_, hsome, rfl⟩, hordered⟩, rfl, rfl⟩
      simp only [if_true, gives_bind, gives_pure] at hsome
      obtain ⟨obligations, _, hobligations, rfl, rfl⟩ := hsome
      simp only [gives_bind, gives_get, gives_pure] at hordered
      obtain ⟨_, _, ⟨rfl, rfl⟩, rfl, rfl⟩ := hordered
      exact ⟨rfl, env, obligations, _, hscope, hobligations, rfl, rfl⟩
    · rintro ⟨-, env, obligations, log, hscope, hobligations, rfl, rfl⟩
      refine ⟨{ obligations with sideConditions := sortByText log obligations.sideConditions }, _,
        ⟨env, before, ⟨hscope, rfl⟩, some obligations, _, ⟨log, ?_, rfl⟩, ?_⟩, rfl, rfl⟩
      · simp only [if_true, gives_bind, gives_pure]
        exact ⟨obligations, log, hobligations, rfl, rfl⟩
      · simp only [gives_bind, gives_get, gives_pure]
        exact ⟨_, _, ⟨rfl, rfl⟩, rfl, rfl⟩

theorem mem_listed {obligations : Obligations} {log : WriteLog} {condition : Condition} :
    condition ∈ listed pre aboutInvariant obligations log ↔
      condition.aboutInvariant = aboutInvariant ∧
        (condition.claim = .binary pre .implies obligations.precondition ∨
          condition.claim ∈ obligations.sideConditions) := by
  obtain ⟨_, _⟩ := condition
  simp [listed, mem_sortByText]
  grind

/-- The conditions of the cut program, for one of its invariants. -/
theorem exists_cut_of_gives_invariantConditions
    (hgives : Gives (invariantConditions scope pre statement) before conditions after) :
    ∃ cut state, ∃ invariant ∈ cut.invariants,
      Gives statement.cutLoops ⟨before.log, before.verifier.counts⟩ cut state ∧
      Gives (conditionsOf scope pre cut.program invariant true)
        ⟨state.log, { before.verifier with counts := state.counts }⟩ conditions after := by
  simp only [invariantConditions, gives_bind, Run.gives_cutting, gives_get] at hgives
  obtain ⟨cut, _, ⟨state, hcut, rfl⟩, _, _, ⟨rfl, rfl⟩, hconditions⟩ := hgives
  cases hsorted : sortByText state.log cut.invariants with
  | nil =>
    simp only [hsorted] at hconditions
    exact absurd hconditions not_gives_throw
  | cons invariant =>
    simp only [hsorted] at hconditions
    have hmem : invariant ∈ sortByText state.log cut.invariants := by
      rw [hsorted]
      exact List.mem_cons_self
    exact ⟨cut, state, invariant, mem_sortByText.mp hmem, hcut, hconditions⟩

/-- The conditions of invariants keep what is recorded for the task, and all that
they record fits above its sites. -/
structure Apart (conditions : List Condition) (before after : RunState) : Prop where
  scopes : after.verifier.scopes = before.verifier.scopes
  size_le : before.log.sites.size ≤ after.log.sites.size
  writesAt : ∀ site < before.log.sites.size, after.log.writesAt site = before.log.writesAt site
  log : after.log.InFrame (.above before.log.sites.size)
  claims : ∀ condition ∈ conditions, condition.claim.InFrame (.above 0)

theorem inFrame_above_size (log : WriteLog) : log.InFrame (.above log.sites.size) := by
  intro site hsite entry hentry
  rw [WriteLog.writesAt_of_le hsite] at hentry
  cases hentry

theorem Fits.apart (hfits : Fits statement pre post before.log)
    (hgives : Gives (invariantConditions scope pre statement) before conditions after) :
    conditions ≠ [] ∧ (∀ condition ∈ conditions, condition.aboutInvariant = true) ∧
      Apart conditions before after := by
  obtain ⟨_, _, invariant, hinvariant, hcut, hconditions⟩ :=
    exists_cut_of_gives_invariantConditions hgives
  obtain ⟨-, _, _, _, _, hobligations, rfl, rfl⟩ := gives_conditionsOf.mp hconditions
  have hcutSize := grows_cutLoops statement _ _ _ hcut
  have hsize := steady_obligations _ _ _ _ _ hobligations
  obtain ⟨hcutFramed, hcutLog, hcutWrites⟩ := builds_cutLoops hfits.isBlock hfits.statement _ _ _
    hcut (inFrame_above_size before.log) fun site hold _ => hold
  obtain ⟨hframed, hlog, hwrites⟩ := builds_obligations Frame.above_bindsHavocs hcutFramed.1
    (hcutFramed.2 invariant hinvariant) _ _ _ hobligations hcutLog
    fun site hold _ => Nat.le_trans hcutSize hold
  have hall {term : Term} (hterm : term.InFrame (.above before.log.sites.size)) :
      term.InFrame (.above 0) :=
    hterm.mono Frame.above_allows_above fun site _ => Nat.zero_le site
  have hpre : pre.InFrame (.above 0) :=
    hfits.pre.mono Frame.below_allows_above fun site _ => Nat.zero_le site
  refine ⟨List.cons_ne_nil _ _, fun condition hcondition => (mem_listed.mp hcondition).1, rfl,
    Nat.le_trans hcutSize (Nat.le_of_eq hsize.symm), ?_, hlog, ?_⟩
  · intro site hsite
    have hbelow := Nat.not_le_of_lt hsite
    exact (hwrites site hbelow).trans (hcutWrites site hbelow)
  · intro condition hcondition
    rcases (mem_listed.mp hcondition).2 with hclaim | hclaim
    · rw [hclaim]
      exact ⟨hpre, hall hframed.1⟩
    · exact hall (hframed.2 _ hclaim)

end Conditions

end Task

end HoareCheck
