import HoareCheck.Proofs.ForkedClaims
import HoareCheck.Proofs.HavocNumbers
import HoareCheck.Proofs.RecordedWrites

/-!
# The order of renamings

Variables are renamed one at a time.  Where nothing is recorded against the reads of a
term, such a step only rebuilds the term (`Term.renamed?`), and two steps for different
variables can be exchanged, as long as neither brings in a variable that the other
replaces.  So names can be forked in any order (`elaborate_forked_perm`).
-/

namespace HoareCheck

variable {renamed copied : Term} {before after : WriteLog} {renamings : List (String × String)}

namespace Term

/-- The term with its variables renamed, where substitution comes to; there is none if it
comes to a part that is missing. -/
def renamed? (rename : String → String) : Term → Option Term
  | .missing => none
  | .var name => some (.var (rename name))
  | .unary operator operand => return .unary operator (← operand.renamed? rename)
  | .binary left operator right =>
    return .binary (← left.renamed? rename) operator (← right.renamed? rename)
  | .quantified quantifier binder type written body closed =>
    return .quantified quantifier binder type written (← body.renamed? rename) closed
  | .skip | .havoc .. => some .missing
  | .assign target value _ =>
    return .assign (← target.renamed? rename) (← value.renamed? rename) false
  | .ifElse condition thenBranch elseBranch =>
    return branch (← condition.renamed? rename) (← thenBranch.renamed? rename)
      (← elseBranch.renamed? rename)
  | .seq first second => return andThen (← first.renamed? rename) (← second.renamed? rename)
  | .assume claim => return .assume (← claim.renamed? rename)
  | .assert claim => return .assert (← claim.renamed? rename)
  | .loop invariant condition body =>
    return repeatWhile (← invariant.renamed? rename) (← condition.renamed? rename)
      (← body.renamed? rename)
  | term => some term

/-- Nothing is recorded against the reads that substitution comes to. -/
def Unwritten (log : WriteLog) (term : Term) : Prop :=
  ∀ read ∈ term.reads, log.writesAt read.1 = []

variable {log : WriteLog} {term : Term} {rename : String → String}

theorem amountsTo_substituteWith {atRead : Site → Term → Logged Unit} {old new : String}
    (hread : ∀ read ∈ term.reads, AmountsTo log (atRead read.1 read.2) (some ())) :
    AmountsTo log (substituteWith atRead (.var old) (.var new) term)
      (term.renamed? (Function.update id old new)) := by
  induction term with
  | missing | literal | slice | skip | havoc => rfl
  | var =>
    rw [substituteWith, renamed?, var_update]
    rfl
  | subscript site array =>
    exact (hread (site, array) List.mem_cons_self).bind fun _ _ => amountsTo_pure _
  | unary _ _ ih | assume _ ih | assert _ ih => exact (ih hread).map _
  | quantified _ _ _ _ _ _ _ _ ih => exact (ih hread).map _
  | binary _ _ _ ihfirst ihsecond | assign _ _ _ ihfirst ihsecond | seq _ _ ihfirst ihsecond =>
    rw [reads, List.forall_mem_append] at hread
    exact (ihfirst hread.1).bind fun _ _ => (ihsecond hread.2).map _
  | ifElse _ _ _ ihfirst ihsecond ihthird | loop _ _ _ ihfirst ihsecond ihthird =>
    rw [reads, List.forall_mem_append, List.forall_mem_append] at hread
    exact (ihfirst hread.1.1).bind fun _ _ => (ihsecond hread.1.2).bind fun _ _ =>
      (ihthird hread.2).map _

theorem Unwritten.amountsTo_substitute (hterm : term.Unwritten log) (old new : String) :
    AmountsTo log (term.substitute (.var old) (.var new))
      (term.renamed? (Function.update id old new)) := by
  have hget : Gives get log log log := gives_get.mpr ⟨rfl, rfl⟩
  exact (Gives.outcomeOn_bind hget).trans (amountsTo_substituteWith fun read hread =>
    gives_substituteAt_unwritten (hterm read hread) _ _ _)

theorem reads_orSkip (term : Term) : term.orSkip.reads = term.reads := by
  cases term <;> rfl

/-- A renamed term has the reads that it had. -/
theorem reads_of_renamed? (hrenamed : term.renamed? rename = some renamed) :
    renamed.reads = term.reads := by
  induction term generalizing renamed with
  | missing | var | literal | slice | subscript | skip | havoc => cases hrenamed <;> rfl
  | _ =>
    simp only [renamed?, Option.bind_eq_bind, Option.bind_eq_some_iff, Option.pure_def,
      Option.some.injEq] at hrenamed
    grind [reads, branch, andThen, repeatWhile, reads_orSkip]

/-! ## Exchanging two steps -/

theorem orSkip_instantiate (rename : String → String) (term : Term) :
    (term.instantiate fun name => .var (rename name)).orSkip =
      term.orSkip.instantiate fun name => .var (rename name) := by
  cases term <;> rfl

/-- The names have no part in what becomes of the form of a term. -/
theorem renamed?_eq_map (rename : String → String) (term : Term) :
    term.renamed? rename =
      (term.renamed? id).map (instantiate fun name => .var (rename name)) := by
  induction term with
  | missing | var | literal | slice | subscript | skip | havoc => rfl
  | _ =>
    simp_all [renamed?, Option.map_bind, Option.bind_map, Function.comp_def, branch, andThen,
      repeatWhile, orSkip_instantiate]

/-- Two steps depend on what becomes of each name in the end only. -/
theorem bind_renamed? (first second : String → String) (term : Term) :
    (term.renamed? first).bind (renamed? second) =
      (term.renamed? id).bind (renamed? (second ∘ first)) := by
  have hinstantiate (term : Term) : (term.instantiate fun name => .var (first name)).renamed?
      second = term.renamed? (second ∘ first) := by
    induction term <;> simp_all [renamed?]
  rw [renamed?_eq_map first, Option.bind_map]
  exact congrArg _ (funext hinstantiate)

/-- The term after several renamings, one after the other. -/
def renamedAll? (renamings : List (String × String)) (term : Option Term) : Option Term :=
  renamings.foldl (fun term pair => term.bind (renamed? (Function.update id pair.1 pair.2))) term

/-- Renamings of different variables, none of which they bring in, can be done in any
order. -/
theorem renamedAll?_perm {reordered : List (String × String)} (hperm : renamings.Perm reordered)
    (hsame : ∀ left ∈ renamings, ∀ right ∈ renamings, left.1 = right.1 → left = right)
    (hnew : ∀ pair ∈ renamings, pair.2 ∉ renamings.map Prod.fst) (term : Option Term) :
    renamedAll? renamings term = renamedAll? reordered term := by
  apply hperm.foldl_eq'
  intro left hleft right hright term
  have hswap : Function.update id right.1 right.2 ∘ Function.update id left.1 left.2 =
      Function.update id left.1 left.2 ∘ Function.update id right.1 right.2 := by
    by_cases hnames : left.1 = right.1
    · rw [hsame left hleft right hright hnames]
    · have hfirst : left.2 ≠ right.1 := fun heq =>
        hnew left hleft (heq ▸ List.mem_map_of_mem hright)
      have hsecond : right.2 ≠ left.1 := fun heq =>
        hnew right hright (heq ▸ List.mem_map_of_mem hleft)
      funext name
      simp only [Function.comp_apply, Function.update_apply, id]
      grind
  cases term with
  | none => rfl
  | some term => exact (bind_renamed? _ _ term).trans (hswap ▸ (bind_renamed? _ _ term).symm)

theorem renamedAll?_cons (pair : String × String) (rest : List (String × String)) (term : Term) :
    renamedAll? (pair :: rest) (some term) = (term.renamed? (Function.update id pair.1 pair.2)).bind
      fun renamed => renamedAll? rest (some renamed) := by
  have hnone : renamedAll? rest none = none := by
    induction rest with
    | nil => rfl
    | cons _ _ ih => exact ih
  rw [renamedAll?, List.foldl_cons, Option.bind_some]
  cases term.renamed? (Function.update id pair.1 pair.2) with
  | none => exact hnone
  | some => rfl

theorem reads_of_renamedAll? (hrenamed : renamedAll? renamings (some term) = some renamed) :
    renamed.reads = term.reads := by
  induction renamings generalizing term with
  | nil => cases hrenamed; rfl
  | cons _ _ ih =>
    rw [renamedAll?_cons, Option.bind_eq_some_iff] at hrenamed
    obtain ⟨_, hbetween, hrest⟩ := hrenamed
    exact (ih hrest).trans (reads_of_renamed? hbetween)

theorem Unwritten.amountsTo_renameAll (hterm : term.Unwritten log)
    (renamings : List (String × String)) :
    AmountsTo log (term.renameAll renamings) (renamedAll? renamings (some term)) := by
  induction renamings generalizing term with
  | nil => rfl
  | cons pair _ ih =>
    rw [renamedAll?_cons]
    refine (hterm.amountsTo_substitute pair.1 pair.2).bind fun renamed hrenamed => ih ?_
    intro read hread
    exact hterm read (reads_of_renamed? hrenamed ▸ hread)

section

variable (hgives : Gives term.copy before copied after)

include hgives

/-- A copy reads at new sites. -/
theorem le_of_mem_reads_copy : ∀ read ∈ copied.reads, before.sites.size ≤ read.1 := by
  have hgrows (part : Term) (before : WriteLog) (copied : Term) (after : WriteLog)
      (hgives : Gives part.copy before copied after) : before.sites.size ≤ after.sites.size :=
    grows_copy part before copied after hgives
  induction term generalizing before copied after with
  | subscript _ array index =>
    simp only [copy, gives_bind, gives_place] at hgives
    obtain ⟨array, between, harray, index, log, hindex, rfl, -⟩ := hgives
    intro read hread
    cases List.mem_singleton.mp hread
    calc before.sites.size ≤ between.sites.size := hgrows _ _ _ _ harray
      _ ≤ log.sites.size := hgrows _ _ _ _ hindex
      _ ≤ (array.place log).2.sites.size := array.size_le_place log
      _ ≤ _ := index.size_le_place _
  | missing => exact absurd hgives not_gives_throw
  | _ =>
    simp only [copy, gives_bind, gives_pure] at hgives
    grind [reads]

theorem unwritten_copy (hlog : ∀ site, log.writesAt site = before.writesAt site) :
    copied.Unwritten log := by
  intro read hread
  rw [hlog, WriteLog.writesAt_of_le (le_of_mem_reads_copy hgives read hread)]

theorem writesAt_copy (site : Site) : after.writesAt site = before.writesAt site := by
  induction term generalizing before copied after with
  | subscript =>
    simp only [copy, gives_bind, gives_place] at hgives
    grind [writesAt_place]
  | missing => exact absurd hgives not_gives_throw
  | _ =>
    simp only [copy, gives_bind, gives_pure] at hgives
    grind

end

section Forked

variable {names reordered : List String}

/-- Copies of names can be put in their places in any order. -/
theorem renamedAll?_copies (hperm : names.Perm reordered)
    (hnames : ∀ name ∈ names, IsUnmarked name) {copy : String → String}
    (hcopy : ∀ name, ¬ IsUnmarked (copy name)) (term : Option Term) :
    renamedAll? (names.map fun name => (name, copy name)) term =
      renamedAll? (reordered.map fun name => (name, copy name)) term := by
  apply renamedAll?_perm (hperm.map _)
  · rintro _ hleft _ hright heq
    obtain ⟨_, -, rfl⟩ := List.mem_map.mp hleft
    obtain ⟨_, -, rfl⟩ := List.mem_map.mp hright
    exact congrArg (fun name => (name, copy name)) heq
  · intro pair hpair hmem
    obtain ⟨name, -, rfl⟩ := List.mem_map.mp hpair
    have hold : copy name ∈ names := by simpa using hmem
    exact hcopy name (hnames _ hold)

theorem fork_perm (hperm : names.Perm reordered) (hnames : ∀ name ∈ names, IsUnmarked name)
    (term : Term) :
    term.fork names = term.fork reordered := by
  funext log
  change outcomeOn _ log = outcomeOn _ log
  rcases gives_or_fails term.copy log with ⟨first, between, hfirst⟩ | ⟨fault, after, hfails⟩
  · rw [hfirst.outcomeOn_bind, hfirst.outcomeOn_bind]
    rcases gives_or_fails term.copy between with ⟨second, after, hsecond⟩ | ⟨fault, after, hfails⟩
    · have hlater := writesAt_copy hsecond
      have hfirstFresh := unwritten_copy hfirst fun site =>
        (hlater site).trans (writesAt_copy hfirst site)
      have hsecondFresh := unwritten_copy hsecond hlater
      have hrest (names : List String) :=
        (hfirstFresh.amountsTo_renameAll (names.map fun name => (name, firstCopy name))).bind
          fun first _ => (hsecondFresh.amountsTo_renameAll
            (names.map fun name => (name, secondCopy name))).map fun second => (first, second)
      rw [hsecond.outcomeOn_bind, hsecond.outcomeOn_bind]
      refine (hrest names).trans ?_
      rw [renamedAll?_copies hperm hnames not_isUnmarked_firstCopy,
        renamedAll?_copies hperm hnames not_isUnmarked_secondCopy]
      exact (hrest reordered).symm
    · rw [hfails.outcomeOn_bind, hfails.outcomeOn_bind]
  · rw [hfails.outcomeOn_bind, hfails.outcomeOn_bind]

end Forked

end Term

/-! ## Programs -/

namespace Source

variable {names reordered : List String}

section Congruence

-- In a mutual block the hypothesis is used through the other theorems only.
set_option linter.unusedSectionVars false

variable (hfork : ∀ term : Term, term.fork names = term.fork reordered)

include hfork

mutual

theorem Expr.elaborate_congr : ∀ expr : Expr,
      expr.elaborate (.forked names) = expr.elaborate (.forked reordered)
  | .name _ | .constant _ => by simp only [Expr.elaborate]
  | .logical _ left right | .compare left _ right _ _ | .binary left _ right
  | .subscript left right => by
    simp only [Expr.elaborate, left.elaborate_congr, right.elaborate_congr]
  | .unary _ operand | .member operand _ => by simp only [Expr.elaborate, operand.elaborate_congr]
  | .call _ arguments => by simp only [Expr.elaborate, elaborateFirst_congr arguments, hfork]
  | .slice lower upper _ => by
    simp only [Expr.elaborate, elaborateBound_congr lower, elaborateBound_congr upper]
  | .tuple items | .list items => by simp only [Expr.elaborate, elaborateItems_congr items]

theorem elaborateBound_congr : ∀ bound : Option Expr,
      elaborateBound (.forked names) bound = elaborateBound (.forked reordered) bound
  | none => by simp only [elaborateBound]
  | some bound => by simp only [elaborateBound, bound.elaborate_congr]

theorem elaborateFirst_congr : ∀ items : List Expr,
      elaborateFirst (.forked names) items = elaborateFirst (.forked reordered) items
  | [] => by simp only [elaborateFirst]
  | first :: _ => by simp only [elaborateFirst, first.elaborate_congr]

theorem elaborateItems_congr : ∀ items : List Expr,
      elaborateItems (.forked names) items = elaborateItems (.forked reordered) items
  | [] => by simp only [elaborateItems]
  | first :: rest => by
    simp only [elaborateItems, first.elaborate_congr, elaborateItems_congr rest]

end

mutual

theorem Stmt.elaborate_congr : ∀ statement : Stmt,
      statement.elaborate (.forked names) = statement.elaborate (.forked reordered)
  | .functionDef _ body => by simp only [Stmt.elaborate, elaborateBlock_congr false body]
  | .assign .. | .augmented .. | .annotated .. | .assert .. | .expr _ => by
    simp only [Stmt.elaborate, assignmentTarget, forkedAssignment, Expr.elaborate_congr hfork,
      elaborateBound_congr hfork, hfork]
  | .ifElse _ body orElse | .forLoop _ _ body orElse => by
    simp only [Stmt.elaborate, Expr.elaborate_congr hfork, hfork,
      elaborateBlock_congr false body, elaborateBlock_congr false orElse]
  | .whileLoop _ body _ => by
    simp only [Stmt.elaborate, Expr.elaborate_congr hfork, hfork, elaborateBlock_congr true body]
  | .returned _ | .pass | .breakLoop | .continueLoop => by simp only [Stmt.elaborate]

theorem elaborateBlock_congr (inLoop : Bool) : ∀ (block : List Stmt) (before : Option Term),
      elaborateBlock (.forked names) inLoop before block =
        elaborateBlock (.forked reordered) inLoop before block
  | [], _ => by simp only [elaborateBlock]
  | statement :: rest, _ => by
    simp only [elaborateBlock, statement.elaborate_congr, elaborateBlock_congr inLoop rest]

end

end Congruence

/-- The statement of a program for two runs does not depend on the order of the forked names:
elaboration gives the same statement, or fails in the same way. -/
theorem elaborate_forked_perm (hperm : names.Perm reordered)
    (hnames : ∀ name ∈ names, IsUnmarked name) (program : Program) :
    elaborate (.forked names) program = elaborate (.forked reordered) program := by
  rw [elaborate, elaborateBlock_congr (Term.fork_perm hperm hnames), elaborate]

/-- A read of an array under both orders of its two names. -/
theorem elaborate_forked_perm_swap :
    let program := [Stmt.assign [.name "x"] (.subscript (.name "A") (.name "x")),
      .assign [.name "y"] (.call (.name "laplace") [.binary (.name "x") .add (.name "y")])]
    ["x", "y"].Perm ["y", "x"] ∧ elaborate (.forked ["x", "y"]) program =
      elaborate (.forked ["y", "x"]) program :=
  ⟨.swap _ _ _, elaborate_forked_perm (.swap _ _ _) (by unfold IsUnmarked; decide) _⟩

end Source

end HoareCheck
