import HoareCheck.Proofs.RecordedWrites

/-!
# The value of a claim after a substitution

To put a term in the place of a variable should be to assign the value of the term to the
variable.  For claims without array reads it is (`Term.eval_replacing`).  Substitution does
not reach into an array read, so in general the reads keep the values they had, and only the
rest of the claim sees the assignment: the claim is computed in two stores at once
(`Term.evalApart`).  The two agree where the variable does not stand in a read.
-/

namespace HoareCheck

namespace Term

/-- An expression all of whose operands are expressions.  What stands inside a read is not
looked at. -/
def isWhole : Term → Bool
  | .var _ | .literal _ | .subscript .. => true
  | .unary _ operand => operand.isWhole
  | .binary left _ right => left.isWhole && right.isWhole
  | .quantified _ (.var _) _ _ body _ => body.isWhole
  | _ => false

theorem isWhole_quantified {quantifier : Quantifier} {binder written body : Term}
    {type : Option Ty} {closed : Bool}
    (hwhole : (Term.quantified quantifier binder type written body closed).isWhole = true) :
    ∃ name, binder = .var name ∧ body.isWhole = true := by
  cases binder with
  | var name => exact ⟨name, rfl, hwhole⟩
  | _ => simp [isWhole] at hwhole

/-- The names in the array reads of an expression. -/
def readNames : Term → List String
  | .subscript _ array index => array.freeNames ++ index.freeNames
  | .unary _ operand => operand.readNames
  | .binary left _ right => left.readNames ++ right.readNames
  | .quantified _ _ _ _ body _ => body.readNames
  | _ => []

/-- The value of an expression whose array reads are computed in the store `atReads` and all
else in another store. -/
noncomputable def evalApart (interp : Interpretation) : Term → Store → Store → Value
  | .subscript site array index, atReads, _ => (Term.subscript site array index).eval interp atReads
  | .unary operator operand, atReads, store =>
    interp.applyUnary operator (operand.evalApart interp atReads store)
  | .binary left operator right, atReads, store =>
    interp.applyBinary operator (left.evalApart interp atReads store)
      (right.evalApart interp atReads store)
  | .quantified quantifier binder type written body _, atReads, store =>
    .bool (quantifier.over (interp.domain (TypeEntry.ofBinder type written))
      fun value =>
        (body.evalApart interp (atReads.bind binder value) (store.bind binder value)).truth)
  | term, _, store => term.eval interp store

/-- Stores that agree on the names in reads may be merged. -/
theorem evalApart_eq_eval {interp : Interpretation} {term : Term} {atReads store : Store}
    (hagree : ∀ name ∈ term.readNames, atReads name = store name) :
    term.evalApart interp atReads store = term.eval interp store := by
  induction term generalizing atReads store with
  | subscript => exact eval_congr interp _ hagree
  | unary _ _ ih => rw [evalApart, ih hagree, eval_unary]
  | binary _ _ _ ihleft ihright =>
    simp only [readNames, List.mem_append] at hagree
    rw [evalApart, ihleft fun name hname => hagree name (.inl hname),
      ihright fun name hname => hagree name (.inr hname), eval_binary]
  | quantified _ binder _ _ _ _ _ _ ihbody =>
    rw [evalApart, eval_quantified]
    congr 2
    funext value
    rw [ihbody]
    intro name hname
    cases hbinder : binder.name? with
    | none => simpa [Store.bind, hbinder] using hagree name hname
    | some bound =>
      simp only [Store.bind, hbinder]
      by_cases hbound : name = bound
      · simp [hbound]
      · simpa [hbound] using hagree name hname
  | _ => rfl

section Replacement

variable {interp : Interpretation} {claim new : Term} {name : String}

/-- Replacing a variable is assigning to it everywhere but in the reads. -/
theorem eval_replacing_apart (hwhole : claim.isWhole = true)
    (hbound : ∀ bound ∈ claim.boundNames, bound ≠ name ∧ bound ∉ new.freeNames)
    (store : Store) :
    (claim.instantiate (replacing name new)).eval interp store =
      claim.evalApart interp store (Function.update store name (new.eval interp store)) := by
  induction claim generalizing store with
  | var other =>
    by_cases hother : other = name <;> simp [replacing, hother, evalApart]
  | literal | subscript => rfl
  | unary _ _ ih =>
    rw [instantiate, eval_unary, ih hwhole hbound, evalApart]
  | binary _ _ _ ihleft ihright =>
    simp only [isWhole, Bool.and_eq_true] at hwhole
    simp only [boundNames, List.mem_append] at hbound
    rw [instantiate, eval_binary, ihleft hwhole.1 fun bound hmem => hbound bound (.inl hmem),
      ihright hwhole.2 fun bound hmem => hbound bound (.inr hmem), evalApart]
  | quantified quantifier _ _ _ _ _ _ _ ihbody =>
    obtain ⟨bound, rfl, hbody⟩ := isWhole_quantified hwhole
    simp only [boundNames, name?, Option.toList_some, List.singleton_append, List.mem_cons,
      forall_eq_or_imp] at hbound
    rw [instantiate, eval_quantified, evalApart]
    congr 2
    funext value
    rw [ihbody hbody hbound.2, Store.bind_var, Store.bind_var]
    -- The replacement does not speak of the bound variable, so its value is the same below
    -- the quantifier.
    have hnew : new.eval interp (Function.update store bound value) = new.eval interp store := by
      refine eval_congr interp new fun other hother => Function.update_of_ne ?_ _ _
      rintro rfl
      exact hbound.1.2 hother
    rw [hnew, Function.update_comm hbound.1.1.symm]
  | _ => simp [isWhole] at hwhole

variable {log : WriteLog}

theorem gives_substituteWith_whole {atRead : Site → Term → Logged Unit}
    (hwhole : claim.isWhole = true)
    (hread : ∀ read ∈ claim.reads, Gives (atRead read.1 read.2) log () log) :
    Gives (substituteWith atRead (.var name) new claim) log
      (claim.instantiate (replacing name new)) log := by
  induction claim with
  | var other =>
    by_cases hother : other = name <;> simp [substituteWith, replacing, hother]
  | literal => exact gives_pure.mpr ⟨rfl, rfl⟩
  | subscript site array =>
    simp only [substituteWith, gives_bind, gives_pure]
    exact ⟨(), log, hread (site, array) (by simp [reads]), rfl, rfl⟩
  | unary _ _ ih =>
    simp only [substituteWith, gives_bind, gives_pure]
    exact ⟨_, log, ih hwhole hread, rfl, rfl⟩
  | binary _ _ _ ihleft ihright =>
    simp only [isWhole, Bool.and_eq_true] at hwhole
    simp only [reads, List.mem_append] at hread
    simp only [substituteWith, gives_bind, gives_pure]
    exact ⟨_, log, ihleft hwhole.1 fun read hmem => hread read (.inl hmem), _, log,
      ihright hwhole.2 fun read hmem => hread read (.inr hmem), rfl, rfl⟩
  | quantified _ _ _ _ _ _ _ _ ihbody =>
    obtain ⟨_, rfl, hbody⟩ := isWhole_quantified hwhole
    simp only [substituteWith, gives_bind, gives_pure]
    exact ⟨_, log, ihbody hbody hread, rfl, rfl⟩
  | _ => simp [isWhole] at hwhole

theorem gives_substitute_whole (hwhole : claim.isWhole = true)
    (hblank : ∀ read ∈ claim.reads, log.writesAt read.1 = []) :
    Gives (claim.substitute (.var name) new) log (claim.instantiate (replacing name new)) log := by
  simp only [substitute, gives_bind, gives_get]
  exact ⟨log, log, ⟨rfl, rfl⟩, gives_substituteWith_whole hwhole fun read hmem =>
    gives_substituteAt_unwritten (hblank read hmem) new log.sites.size read.2⟩

end Replacement

end Term

/-- Substitution for a variable succeeds and leaves the log as it is.  The result has the
value of the claim in two stores: array reads see the store as it was, and all else sees the
variable set to the value of the replacement.  If the variable stands in no read, that is the
value of the claim with the variable set. -/
theorem substitute_value {claim new : Term} {name : String} {log : WriteLog}
    (hwhole : claim.isWhole = true) (hblank : ∀ read ∈ claim.reads, log.writesAt read.1 = [])
    (hbound : ∀ bound ∈ claim.boundNames, bound ≠ name ∧ bound ∉ new.freeNames) :
    ∃ result, Gives (claim.substitute (.var name) new) log result log ∧
      ∀ interp store,
        result.eval interp store =
          claim.evalApart interp store (Function.update store name (new.eval interp store)) ∧
        (name ∉ claim.readNames → result.eval interp store =
          claim.eval interp (Function.update store name (new.eval interp store))) := by
  refine ⟨_, Term.gives_substitute_whole hwhole hblank, fun interp store => ?_⟩
  have hapart : _ = claim.evalApart interp store _ :=
    Term.eval_replacing_apart hwhole hbound store
  refine ⟨hapart, fun hname => hapart.trans (Term.evalApart_eq_eval fun other hother => ?_)⟩
  rw [Function.update_of_ne]
  rintro rfl
  exact hname hother

/-- Every element with an index below `n` is smaller than `x`, where `x` is set to `n + A[0]`. -/
theorem substitute_value_bounded :
    let claim : Term := .quantified .universal (.var "i") (some .int) .missing
      (.binary (.binary (.var "i") .lt (.var "n")) .implies
        (.binary (.subscript 1 (.var "A") (.var "i")) .lt (.var "x"))) false
    let new : Term := .binary (.var "n") .add (.subscript 2 (.var "A") (.int 0))
    "x" ∉ claim.readNames ∧ ∃ result, Gives (claim.substitute (.var "x") new) .empty result .empty ∧
      ∀ interp store, result.eval interp store =
        claim.eval interp (Function.update store "x" (new.eval interp store)) := by
  intro claim new
  have hname : "x" ∉ claim.readNames := by decide
  have hblank : ∀ read ∈ claim.reads, WriteLog.empty.writesAt read.1 = [] :=
    fun read _ => WriteLog.isBlank_empty read.1
  have hbound : ∀ bound ∈ claim.boundNames, bound ≠ "x" ∧ bound ∉ new.freeNames := by decide
  obtain ⟨result, hgives, hvalue⟩ := substitute_value (by decide) hblank hbound
  exact ⟨hname, result, hgives, fun interp store => (hvalue interp store).2 hname⟩

/-- The index of a read is not replaced: `A[x]` stays `A[x]` where `x` is set to 1, and has
another value than it has after that. -/
theorem index_not_replaced :
    let claim : Term := .subscript 0 (.var "A") (.var "x")
    let store : Store := Function.update (fun _ => .int 0) "A" (.array id)
    Gives (claim.substitute (.var "x") (.int 1)) .empty claim .empty ∧
      claim.eval .standard store = .int 0 ∧
      claim.eval .standard
        (Function.update store "x" ((Term.int 1).eval .standard store)) = .int 1 := by
  refine ⟨rfl, ?_, ?_⟩ <;> simp [Term.eval, Value.element]

end HoareCheck
