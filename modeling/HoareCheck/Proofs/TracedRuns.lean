import HoareCheck.Proofs.ElaborationFaithful

/-!
# Runs with the outcomes of their tests

`Source.Traced` is a run of a block together with the outcomes of the tests of
its conditionals and loops, in the order in which they are made.  The outcomes
determine the way that a run takes through its block, whatever the store: if two
runs of one block make the same tests with the same outcomes (`Source.RunAlike`),
then so do their parts.
-/

namespace HoareCheck.Source

/-- Runs of the statements of a block, with the outcomes of the tests on their
way. -/
inductive Traced : List Stmt → Store → List Bool → Ending → Store → Prop
  | done {store : Store} : Traced [] store [] .normal store
  | pass {rest : List Stmt} {store final : Store} {outcomes : List Bool} {ending : Ending} :
      Traced rest store outcomes ending final →
      Traced (.pass :: rest) store outcomes ending final
  | invariant {arguments : List Expr} {rest : List Stmt} {store final : Store}
      {outcomes : List Bool} {ending : Ending} :
      Traced rest store outcomes ending final →
      Traced (.expr (.call (.name "invariant") arguments) :: rest) store outcomes ending final
  | assign {name : String} {value : Expr} {result : Value} {rest : List Stmt}
      {store final : Store} {outcomes : List Bool} {ending : Ending} :
      value.evaluate? store = some result →
      Traced rest (Function.update store name result) outcomes ending final →
      Traced (.assign [.name name] value :: rest) store outcomes ending final
  | returned {value : Option Expr} {rest : List Stmt} {store : Store} :
      (∀ expr ∈ value, ∃ result, expr.evaluate? store = some result) →
      Traced (.returned value :: rest) store [] .returned store
  | ifElse {test : Expr} {flag : Bool} {body orElse rest : List Stmt}
      {store between final : Store} {inner outer : List Bool} {ending : Ending} :
      test.passes? store = some flag →
      Traced (if flag then body else orElse) store inner .normal between →
      Traced rest between outer ending final →
      Traced (.ifElse test body orElse :: rest) store (flag :: (inner ++ outer)) ending final
  | ifReturned {test : Expr} {flag : Bool} {body orElse rest : List Stmt}
      {store final : Store} {inner : List Bool} :
      test.passes? store = some flag →
      Traced (if flag then body else orElse) store inner .returned final →
      Traced (.ifElse test body orElse :: rest) store (flag :: inner) .returned final
  | loopEnd {test : Expr} {body orElse rest : List Stmt} {store final : Store}
      {outer : List Bool} {ending : Ending} :
      test.passes? store = some false →
      Traced (orElse ++ rest) store outer ending final →
      Traced (.whileLoop test body orElse :: rest) store (false :: outer) ending final
  | loopAgain {test : Expr} {body orElse rest : List Stmt} {store between final : Store}
      {inner outer : List Bool} {ending : Ending} :
      test.passes? store = some true →
      Traced body store inner .normal between →
      Traced (.whileLoop test body orElse :: rest) between outer ending final →
      Traced (.whileLoop test body orElse :: rest) store (true :: (inner ++ outer)) ending final
  | loopReturned {test : Expr} {body orElse rest : List Stmt} {store final : Store}
      {inner : List Bool} :
      test.passes? store = some true →
      Traced body store inner .returned final →
      Traced (.whileLoop test body orElse :: rest) store (true :: inner) .returned final

section

variable {block : List Stmt} {store final : Store} {ending : Ending}

theorem Traced.completes {outcomes : List Bool}
    (htraced : Traced block store outcomes ending final) :
    Completes block store ending final := by
  induction htraced with
  | done => exact .done
  | pass _ ih => exact .pass ih
  | invariant _ ih => exact .invariant ih
  | assign hvalue _ ih => exact .assign hvalue ih
  | returned hvalue => exact .returned hvalue
  | ifElse hflag _ _ ihbranch ihrest => exact .ifElse hflag ihbranch ihrest
  | ifReturned hflag _ ih => exact .ifReturned hflag ih
  | loopEnd hflag _ ih => exact .loopEnd hflag ih
  | loopAgain hflag _ _ ihbody ihloop => exact .loopAgain hflag ihbody ihloop
  | loopReturned hflag _ ih => exact .loopReturned hflag ih

/-- The traced runs are the runs of a block. -/
theorem completes_iff_traced :
    Completes block store ending final ↔ ∃ outcomes, Traced block store outcomes ending final := by
  constructor
  · intro hcompletes
    induction hcompletes with
    | done => exact ⟨[], .done⟩
    | pass _ ih =>
      obtain ⟨outcomes, htraced⟩ := ih
      exact ⟨outcomes, .pass htraced⟩
    | invariant _ ih =>
      obtain ⟨outcomes, htraced⟩ := ih
      exact ⟨outcomes, .invariant htraced⟩
    | assign hvalue _ ih =>
      obtain ⟨outcomes, htraced⟩ := ih
      exact ⟨outcomes, .assign hvalue htraced⟩
    | returned hvalue => exact ⟨[], .returned hvalue⟩
    | ifElse hflag _ _ ihbranch ihrest =>
      obtain ⟨_, hinner⟩ := ihbranch
      obtain ⟨_, houter⟩ := ihrest
      exact ⟨_, .ifElse hflag hinner houter⟩
    | ifReturned hflag _ ih =>
      obtain ⟨_, hinner⟩ := ih
      exact ⟨_, .ifReturned hflag hinner⟩
    | loopEnd hflag _ ih =>
      obtain ⟨_, houter⟩ := ih
      exact ⟨_, .loopEnd hflag houter⟩
    | loopAgain hflag _ _ ihbody ihloop =>
      obtain ⟨_, hinner⟩ := ihbody
      obtain ⟨_, houter⟩ := ihloop
      exact ⟨_, .loopAgain hflag hinner houter⟩
    | loopReturned hflag _ ih =>
      obtain ⟨_, hinner⟩ := ih
      exact ⟨_, .loopReturned hflag hinner⟩
  · rintro ⟨_, htraced⟩
    exact htraced.completes

end

/-- The branch that a test chooses. -/
theorem Kinded.branch {kinds : String → Kind} {inLoop : Bool} {body orElse : List Stmt}
    (hbody : Kinded kinds inLoop false body) (horElse : Kinded kinds inLoop false orElse)
    (flag : Bool) : Kinded kinds inLoop false (if flag then body else orElse) := by
  cases flag with
  | true => exact hbody
  | false => exact horElse

/-- Two runs of one block that go to its end make their tests with outcomes of
which neither starts the other properly. -/
theorem Traced.outcomes_eq {kinds : String → Kind} {inLoop : Bool} {block : List Stmt}
    (hkinded : Kinded kinds inLoop false block) {left right leftFinal rightFinal : Store}
    {leftEnding rightEnding : Ending}
    {leftOutcomes rightOutcomes leftRest rightRest : List Bool}
    (hleft : Traced block left leftOutcomes leftEnding leftFinal)
    (hright : Traced block right rightOutcomes rightEnding rightFinal)
    (hsame : leftOutcomes ++ leftRest = rightOutcomes ++ rightRest) :
    leftOutcomes = rightOutcomes := by
  induction hleft generalizing inLoop right rightFinal rightEnding rightOutcomes leftRest
    rightRest with
  | done =>
    cases hright
    rfl
  | pass _ ih =>
    cases hkinded with
    | pass hkinded =>
      cases hright with
      | pass hright => exact ih hkinded hright hsame
  | invariant _ ih =>
    cases hkinded with
    | invariant _ hkinded =>
      cases hright with
      | invariant hright => exact ih hkinded hright hsame
  | assign _ _ ih =>
    cases hkinded with
    | assign _ hkinded =>
      cases hright with
      | assign _ hright => exact ih hkinded hright hsame
  | returned => cases hkinded
  | ifElse _ _ _ ihbranch ihrest =>
    cases hkinded with
    | ifElse _ hbody horElse hkinded =>
      cases hright with
      | ifElse _ hinner houter =>
        simp only [List.cons_append, List.append_assoc, List.cons.injEq] at hsame
        obtain ⟨rfl, hsame⟩ := hsame
        obtain rfl := ihbranch (hbody.branch horElse _) hinner hsame
        obtain rfl := ihrest hkinded houter (List.append_cancel_left hsame)
        rfl
      | ifReturned _ hinner =>
        cases (hbody.branch horElse _).ending_eq hinner.completes
  | ifReturned _ hinner =>
    cases hkinded with
    | ifElse _ hbody horElse => cases (hbody.branch horElse _).ending_eq hinner.completes
  | loopEnd _ _ ih =>
    cases hkinded with
    | whileLoop _ _ hkinded =>
      cases hright with
      | loopEnd _ houter =>
        simp only [List.cons_append, List.cons.injEq, true_and] at hsame
        rw [ih hkinded houter hsame]
      | loopAgain => simp at hsame
      | loopReturned => simp at hsame
  | loopAgain _ _ _ ihbody ihloop =>
    have hloop := hkinded
    cases hkinded with
    | whileLoop _ hbody =>
      cases hright with
      | loopEnd => simp at hsame
      | loopAgain _ hinner houter =>
        simp only [List.cons_append, List.append_assoc, List.cons.injEq, true_and] at hsame
        obtain rfl := ihbody hbody hinner hsame
        obtain rfl := ihloop hloop houter (List.append_cancel_left hsame)
        rfl
      | loopReturned _ hinner => cases hbody.ending_eq hinner.completes
  | loopReturned _ hinner =>
    cases hkinded with
    | whileLoop _ hbody => cases hbody.ending_eq hinner.completes

/-! ## Two runs with the same outcomes -/

/-- Two runs of a block, from two stores, whose tests have the same outcomes. -/
def RunAlike (block : List Stmt) (first second firstFinal secondFinal : Store) : Prop :=
  ∃ outcomes firstEnding secondEnding, Traced block first outcomes firstEnding firstFinal ∧
    Traced block second outcomes secondEnding secondFinal

section RunAlike

variable {kinds : String → Kind} {inLoop : Bool} {test : Expr} {body orElse rest : List Stmt}
  {first second firstFinal secondFinal : Store}

theorem runAlike_nil_iff :
    RunAlike [] first second firstFinal secondFinal ↔
      first = firstFinal ∧ second = secondFinal := by
  constructor
  · rintro ⟨_, _, _, ⟨⟩, ⟨⟩⟩
    exact ⟨rfl, rfl⟩
  · rintro ⟨rfl, rfl⟩
    exact ⟨[], .normal, .normal, .done, .done⟩

theorem runAlike_pass_iff :
    RunAlike (.pass :: rest) first second firstFinal secondFinal ↔
      RunAlike rest first second firstFinal secondFinal := by
  constructor
  · rintro ⟨outcomes, _, _, _ | hfirst, _ | hsecond⟩
    exact ⟨outcomes, _, _, hfirst, hsecond⟩
  · rintro ⟨outcomes, _, _, hfirst, hsecond⟩
    exact ⟨outcomes, _, _, .pass hfirst, .pass hsecond⟩

theorem runAlike_invariant_iff {arguments : List Expr} :
    RunAlike (.expr (.call (.name "invariant") arguments) :: rest) first second firstFinal
        secondFinal ↔ RunAlike rest first second firstFinal secondFinal := by
  constructor
  · rintro ⟨outcomes, _, _, hfirst, hsecond⟩
    cases hfirst with
    | invariant hfirst =>
      cases hsecond with
      | invariant hsecond => exact ⟨outcomes, _, _, hfirst, hsecond⟩
  · rintro ⟨outcomes, _, _, hfirst, hsecond⟩
    exact ⟨outcomes, _, _, .invariant hfirst, .invariant hsecond⟩

theorem runAlike_returned_iff {value : Option Expr}
    (hfirst : ∀ expr ∈ value, ∃ result, expr.evaluate? first = some result)
    (hsecond : ∀ expr ∈ value, ∃ result, expr.evaluate? second = some result) :
    RunAlike (.returned value :: rest) first second firstFinal secondFinal ↔
      first = firstFinal ∧ second = secondFinal := by
  constructor
  · rintro ⟨_, _, _, ⟨⟩, ⟨⟩⟩
    exact ⟨rfl, rfl⟩
  · rintro ⟨rfl, rfl⟩
    exact ⟨[], .returned, .returned, .returned hfirst, .returned hsecond⟩

theorem runAlike_assign_iff {name : String} {value : Expr} {firstResult secondResult : Value}
    (hfirst : value.evaluate? first = some firstResult)
    (hsecond : value.evaluate? second = some secondResult) :
    RunAlike (.assign [.name name] value :: rest) first second firstFinal secondFinal ↔
      RunAlike rest (Function.update first name firstResult)
        (Function.update second name secondResult) firstFinal secondFinal := by
  constructor
  · rintro ⟨outcomes, _, _, hleft, hright⟩
    cases hleft with
    | assign hother hleft =>
      obtain rfl := Option.some.inj (hfirst.symm.trans hother)
      cases hright with
      | assign hother hright =>
        obtain rfl := Option.some.inj (hsecond.symm.trans hother)
        exact ⟨outcomes, _, _, hleft, hright⟩
  · rintro ⟨outcomes, _, _, hleft, hright⟩
    exact ⟨outcomes, _, _, .assign hfirst hleft, .assign hsecond hright⟩

/-- Both runs take the same branch, and their runs of it are alike. -/
theorem runAlike_ifElse_iff (hbody : Kinded kinds inLoop false body)
    (horElse : Kinded kinds inLoop false orElse) :
    RunAlike (.ifElse test body orElse :: rest) first second firstFinal secondFinal ↔
      ∃ flag firstBetween secondBetween,
        test.passes? first = some flag ∧ test.passes? second = some flag ∧
        RunAlike (if flag then body else orElse) first second firstBetween secondBetween ∧
        RunAlike rest firstBetween secondBetween firstFinal secondFinal := by
  constructor
  · rintro ⟨outcomes, _, _, hfirst, hsecond⟩
    -- The lists are kept apart, since appended lists do not unify.
    generalize hsame : outcomes = others at hsecond
    cases hfirst with
    | @ifElse _ flag _ _ _ _ _ _ inner outer _ hflag hinner houter =>
      cases hsecond with
      | ifElse hother hinnerSecond houterSecond =>
        obtain ⟨rfl, htail⟩ := List.cons.inj hsame
        obtain rfl := hinner.outcomes_eq (hbody.branch horElse flag) hinnerSecond htail
        obtain rfl := List.append_cancel_left htail
        exact ⟨flag, _, _, hflag, hother, ⟨inner, _, _, hinner, hinnerSecond⟩,
          ⟨outer, _, _, houter, houterSecond⟩⟩
      | ifReturned _ hreturned =>
        cases (hbody.branch horElse _).ending_eq hreturned.completes
    | ifReturned _ hreturned => cases (hbody.branch horElse _).ending_eq hreturned.completes
  · rintro ⟨flag, _, _, hfirst, hsecond, ⟨inner, _, _, hinner, hinnerSecond⟩,
      ⟨outer, _, _, houter, houterSecond⟩⟩
    obtain rfl := (hbody.branch horElse flag).ending_eq hinner.completes
    obtain rfl := (hbody.branch horElse flag).ending_eq hinnerSecond.completes
    exact ⟨flag :: (inner ++ outer), _, _, .ifElse hfirst hinner houter,
      .ifElse hsecond hinnerSecond houterSecond⟩

theorem RunAlike.loopEnd (hfirst : test.passes? first = some false)
    (hsecond : test.passes? second = some false)
    (hrest : RunAlike rest first second firstFinal secondFinal) :
    RunAlike (.whileLoop test body [] :: rest) first second firstFinal secondFinal := by
  obtain ⟨outcomes, _, _, hleft, hright⟩ := hrest
  exact ⟨false :: outcomes, _, _, .loopEnd hfirst hleft, .loopEnd hsecond hright⟩

theorem RunAlike.loopAgain {firstBetween secondBetween : Store}
    (hkinded : Kinded kinds inLoop false body)
    (hfirst : test.passes? first = some true) (hsecond : test.passes? second = some true)
    (hbody : RunAlike body first second firstBetween secondBetween)
    (hloop : RunAlike (.whileLoop test body orElse :: rest) firstBetween secondBetween
      firstFinal secondFinal) :
    RunAlike (.whileLoop test body orElse :: rest) first second firstFinal secondFinal := by
  obtain ⟨inner, _, _, hinner, hinnerSecond⟩ := hbody
  obtain ⟨outer, _, _, houter, houterSecond⟩ := hloop
  obtain rfl := hkinded.ending_eq hinner.completes
  obtain rfl := hkinded.ending_eq hinnerSecond.completes
  exact ⟨true :: (inner ++ outer), _, _, .loopAgain hfirst hinner houter,
    .loopAgain hsecond hinnerSecond houterSecond⟩

/-- Induction over the iterations that two runs of a loop make alike. -/
@[elab_as_elim]
theorem RunAlike.loop_induction {motive : Store → Store → Prop}
    (hkinded : Kinded kinds inLoop false body)
    (hend : ∀ first second, test.passes? first = some false →
      test.passes? second = some false →
      RunAlike rest first second firstFinal secondFinal → motive first second)
    (hagain : ∀ first second firstBetween secondBetween, test.passes? first = some true →
      test.passes? second = some true →
      RunAlike body first second firstBetween secondBetween →
      motive firstBetween secondBetween → motive first second)
    (halike : RunAlike (.whileLoop test body [] :: rest) first second firstFinal secondFinal) :
    motive first second := by
  obtain ⟨_, _, _, hfirst, hsecond⟩ := halike
  generalize hblock : Stmt.whileLoop test body [] :: rest = block at hfirst
  induction hfirst generalizing second with
  | loopEnd hflag hrest =>
    cases hblock
    cases hsecond with
    | loopEnd hother hrestSecond =>
      exact hend _ _ hflag hother ⟨_, _, _, hrest, hrestSecond⟩
  | @loopAgain _ _ _ _ _ _ _ inner outer _ hflag hinner _ _ ihloop =>
    cases hblock
    generalize hsame : true :: (inner ++ outer) = others at hsecond
    cases hsecond with
    | loopEnd => cases hsame
    | loopAgain hother hinnerSecond houterSecond =>
      obtain ⟨-, htail⟩ := List.cons.inj hsame
      obtain rfl := hinner.outcomes_eq hkinded hinnerSecond htail
      obtain rfl := List.append_cancel_left htail
      exact hagain _ _ _ _ hflag hother ⟨inner, _, _, hinner, hinnerSecond⟩
        (ihloop hend houterSecond rfl)
    | loopReturned _ hreturned => cases hkinded.ending_eq hreturned.completes
  | loopReturned _ hreturned =>
    cases hblock
    cases hkinded.ending_eq hreturned.completes
  | _ => cases hblock

end RunAlike

end HoareCheck.Source
