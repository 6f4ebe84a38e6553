import HoareCheck.Proofs.ClaimFrames
import HoareCheck.Proofs.ElaborationFaithful

/-!
# Names that elaboration keeps

The names that a program reads and assigns are kept in its term, except those in
parts that have no counterpart there (`DroppedAre`, `LostAre`).
-/

namespace HoareCheck

variable {term target condition : Term} {log before after : WriteLog} {value expr : Expr}
  {operator : Operator} {arguments : List Expr} {statement : Stmt} {rest : List Stmt}

/-! ## Names of terms -/

namespace Term

theorem freeNames_place (term : Term) (log : WriteLog) :
    (term.place log).1.freeNames = term.freeNames := by
  induction term generalizing log with
  | missing | var | literal | skip | havoc => rfl
  | unary _ _ ih | assume _ ih | assert _ ih => exact ih log
  | slice _ _ ihfirst ihsecond | subscript _ _ _ ihfirst ihsecond
  | binary _ _ _ ihfirst ihsecond | assign _ _ _ ihfirst ihsecond
  | seq _ _ ihfirst ihsecond => simp only [place, freeNames, ihfirst, ihsecond]
  | ifElse _ _ _ ihfirst ihsecond ihthird | loop _ _ _ ihfirst ihsecond ihthird =>
    simp only [place, freeNames, ihfirst, ihsecond, ihthird]
  | quantified _ _ _ _ _ _ _ _ ihbody => simp only [place, freeNames, name?_place, ihbody]

theorem variableNames_place (term : Term) (log : WriteLog) :
    (term.place log).1.variableNames = term.variableNames := by
  induction term generalizing log with
  | unary _ _ ih => exact ih log
  | subscript _ _ _ ihfirst ihsecond | binary _ _ _ ihfirst ihsecond =>
    simp only [place, variableNames, ihfirst, ihsecond]
  | _ => rfl

theorem freeNames_ofBounds (lower upper : Term) :
    (ofBounds lower upper).freeNames = lower.freeNames ++ upper.freeNames := by
  cases lower <;> rfl

/-- The names of an expression can be listed, and all of them are of a kind. -/
def NamesOnly (good : String → Prop) (term : Term) : Prop :=
  ∃ names, term.variableNames = .ok names ∧ ∀ name ∈ names, good name

/-- The names that a statement assigns can be listed, and all of them are of a
kind. -/
def AssignsOnly (good : String → Prop) (term : Term) : Prop :=
  ∃ names, term.assigned = .ok names ∧ ∀ name ∈ names, good name

section Listing

variable {good : String → Prop}

/-- Two listings, one after the other. -/
theorem exists_append_iff {first second : Except Fault (List String)} :
    (∃ names, (do return (← first) ++ (← second)) = Except.ok names ∧ ∀ name ∈ names, good name) ↔
      (∃ names, first = .ok names ∧ ∀ name ∈ names, good name) ∧
        ∃ names, second = .ok names ∧ ∀ name ∈ names, good name := by
  cases first with
  | error => simp [bind, Except.bind]
  | ok =>
    cases second with
    | error => simp [bind, Except.bind]
    | ok =>
      simp [bind, Except.bind, pure, Except.pure, or_imp, forall_and]

theorem namesOnly_var {name : String} : (var name).NamesOnly good ↔ good name := by
  simp [NamesOnly, variableNames, pure, Except.pure]

theorem not_namesOnly_missing : ¬ missing.NamesOnly good := by
  rintro ⟨_, hnames, -⟩
  cases hnames

theorem namesOnly_unary {operand : Term} :
    (unary operator operand).NamesOnly good ↔ operand.NamesOnly good :=
  Iff.rfl

theorem namesOnly_binary {left right : Term} :
    (binary left operator right).NamesOnly good ↔ left.NamesOnly good ∧ right.NamesOnly good :=
  exists_append_iff

theorem namesOnly_subscript {site : Site} {array index : Term} :
    (subscript site array index).NamesOnly good ↔ array.NamesOnly good ∧ index.NamesOnly good :=
  exists_append_iff

theorem namesOnly_place : (term.place log).1.NamesOnly good ↔ term.NamesOnly good := by
  rw [NamesOnly, variableNames_place, NamesOnly]

theorem assignsOnly_skip : skip.AssignsOnly good :=
  ⟨[], rfl, nofun⟩

theorem assignsOnly_assign {value : Term} {charge : Bool} :
    (assign target value charge).AssignsOnly good ↔ target.NamesOnly good :=
  Iff.rfl

theorem assignsOnly_seq {first second : Term} :
    (seq first second).AssignsOnly good ↔ first.AssignsOnly good ∧ second.AssignsOnly good :=
  exists_append_iff

theorem assignsOnly_ifElse {thenBranch elseBranch : Term} :
    (ifElse condition thenBranch elseBranch).AssignsOnly good ↔
      thenBranch.AssignsOnly good ∧ elseBranch.AssignsOnly good :=
  exists_append_iff

theorem assignsOnly_loop {invariant body : Term} :
    (loop invariant condition body).AssignsOnly good ↔ body.AssignsOnly good :=
  Iff.rfl

end Listing

/-- The terms that the assignments and tests of a statement evaluate, in order. -/
def evaluated : Term → List Term
  | .assign _ value _ => [value]
  | .ifElse condition thenBranch elseBranch =>
    condition :: (thenBranch.evaluated ++ elseBranch.evaluated)
  | .seq first second => first.evaluated ++ second.evaluated
  | .assert claim => [claim]
  | .loop _ condition body => condition :: body.evaluated
  | _ => []

/-- A claim tests nothing by itself. -/
theorem evaluated_place_claim (hframed : term.InFrame .claims) (log : WriteLog) :
    (term.place log).1.orSkip.evaluated = [] := by
  cases term with
  | skip => exact hframed.elim
  | assign | ifElse | seq | assume | assert | loop | havoc => exact hframed.1.elim
  | _ => rfl

end Term

namespace Source

/-! ## Expressions -/

mutual

/-- All names are of a kind that stand in parts of an expression without a
counterpart: the further operands of a chain of comparisons, calls, fields, the
step of a slice, tuples and lists. -/
def Expr.DroppedAre (good : String → Prop) : Expr → Prop
  | .name _ | .constant _ => True
  | .logical _ left right | .binary left _ right | .subscript left right =>
    left.DroppedAre good ∧ right.DroppedAre good
  | .compare left _ right _ more =>
    left.DroppedAre good ∧ right.DroppedAre good ∧ namesOfAll good more
  | .unary _ operand => operand.DroppedAre good
  | .call function arguments => function.NamesAre good ∧ namesOfAll good arguments
  | .member value _ => value.NamesAre good
  | .slice lower upper step =>
    droppedOfBound good lower ∧ droppedOfBound good upper ∧ namesOfBound good step
  | .tuple items | .list items => namesOfAll good items

@[inherit_doc Expr.DroppedAre]
def droppedOfBound (good : String → Prop) : Option Expr → Prop
  | none => True
  | some bound => bound.DroppedAre good

end

section Forms

variable {mode : RunMode} {before after : WriteLog} {term : Term}

theorem Expr.gives_elaborate_logical {operator : LogicalOp} {left right : Expr}
    (hgives : Gives ((Expr.logical operator left right).elaborate mode) before term after) :
    ∃ leftTerm between rightTerm, Gives (left.elaborate mode) before leftTerm between ∧
      Gives (right.elaborate mode) between rightTerm after ∧
      term = .binary leftTerm operator.operator rightTerm := by
  simp only [elaborate, gives_bind, gives_pure] at hgives
  obtain ⟨leftTerm, between, hleft, rightTerm, _, hright, rfl, rfl⟩ := hgives
  exact ⟨leftTerm, between, rightTerm, hleft, hright, rfl⟩

theorem Expr.gives_elaborate_unary {source : UnaryOp} {operand : Expr}
    (hgives : Gives ((Expr.unary source operand).elaborate mode) before term after) :
    ∃ inner operator, Gives (operand.elaborate mode) before inner after ∧
      term = .unary operator inner := by
  simp only [elaborate, gives_bind] at hgives
  obtain ⟨inner, _, hoperand, hterm⟩ := hgives
  cases hoperator : source.operator? with
  | none => simp [hoperator] at hterm
  | some operator =>
    simp only [hoperator, gives_pure] at hterm
    obtain ⟨rfl, rfl⟩ := hterm
    exact ⟨inner, operator, hoperand, rfl⟩

theorem Expr.gives_elaborate_subscript {index : Expr}
    (hgives : Gives ((Expr.subscript value index).elaborate mode) before term after) :
    ∃ array between position log, Gives (value.elaborate mode) before array between ∧
      Gives (index.elaborate mode) between position log ∧
      term = ((Term.subscript 0 array position).place log).1 := by
  simp only [elaborate, gives_bind] at hgives
  obtain ⟨array, between, hvalue, position, log, hindex, hplace⟩ := hgives
  exact ⟨array, between, position, log, hvalue, hindex, (gives_place.mp hplace).1.symm⟩

end Forms

section Expressions

variable {good : String → Prop}

mutual

theorem Expr.droppedAre_of_namesAre :
    ∀ expr : Expr, expr.NamesAre good → expr.DroppedAre good
  | .name _, _ | .constant _, _ => trivial
  | .logical _ left right, hnames | .binary left _ right, hnames
  | .subscript left right, hnames =>
    ⟨left.droppedAre_of_namesAre hnames.1, right.droppedAre_of_namesAre hnames.2⟩
  | .compare left _ right _ _, hnames =>
    ⟨left.droppedAre_of_namesAre hnames.1, right.droppedAre_of_namesAre hnames.2.1,
      hnames.2.2⟩
  | .unary _ operand, hnames => operand.droppedAre_of_namesAre hnames
  | .call .., hnames | .member .., hnames | .tuple _, hnames | .list _, hnames => hnames
  | .slice lower upper _, hnames =>
    ⟨droppedOfBound_of_names lower hnames.1, droppedOfBound_of_names upper hnames.2.1,
      hnames.2.2⟩

theorem droppedOfBound_of_names :
    ∀ bound : Option Expr, namesOfBound good bound → droppedOfBound good bound
  | none, _ => trivial
  | some bound, hnames => bound.droppedAre_of_namesAre hnames

end

mutual

/-- The names that an expression reads are those of its term and of its parts
without a counterpart. -/
theorem Expr.namesAre_of_droppedAre : ∀ (expr : Expr) {before after : WriteLog} {term : Term},
    Gives (expr.elaborate .single) before term after →
    (∀ name ∈ term.freeNames, good name) → expr.DroppedAre good → expr.NamesAre good
  | .name id, _, _, _, hgives, hgood, _ => by
    rw [Expr.elaborate, gives_pure] at hgives
    rw [← hgives.1] at hgood
    exact hgood id List.mem_cons_self
  | .constant _, _, _, _, _, _, _ => trivial
  | .logical _ left right, _, _, _, hgives, hgood, hdropped => by
    obtain ⟨_, _, _, hleft, hright, rfl⟩ := Expr.gives_elaborate_logical hgives
    rw [Term.freeNames, List.forall_mem_append] at hgood
    exact ⟨left.namesAre_of_droppedAre hleft hgood.1 hdropped.1,
      right.namesAre_of_droppedAre hright hgood.2 hdropped.2⟩
  | .compare left _ right _ _, _, _, _, hgives, hgood, hdropped => by
    obtain ⟨_, _, _, _, hleft, hright, -, rfl⟩ := Expr.gives_elaborate_compare hgives
    rw [Term.freeNames, List.forall_mem_append] at hgood
    exact ⟨left.namesAre_of_droppedAre hleft hgood.1 hdropped.1,
      right.namesAre_of_droppedAre hright hgood.2 hdropped.2.1, hdropped.2.2⟩
  | .binary left _ right, _, _, _, hgives, hgood, hdropped => by
    obtain ⟨_, _, _, _, hleft, hright, -, rfl⟩ := Expr.gives_elaborate_binary hgives
    rw [Term.freeNames, List.forall_mem_append] at hgood
    exact ⟨left.namesAre_of_droppedAre hleft hgood.1 hdropped.1,
      right.namesAre_of_droppedAre hright hgood.2 hdropped.2⟩
  | .unary _ operand, _, _, _, hgives, hgood, hdropped => by
    obtain ⟨_, _, hoperand, rfl⟩ := Expr.gives_elaborate_unary hgives
    exact operand.namesAre_of_droppedAre hoperand hgood hdropped
  | .subscript value index, _, _, _, hgives, hgood, hdropped => by
    obtain ⟨_, _, _, _, hvalue, hindex, rfl⟩ := Expr.gives_elaborate_subscript hgives
    rw [Term.freeNames_place, Term.freeNames, List.forall_mem_append] at hgood
    exact ⟨value.namesAre_of_droppedAre hvalue hgood.1 hdropped.1,
      index.namesAre_of_droppedAre hindex hgood.2 hdropped.2⟩
  | .slice lower upper _, _, _, _, hgives, hgood, hdropped => by
    simp only [Expr.elaborate, gives_bind, gives_pure] at hgives
    obtain ⟨_, _, hlower, _, _, hupper, rfl, rfl⟩ := hgives
    rw [Term.freeNames_ofBounds, List.forall_mem_append] at hgood
    exact ⟨namesOfBound_of_dropped lower hlower hgood.1 hdropped.1,
      namesOfBound_of_dropped upper hupper hgood.2 hdropped.2.1, hdropped.2.2⟩
  | .call .., _, _, _, _, _, hdropped | .member .., _, _, _, _, _, hdropped
  | .tuple _, _, _, _, _, _, hdropped | .list _, _, _, _, _, _, hdropped => hdropped

theorem namesOfBound_of_dropped : ∀ (bound : Option Expr) {before after : WriteLog} {term : Term},
    Gives (elaborateBound .single bound) before term after →
    (∀ name ∈ term.freeNames, good name) → droppedOfBound good bound →
    namesOfBound good bound
  | none, _, _, _, _, _, _ => trivial
  | some bound, _, _, _, hgives, hgood, hdropped => by
    rw [elaborateBound] at hgives
    exact bound.namesAre_of_droppedAre hgives hgood hdropped

end

/-- What an expression reads is kept in a term if what its parts without a
counterpart read is. -/
def Expr.KeptIn (expr : Expr) (term : Term) : Prop :=
  expr.NamesAre (· ∈ term.freeNames) ↔ expr.DroppedAre (· ∈ term.freeNames)

theorem Expr.keptIn_of_gives (hgives : Gives (expr.elaborate .single) before term after) :
    expr.KeptIn term :=
  ⟨expr.droppedAre_of_namesAre, expr.namesAre_of_droppedAre hgives fun _ hname => hname⟩

end Expressions

/-! ## Statements -/

mutual

/-- All names that are assigned with an expression as the target are of a kind;
to assign an element of an array assigns the array. -/
def Expr.AssignedAre (good : String → Prop) : Expr → Prop
  | .name id => good id
  | .subscript value _ => value.AssignedAre good
  | .tuple items | .list items => assignedOfAll good items
  | _ => True

@[inherit_doc Expr.AssignedAre]
def assignedOfAll (good : String → Prop) : List Expr → Prop
  | [] => True
  | first :: rest => first.AssignedAre good ∧ assignedOfAll good rest

end

mutual

/-- All names that a statement can assign are of a kind. -/
def Stmt.AssignedAre (good : String → Prop) : Stmt → Prop
  | .functionDef _ body => assignedOfBlock good body
  | .assign targets _ => assignedOfAll good targets
  | .augmented target _ _ => target.AssignedAre good
  | .annotated target _ value => value.isSome → target.AssignedAre good
  | .ifElse _ body orElse | .whileLoop _ body orElse =>
    assignedOfBlock good body ∧ assignedOfBlock good orElse
  | .forLoop target _ body orElse =>
    target.AssignedAre good ∧ assignedOfBlock good body ∧ assignedOfBlock good orElse
  | _ => True

@[inherit_doc Stmt.AssignedAre]
def assignedOfBlock (good : String → Prop) : List Stmt → Prop
  | [] => True
  | first :: rest => first.AssignedAre good ∧ assignedOfBlock good rest

end

mutual

/-- All names are of a kind that a statement assigns without a counterpart: by
targets after the first, by augmented and annotated assignments, in a loop over
items, and after the end of a loop. -/
def Stmt.LostAre (good : String → Prop) : Stmt → Prop
  | .functionDef _ body => lostOfBlock good body
  | .assign targets _ => assignedOfAll good targets.tail
  | .augmented target _ _ => target.AssignedAre good
  | .annotated target _ value => value.isSome → target.AssignedAre good
  | .ifElse _ body orElse => lostOfBlock good body ∧ lostOfBlock good orElse
  | .whileLoop _ body orElse => lostOfBlock good body ∧ assignedOfBlock good orElse
  | .forLoop target _ body orElse =>
    target.AssignedAre good ∧ assignedOfBlock good body ∧ assignedOfBlock good orElse
  | _ => True

@[inherit_doc Stmt.LostAre]
def lostOfBlock (good : String → Prop) : List Stmt → Prop
  | [] => True
  | first :: rest => first.LostAre good ∧ lostOfBlock good rest

end

mutual

/-- The right-hand sides and tests of a statement that have a counterpart, in
order. -/
def Stmt.evaluated : Stmt → List Expr
  | .functionDef _ body => evaluatedOfBlock body
  | .assign _ value => [value]
  | .ifElse test body orElse => test :: (evaluatedOfBlock body ++ evaluatedOfBlock orElse)
  | .whileLoop test body _ => test :: evaluatedOfBlock body
  | .assert test _ => [test]
  | _ => []

@[inherit_doc Stmt.evaluated]
def evaluatedOfBlock : List Stmt → List Expr
  | [] => []
  | first :: rest => first.evaluated ++ evaluatedOfBlock rest

end

/-- Whether the term of an expression has names that can be listed.  Calls,
fields, tuples and lists become missing terms, which have none. -/
def Expr.isListable : Expr → Bool
  | .name _ | .constant _ | .slice .. => true
  | .logical _ left right | .compare left _ right _ _ | .binary left _ right
  | .subscript left right => left.isListable && right.isListable
  | .unary _ operand => operand.isListable
  | .call .. | .member .. | .tuple _ | .list _ => false

/-- Whether an expression may stand as a statement: its term is an assumption or
missing. -/
def Expr.isStatement : Expr → Bool
  | .call (.name id) _ => id ≠ "invariant"
  | .call .. | .member .. | .tuple _ | .list _ => true
  | _ => false

mutual

/-- Whether the term of a statement has assigned names that can be listed.  In
the body of a loop the calls of `invariant` are no statements. -/
def Stmt.isListable : Stmt → Bool
  | .functionDef _ body => listableBlock false body
  | .assign (.subscript value index :: _) _ => value.isListable && index.isListable
  | .ifElse _ body orElse => listableBlock false body && listableBlock false orElse
  | .whileLoop _ body _ => listableBlock true body
  | .expr value => value.isStatement
  | _ => true

@[inherit_doc Stmt.isListable]
def listableBlock (inLoop : Bool) : List Stmt → Bool
  | [] => true
  | first :: rest =>
    ((inLoop && first.isInvariant) || first.isListable) && listableBlock inLoop rest

end

section Statements

variable {good : String → Prop}

mutual

theorem Stmt.lostAre_of_assignedAre :
    ∀ statement : Stmt, statement.AssignedAre good → statement.LostAre good
  | .functionDef _ body, hassigned => lostOfBlock_of_assigned body hassigned
  | .assign [] _, _ => trivial
  | .assign (_ :: _) _, hassigned => hassigned.2
  | .augmented .., hassigned | .annotated .., hassigned | .forLoop .., hassigned => hassigned
  | .ifElse _ body orElse, hassigned =>
    ⟨lostOfBlock_of_assigned body hassigned.1, lostOfBlock_of_assigned orElse hassigned.2⟩
  | .whileLoop _ body _, hassigned =>
    ⟨lostOfBlock_of_assigned body hassigned.1, hassigned.2⟩
  | .assert .., _ | .returned _, _ | .pass, _ | .breakLoop, _ | .continueLoop, _
  | .expr _, _ => trivial

theorem lostOfBlock_of_assigned :
    ∀ block : List Stmt, assignedOfBlock good block → lostOfBlock good block
  | [], _ => trivial
  | first :: rest, hassigned =>
    ⟨first.lostAre_of_assignedAre hassigned.1, lostOfBlock_of_assigned rest hassigned.2⟩

end

/-- What is assigned by a target is among the names of its term. -/
theorem Expr.assignedAre_of_namesOnly : ∀ (expr : Expr) {before after : WriteLog} {term : Term},
    Gives (expr.elaborate .single) before term after → term.NamesOnly good →
    expr.AssignedAre good
  | .name _, _, _, _, hgives, hterm => by
    rw [elaborate_name, gives_pure] at hgives
    rw [← hgives.1] at hterm
    exact Term.namesOnly_var.mp hterm
  | .subscript value _, _, _, _, hgives, hterm => by
    obtain ⟨_, _, _, _, hvalue, -, rfl⟩ := gives_elaborate_subscript hgives
    rw [Term.namesOnly_place, Term.namesOnly_subscript] at hterm
    exact value.assignedAre_of_namesOnly hvalue hterm.1
  | .tuple _, _, _, _, hgives, hterm | .list _, _, _, _, hgives, hterm => by
    simp only [elaborate, gives_bind, gives_pure] at hgives
    obtain ⟨_, _, -, rfl, -⟩ := hgives
    exact absurd hterm Term.not_namesOnly_missing
  | .constant _, _, _, _, _, _ | .logical .., _, _, _, _, _ | .compare .., _, _, _, _, _
  | .binary .., _, _, _, _, _ | .unary .., _, _, _, _, _ | .call .., _, _, _, _, _
  | .member .., _, _, _, _, _ | .slice .., _, _, _, _, _ => trivial

theorem Expr.namesOnly_of_isListable : ∀ (expr : Expr) {before after : WriteLog} {term : Term},
    Gives (expr.elaborate .single) before term after → expr.isListable = true →
    term.NamesOnly fun _ => True
  | .name _, _, _, _, hgives, _ => by
    rw [elaborate_name, gives_pure] at hgives
    rw [← hgives.1]
    exact Term.namesOnly_var.mpr trivial
  | .constant _, _, _, _, hgives, _ => by
    rw [elaborate] at hgives
    split at hgives
    · rw [gives_pure] at hgives
      rw [← hgives.1]
      exact ⟨[], rfl, List.forall_mem_nil _⟩
    · exact absurd hgives not_gives_throw
  | .slice .., _, _, _, hgives, _ => by
    simp only [elaborate, gives_bind, gives_pure] at hgives
    obtain ⟨first, _, -, _, _, -, rfl, -⟩ := hgives
    exact ⟨[], by cases first <;> rfl, List.forall_mem_nil _⟩
  | .logical _ left right, _, _, _, hgives, hlistable => by
    obtain ⟨_, _, _, hleft, hright, rfl⟩ := gives_elaborate_logical hgives
    rw [isListable, Bool.and_eq_true] at hlistable
    exact Term.namesOnly_binary.mpr ⟨left.namesOnly_of_isListable hleft hlistable.1,
      right.namesOnly_of_isListable hright hlistable.2⟩
  | .compare left _ right _ _, _, _, _, hgives, hlistable => by
    obtain ⟨_, _, _, _, hleft, hright, -, rfl⟩ := gives_elaborate_compare hgives
    rw [isListable, Bool.and_eq_true] at hlistable
    exact Term.namesOnly_binary.mpr ⟨left.namesOnly_of_isListable hleft hlistable.1,
      right.namesOnly_of_isListable hright hlistable.2⟩
  | .binary left _ right, _, _, _, hgives, hlistable => by
    obtain ⟨_, _, _, _, hleft, hright, -, rfl⟩ := gives_elaborate_binary hgives
    rw [isListable, Bool.and_eq_true] at hlistable
    exact Term.namesOnly_binary.mpr ⟨left.namesOnly_of_isListable hleft hlistable.1,
      right.namesOnly_of_isListable hright hlistable.2⟩
  | .unary _ operand, _, _, _, hgives, hlistable => by
    obtain ⟨_, _, hoperand, rfl⟩ := gives_elaborate_unary hgives
    exact Term.namesOnly_unary.mpr (operand.namesOnly_of_isListable hoperand hlistable)
  | .subscript value index, _, _, _, hgives, hlistable => by
    obtain ⟨_, _, _, _, hvalue, hindex, rfl⟩ := gives_elaborate_subscript hgives
    rw [isListable, Bool.and_eq_true] at hlistable
    rw [Term.namesOnly_place, Term.namesOnly_subscript]
    exact ⟨value.namesOnly_of_isListable hvalue hlistable.1,
      index.namesOnly_of_isListable hindex hlistable.2⟩

/-- An argument of `assume` or `invariant` is read as a claim. -/
theorem evaluated_claimArgument (hgives : Gives (claimArgument arguments) before term after) :
    term.orSkip.evaluated = [] := by
  unfold claimArgument at hgives
  split at hgives
  · exact absurd hgives not_gives_throw
  · rw [Logged.parse] at hgives
    split at hgives
    · next claim hclaim =>
        rw [← (gives_place.mp hgives).1]
        exact Term.evaluated_place_claim (Term.inFrame_of_ofClaim hclaim) before
    · exact absurd hgives not_gives_throw
  · exact absurd hgives not_gives_throw
  · exact absurd hgives not_gives_throw

/-- The term of a call: an assumption, a claim or missing. -/
theorem Expr.gives_elaborate_call {function : Expr}
    (hgives : Gives ((Expr.call function arguments).elaborate .single) before term after) :
    term = .missing ∨ (∃ claim, term = .assume claim) ∨
      function.calledName = pure "invariant" ∧
        Gives (claimArgument arguments) before term after := by
  rw [elaborate, gives_bind] at hgives
  obtain ⟨_, _, hcalled, hterm⟩ := hgives
  cases function with
  | name id =>
    rw [calledName, gives_pure] at hcalled
    obtain ⟨rfl, rfl⟩ := hcalled
    by_cases hassume : id = "assume"
    · rw [if_pos hassume, gives_bind] at hterm
      obtain ⟨claim, _, -, hclaim⟩ := hterm
      exact .inr (.inl ⟨claim, (gives_pure.mp hclaim).1.symm⟩)
    · rw [if_neg hassume] at hterm
      by_cases hinvariant : id = "invariant"
      · rw [if_pos hinvariant] at hterm
        exact .inr (.inr ⟨by rw [calledName, hinvariant], hterm⟩)
      · rw [if_neg hinvariant] at hterm
        exact .inl (gives_pure.mp hterm).1.symm
  | _ => exact absurd hcalled not_gives_throw

/-- An expression tests nothing as a statement. -/
theorem Expr.evaluated_of_gives (hgives : Gives (expr.elaborate .single) before term after) :
    term.orSkip.evaluated = [] := by
  cases expr with
  | name =>
    rw [elaborate_name, gives_pure] at hgives
    rw [← hgives.1]
    rfl
  | constant =>
    rw [elaborate] at hgives
    split at hgives
    · rw [← (gives_pure.mp hgives).1]
      rfl
    · exact absurd hgives not_gives_throw
  | logical =>
    obtain ⟨_, _, _, -, -, rfl⟩ := gives_elaborate_logical hgives
    rfl
  | compare =>
    obtain ⟨_, _, _, _, -, -, -, rfl⟩ := gives_elaborate_compare hgives
    rfl
  | binary =>
    obtain ⟨_, _, _, _, -, -, -, rfl⟩ := gives_elaborate_binary hgives
    rfl
  | unary =>
    obtain ⟨_, _, -, rfl⟩ := gives_elaborate_unary hgives
    rfl
  | subscript =>
    obtain ⟨_, _, _, _, -, -, rfl⟩ := gives_elaborate_subscript hgives
    rfl
  | slice =>
    simp only [elaborate, gives_bind, gives_pure] at hgives
    obtain ⟨first, _, -, _, _, -, rfl, -⟩ := hgives
    cases first <;> rfl
  | call =>
    rcases gives_elaborate_call hgives with rfl | ⟨claim, rfl⟩ | ⟨-, hclaim⟩
    · rfl
    · rfl
    · exact evaluated_claimArgument hclaim
  | member | tuple | list =>
    simp only [elaborate, gives_bind, gives_pure] at hgives
    obtain ⟨_, _, -, rfl, -⟩ := hgives
    rfl

theorem Expr.assignsOnly_of_isStatement (hgives : Gives (expr.elaborate .single) before term after)
    (hstatement : expr.isStatement = true) : term.orSkip.AssignsOnly good := by
  cases expr with
  | call function =>
    rcases gives_elaborate_call hgives with rfl | ⟨claim, rfl⟩ | ⟨hcalled, hclaim⟩
    · exact Term.assignsOnly_skip
    · exact ⟨[], rfl, nofun⟩
    · cases function with
      | name id =>
        rw [isStatement, decide_eq_true_eq] at hstatement
        have hgiven : Gives (pure "invariant" : Logged String) before id before :=
          hcalled ▸ gives_pure.mpr ⟨rfl, rfl⟩
        exact absurd (gives_pure.mp hgiven).1.symm hstatement
      | _ =>
        have hgiven : Gives (pure "invariant" : Logged String) before _ before :=
          gives_pure.mpr ⟨rfl, rfl⟩
        exact absurd (hcalled ▸ hgiven) not_gives_throw
  | member | tuple | list =>
    simp only [elaborate, gives_bind, gives_pure] at hgives
    obtain ⟨_, _, -, rfl, -⟩ := hgives
    exact Term.assignsOnly_skip
  | _ => cases hstatement

/-- The term keeps what a statement assigns and reads. -/
structure Stmt.RetainedBy (statement : Stmt) (term : Term) : Prop where
  keeps : ∀ good, term.orSkip.AssignsOnly good → statement.LostAre good →
    statement.AssignedAre good
  lists : statement.isListable = true → term.orSkip.AssignsOnly fun _ => True
  reads : List.Forall₂ Expr.KeptIn statement.evaluated term.orSkip.evaluated

/-- The statement that the part of a block before some place stands for. -/
def standing (before : Option Term) : Term :=
  (before.getD .skip).orSkip

/-- The same of a block, whose term is put after that of earlier statements. -/
structure BlockRetained (inLoop : Bool) (block : List Stmt) (before result : Option Term) :
    Prop where
  keeps : ∀ good, (standing result).AssignsOnly good →
    (standing before).AssignsOnly good ∧ (lostOfBlock good block → assignedOfBlock good block)
  lists : listableBlock inLoop block = true → ((standing before).AssignsOnly fun _ => True) →
    (standing result).AssignsOnly fun _ => True
  reads : ∃ values, (standing result).evaluated = (standing before).evaluated ++ values ∧
    List.Forall₂ Expr.KeptIn (evaluatedOfBlock block) values

section Blocks

variable {inLoop : Bool} {before result : Option Term} {term : Term}

theorem assignsOnly_following :
    (standing (some (following before term))).AssignsOnly good ↔
      (standing before).AssignsOnly good ∧ term.orSkip.AssignsOnly good := by
  cases before with
  | none => exact (and_iff_right Term.assignsOnly_skip).symm
  | some => exact Term.assignsOnly_seq

theorem evaluated_following (before : Option Term) (term : Term) :
    (standing (some (following before term))).evaluated =
      (standing before).evaluated ++ term.orSkip.evaluated := by
  cases before <;> rfl

theorem assignsOnly_asBlock :
    (asBlock result).AssignsOnly good ↔ (standing result).AssignsOnly good := by
  cases result with
  | none => exact Iff.rfl
  | some term =>
    cases term with
    | seq => exact Iff.rfl
    | _ => exact Term.assignsOnly_seq.trans (and_iff_left Term.assignsOnly_skip)

theorem evaluated_asBlock (block : Option Term) :
    (asBlock block).evaluated = (standing block).evaluated := by
  cases block with
  | none => rfl
  | some term => cases term <;> simp [asBlock, standing, Term.andThen, Term.orSkip, Term.evaluated]

section Alone

variable {block : List Stmt} (hretained : BlockRetained inLoop block none result)

include hretained

/-- What a block assigns on its own. -/
theorem BlockRetained.keeps_asBlock (hassigns : (asBlock result).AssignsOnly good)
    (hlost : lostOfBlock good block) : assignedOfBlock good block :=
  (hretained.keeps good (assignsOnly_asBlock.mp hassigns)).2 hlost

theorem BlockRetained.lists_asBlock (hlistable : listableBlock inLoop block = true) :
    (asBlock result).AssignsOnly fun _ => True :=
  assignsOnly_asBlock.mpr (hretained.lists hlistable Term.assignsOnly_skip)

/-- What a block reads on its own. -/
theorem BlockRetained.reads_asBlock :
    List.Forall₂ Expr.KeptIn (evaluatedOfBlock block) (asBlock result).evaluated := by
  obtain ⟨_, hvalues, hreads⟩ := hretained.reads
  rw [evaluated_asBlock, hvalues]
  exact hreads

end Alone

theorem blockRetained_nil : BlockRetained inLoop [] before before where
  keeps _ hassigns := ⟨hassigns, fun _ => trivial⟩
  lists _ hassigns := hassigns
  reads := ⟨[], (List.append_nil _).symm, .nil⟩

theorem Stmt.RetainedBy.cons (hplain : (inLoop && statement.isInvariant) = false)
    (hstatement : statement.RetainedBy term)
    (hrest : BlockRetained inLoop rest (some (following before term)) result) :
    BlockRetained inLoop (statement :: rest) before result where
  keeps good hassigns := by
    obtain ⟨hfollowing, hkeeps⟩ := hrest.keeps good hassigns
    obtain ⟨hbefore, hterm⟩ := assignsOnly_following.mp hfollowing
    exact ⟨hbefore, fun hlost => ⟨hstatement.keeps good hterm hlost.1, hkeeps hlost.2⟩⟩
  lists hlistable hbefore := by
    rw [listableBlock, hplain, Bool.false_or, Bool.and_eq_true] at hlistable
    apply hrest.lists hlistable.2
    exact assignsOnly_following.mpr ⟨hbefore, hstatement.lists hlistable.1⟩
  reads := by
    obtain ⟨values, hvalues, hreads⟩ := hrest.reads
    refine ⟨term.orSkip.evaluated ++ values, ?_, ?_⟩
    · rw [hvalues, evaluated_following, List.append_assoc]
    · exact List.rel_append hstatement.reads hreads

theorem exists_arguments_of_isInvariant (hinvariant : statement.isInvariant = true) :
    ∃ arguments, statement = .expr (.call (.name "invariant") arguments) := by
  cases statement with
  | expr value =>
    cases value with
    | call function arguments =>
      cases function with
      | name id =>
        obtain rfl : id = "invariant" := of_decide_eq_true hinvariant
        exact ⟨arguments, rfl⟩
      | _ => cases hinvariant
    | _ => cases hinvariant
  | _ => cases hinvariant

/-- An invariant is no statement, and assigns nothing. -/
theorem BlockRetained.invariant (hinvariant : statement.isInvariant = true)
    (hrest : BlockRetained inLoop rest before result) :
    BlockRetained inLoop (statement :: rest) before result := by
  obtain ⟨_, rfl⟩ := exists_arguments_of_isInvariant hinvariant
  refine ⟨?_, ?_, hrest.reads⟩
  · intro good hassigns
    obtain ⟨hbefore, hkeeps⟩ := hrest.keeps good hassigns
    exact ⟨hbefore, fun hlost => ⟨trivial, hkeeps hlost.2⟩⟩
  · intro hlistable
    rw [listableBlock, Bool.and_eq_true] at hlistable
    exact hrest.lists hlistable.2

end Blocks

/-- A statement of which nothing is kept. -/
theorem Stmt.retainedBy_missing (hreads : statement.evaluated = [])
    (hkeeps : ∀ good, statement.LostAre good → statement.AssignedAre good) :
    statement.RetainedBy .missing where
  keeps good _ := hkeeps good
  lists _ := Term.assignsOnly_skip
  reads := by
    rw [hreads]
    exact .nil

/-- Only the first target of an assignment counts. -/
theorem retainedBy_assign {targets : List Expr} {between : WriteLog} {result : Term}
    (htarget : Gives (assignmentTarget .single targets) before target between)
    (hvalue : Gives (value.elaborate .single) log result after) :
    (Stmt.assign targets value).RetainedBy (.assign target result false) := by
  refine ⟨?_, ?_, .cons (Expr.keptIn_of_gives hvalue) .nil⟩
  · intro good hassigns hlost
    replace hassigns := Term.assignsOnly_assign.mp hassigns
    cases targets with
    | nil => trivial
    | cons first =>
      refine ⟨?_, hlost⟩
      cases first with
      | name =>
        rw [assignmentTarget, gives_pure] at htarget
        rw [← htarget.1] at hassigns
        exact Term.namesOnly_var.mp hassigns
      | subscript array index =>
        rw [assignmentTarget] at htarget
        exact (Expr.subscript array index).assignedAre_of_namesOnly htarget hassigns
      | _ => exact absurd htarget not_gives_throw
  · intro hlistable
    apply Term.assignsOnly_assign.mpr
    cases targets with
    | nil => exact absurd htarget not_gives_throw
    | cons first =>
      cases first with
      | name =>
        rw [assignmentTarget, gives_pure] at htarget
        rw [← htarget.1]
        exact Term.namesOnly_var.mpr trivial
      | subscript array index =>
        rw [assignmentTarget] at htarget
        exact (Expr.subscript array index).namesOnly_of_isListable htarget hlistable
      | _ => exact absurd htarget not_gives_throw

mutual

theorem Stmt.retainedBy : ∀ (statement : Stmt) {before after : WriteLog} {term : Term},
    Gives (statement.elaborate .single) before term after → statement.RetainedBy term
  | .functionDef _ body, _, _, _, hgives => by
    simp only [Stmt.elaborate, gives_bind, gives_pure] at hgives
    obtain ⟨_, _, hbody, rfl, -⟩ := hgives
    have hretained := blockRetained body hbody
    constructor
    · intro good
      rw [orSkip_asBlock]
      exact hretained.keeps_asBlock
    · intro hlistable
      rw [orSkip_asBlock]
      exact hretained.lists_asBlock hlistable
    · rw [orSkip_asBlock]
      exact hretained.reads_asBlock
  | .assign .., _, _, _, hgives => by
    simp only [Stmt.elaborate, gives_bind, gives_pure] at hgives
    obtain ⟨_, _, htarget, _, _, hvalue, rfl, -⟩ := hgives
    exact retainedBy_assign htarget hvalue
  | .augmented .., _, _, _, hgives => by
    simp only [Stmt.elaborate, gives_bind, gives_pure] at hgives
    obtain ⟨_, _, -, _, _, -, rfl, -⟩ := hgives
    exact Stmt.retainedBy_missing rfl fun _ hlost => hlost
  | .annotated .., _, _, _, hgives => by
    simp only [Stmt.elaborate, gives_bind, gives_pure] at hgives
    obtain ⟨_, _, -, _, _, -, _, _, -, rfl, -⟩ := hgives
    exact Stmt.retainedBy_missing rfl fun _ hlost => hlost
  | .ifElse _ body orElse, _, _, _, hgives => by
    simp only [Stmt.elaborate, gives_bind, gives_pure] at hgives
    obtain ⟨_, _, htest, _, _, hthen, _, _, helse, rfl, -⟩ := hgives
    have hbody := blockRetained body hthen
    have horElse := blockRetained orElse helse
    rw [Term.branch, orSkip_asBlock, orSkip_asBlock]
    constructor
    · intro good hassigns hlost
      obtain ⟨hfirst, hsecond⟩ := Term.assignsOnly_ifElse.mp hassigns
      exact ⟨hbody.keeps_asBlock hfirst hlost.1, horElse.keeps_asBlock hsecond hlost.2⟩
    · intro hlistable
      rw [Stmt.isListable, Bool.and_eq_true] at hlistable
      exact Term.assignsOnly_ifElse.mpr
        ⟨hbody.lists_asBlock hlistable.1, horElse.lists_asBlock hlistable.2⟩
    · exact .cons (Expr.keptIn_of_gives htest)
        (List.rel_append hbody.reads_asBlock horElse.reads_asBlock)
  | .whileLoop _ body _, _, _, _, hgives => by
    simp only [Stmt.elaborate, gives_bind, gives_pure] at hgives
    obtain ⟨_, _, htest, _, _, -, _, _, hbody, rfl, -⟩ := hgives
    have hretained := blockRetained body hbody
    rw [Term.repeatWhile, orSkip_asBlock]
    constructor
    · intro good hassigns hlost
      exact ⟨hretained.keeps_asBlock (Term.assignsOnly_loop.mp hassigns) hlost.1, hlost.2⟩
    · intro hlistable
      exact Term.assignsOnly_loop.mpr (hretained.lists_asBlock hlistable)
    · exact .cons (Expr.keptIn_of_gives htest) hretained.reads_asBlock
  | .forLoop .., _, _, _, hgives => by
    simp only [Stmt.elaborate, gives_bind, gives_pure] at hgives
    obtain ⟨_, _, -, _, _, -, _, _, -, _, _, -, rfl, -⟩ := hgives
    exact Stmt.retainedBy_missing rfl fun _ hlost => hlost
  | .assert .., _, _, _, hgives => by
    simp only [Stmt.elaborate, gives_bind, gives_pure] at hgives
    obtain ⟨_, _, htest, rfl, -⟩ := hgives
    exact ⟨fun _ _ _ => trivial, fun _ => ⟨[], rfl, nofun⟩, .cons (Expr.keptIn_of_gives htest) .nil⟩
  | .returned _, _, _, _, hgives | .pass, _, _, _, hgives => by
    rw [Stmt.elaborate, gives_pure] at hgives
    rw [← hgives.1]
    exact ⟨fun _ _ _ => trivial, fun _ => Term.assignsOnly_skip, .nil⟩
  | .breakLoop, _, _, _, hgives | .continueLoop, _, _, _, hgives => by
    rw [Stmt.elaborate, gives_pure] at hgives
    rw [← hgives.1]
    exact Stmt.retainedBy_missing rfl fun _ hlost => hlost
  | .expr _, _, _, _, hgives => by
    rw [Stmt.elaborate] at hgives
    refine ⟨fun _ _ _ => trivial, Expr.assignsOnly_of_isStatement hgives, ?_⟩
    rw [Expr.evaluated_of_gives hgives]
    exact .nil

theorem blockRetained : ∀ (block : List Stmt) {inLoop : Bool} {earlier result : Option Term}
    {before after : WriteLog},
    Gives (elaborateBlock .single inLoop earlier block) before result after →
    BlockRetained inLoop block earlier result
  | [], _, _, _, _, _, hgives => by
    rw [elaborateBlock_nil, gives_pure] at hgives
    obtain ⟨rfl, -⟩ := hgives
    exact blockRetained_nil
  | statement :: rest, inLoop, _, _, _, _, hgives => by
    cases hinvariant : inLoop && statement.isInvariant with
    | true =>
      rw [elaborateBlock, hinvariant] at hgives
      exact (blockRetained rest hgives).invariant (Bool.and_eq_true _ _ ▸ hinvariant).2
    | false =>
      rw [gives_elaborateBlock_cons hinvariant] at hgives
      obtain ⟨_, _, hterm, hgives⟩ := hgives
      exact (statement.retainedBy hterm).cons hinvariant (blockRetained rest hgives)

end

end Statements

/-- Of what a program assigns, the term lists all or all but what is lost; of what
a test or a right-hand side reads, its term has all or all but what is dropped.
The assigned names can be listed if the targets and the expressions that stand as
statements allow it. -/
theorem elaborate_retains_names_iff {program : Program} {before after : WriteLog} {term : Term}
    (hgives : Gives (elaborate .single program) before term after) :
    (∀ names, term.assigned = .ok names →
      (assignedOfBlock (· ∈ names) program ↔ lostOfBlock (· ∈ names) program)) ∧
    (listableBlock false program = true → ∃ names, term.assigned = .ok names) ∧
    List.Forall₂ (fun expr value =>
        expr.NamesAre (· ∈ value.freeNames) ↔ expr.DroppedAre (· ∈ value.freeNames))
      (evaluatedOfBlock program) term.evaluated := by
  simp only [elaborate, gives_bind, gives_pure] at hgives
  obtain ⟨result, _, hblock, rfl, -⟩ := hgives
  have hretained := blockRetained program hblock
  refine ⟨?_, ?_, hretained.reads_asBlock⟩
  · intro names hnames
    have hassigns : (asBlock result).AssignsOnly (· ∈ names) := ⟨names, hnames, fun _ h => h⟩
    exact ⟨lostOfBlock_of_assigned program, hretained.keeps_asBlock hassigns⟩
  · intro hlistable
    obtain ⟨names, hnames, -⟩ := hretained.lists_asBlock hlistable
    exact ⟨names, hnames⟩

/-- The larger of two numbers is put into an array. -/
def storeLarger : Program :=
  [.ifElse (.compare (.name "x") .lt (.name "y") [] [])
    [.assign [.subscript (.name "a") (.name "i")] (.name "y")]
    [.assign [.subscript (.name "a") (.name "i")] (.name "x")],
   .assign [.name "i"] (.binary (.name "i") .add (.constant (.int 1)))]

/-- Nothing is lost or dropped here. -/
theorem elaborate_retains_names_storeLarger :
    ∃ term after names, Gives (elaborate .single storeLarger) .empty term after ∧
      term.assigned = .ok names ∧ assignedOfBlock (· ∈ names) storeLarger ∧
      List.Forall₂ (fun expr value => expr.NamesAre (· ∈ value.freeNames))
        (evaluatedOfBlock storeLarger) term.evaluated := by
  obtain ⟨term, after, hgives⟩ : ∃ term after,
      Gives (elaborate .single storeLarger) .empty term after := ⟨_, _, rfl⟩
  obtain ⟨hassigned, hlists, hreads⟩ := elaborate_retains_names_iff hgives
  obtain ⟨names, hnames⟩ := hlists rfl
  have hlost : lostOfBlock (· ∈ names) storeLarger := by
    simp [storeLarger, lostOfBlock, Stmt.LostAre, assignedOfAll]
  refine ⟨term, after, names, hgives, hnames, (hassigned names hnames).mpr hlost, ?_⟩
  simp only [storeLarger, evaluatedOfBlock, Stmt.evaluated, List.cons_append,
    List.nil_append] at hreads ⊢
  generalize term.evaluated = values at hreads
  rcases hreads with _ | ⟨htest, _ | ⟨hthen, _ | ⟨helse, _ | ⟨hnext, hnil⟩⟩⟩⟩
  exact .cons (htest.mpr ⟨trivial, trivial, trivial⟩) (.cons (hthen.mpr trivial)
    (.cons (helse.mpr trivial) (.cons (hnext.mpr ⟨trivial, trivial⟩) (by cases hnil; exact .nil))))

/-- An augmented assignment assigns a name that its term does not list. -/
theorem augmented_target_lost :
    let program : Program := [.augmented (.name "x") .add (.constant (.int 1))]
    ∃ term after names, Gives (elaborate .single program) .empty term after ∧
      term.assigned = .ok names ∧ ¬ assignedOfBlock (· ∈ names) program := by
  refine ⟨_, _, [], rfl, rfl, ?_⟩
  rintro ⟨hassigned, -⟩
  cases hassigned

end Source

end HoareCheck
