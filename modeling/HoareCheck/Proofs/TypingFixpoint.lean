import HoareCheck.Proofs.ScalarTyping

/-!
# One pass of type resolution is enough

Type resolution of a statement puts the types of assigned variables into the environment
while it looks up others in it.  It only ever adds names, also where it fails half-way.  The
type that it finds for an expression stays the same when names are added, so a second pass
over the same statement finds what the first one left, and adds nothing.
-/

namespace HoareCheck

variable {value target : Term} {names others : List String} {default type : TypeEntry}
  {touched charge : Bool} {fault : Fault} {name : String}

/-! ## Growing environments -/

namespace TypeEnv

variable {env next last : TypeEnv} {name : String} {entry : TypeEntry}

/-- No name is there without a type. -/
def IsKnown (env : TypeEnv) : Prop :=
  ∀ name, env.find? name ≠ some .unknown

theorem isKnown_of_forall (henv : ∀ found ∈ env, found.2 ≠ .unknown) : env.IsKnown := by
  intro name hfind
  obtain ⟨found, hfound, hentry⟩ := Option.map_eq_some_iff.mp hfind
  exact henv found (List.mem_of_find?_eq_some hfound) hentry

/-- All entries of an environment are those of another one. -/
def PartOf (env next : TypeEnv) : Prop :=
  ∀ name entry, env.find? name = some entry → next.find? name = some entry

theorem PartOf.refl (env : TypeEnv) : env.PartOf env :=
  fun _ _ => id

theorem PartOf.trans (hfirst : env.PartOf next) (hsecond : next.PartOf last) : env.PartOf last :=
  fun name entry hfind => hsecond name entry (hfirst name entry hfind)

theorem PartOf.isSome_find? (hpart : env.PartOf next) (hname : (env.find? name).isSome) :
    (next.find? name).isSome := by
  obtain ⟨entry, hfind⟩ := Option.isSome_iff_exists.mp hname
  exact Option.isSome_of_eq_some (hpart name entry hfind)

theorem partOf_insert (hname : env.find? name = none) : env.PartOf (env.insert name entry) := by
  intro other found hfind
  have hne : name ≠ other := by
    rintro rfl
    rw [hname] at hfind
    cases hfind
  rwa [find?_insert, if_neg hne]

theorem IsKnown.insert (henv : env.IsKnown) (hentry : entry ≠ .unknown) :
    (env.insert name entry).IsKnown := by
  intro other
  rw [find?_insert]
  split
  · simpa using hentry
  · exact henv other

end TypeEnv

/-! ## Computations that only look names up -/

namespace Typing

variable {α β γ : Type} {env : TypeEnv}

/-- The computation leaves the environment as it is.  If it succeeds, then with a value of
a kind, and with the same value in every environment that this one is part of. -/
def Settles (kind : α → Prop) (computation : Typing α) (env : TypeEnv) : Prop :=
  (∃ value, kind value ∧
      ∀ next, env.PartOf next → Gives computation (some next) value (some next)) ∨
    ∃ fault, Fails computation (some env) fault (some env)

section Settles

variable {kind : α → Prop} {other : β → Prop}

theorem settles_pure {value : α} (hkind : kind value) : Settles kind (pure value) env :=
  .inl ⟨value, hkind, fun _ _ => gives_pure.mpr ⟨rfl, rfl⟩⟩

theorem settles_throw (fault : Fault) : Settles kind (throw fault) env :=
  .inr ⟨fault, fails_throw.mpr ⟨rfl, rfl⟩⟩

theorem settles_bind {first : Typing α} {second : α → Typing β}
    (hfirst : Settles kind first env)
    (hsecond : ∀ value, kind value → Settles other (second value) env) :
    Settles other (first >>= second) env := by
  rcases hfirst with ⟨value, hkind, hfirst⟩ | ⟨fault, hfails⟩
  · rcases hsecond value hkind with ⟨result, hother, hsecond⟩ | ⟨fault, hfails⟩
    · exact .inl ⟨result, hother, fun next hpart =>
        gives_bind.mpr ⟨value, _, hfirst next hpart, hsecond next hpart⟩⟩
    · exact .inr ⟨fault, fails_bind.mpr (.inr ⟨value, _, hfirst env (.refl env), hfails⟩)⟩
  · exact .inr ⟨fault, fails_bind.mpr (.inl hfails)⟩

theorem settles_ofOption {option : Option α} (hkind : ∀ value, option = some value → kind value) :
    Settles kind (ofOption fault option) env := by
  cases option with
  | none => exact settles_throw fault
  | some value => exact settles_pure (hkind value rfl)

/-- A name that is there is found in every larger environment. -/
theorem settles_find? {entry : TypeEntry} (hfind : env.find? name = some entry) :
    Settles (· = some entry) (Typing.find? name) env :=
  .inl ⟨some entry, rfl, fun next hpart => by simpa using hpart name entry hfind⟩

theorem settles_entry (name : String) :
    Settles (fun entry => env.find? name = some entry) (entry name) env := by
  cases hfind : env.find? name with
  | none => exact .inr ⟨.noSuchEntry, by simp [entry, hfind]⟩
  | some =>
    refine settles_bind (settles_find? hfind) ?_
    rintro _ rfl
    exact settles_pure rfl

end Settles

/-! ## Computations that add names -/

/-- The computation only adds entries, all with a type.  If it succeeds, some names are
there afterwards, and the computation then succeeds again without adding anything. -/
def Stabilizes (names : List String) (computation : Typing α) (env : TypeEnv) : Prop :=
  ∃ next, env.PartOf next ∧ next.IsKnown ∧
    ((∃ fault, Fails computation (some env) fault (some next)) ∨
      (∃ value, Gives computation (some env) value (some next)) ∧
        (∀ name ∈ names, (next.find? name).isSome) ∧
        ∀ last, next.PartOf last → ∃ value, Gives computation (some last) value (some last))

theorem Settles.stabilizes {kind : α → Prop} {computation : Typing α}
    (hsettles : Settles kind computation env) (henv : env.IsKnown)
    (hnames : ∀ name ∈ names, (env.find? name).isSome) : Stabilizes names computation env := by
  refine ⟨env, .refl env, henv, ?_⟩
  rcases hsettles with ⟨value, -, hgives⟩ | hfails
  · exact .inr ⟨⟨value, hgives env (.refl env)⟩, hnames, fun last hlast => ⟨value, hgives last hlast⟩⟩
  · exact .inl hfails

theorem stabilizes_pure {value : α} (henv : env.IsKnown) : Stabilizes [] (pure value) env := by
  have hsettles : Settles (fun _ => True) (pure value) env := settles_pure trivial
  exact hsettles.stabilizes henv (by simp)

theorem stabilizes_throw (henv : env.IsKnown) : Stabilizes [] (throw fault : Typing α) env := by
  have hsettles : Settles (fun _ => True) (throw fault : Typing α) env := settles_throw fault
  exact hsettles.stabilizes henv (by simp)

/-- What the second part adds leaves the first part stable. -/
theorem Stabilizes.seq {first : Typing α} {second : Typing β} {combine : α → β → γ}
    (hfirst : Stabilizes names first env)
    (hsecond : ∀ next, env.PartOf next → next.IsKnown → Stabilizes others second next) :
    Stabilizes (names ++ others)
      (do let left ← first; let right ← second; return combine left right) env := by
  obtain ⟨between, hpart, hknown, ⟨fault, hfails⟩ | ⟨⟨left, hleft⟩, hnames, hagain⟩⟩ := hfirst
  · exact ⟨between, hpart, hknown, .inl ⟨fault, fails_bind.mpr (.inl hfails)⟩⟩
  obtain ⟨next, hrest, hnext, ⟨fault, hfails⟩ | ⟨⟨right, hright⟩, hothers, hagainRest⟩⟩ :=
    hsecond between hpart hknown
  · refine ⟨next, hpart.trans hrest, hnext, .inl ⟨fault, ?_⟩⟩
    exact fails_bind.mpr (.inr ⟨left, _, hleft, fails_bind.mpr (.inl hfails)⟩)
  refine ⟨next, hpart.trans hrest, hnext, .inr ⟨⟨combine left right, ?_⟩, ?_, ?_⟩⟩
  · simp only [gives_bind, gives_pure]
    exact ⟨_, _, hleft, _, _, hright, rfl, rfl⟩
  · intro name hname
    rcases List.mem_append.mp hname with hname | hname
    · exact hrest.isSome_find? (hnames name hname)
    · exact hothers name hname
  · intro last hlast
    obtain ⟨_, hleft⟩ := hagain last (hrest.trans hlast)
    obtain ⟨_, hright⟩ := hagainRest last hlast
    simp only [gives_bind, gives_pure]
    exact ⟨_, _, _, hleft, _, _, hright, rfl, rfl⟩

theorem Stabilizes.seq_pair {δ : Type} {first : Typing α} {second : Typing β} {third : Typing γ}
    {combine : α → β → γ → δ} (hfirst : Stabilizes names first env)
    (hrest : ∀ next, env.PartOf next → next.IsKnown →
      Stabilizes others (do let left ← second; let right ← third; return (left, right)) next) :
    Stabilizes (names ++ others)
      (do let head ← first
          let left ← second
          let right ← third
          return combine head left right) env := by
  have hgroup : (do let head ← first
                    let left ← second
                    let right ← third
                    return combine head left right) =
      (do let head ← first
          let pair ← (do let left ← second; let right ← third; return (left, right))
          return combine head pair.1 pair.2) := by
    simp only [bind_assoc, pure_bind]
  rw [hgroup]
  exact hfirst.seq hrest

end Typing

/-! ## Type resolution -/

namespace Term

/-- What type resolution looks at in a term holds no quantifier, no slice and no name of a
copy.  It does not look at the index of an array read, and asks the target of an assignment
for its name only. -/
def isDirect : Term → Bool
  | .var name => '#' ∉ name.toList
  | .slice .. | .quantified .. => false
  | .unary _ operand => operand.isDirect
  | .binary left _ right => left.isDirect && right.isDirect
  | .assign _ value _ => value.isDirect
  | .ifElse condition thenBranch elseBranch =>
    condition.isDirect && thenBranch.isDirect && elseBranch.isDirect
  | .seq first second => first.isDirect && second.isDirect
  | .assume claim | .assert claim => claim.isDirect
  | .loop invariant condition body => invariant.isDirect && condition.isDirect && body.isDirect
  | .missing | .literal _ | .subscript .. | .skip | .havoc .. => true

/-- The names that the assignments of a statement assign. -/
def targetNames : Term → List String
  | .assign target _ _ => target.assignedName?.toList
  | .ifElse _ thenBranch elseBranch => thenBranch.targetNames ++ elseBranch.targetNames
  | .seq first second => first.targetNames ++ second.targetNames
  | .loop _ _ body => body.targetNames
  | _ => []

/-- The arrays of which a statement assigns elements. -/
def writtenArrays : Term → List String
  | .assign (.subscript _ array _) _ _ => array.name?.toList
  | .ifElse _ thenBranch elseBranch => thenBranch.writtenArrays ++ elseBranch.writtenArrays
  | .seq first second => first.writtenArrays ++ second.writtenArrays
  | .loop _ _ body => body.writtenArrays
  | _ => []

section Resolution

open Typing

variable {env : TypeEnv} {term : Term}

theorem settles_checkType {actual expected : TypeEntry} (hactual : actual ≠ .unknown) :
    Settles (fun result => result.1 ≠ .unknown) (term.checkType none actual expected) env := by
  by_cases hexpected : actual = expected ∨ expected = .unknown
  · exact .inl ⟨(actual, false), hactual, fun next _ =>
      (gives_checkType hactual).mpr ⟨hexpected, rfl, rfl⟩⟩
  · refine .inr ⟨.typeMismatch expected actual, ?_⟩
    simp [checkType, hactual, hexpected]

theorem settles_expectedType (hdeclared : ∀ name, term = .var name → (env.find? name).isSome) :
    Settles (fun _ => True) (term.expectedType default) env := by
  cases term with
  | var name =>
    obtain ⟨_, hfind⟩ := Option.isSome_iff_exists.mp (hdeclared name rfl)
    refine settles_bind (settles_find? hfind) ?_
    rintro _ rfl
    exact settles_pure trivial
  | _ => exact settles_pure trivial

theorem settles_variableType (hname : '#' ∉ name.toList) (henv : env.IsKnown) :
    Settles (fun entry => env.find? name = some entry ∧ entry ≠ .unknown) (variableType name)
      env := by
  have hdeclared : ∀ next : TypeEnv, next.declared? name = next.find? name := by
    intro next
    rw [TypeEnv.declared?, plainName_eq_self hname, Option.or_self]
  cases hfind : env.find? name with
  | none =>
    refine .inr ⟨.untypedVariable name, ?_⟩
    simp [variableType, plainName_eq_self hname, hfind]
  | some entry =>
    refine .inl ⟨entry, ⟨rfl, fun hentry => henv name (hentry ▸ hfind)⟩, fun next hpart => ?_⟩
    exact gives_variableType_iff.mpr ⟨(hdeclared next).trans (hpart name entry hfind), rfl⟩

section

variable (hdirect : term.isDirect = true)

include hdirect

/-- The check of an operand looks a variable up a second time.  It gets that far only if
the variable is there. -/
theorem settles_checkOperand (henv : env.IsKnown)
    (hresolve : Settles (fun result => result.1 ≠ .unknown) term.resolveType env) :
    Settles (fun result => result.1 ≠ .unknown) (checkOperand term.resolveType term default)
      env := by
  by_cases hdeclared : ∀ name, term = .var name → (env.find? name).isSome
  · refine settles_bind hresolve fun actual hactual => ?_
    refine settles_bind (settles_expectedType hdeclared) fun expected _ => ?_
    exact settles_bind (settles_checkType hactual) fun _ htype => settles_pure htype
  · simp only [not_forall] at hdeclared
    obtain ⟨name, rfl, hnone⟩ := hdeclared
    have hvariable : Settles (fun _ => False) (Term.var name).resolveType env := by
      refine settles_bind (settles_variableType (by simpa [isDirect] using hdirect) henv) ?_
      rintro _ ⟨hfind, -⟩
      exact absurd (Option.isSome_of_eq_some hfind) hnone
    exact settles_bind hvariable fun _ => False.elim

/-- The type of a direct expression is known, and does not change when names are added. -/
theorem settles_resolveType (henv : env.IsKnown) :
    Settles (fun result => result.1 ≠ .unknown) term.resolveType env := by
  induction term with
  | literal value =>
    cases value with
    | int | bool => exact settles_pure (by simp)
    | _ => exact settles_throw _
  | var =>
    refine settles_bind (settles_variableType (by simpa [isDirect] using hdirect) henv) ?_
    exact fun entry hentry => settles_pure hentry.2
  | subscript =>
    refine settles_bind (settles_ofOption fun _ _ => trivial) fun name _ => ?_
    refine settles_bind (settles_entry name) fun entry _ => ?_
    refine settles_bind (settles_ofOption fun element helement => ?_) fun element helement =>
      settles_pure helement
    cases entry with
    | known =>
      obtain ⟨_, -, rfl⟩ := Option.map_eq_some_iff.mp helement
      simp
    | _ => cases helement
  | unary _ _ ih =>
    rw [resolveType]
    split
    · exact settles_throw _
    · refine settles_bind (ih hdirect) fun actual hactual => ?_
      exact settles_bind (settles_checkType hactual) fun _ htype => settles_pure htype
  | binary _ _ _ ihleft ihright =>
    simp only [isDirect, Bool.and_eq_true] at hdirect
    refine settles_bind (settles_checkOperand hdirect.1 henv (ihleft hdirect.1)) fun _ _ => ?_
    refine settles_bind (settles_checkOperand hdirect.2 henv (ihright hdirect.2)) ?_
    intro result hresult
    refine settles_pure ?_
    dsimp only
    split
    · simp
    · exact hresult
  | slice | quantified => simp [isDirect] at hdirect
  | _ => exact settles_throw _

theorem settles_resolveClaim (henv : env.IsKnown) :
    Settles (fun _ => True) term.resolveClaim env := by
  refine settles_bind (settles_resolveType hdirect henv) fun actual hactual => ?_
  exact settles_bind (settles_checkType hactual) fun _ _ => settles_pure trivial

theorem stabilizes_resolveClaim (henv : env.IsKnown) : Stabilizes [] term.resolveClaim env :=
  (settles_resolveClaim hdirect henv).stabilizes henv (by simp)

end

section

variable (hname : term.assignedName? = some name)

include hname

/-- A target that has a type is compared with it. -/
theorem settles_resolveTarget {entry : TypeEntry} (hfind : env.find? name = some entry)
    (henv : env.IsKnown) : Settles (fun _ => True) (term.resolveTarget type touched) env := by
  have hentry : entry ≠ .unknown := fun hentry => henv name (hentry ▸ hfind)
  rw [resolveTarget, hname]
  refine settles_bind (settles_pure rfl) ?_
  rintro _ rfl
  refine settles_bind (settles_find? hfind) ?_
  rintro _ rfl
  split
  · next hnone => cases hnone
  · next hunknown => exact absurd (Option.some.inj hunknown) hentry
  · split
    · refine settles_bind (settles_ofOption fun _ _ => trivial) fun element _ => ?_
      split
      · exact settles_pure trivial
      · exact settles_throw _
    · split
      · exact settles_pure trivial
      · exact settles_throw _

/-- A target that has no type takes that of the value, unless it is an array element. -/
theorem gives_resolveTarget_new (hfind : env.find? name = none) :
    Gives (term.resolveTarget type touched) (some env) true (some (env.insert name type)) := by
  simp [resolveTarget, hname, ofOption, hfind]

/-- A target that has the type of the value passes. -/
theorem gives_resolveTarget_same (hfind : env.find? name = some type) (htype : type ≠ .unknown)
    (hwhole : ∀ site array index, term ≠ .subscript site array index) :
    Gives (term.resolveTarget type touched) (some env) touched (some env) := by
  simp only [resolveTarget, hname, ofOption, pure_bind, gives_bind, gives_find?]
  refine ⟨_, _, ⟨hfind, rfl⟩, ?_⟩
  split
  · next hnone => cases hnone
  · next hunknown => exact absurd (Option.some.inj hunknown) htype
  · next hsome =>
      cases hsome
      cases term with
      | subscript site array index => exact absurd rfl (hwhole site array index)
      | _ => simp

end

/-- An assignment whose target has a type, or no name. -/
theorem settles_assign {kind : Bool → Prop} (hdirect : value.isDirect = true) (henv : env.IsKnown)
    (htarget : ∀ type touched, Settles kind (target.resolveTarget type touched) env) :
    Settles kind (Term.assign target value charge).resolveStatement env :=
  settles_bind (settles_resolveType hdirect henv) fun result _ => htarget result.1 result.2

/-- An assignment to a whole variable that has no type yet. -/
theorem stabilizes_assign_new (hdirect : value.isDirect = true) (henv : env.IsKnown)
    (hname : target.assignedName? = some name) (hfind : env.find? name = none)
    (hwhole : ∀ site array index, target ≠ .subscript site array index) :
    Stabilizes [name] (Term.assign target value charge).resolveStatement env := by
  rw [resolveStatement]
  rcases settles_resolveType hdirect henv with ⟨⟨type, touched⟩, htype, hvalue⟩ | ⟨fault, hfails⟩
  · have hpart : env.PartOf (env.insert name type) := TypeEnv.partOf_insert hfind
    have hthere : (env.insert name type).find? name = some type := by
      simp [TypeEnv.find?_insert]
    refine ⟨env.insert name type, hpart, henv.insert htype, .inr ⟨⟨true, ?_⟩, ?_, ?_⟩⟩
    · exact gives_bind.mpr ⟨_, _, hvalue env (.refl env), gives_resolveTarget_new hname hfind⟩
    · simp [hthere]
    · intro last hlast
      refine ⟨touched, gives_bind.mpr ⟨_, _, hvalue last (hpart.trans hlast), ?_⟩⟩
      exact gives_resolveTarget_same hname (hlast name type hthere) htype hwhole
  · exact ⟨env, .refl env, henv, .inl ⟨fault, fails_bind.mpr (.inl hfails)⟩⟩

theorem stabilizes_assign (hdirect : value.isDirect = true) (henv : env.IsKnown)
    (harrays : ∀ name ∈ (Term.assign target value charge).writtenArrays, (env.find? name).isSome) :
    Stabilizes (Term.assign target value charge).targetNames
      (Term.assign target value charge).resolveStatement env := by
  cases hname : target.assignedName? with
  | none =>
    have htarget : ∀ type touched,
        Settles (fun _ => True) (target.resolveTarget type touched) env := by
      intro type touched
      rw [resolveTarget, hname]
      exact settles_bind (settles_throw _) fun _ => False.elim
    exact (settles_assign hdirect henv htarget).stabilizes henv (by simp [targetNames, hname])
  | some name =>
    rw [targetNames, hname]
    cases hfind : env.find? name with
    | none =>
      refine stabilizes_assign_new hdirect henv hname hfind ?_
      rintro _ _ _ rfl
      have hthere := harrays name (by simpa [writtenArrays, assignedName?] using hname)
      simp [hfind] at hthere
    | some =>
      exact (settles_assign hdirect henv fun type touched =>
        settles_resolveTarget hname hfind henv).stabilizes henv (by simp [hfind])

/-- Type resolution of a direct statement, by its parts. -/
theorem stabilizes_resolveStatement (hdirect : term.isDirect = true) (henv : env.IsKnown)
    (harrays : ∀ name ∈ term.writtenArrays, (env.find? name).isSome) :
    Stabilizes term.targetNames term.resolveStatement env := by
  induction term generalizing env with
  | skip | havoc => exact stabilizes_pure henv
  | assign => exact stabilizes_assign hdirect henv harrays
  | assume | assert => exact stabilizes_resolveClaim hdirect henv
  | seq _ _ ihfirst ihsecond =>
    simp only [isDirect, Bool.and_eq_true, writtenArrays, List.mem_append] at hdirect harrays
    refine (ihfirst hdirect.1 henv fun name hname => harrays name (.inl hname)).seq ?_
    intro next hpart hnext
    exact ihsecond hdirect.2 hnext fun name hname => hpart.isSome_find? (harrays name (.inr hname))
  | ifElse _ _ _ _ ihthen ihelse =>
    simp only [isDirect, Bool.and_eq_true, writtenArrays, List.mem_append] at hdirect harrays
    refine (stabilizes_resolveClaim hdirect.1.1 henv).seq_pair fun next hpart hnext => ?_
    refine (ihthen hdirect.1.2 hnext fun name hname =>
      hpart.isSome_find? (harrays name (.inl hname))).seq fun last hlast hknown => ?_
    exact ihelse hdirect.2 hknown fun name hname =>
      (hpart.trans hlast).isSome_find? (harrays name (.inr hname))
  | loop _ _ _ _ _ ihbody =>
    simp only [isDirect, Bool.and_eq_true] at hdirect
    refine (stabilizes_resolveClaim hdirect.1.2 henv).seq_pair fun next hpart hnext => ?_
    refine (stabilizes_resolveClaim hdirect.1.1 hnext).seq fun last hlast hknown => ?_
    exact ihbody hdirect.2 hknown fun name hname =>
      (hpart.trans hlast).isSome_find? (harrays name hname)
  | _ => exact stabilizes_throw henv

end Resolution

end Term

/-- One pass of type resolution keeps the types that are there, whether it succeeds or
fails.  If it succeeds, every assigned variable has a type afterwards, and a second pass
succeeds and changes nothing. -/
theorem resolveStatement_stable {env : TypeEnv} {statement : Term}
    (henv : ∀ entry ∈ env, entry.2 ≠ .unknown) (hdirect : statement.isDirect = true)
    (harrays : ∀ name ∈ statement.writtenArrays, (env.find? name).isSome) :
    ∃ next, (outcomeOn statement.resolveStatement (some env)).2 = some next ∧
      (∀ name entry, env.find? name = some entry → next.find? name = some entry) ∧
      ∀ touched, (outcomeOn statement.resolveStatement (some env)).1 = .ok touched →
        (∀ name ∈ statement.targetNames, (next.find? name).isSome) ∧
        ∃ again, Gives statement.resolveStatement (some next) again (some next) := by
  obtain ⟨next, hpart, -, ⟨fault, hfails⟩ | ⟨⟨value, hgives⟩, hnames, hagain⟩⟩ :=
    Term.stabilizes_resolveStatement hdirect (TypeEnv.isKnown_of_forall henv) harrays
  · refine ⟨next, by rw [show outcomeOn _ _ = _ from hfails], hpart, fun touched hok => ?_⟩
    rw [show outcomeOn _ _ = _ from hfails] at hok
    cases hok
  · exact ⟨next, by rw [show outcomeOn _ _ = _ from hgives], hpart, fun _ _ =>
      ⟨hnames, hagain next (.refl next)⟩⟩

/-- A loop that writes to an array; `total` and `found` have no type before. -/
theorem resolveStatement_stable_search :
    let env : TypeEnv := [("A", .known (.listOf .int)), ("n", .known .int)]
    let body : Term := .seq (.assign (.subscript 0 (.var "A") (.var "n")) (.var "total") false)
      (.ifElse (.binary (.var "total") .lt (.var "n"))
        (.assign (.var "found") (.bool true) false)
        (.assign (.var "found") (.binary (.var "n") .eq (.int 0)) false))
    let statement : Term := .seq (.assign (.var "total") (.subscript 0 (.var "A") (.int 0)) false)
      (.loop (.bool true) (.binary (.var "total") .lt (.int 10)) body)
    statement.targetNames = ["total", "A", "found", "found"] ∧
      Gives statement.resolveStatement (some env) true
        (some (env ++ [("total", .known .int), ("found", .known .bool)])) ∧
      ∃ again, Gives statement.resolveStatement
        (some (env ++ [("total", .known .int), ("found", .known .bool)])) again
        (some (env ++ [("total", .known .int), ("found", .known .bool)])) := by
  intro env body statement
  have hpass : Gives statement.resolveStatement (some env) true
      (some (env ++ [("total", .known .int), ("found", .known .bool)])) := by
    rw [Gives]
    decide +kernel
  have harrays : ∀ name ∈ statement.writtenArrays, (env.find? name).isSome := by decide
  obtain ⟨next, hnext, -, hstable⟩ := resolveStatement_stable (by decide) (by decide) harrays
  obtain rfl := Option.some.inj ((congrArg Prod.snd hpass).symm.trans hnext)
  exact ⟨rfl, hpass, (hstable true (congrArg Prod.fst hpass)).2⟩

end HoareCheck
