import HoareCheck.Proofs.Lookups
import HoareCheck.Proofs.ScalarPrograms
import HoareCheck.Proofs.TypedEncoding

/-!
# Type resolution of scalar programs

In an environment of integers and truth values, type resolution refuses every array
read.  What it accepts are claims and programs without arrays, all of whose names are
declared afterwards, and it never changes the type of a name that is written in a
program.  Only the variables of quantifiers come and go, and their names are marked.
-/

namespace HoareCheck

variable {entry default : TypeEntry} {name : String} {result : TypeEntry × Bool} {statement : Term}
  {touched : Bool}

/-- The type of integers or that of truth values. -/
def TypeEntry.IsScalar (entry : TypeEntry) : Prop :=
  entry = .known .int ∨ entry = .known .bool

theorem TypeEntry.IsScalar.ne_unknown (hentry : entry.IsScalar) : entry ≠ .unknown := by
  rcases hentry with rfl | rfl <;> simp

theorem TypeEntry.IsScalar.element? {entry : TypeEntry} (hentry : entry.IsScalar) :
    entry.element? = none := by
  rcases hentry with rfl | rfl <;> rfl

/-- The variable of a quantifier that was given no type is no array. -/
theorem TypeEntry.element?_ofBinder (written : Term) :
    (TypeEntry.ofBinder none written).element? = none := by
  cases written <;> rfl

/-- A name that is not marked as that of a bound variable. -/
def IsUnbound (name : String) : Prop :=
  '$' ∉ name.toList

theorem IsWritten.isUnbound (hname : IsWritten name) : IsUnbound name :=
  hname.2

theorem isUnbound_plainName (hname : IsUnbound name) : IsUnbound (plainName name) := by
  intro hmem
  rw [plainName, String.toList_ofList] at hmem
  exact hname ((List.takeWhile_sublist _).subset hmem)

namespace TypeEnv

variable {env next last : TypeEnv} {name other : String} {entry : TypeEntry}

theorem find?_insert (env : TypeEnv) (name other : String) (entry : TypeEntry) :
    (env.insert name entry).find? other = if name = other then some entry else env.find? other := by
  induction env with
  | nil => by_cases hname : name = other <;> simp [insert, find?, hname]
  | cons head _ ih =>
    rw [insert]
    by_cases hhead : head.1 = name
    · rw [if_pos hhead]
      by_cases hname : name = other
      · simp [find?, hname]
      · have hother : head.1 ≠ other := hhead ▸ hname
        simp [find?, hname, hother]
    · rw [if_neg hhead]
      by_cases hother : head.1 = other
      · have hname : name ≠ other := fun heq => hhead (hother.trans heq.symm)
        simp [find?, hother, hname]
      · have hrest : ∀ tail : TypeEnv, find? (head :: tail) other = find? tail other := by
          intro tail
          simp [find?, hother]
        rw [hrest, hrest, ih]

theorem find?_erase (env : TypeEnv) (name other : String) :
    (env.erase name).find? other = if name = other then none else env.find? other := by
  induction env with
  | nil => simp [erase, find?]
  | cons head _ ih =>
    simp only [erase, find?] at ih ⊢
    by_cases hhead : head.1 = name
    · by_cases hname : name = other
      · simp [hhead, hname]
      · have hother : head.1 ≠ other := hhead ▸ hname
        simpa [hhead, hname, hother] using ih
    · by_cases hother : head.1 = other
      · have hname : name ≠ other := fun heq => hhead (hother.trans heq.symm)
        simp [hother, hname, Ne.symm hname]
      · simpa [hhead, hother] using ih

/-- No name is of an array, and a name that is not marked as bound is of integers or
truth values. -/
structure IsScalar (env : TypeEnv) : Prop where
  element : ∀ name entry, env.find? name = some entry → entry.element? = none
  unbound : ∀ name entry, IsUnbound name → env.find? name = some entry → entry.IsScalar

/-- What is declared of names that are not marked as bound is kept. -/
def Extends (env next : TypeEnv) : Prop :=
  ∀ name entry, IsUnbound name → env.find? name = some entry → next.find? name = some entry

theorem Extends.refl (env : TypeEnv) : env.Extends env :=
  fun _ _ _ => id

theorem Extends.trans (hfirst : env.Extends next) (hsecond : next.Extends last) :
    env.Extends last :=
  fun name entry hname hfind => hsecond name entry hname (hfirst name entry hname hfind)

/-- A name has a type of its own, or that of the variable it copies. -/
def Covers (env : TypeEnv) (name : String) : Prop :=
  (env.find? name).isSome ∨ (env.find? (plainName name)).isSome

theorem Extends.covers (hextends : env.Extends next) (hname : IsUnbound name)
    (hcovers : env.Covers name) : next.Covers name := by
  simp only [Covers, Option.isSome_iff_exists] at hcovers ⊢
  rcases hcovers with ⟨entry, hfind⟩ | ⟨entry, hfind⟩
  · exact .inl ⟨entry, hextends name entry hname hfind⟩
  · exact .inr ⟨entry, hextends _ entry (isUnbound_plainName hname) hfind⟩

theorem covers_of_declared? (hdeclared : env.declared? name = some entry) :
    env.Covers name := by
  rcases Option.or_eq_some_iff.mp hdeclared with hfind | ⟨-, hfind⟩
  · exact .inl (Option.isSome_of_eq_some hfind)
  · exact .inr (Option.isSome_of_eq_some hfind)

theorem IsScalar.of_declared? (henv : env.IsScalar) (hname : IsUnbound name)
    (hdeclared : env.declared? name = some entry) : entry.IsScalar := by
  rcases Option.or_eq_some_iff.mp hdeclared with hfind | ⟨-, hfind⟩
  · exact henv.unbound name entry hname hfind
  · exact henv.unbound _ entry (isUnbound_plainName hname) hfind

/-- A variable is declared that was not, or that is bound by a quantifier. -/
theorem IsScalar.insert (henv : env.IsScalar) (helement : entry.element? = none)
    (hentry : IsUnbound name → entry.IsScalar)
    (hname : ¬ IsUnbound name ∨ env.find? name = none) :
    (env.insert name entry).IsScalar ∧ env.Extends (env.insert name entry) := by
  refine ⟨⟨fun other found hfind => ?_, fun other found hother hfind => ?_⟩,
    fun other found hother hfind => ?_⟩
  · rw [find?_insert] at hfind
    split at hfind
    · cases hfind
      exact helement
    · exact henv.element other found hfind
  · by_cases heq : name = other
    · rw [find?_insert, if_pos heq] at hfind
      cases hfind
      exact hentry (heq ▸ hother)
    · rw [find?_insert, if_neg heq] at hfind
      exact henv.unbound other found hother hfind
  · have hne : name ≠ other := by
      rintro rfl
      simp [hother, hfind] at hname
    rwa [find?_insert, if_neg hne]

theorem IsScalar.erase_bound (henv : env.IsScalar) (hname : ¬ IsUnbound name) :
    (env.erase name).IsScalar ∧ env.Extends (env.erase name) := by
  have hfound : ∀ other found, (env.erase name).find? other = some found →
      env.find? other = some found := by
    intro other found hfind
    rw [find?_erase] at hfind
    split at hfind
    · cases hfind
    · exact hfind
  refine ⟨⟨fun other found hfind => henv.element other found (hfound other found hfind),
    fun other found hother hfind => henv.unbound other found hother (hfound other found hfind)⟩,
    fun other found hother hfind => ?_⟩
  have hne : name ≠ other := fun heq => hname (heq ▸ hother)
  rwa [find?_erase, if_neg hne]

/-- What may be looked up for the names of an environment: neither an element nor the
length of an array. -/
def Serves (env : TypeEnv) : Lookup → Prop
  | .name name => IsUnbound name ∧ env.Covers name
  | .element _ | .length => False

theorem Extends.serves (hextends : env.Extends next) (lookup : Lookup)
    (hserves : env.Serves lookup) : next.Serves lookup := by
  cases lookup with
  | name => exact ⟨hserves.1, hextends.covers hserves.1 hserves.2⟩
  | element | length => exact hserves

end TypeEnv

/-- The words of scalar programs: names as they are written, and no adjacency. -/
def Vocabulary.scalar : Vocabulary where
  name := IsWritten
  operator operator := operator ≠ .adjacent
  quantifiers := True

namespace Term

section Resolution

variable {env : TypeEnv} {term : Term} {after : Option TypeEnv} {bound : Nat}

/-- A check that has no name to note a type under leaves the environment as it is. -/
theorem eq_of_gives_checkType {actual expected : TypeEntry} {before : Option TypeEnv}
    (hgives : Gives (term.checkType none actual expected) before result after) :
    after = before := by
  by_cases hactual : actual = .unknown
  · simp only [checkType, if_pos hactual] at hgives
    cases hoperand : term.operand? with
    | none => simp [hoperand] at hgives
    | some operand =>
      cases operand with
      | var => simp [hoperand, Typing.ofOption] at hgives
      | _ =>
        simp only [hoperand, pure_bind, Bool.false_eq_true, if_false] at hgives
        split at hgives
        · exact (gives_pure.mp hgives).2.symm
        · exact absurd hgives not_gives_throw
  · exact ((gives_checkType hactual).mp hgives).2.2.symm

theorem of_gives_checkOperand_next {resolve : Typing (TypeEntry × Bool)}
    (hresolve : ∀ {result after}, Gives resolve (some env) result after → ∃ next, after = some next)
    (hgives : Gives (checkOperand resolve term default) (some env) result after) :
    ∃ next actual expected, after = some next ∧ Gives resolve (some env) actual after ∧
      ∃ noted, Gives (term.checkType none actual.1 expected) after (result.1, noted) after := by
  simp only [checkOperand, gives_bind, gives_pure] at hgives
  obtain ⟨actual, _, hactual, expected, _, hexpected, ⟨_, noted⟩, _, hcheck, rfl, rfl⟩ := hgives
  obtain ⟨next, rfl⟩ := hresolve hactual
  obtain ⟨rfl, -⟩ := gives_expectedType hexpected
  obtain rfl := eq_of_gives_checkType hcheck
  exact ⟨next, actual, expected, rfl, hactual, noted, hcheck⟩

@[simp]
theorem gives_erase {result : Unit} :
    Gives (Typing.erase name) (some env) result after ↔ some (env.erase name) = after := by
  simp [Typing.erase, Typing.env]

theorem of_gives_entry (hgives : Gives (Typing.entry name) (some env) entry after) :
    env.find? name = some entry ∧ after = some env := by
  simp only [Typing.entry, gives_bind, gives_find?] at hgives
  obtain ⟨_, _, ⟨rfl, rfl⟩, hentry⟩ := hgives
  cases hfind : env.find? name with
  | none =>
    rw [hfind] at hentry
    exact absurd hentry not_gives_throw
  | some =>
    rw [hfind] at hentry
    obtain ⟨rfl, rfl⟩ := gives_pure.mp hentry
    exact ⟨rfl, rfl⟩

/-- An array read does not resolve where no name is of an array. -/
theorem not_gives_resolveType_subscript {site : Site} {array index : Term} (henv : env.IsScalar) :
    ¬ Gives (resolveType (.subscript site array index)) (some env) result after := by
  intro hgives
  cases hname : array.name? with
  | none =>
    simp only [resolveType, hname, Typing.ofOption] at hgives
    exact absurd hgives not_gives_throw
  | some name =>
    simp only [resolveType, hname, Typing.ofOption, pure_bind, gives_bind] at hgives
    obtain ⟨entry, _, hentry, _, _, helement, -⟩ := hgives
    obtain ⟨hfind, rfl⟩ := of_gives_entry hentry
    rw [henv.element name entry hfind] at helement
    exact absurd helement not_gives_throw

/-- Type resolution of a claim leaves an environment without arrays behind, with the
same types of names that are not marked as bound. -/
theorem isScalar_of_resolveType (hterm : term.InFrame (.below bound)) (henv : env.IsScalar)
    (hgives : Gives term.resolveType (some env) result after) :
    ∃ next, after = some next ∧ next.IsScalar ∧ env.Extends next := by
  induction term generalizing env result after with
  | literal value =>
    cases value with
    | int | bool =>
      obtain ⟨-, rfl⟩ := gives_pure.mp hgives
      exact ⟨env, rfl, henv, .refl env⟩
    | _ => exact absurd hgives not_gives_throw
  | subscript => exact absurd hgives (not_gives_resolveType_subscript henv)
  | var =>
    obtain ⟨-, -, rfl⟩ := gives_resolveType_var.mp hgives
    exact ⟨env, rfl, henv, .refl env⟩
  | unary operator _ ih =>
    rw [resolveType] at hgives
    cases hexpected : unaryType? operator with
    | none =>
      rw [hexpected] at hgives
      exact absurd hgives not_gives_throw
    | some =>
      simp only [hexpected, gives_bind, gives_pure] at hgives
      obtain ⟨_, _, hactual, _, _, hcheck, -, rfl⟩ := hgives
      rw [eq_of_gives_checkType hcheck]
      exact ih hterm henv hactual
  | binary _ _ _ ihleft ihright =>
    simp only [resolveType, gives_bind, gives_pure] at hgives
    obtain ⟨_, _, hleft, _, _, hright, -, rfl⟩ := hgives
    obtain ⟨_, _, _, rfl, hleft, -⟩ := of_gives_checkOperand_next
      (fun hgives => (ihleft hterm.1 henv hgives).imp fun _ => And.left) hleft
    obtain ⟨_, hsome, hbetween, hfirst⟩ := ihleft hterm.1 henv hleft
    cases hsome
    obtain ⟨next, _, _, rfl, hright, -⟩ := of_gives_checkOperand_next
      (fun hgives => (ihright hterm.2 hbetween hgives).imp fun _ => And.left) hright
    obtain ⟨_, hsome, hnext, hsecond⟩ := ihright hterm.2 hbetween hright
    cases hsome
    exact ⟨next, rfl, hnext, hfirst.trans hsecond⟩
  | slice _ _ ihlower ihupper =>
    simp only [resolveType, gives_bind] at hgives
    obtain ⟨_, _, hlower, _, _, hcheck, hgives⟩ := hgives
    obtain ⟨between, rfl, hbetween, hfirst⟩ := ihlower hterm.1 henv hlower
    obtain rfl := eq_of_gives_checkType hcheck
    split at hgives
    · split at hgives
      · obtain ⟨-, rfl⟩ := gives_pure.mp hgives
        exact ⟨between, rfl, hbetween, hfirst⟩
      · exact absurd hgives not_gives_throw
    · simp only [gives_bind, gives_pure] at hgives
      obtain ⟨_, _, hupper, _, _, hcheck, -, rfl⟩ := hgives
      obtain ⟨next, rfl, hnext, hsecond⟩ := ihupper hterm.2 hbetween hupper
      obtain rfl := eq_of_gives_checkType hcheck
      exact ⟨next, rfl, hnext, hfirst.trans hsecond⟩
  | quantified _ _ _ written _ _ _ _ ihbody =>
    obtain ⟨⟨name, rfl, -, rfl, hmarked⟩, -, hbody⟩ := hterm
    have hname : ¬ IsUnbound name := fun hunbound => hunbound hmarked
    simp only [resolveType, name?, Typing.ofOption, pure_bind, gives_bind, gives_insert] at hgives
    obtain ⟨_, _, rfl, _, _, hresolve, _, _, hcheck, hgives⟩ := hgives
    obtain ⟨hinserted, hfirst⟩ :=
      henv.insert (TypeEntry.element?_ofBinder written) (absurd · hname) (.inl hname)
    obtain ⟨_, rfl, hbetween, hsecond⟩ := ihbody hbody hinserted hresolve
    obtain rfl := eq_of_gives_checkType hcheck
    obtain ⟨_, _, hentry, hgives⟩ := hgives
    obtain ⟨-, rfl⟩ := of_gives_entry hentry
    split at hgives
    · exact absurd hgives not_gives_throw
    · simp only [gives_bind, gives_erase, gives_pure] at hgives
      obtain ⟨_, _, rfl, -, rfl⟩ := hgives
      obtain ⟨herased, hthird⟩ := hbetween.erase_bound hname
      exact ⟨_, rfl, herased, (hfirst.trans hsecond).trans hthird⟩
  | _ => exact absurd hgives not_gives_throw

/-- Type resolution has accepted a claim of scalar type: its names are declared in the
environment that it leaves behind. -/
structure Accepted (env next : TypeEnv) (type : TypeEntry) (term : Term) : Prop where
  scalar : next.IsScalar
  kept : env.Extends next
  type : type.IsScalar
  looksUp : term.LooksUp next.Serves

/-- An operand that passes is accepted with its own type. -/
theorem accepted_of_checkOperand
    (hresolve : ∀ {result after}, Gives term.resolveType (some env) result after →
      ∃ next, after = some next ∧ Accepted env next result.1 term)
    (hgives : Gives (checkOperand term.resolveType term default) (some env) result after) :
    ∃ next, after = some next ∧ Accepted env next result.1 term := by
  obtain ⟨_, _, _, -, hactual, _, hcheck⟩ := of_gives_checkOperand_next
    (fun hgives => (hresolve hgives).imp fun _ => And.left) hgives
  obtain ⟨next, rfl, haccepted⟩ := hresolve hactual
  obtain ⟨-, hresult, -⟩ := (gives_checkType haccepted.type.ne_unknown).mp hcheck
  rw [Prod.mk.injEq] at hresult
  exact ⟨next, rfl, hresult.1 ▸ haccepted⟩

theorem accepted_of_resolveType (hterm : term.InFrame (.below bound))
    (hkeeps : term.KeepsTo .scalar) (henv : env.IsScalar)
    (hgives : Gives term.resolveType (some env) result after) :
    ∃ next, after = some next ∧ Accepted env next result.1 term := by
  induction term generalizing env result after with
  | literal value =>
    cases value with
    | int =>
      obtain ⟨rfl, rfl⟩ := gives_pure.mp hgives
      exact ⟨env, rfl, henv, .refl env, .inl rfl, trivial⟩
    | bool =>
      obtain ⟨rfl, rfl⟩ := gives_pure.mp hgives
      exact ⟨env, rfl, henv, .refl env, .inr rfl, trivial⟩
    | _ => exact absurd hgives not_gives_throw
  | subscript => exact absurd hgives (not_gives_resolveType_subscript henv)
  | var name =>
    obtain ⟨hdeclared, -, rfl⟩ := gives_resolveType_var.mp hgives
    have hname : IsUnbound name := IsWritten.isUnbound hkeeps
    exact ⟨env, rfl, henv, .refl env, henv.of_declared? hname hdeclared, hname,
      TypeEnv.covers_of_declared? hdeclared⟩
  | unary operator _ ih =>
    rw [resolveType] at hgives
    cases hexpected : unaryType? operator with
    | none =>
      rw [hexpected] at hgives
      exact absurd hgives not_gives_throw
    | some =>
      simp only [hexpected, gives_bind, gives_pure] at hgives
      obtain ⟨_, _, hactual, _, _, hcheck, rfl, rfl⟩ := hgives
      obtain ⟨next, rfl, haccepted⟩ := ih hterm hkeeps henv hactual
      obtain ⟨-, rfl, rfl⟩ := (gives_checkType haccepted.type.ne_unknown).mp hcheck
      exact ⟨next, rfl, haccepted.scalar, haccepted.kept, haccepted.type, haccepted.looksUp⟩
  | binary _ _ _ ihleft ihright =>
    obtain ⟨hoperator, hleftKeeps, hrightKeeps⟩ := hkeeps
    simp only [resolveType, gives_bind, gives_pure] at hgives
    obtain ⟨_, _, hleft, _, _, hright, rfl, rfl⟩ := hgives
    obtain ⟨_, rfl, hleftAccepted⟩ :=
      accepted_of_checkOperand (ihleft hterm.1 hleftKeeps henv) hleft
    obtain ⟨next, rfl, hrightAccepted⟩ :=
      accepted_of_checkOperand (ihright hterm.2 hrightKeeps hleftAccepted.scalar) hright
    refine ⟨next, rfl, hrightAccepted.scalar, hleftAccepted.kept.trans hrightAccepted.kept, ?_,
      hleftAccepted.looksUp.mono hrightAccepted.kept.serves, hrightAccepted.looksUp,
      fun hadjacent => absurd hadjacent hoperator⟩
    dsimp only
    split
    · exact .inr rfl
    · exact hrightAccepted.type
  | quantified =>
    obtain ⟨next, rfl, hnext, hextends⟩ := isScalar_of_resolveType hterm henv hgives
    obtain ⟨⟨_, rfl, -, rfl, -⟩, -, -⟩ := hterm
    refine ⟨next, rfl, hnext, hextends, ?_, fun htyped => absurd htyped Bool.false_ne_true⟩
    simp only [resolveType, name?, Typing.ofOption, pure_bind, gives_bind] at hgives
    obtain ⟨_, _, -, _, _, -, _, _, -, _, _, -, hgives⟩ := hgives
    split at hgives
    · exact absurd hgives not_gives_throw
    · simp only [gives_bind, gives_pure] at hgives
      obtain ⟨_, _, -, rfl, -⟩ := hgives
      exact .inr rfl
  | slice => exact hkeeps.elim
  | _ => exact absurd hgives not_gives_throw

theorem accepted_of_resolveClaim (hterm : term.InFrame (.below bound))
    (hkeeps : term.KeepsTo .scalar) (henv : env.IsScalar)
    (hgives : Gives term.resolveClaim (some env) touched after) :
    ∃ next, after = some next ∧ next.IsScalar ∧ env.Extends next ∧ term.LooksUp next.Serves := by
  simp only [resolveClaim, gives_bind, gives_pure] at hgives
  obtain ⟨_, _, hresolve, _, _, hcheck, -, rfl⟩ := hgives
  obtain ⟨next, rfl, haccepted⟩ := accepted_of_resolveType hterm hkeeps henv hresolve
  obtain rfl := eq_of_gives_checkType hcheck
  exact ⟨next, rfl, haccepted.scalar, haccepted.kept, haccepted.looksUp⟩

/-- A variable that is assigned a scalar is declared. -/
theorem declared_of_resolveTarget {type : TypeEntry} {result : Bool} (htype : type.IsScalar)
    (hname : IsUnbound name) (henv : env.IsScalar)
    (hgives : Gives (resolveTarget (.var name) type touched) (some env) result after) :
    ∃ next, after = some next ∧ next.IsScalar ∧ env.Extends next ∧
      (next.find? name).isSome = true := by
  simp only [resolveTarget, assignedName?, Typing.ofOption, pure_bind, gives_bind,
    gives_find?] at hgives
  obtain ⟨_, _, ⟨rfl, rfl⟩, hgives⟩ := hgives
  cases hfind : env.find? name with
  | none =>
    simp only [hfind, gives_bind, gives_insert, gives_pure] at hgives
    obtain ⟨_, _, rfl, -, rfl⟩ := hgives
    obtain ⟨hnext, hextends⟩ := henv.insert htype.element? (fun _ => htype) (.inr hfind)
    refine ⟨_, rfl, hnext, hextends, ?_⟩
    rw [TypeEnv.find?_insert, if_pos rfl]
    rfl
  | some entry =>
    have hentry := henv.unbound name entry hname hfind
    have hfound : (env.find? name).isSome = true := Option.isSome_of_eq_some hfind
    cases entry with
    | unknown => exact absurd rfl hentry.ne_unknown
    | _ =>
      simp only [hfind] at hgives
      split at hgives
      · exact ⟨env, (gives_pure.mp hgives).2.symm, henv, .refl env, hfound⟩
      · exact absurd hgives not_gives_throw

/-- Type resolution has accepted a statement: all names that its claims look up are
declared, and so are the variables that it assigns. -/
structure Declared (env : TypeEnv) (statement : Term) : Prop where
  looksUp : statement.LooksUp env.Serves
  assigned : ∃ names, statement.assigned = .ok names ∧
    ∀ name ∈ names, IsUnbound name ∧ (env.find? name).isSome = true

theorem Declared.mono {next : TypeEnv} {statement : Term} (hdeclared : Declared env statement)
    (hextends : env.Extends next) : Declared next statement := by
  refine ⟨hdeclared.looksUp.mono hextends.serves, ?_⟩
  obtain ⟨names, hnames, hfound⟩ := hdeclared.assigned
  refine ⟨names, hnames, fun name hname => ?_⟩
  obtain ⟨hunbound, hsome⟩ := hfound name hname
  obtain ⟨entry, hfind⟩ := Option.isSome_iff_exists.mp hsome
  exact ⟨hunbound, Option.isSome_of_eq_some (hextends name entry hunbound hfind)⟩

theorem Declared.append {first second : Term} (hfirst : Declared env first)
    (hsecond : Declared env second) (hlooks : statement.LooksUp env.Serves)
    (hassigned : statement.assigned = do return (← first.assigned) ++ (← second.assigned)) :
    Declared env statement := by
  obtain ⟨left, hleft, hleftFound⟩ := hfirst.assigned
  obtain ⟨right, hright, hrightFound⟩ := hsecond.assigned
  refine ⟨hlooks, left ++ right, ?_, List.forall_mem_append.mpr ⟨hleftFound, hrightFound⟩⟩
  rw [hassigned, hleft, hright]
  rfl

theorem declared_of_resolveStatement (hstatement : statement.InFrame (.below bound))
    (hkeeps : statement.KeepsTo .scalar) (henv : env.IsScalar)
    (hgives : Gives statement.resolveStatement (some env) touched after) :
    ∃ next, after = some next ∧ next.IsScalar ∧ env.Extends next ∧ Declared next statement := by
  have hnone : ∀ next : TypeEnv, ∃ names, (pure [] : Except Fault (List String)) = .ok names ∧
      ∀ name ∈ names, IsUnbound name ∧ (next.find? name).isSome = true :=
    fun _ => ⟨[], rfl, List.forall_mem_nil _⟩
  induction statement generalizing env touched after with
  | skip =>
    obtain ⟨-, rfl⟩ := gives_pure.mp hgives
    exact ⟨env, rfl, henv, .refl env, trivial, hnone _⟩
  | havoc => exact hstatement.2.elim
  | seq _ _ ihfirst ihsecond =>
    simp only [resolveStatement, gives_bind, gives_pure] at hgives
    obtain ⟨_, _, hfirst, _, _, hsecond, -, rfl⟩ := hgives
    obtain ⟨_, rfl, hbetween, hkept, hdeclared⟩ := ihfirst hstatement.2.1 hkeeps.1 henv hfirst
    obtain ⟨next, rfl, hnext, hextends, hlater⟩ := ihsecond hstatement.2.2 hkeeps.2 hbetween hsecond
    have hearlier := hdeclared.mono hextends
    exact ⟨next, rfl, hnext, hkept.trans hextends,
      hearlier.append hlater ⟨hearlier.looksUp, hlater.looksUp⟩ rfl⟩
  | assign =>
    obtain ⟨⟨name, rfl, hname⟩, hvalueKeeps⟩ := hkeeps
    simp only [resolveStatement, gives_bind] at hgives
    obtain ⟨_, _, hvalue, htarget⟩ := hgives
    obtain ⟨_, rfl, haccepted⟩ := accepted_of_resolveType hstatement.2.2 hvalueKeeps henv hvalue
    obtain ⟨next, rfl, hnext, hextends, hfound⟩ := declared_of_resolveTarget haccepted.type
      hname.isUnbound haccepted.scalar htarget
    have hlooks := haccepted.looksUp.mono hextends.serves
    exact ⟨next, rfl, hnext, haccepted.kept.trans hextends, hlooks, [name], rfl,
      List.forall_mem_singleton.mpr ⟨hname.isUnbound, hfound⟩⟩
  | ifElse _ _ _ _ ihthen ihelse =>
    obtain ⟨-, hcondition, hthen, helse⟩ := hstatement
    simp only [resolveStatement, gives_bind, gives_pure] at hgives
    obtain ⟨_, _, hresolve, _, _, hfirst, _, _, hsecond, -, rfl⟩ := hgives
    obtain ⟨_, rfl, hstart, htested, hlooks⟩ :=
      accepted_of_resolveClaim hcondition hkeeps.1 henv hresolve
    obtain ⟨_, rfl, hbetween, hkept, hdeclared⟩ := ihthen hthen hkeeps.2.1 hstart hfirst
    obtain ⟨next, rfl, hnext, hextends, hlater⟩ := ihelse helse hkeeps.2.2 hbetween hsecond
    have hearlier := hdeclared.mono hextends
    exact ⟨next, rfl, hnext, (htested.trans hkept).trans hextends, hearlier.append hlater
      ⟨hlooks.mono (hkept.trans hextends).serves, hearlier.looksUp, hlater.looksUp⟩ rfl⟩
  | assert =>
    obtain ⟨next, rfl, hnext, hextends, hlooks⟩ :=
      accepted_of_resolveClaim hstatement.2 hkeeps henv hgives
    exact ⟨next, rfl, hnext, hextends, hlooks, hnone _⟩
  | assume =>
    obtain ⟨next, rfl, hnext, hextends, hlooks⟩ :=
      accepted_of_resolveClaim hstatement.2 hkeeps henv hgives
    exact ⟨next, rfl, hnext, hextends, hlooks, hnone _⟩
  | loop _ _ _ _ _ ihbody =>
    obtain ⟨-, hinvariant, hcondition, hbody⟩ := hstatement
    simp only [resolveStatement, gives_bind, gives_pure] at hgives
    obtain ⟨_, _, hfirst, _, _, hsecond, _, _, hthird, -, rfl⟩ := hgives
    obtain ⟨_, rfl, hstart, htested, hlooks⟩ :=
      accepted_of_resolveClaim hcondition hkeeps.2.1 henv hfirst
    obtain ⟨_, rfl, hbetween, hkept, hinvariantLooks⟩ :=
      accepted_of_resolveClaim hinvariant hkeeps.1 hstart hsecond
    obtain ⟨next, rfl, hnext, hextends, hdeclared⟩ := ihbody hbody hkeeps.2.2 hbetween hthird
    exact ⟨next, rfl, hnext, (htested.trans hkept).trans hextends,
      ⟨hinvariantLooks.mono hextends.serves, hlooks.mono (hkept.trans hextends).serves,
        hdeclared.looksUp⟩, hdeclared.assigned⟩
  | _ => exact absurd hgives not_gives_throw

end Resolution

end Term

end HoareCheck
