import HoareCheck.Proofs.Acceptance
import HoareCheck.Proofs.EncodingPreservation
import HoareCheck.Verifier.Conditions

/-!
# Claims that pass type resolution have formulas

Type resolution compares the type of an operand with what its operator works on,
unless the operand is a variable, and does not look at the index of an array
read.  `Term.OperandsFit` says what it leaves unchecked.  A quantifier-free claim
for which that holds, and which resolves to a truth value, is encoded as a formula
of truth values or computed to a truth value.
-/

namespace HoareCheck

open Encoding NameTable

variable {first second name : String} {index term : Term} {after : Option TypeEnv}
  {sort : SolverSort} {result : TypeEntry × Bool} {type : TypeEntry} {length : Int} {site : Site}

/-! ## Sorts of operands -/

namespace Operand

/-- An operand has a sort: it is a formula of the sort, or a plain value of it. -/
inductive HasSort : Operand → SolverSort → Prop
  | int {value : Int} : HasSort (.plain (.int value)) .int
  | bool {value : Bool} : HasSort (.plain (.bool value)) .bool
  | symbolic {formula : Formula} {sort : SolverSort} :
      formula.sort = sort → HasSort (.symbolic formula) sort

variable {left right operand : Operand} {sort : SolverSort}

theorem Means.hasSort {model : Model} {value : Value}
    (hmeans : operand.Means model sort value) : operand.HasSort sort := by
  cases hmeans with
  | int => exact .int
  | bool => exact .bool
  | symbolic hsort => exact .symbolic hsort

/-- An operand of a sort stands for some value in every model. -/
theorem HasSort.means (hsort : operand.HasSort sort) (model : Model) :
    ∃ value, operand.Means model sort value := by
  cases hsort with
  | int => exact ⟨_, .int⟩
  | bool => exact ⟨_, .bool⟩
  | symbolic hsort => exact ⟨_, .symbolic hsort rfl⟩

/-- Some model; what operands stand for in it does not matter to their sorts. -/
noncomputable def anyModel : Model :=
  .givenBy fun _ => .nothing

theorem HasSort.unify (hleft : left.HasSort sort) (hright : right.HasSort sort) :
    ∃ leftFormula rightFormula, unify left right = .ok (leftFormula, rightFormula) ∧
      leftFormula.sort = sort ∧ rightFormula.sort = sort := by
  obtain ⟨_, hleftMeans⟩ := hleft.means anyModel
  obtain ⟨_, hrightMeans⟩ := hright.means anyModel
  obtain ⟨leftFormula, rightFormula, hunify, hleftSort, hrightSort, -⟩ :=
    hleftMeans.unify hrightMeans
  exact ⟨leftFormula, rightFormula, hunify, hleftSort, hrightSort⟩

/-- Arithmetic on integers.  Only division and the remainder can fail, and only
between plain values. -/
theorem HasSort.arithmetic {operator : ArithmeticOp} (hleft : left.HasSort .int)
    (hright : right.HasSort .int)
    (hopen : operator ∈ [.div, .mod] → left.isSymbolic || right.isSymbolic) :
    ∃ result, arithmetic operator left right = .ok result ∧ result.HasSort .int ∧
      result.isSymbolic = (left.isSymbolic || right.isSymbolic) := by
  obtain ⟨_, hleftMeans⟩ := hleft.means anyModel
  obtain ⟨_, hrightMeans⟩ := hright.means anyModel
  obtain ⟨result, hresult, hmeans, hsymbolic⟩ := hleftMeans.arithmetic hrightMeans hopen
  exact ⟨result, hresult, hmeans.hasSort, hsymbolic⟩

theorem HasSort.compare (operator : OrderOp) (hleft : left.HasSort .int)
    (hright : right.HasSort .int) :
    ∃ result, compare operator left right = .ok result ∧ result.HasSort .bool := by
  cases hleft with
  | @int value =>
    cases hright with
    | int => exact ⟨_, rfl, .bool⟩
    | symbolic hsort =>
      obtain ⟨rightFormula, leftFormula, hunify, -, -⟩ :=
        (symbolic hsort).unify (int : (Operand.plain (.int value)).HasSort .int)
      refine ⟨.symbolic (.order operator.flipped rightFormula leftFormula), ?_, .symbolic rfl⟩
      simp [Operand.compare, Operand.isNumber, sort?, hsort, hunify]
  | symbolic hsort =>
    obtain ⟨leftFormula, rightFormula, hunify, -, -⟩ := (symbolic hsort).unify hright
    refine ⟨.symbolic (.order operator leftFormula rightFormula), ?_, .symbolic rfl⟩
    simp [Operand.compare, Operand.isNumber, sort?, hsort, hunify]

/-- Equality is between operands of any one sort. -/
theorem HasSort.equal (hleft : left.HasSort sort) (hright : right.HasSort sort) :
    ∃ result, equal left right = .ok result ∧ result.HasSort .bool := by
  obtain ⟨leftFormula, rightFormula, hunify, -, -⟩ := hleft.unify hright
  obtain ⟨_, _, hflipped, -, -⟩ := hright.unify hleft
  cases hleft with
  | int =>
    cases hright with
    | int => exact ⟨_, rfl, .bool⟩
    | symbolic => exact ⟨_, bind_eq_ok.mpr ⟨_, hflipped, rfl⟩, .symbolic rfl⟩
  | bool =>
    cases hright with
    | bool => exact ⟨_, rfl, .bool⟩
    | symbolic => exact ⟨_, bind_eq_ok.mpr ⟨_, hflipped, rfl⟩, .symbolic rfl⟩
  | symbolic =>
    refine ⟨.symbolic (.equal leftFormula rightFormula), ?_, .symbolic rfl⟩
    cases hright <;> simp [Operand.equal, hunify]

theorem HasSort.negate (hoperand : operand.HasSort .int) :
    ∃ result, negate operand = .ok result ∧ result.HasSort .int ∧
      result.isSymbolic = operand.isSymbolic := by
  cases hoperand with
  | int => exact ⟨_, rfl, .int, rfl⟩
  | @symbolic formula _ hsort =>
    refine ⟨.symbolic (.neg formula), ?_, .symbolic hsort, rfl⟩
    simp [Operand.negate, Operand.isNumber, sort?, hsort, pure, Except.pure]

theorem HasSort.absolute (hoperand : operand.HasSort .int) :
    ∃ result, absolute operand = .ok result ∧ result.HasSort .int ∧ result.isSymbolic = true := by
  obtain ⟨_, hpositive, hflag⟩ := hoperand.compare .gt (int : HasSort (.plain (.int 0)) _)
  obtain ⟨_, hnegated, hnegatedSort, -⟩ := hoperand.negate
  obtain ⟨_, hflagMeans⟩ := hflag.means anyModel
  obtain ⟨condition, hcondition, -⟩ := hflagMeans.cast
  obtain ⟨thenFormula, elseFormula, hunify, hsort, -⟩ := hoperand.unify hnegatedSort
  refine ⟨.symbolic (.ite condition thenFormula elseFormula), ?_, .symbolic hsort, rfl⟩
  exact bind_eq_ok.mpr ⟨_, hpositive, bind_eq_ok.mpr ⟨_, hnegated,
    bind_eq_ok.mpr ⟨_, hcondition, bind_eq_ok.mpr ⟨_, hunify, rfl⟩⟩⟩⟩

theorem HasSort.select {name : String} (hindex : operand.HasSort .int) :
    ∃ result, select (.symbolic (.const name .array)) operand = .ok result ∧
      result.HasSort .int ∧ result.isSymbolic = true := by
  obtain ⟨_, hmeans⟩ := hindex.means anyModel
  obtain ⟨formula, hcast, -⟩ := hmeans.cast
  refine ⟨.symbolic (.select (.const name .array) formula), ?_, .symbolic rfl, rfl⟩
  simp [Operand.select, Formula.sort, hcast]

theorem hasSort_adjacent (left right : String) (length : Int) :
    ∃ result, adjacent (.symbolic (.const left .array)) (.symbolic (.const right .array))
      length = .ok result ∧ result.HasSort .bool := by
  unfold Operand.adjacent
  cases List.range length.toNat with
  | nil => exact ⟨_, rfl, .bool⟩
  | cons => exact ⟨_, rfl, .symbolic rfl⟩

end Operand

/-! ## Sorts of operations -/

section Operations

variable {left right operand : Operand} {operator : Operator} {context : EncodingContext}

theorem Term.gives_encode {claim : Term} {before after : EncodingState} :
    Gives (claim.encode.run context) before operand after ↔
      Gives ((claim.encodeWith (encodeWritten context.log (context.log.sites.size + 1))).run
        context) before operand after := by
  rw [run_encode]

/-- An operation succeeds in every state and gives an operand of a sort. -/
def Encoding.Makes (operation : Encoding Operand) (context : EncodingContext)
    (sort : SolverSort) (symbolic : Bool) : Prop :=
  ∃ result, (∀ state, Gives (operation.run context) state result state) ∧
    result.HasSort sort ∧ (symbolic = true → result.isSymbolic = true)

theorem makes_ofExcept {outcome : Except Fault Operand} {symbolic : Bool} {result : Operand}
    (hresult : outcome = .ok result) (hsort : result.HasSort sort)
    (hsymbolic : symbolic = true → result.isSymbolic = true) :
    (Encoding.ofExcept outcome).Makes context sort symbolic :=
  ⟨result, fun _ => gives_ofExcept.mpr ⟨hresult, rfl⟩, hsort, hsymbolic⟩

/-- Unary operators give what they work on, and keep an integer symbolic. -/
theorem makes_unary {type : Ty} (hoperator : Term.unaryType? operator = some type)
    (hsort : type.solverSort? = some sort) (hoperand : operand.HasSort sort) :
    (Encoding.unary operator operand).Makes context sort
      (sort = .int && operand.isSymbolic) := by
  cases operator with
  | minus =>
    cases hoperator
    cases hsort
    obtain ⟨_, hresult, hint, hsymbolic⟩ := hoperand.negate
    exact makes_ofExcept hresult hint (by simp [hsymbolic])
  | abs =>
    cases hoperator
    cases hsort
    obtain ⟨_, hresult, hint, hsymbolic⟩ := hoperand.absolute
    exact makes_ofExcept hresult hint fun _ => hsymbolic
  | not =>
    cases hoperator
    cases hsort
    obtain ⟨_, hmeans⟩ := hoperand.means Operand.anyModel
    obtain ⟨_, hresult⟩ := hmeans.logicalNot_ok
    exact makes_ofExcept hresult (hmeans.of_logicalNot hresult).2.hasSort (by simp)
  | _ => cases hoperator

theorem makes_arithmetic (hoperator : operator ∈ [.add, .minus, .mult, .div, .mod])
    (hleft : left.HasSort .int) (hright : right.HasSort .int)
    (hopen : operator ∈ [.div, .mod] → left.isSymbolic || right.isSymbolic) :
    (Encoding.binary operator left right).Makes context .int
      (left.isSymbolic || right.isSymbolic) := by
  have hmakes : ∀ arithmetic : ArithmeticOp,
      (arithmetic ∈ [.div, .mod] → left.isSymbolic || right.isSymbolic) →
      (Encoding.ofExcept (Operand.arithmetic arithmetic left right)).Makes context .int
        (left.isSymbolic || right.isSymbolic) := by
    intro arithmetic harithmetic
    obtain ⟨_, hresult, hsort, hsymbolic⟩ := hleft.arithmetic hright harithmetic
    exact makes_ofExcept hresult hsort fun heither => hsymbolic.trans heither
  simp only [List.mem_cons, List.not_mem_nil, or_false] at hoperator
  rcases hoperator with rfl | rfl | rfl | rfl | rfl
  · exact hmakes .add (by simp)
  · exact hmakes .sub (by simp)
  · exact hmakes .mul (by simp)
  · exact hmakes .div fun _ => hopen (by simp)
  · exact hmakes .mod fun _ => hopen (by simp)

theorem makes_order (hoperator : operator ∈ [.lt, .le, .gt, .ge])
    (hleft : left.HasSort .int) (hright : right.HasSort .int) :
    (Encoding.binary operator left right).Makes context .bool false := by
  have hmakes : ∀ order : OrderOp,
      (Encoding.ofExcept (Operand.compare order left right)).Makes context .bool false := by
    intro order
    obtain ⟨_, hresult, hsort⟩ := hleft.compare order hright
    exact makes_ofExcept hresult hsort (by simp)
  simp only [List.mem_cons, List.not_mem_nil, or_false] at hoperator
  rcases hoperator with rfl | rfl | rfl | rfl
  · exact hmakes .lt
  · exact hmakes .le
  · exact hmakes .gt
  · exact hmakes .ge

theorem makes_equality (hoperator : operator ∈ [.eq, .neq]) (hleft : left.HasSort sort)
    (hright : right.HasSort sort) :
    (Encoding.binary operator left right).Makes context .bool false := by
  obtain ⟨_, hequality, hsort⟩ := hleft.equal hright
  simp only [List.mem_cons, List.not_mem_nil, or_false] at hoperator
  rcases hoperator with rfl | rfl
  · exact makes_ofExcept hequality hsort (by simp)
  · obtain ⟨_, hmeans⟩ := hsort.means Operand.anyModel
    obtain ⟨_, hresult⟩ := hmeans.logicalNot_ok
    exact makes_ofExcept (bind_eq_ok.mpr ⟨_, hequality, hresult⟩)
      (hmeans.of_logicalNot hresult).2.hasSort (by simp)

theorem makes_connective (hoperator : operator ∈ [.and, .or, .implies, .iff])
    (hleft : left.HasSort .bool) (hright : right.HasSort .bool) :
    (Encoding.binary operator left right).Makes context .bool false := by
  obtain ⟨_, hleftMeans⟩ := hleft.means Operand.anyModel
  obtain ⟨_, hrightMeans⟩ := hright.means Operand.anyModel
  simp only [List.mem_cons, List.not_mem_nil, or_false] at hoperator
  rcases hoperator with rfl | rfl | rfl | rfl
  · obtain ⟨_, hresult⟩ := hleftMeans.logicalAnd_ok hrightMeans
    exact makes_ofExcept hresult (hleftMeans.of_logicalAnd hrightMeans hresult).2.2.hasSort
      (by simp)
  · obtain ⟨_, hresult⟩ := hleftMeans.logicalOr_ok hrightMeans
    exact makes_ofExcept hresult (hleftMeans.of_logicalOr hrightMeans hresult).2.2.hasSort (by simp)
  · obtain ⟨_, hresult⟩ := hleftMeans.logicalImplies_ok hrightMeans
    exact makes_ofExcept hresult (hleftMeans.of_logicalImplies hrightMeans hresult).2.2.hasSort
      (by simp)
  · obtain ⟨_, hresult⟩ := hleftMeans.logicalIff_ok hrightMeans
    exact makes_ofExcept hresult (hleftMeans.of_logicalIff hrightMeans hresult).2.2.hasSort
      (by simp)

/-- The sort of what the operators of a family work on. -/
def Operator.Family.inner : Operator.Family → SolverSort
  | .arithmetic | .comparison => .int
  | .logical => .bool

/-- The sort of what the operators of a family give. -/
def Operator.Family.outer : Operator.Family → SolverSort
  | .arithmetic => .int
  | .comparison | .logical => .bool

/-- A binary operator on operands of the sort that it works on. -/
theorem makes_binary (hoperator : operator ∉ [.abs, .not, .adjacent])
    (hleft : left.HasSort operator.family.inner) (hright : right.HasSort operator.family.inner)
    (hopen : operator ∈ [.div, .mod] → left.isSymbolic || right.isSymbolic) :
    (Encoding.binary operator left right).Makes context operator.family.outer
      (operator.family = .arithmetic && (left.isSymbolic || right.isSymbolic)) := by
  cases operator with
  | add | minus | mult | div | mod => exact makes_arithmetic (by decide) hleft hright hopen
  | lt | le | gt | ge => exact makes_order (by decide) hleft hright
  | eq | neq => exact makes_equality (by decide) hleft hright
  | and | or | implies | iff => exact makes_connective (by decide) hleft hright
  | abs | not | adjacent => simp at hoperator

theorem gives_adjacent {result : Operand}
    (hregistered : (context.lengths.find? (·.1 = first)).map Prod.snd = some (.int length))
    (hresult : Operand.adjacent (.symbolic (.const first .array))
      (.symbolic (.const second .array)) length = .ok result) (state : EncodingState) :
    Gives ((Encoding.binary .adjacent (.symbolic (.const first .array))
      (.symbolic (.const second .array))).run context) state result state := by
  simp only [Encoding.binary, lengthOf, lengthKey?, ReaderT.run_bind, gives_bind]
  refine ⟨length, state, ?_, gives_ofExcept.mpr ⟨hresult, rfl⟩⟩
  refine ⟨first, state, gives_pure.mpr ⟨rfl, rfl⟩, context, state, gives_pure.mpr ⟨rfl, rfl⟩,
    .int length, state, ?_, gives_pure.mpr ⟨rfl, rfl⟩⟩
  rw [hregistered]
  exact gives_pure.mpr ⟨rfl, rfl⟩

theorem makes_adjacent
    (hlength : (context.lengths.find? (·.1 = first)).map Prod.snd = some (.int length)) :
    (Encoding.binary .adjacent (.symbolic (.const first .array))
      (.symbolic (.const second .array))).Makes context .bool false := by
  obtain ⟨result, hresult, hsort⟩ := Operand.hasSort_adjacent first second length
  exact ⟨result, gives_adjacent hlength hresult, hsort, by simp⟩

end Operations

/-! ## Environments -/

/-- The sort of the values of a type, if there is one. -/
def TypeEntry.solverSort? : TypeEntry → Option SolverSort
  | .known type => type.solverSort?
  | _ => none

namespace TypeEnv

/-- An environment of integers, truth values and arrays of integers, in which
each name has one type. -/
structure IsSorted (env : TypeEnv) : Prop where
  distinct : (env.map Prod.fst).Nodup
  sorted : ∀ entry ∈ env, ∃ sort, entry.2.solverSort? = some sort

/-- The type of a variable; a copy has the type of the variable it copies. -/
def declared? (env : TypeEnv) (name : String) : Option TypeEntry :=
  (env.find? name).or (env.find? (plainName name))

variable {env : TypeEnv} {name : String} {type : TypeEntry}

theorem IsSorted.of_find? (henv : env.IsSorted) (hfind : env.find? name = some type) :
    ∃ sort, type.solverSort? = some sort := by
  simp only [TypeEnv.find?, Option.map_eq_some_iff] at hfind
  obtain ⟨entry, hentry, rfl⟩ := hfind
  exact henv.sorted entry (List.mem_of_find?_eq_some hentry)

theorem IsSorted.of_declared? (henv : env.IsSorted) (hdeclared : env.declared? name = some type) :
    ∃ sort, type.solverSort? = some sort := by
  rcases Option.or_eq_some_iff.mp hdeclared with hfind | ⟨-, hfind⟩
  · exact henv.of_find? hfind
  · exact henv.of_find? hfind

theorem find?_eq_none_of_not_mem (hname : name ∉ env.map Prod.fst) : env.find? name = none := by
  simp only [TypeEnv.find?, Option.map_eq_none_iff, List.find?_eq_none, decide_eq_true_eq]
  rintro _ hentry rfl
  exact hname (List.mem_map_of_mem hentry)

end TypeEnv

namespace NameTable

/-- The table with a name of an environment, if its type has a sort. -/
def withEntry (names : NameTable) (entry : String × TypeEntry) : NameTable :=
  match entry.2.solverSort? with
  | some sort => names.insert entry.1 sort
  | none => names

theorem find?_withEntry (names : NameTable) (entry : String × TypeEntry) (name : String) :
    (names.withEntry entry).find? name =
      if entry.1 = name then entry.2.solverSort?.or (names.find? name) else names.find? name := by
  unfold withEntry
  cases entry.2.solverSort? with
  | none => simp
  | some =>
    rw [find?_insert, Function.update_apply]
    by_cases hname : entry.1 = name
    · simp [hname]
    · simp [hname, Ne.symm hname]

theorem ofEnv_eq_foldl (env : TypeEnv) : ofEnv false env = env.foldl withEntry [] := by
  rw [ofEnv]
  congr 1
  funext names entry
  obtain ⟨_, type⟩ := entry
  rw [withEntry]
  cases type with
  | unknown | written => rfl
  | known type =>
    cases type with
    | int | bool | float | text | list => rfl
    | listOf element => cases element <;> rfl

/-- The table of the solver has the names of the environment with the sorts of
their types. -/
theorem find?_ofEnv {env : TypeEnv} (hdistinct : (env.map Prod.fst).Nodup) (name : String) :
    (ofEnv false env).find? name = (env.find? name).bind TypeEntry.solverSort? := by
  suffices hfold : ∀ names : NameTable, (env.foldl withEntry names).find? name =
      ((env.find? name).bind TypeEntry.solverSort?).or (names.find? name) by
    rw [ofEnv_eq_foldl, hfold, NameTable.find?]
    simp
  induction env with
  | nil => simp [TypeEnv.find?]
  | cons head rest ih =>
    intro names
    rw [List.map_cons, List.nodup_cons] at hdistinct
    rw [List.foldl_cons, ih hdistinct.2, find?_withEntry]
    by_cases hname : head.1 = name
    · have hrest : TypeEnv.find? rest name = none :=
        TypeEnv.find?_eq_none_of_not_mem (hname ▸ hdistinct.1)
      have hhead : TypeEnv.find? (head :: rest) name = some head.2 := by
        simp [TypeEnv.find?, hname]
      simp [hrest, hhead, hname]
    · have hhead : TypeEnv.find? (head :: rest) name = TypeEnv.find? rest name := by
        simp [TypeEnv.find?, hname]
      simp [hhead, hname]

end NameTable

section Variables

variable {env : TypeEnv} {name : String} {type : TypeEntry} {sort : SolverSort}
  {context : EncodingContext}

theorem NameTable.find?_ofEnv_eq_some (henv : env.IsSorted) (hfind : env.find? name = some type)
    (hsort : type.solverSort? = some sort) :
    (NameTable.ofEnv false env).find? name = some sort := by
  rw [find?_ofEnv henv.distinct, hfind]
  exact hsort

/-- A variable stands for a constant of the sort of its type. -/
theorem gives_constant_ofEnv (henv : env.IsSorted) (hdeclared : env.declared? name = some type)
    (hsort : type.solverSort? = some sort) :
    ∃ base, ∀ lines, Gives ((constant name).run context) ⟨.ofEnv false env, lines⟩
      (.symbolic (.const base sort)) ⟨.ofEnv false env, lines⟩ := by
  rcases Option.or_eq_some_iff.mp hdeclared with hfind | ⟨hnone, hfind⟩
  · exact ⟨name, fun lines => gives_constant (find?_ofEnv_eq_some henv hfind hsort)⟩
  · refine ⟨plainName name, fun lines => ?_⟩
    have hname : (NameTable.ofEnv false env).find? name = none := by
      rw [NameTable.find?_ofEnv henv.distinct, hnone]
      rfl
    have hbase := find?_ofEnv_eq_some henv hfind hsort
    rw [plainName] at hbase
    simp only [constant, ReaderT.run_bind, gives_bind]
    refine ⟨_, _, gives_get.mpr ⟨rfl, rfl⟩, ?_⟩
    simp only [hname, hbase]
    exact gives_pure.mpr ⟨rfl, rfl⟩

end Variables

/-! ## What type resolution tells -/

namespace Term

section Resolution

variable {env : TypeEnv} {after : Option TypeEnv}

theorem gives_variableType_iff :
    Gives (variableType name) (some env) type after ↔
      env.declared? name = some type ∧ some env = after := by
  simp only [variableType, TypeEnv.declared?, gives_bind, gives_get]
  cases hdeclared : (env.find? name).or (env.find? (plainName name)) with
  | none =>
    refine iff_of_false ?_ (by simp)
    rintro ⟨_, _, ⟨rfl, rfl⟩, hvariable⟩
    simp [hdeclared] at hvariable
  | some =>
    rw [Option.some.injEq]
    constructor
    · rintro ⟨_, _, ⟨rfl, rfl⟩, hvariable⟩
      simp only [hdeclared] at hvariable
      exact gives_pure.mp hvariable
    · rintro ⟨rfl, rfl⟩
      refine ⟨_, _, ⟨rfl, rfl⟩, ?_⟩
      simp only [hdeclared]
      exact gives_pure.mpr ⟨rfl, rfl⟩

/-- Type resolution of a variable gives its declared type. -/
theorem gives_resolveType_var :
    Gives (resolveType (.var name)) (some env) result after ↔
      env.declared? name = some result.1 ∧ result.2 = false ∧ some env = after := by
  obtain ⟨type, _⟩ := result
  simp only [resolveType, gives_bind, gives_variableType_iff, gives_pure, Prod.mk.injEq]
  constructor
  · rintro ⟨_, _, ⟨hdeclared, rfl⟩, ⟨rfl, rfl⟩, rfl⟩
    exact ⟨hdeclared, rfl, rfl⟩
  · rintro ⟨hdeclared, rfl, rfl⟩
    exact ⟨type, _, ⟨hdeclared, rfl⟩, ⟨rfl, rfl⟩, rfl⟩

/-- Both operands of a claim that resolves are resolved and compared. -/
theorem of_gives_resolveType_binary {left right : Term} {operator : Operator}
    (hleft : ∀ {result after}, Gives left.resolveType (some env) result after →
      result.1 ≠ .unknown ∧ after = some env)
    (hright : ∀ {result after}, Gives right.resolveType (some env) result after →
      result.1 ≠ .unknown ∧ after = some env)
    (hgives : Gives (resolveType (.binary left operator right)) (some env) result after) :
    ∃ leftType rightType leftTouched rightTouched,
      Gives left.resolveType (some env) (leftType, leftTouched) (some env) ∧
      Gives right.resolveType (some env) (rightType, rightTouched) (some env) ∧
      (left.name? = none → leftType = operandType operator.family) ∧
      (right.name? = none → rightType = operandType operator.family) ∧
      result.1 = (if operator.family = .comparison then .known .bool else rightType) ∧
      after = some env := by
  have hdefault : operandType operator.family ≠ .unknown := by
    cases operator.family <;> simp [operandType]
  simp only [resolveType, gives_bind, gives_pure] at hgives
  obtain ⟨⟨leftType, _⟩, _, hleftCheck, ⟨rightType, _⟩, _, hrightCheck, rfl, rfl⟩ := hgives
  obtain ⟨leftTouched, hleftGives, rfl, hleftPlain⟩ :=
    of_gives_checkOperand hdefault hleft hleftCheck
  obtain ⟨rightTouched, hrightGives, rfl, hrightPlain⟩ :=
    of_gives_checkOperand hdefault hright hrightCheck
  exact ⟨leftType, rightType, leftTouched, rightTouched, hleftGives, hrightGives, hleftPlain,
    hrightPlain, rfl, rfl⟩

end Resolution

/-! ## What type resolution leaves unchecked -/

/-- If a term is a variable, it has the type. -/
def VariableHas (env : TypeEnv) (type : TypeEntry) (term : Term) : Prop :=
  ∀ name, term = .var name → env.declared? name = some type

/-- A quantifier-free claim whose operands fit where type resolution does not look.
A variable beside a binary operator has the type that the operator works on, or two
variables of one type are compared for equality, or two arrays for adjacency.  No
division or remainder is between literals only.  The index of an array read is an
integer, and no write is recorded against the read. -/
inductive OperandsFit (env : TypeEnv) (context : EncodingContext) : Term → Prop
  | literal {value : Literal} : OperandsFit env context (.literal value)
  | var {name : String} : OperandsFit env context (.var name)
  | unary {operator : Operator} {operand : Term} :
      OperandsFit env context operand → OperandsFit env context (.unary operator operand)
  | binary {left right : Term} {operator : Operator} :
      operator ∉ [.abs, .not, .adjacent] →
      left.VariableHas env (operandType operator.family) →
      right.VariableHas env (operandType operator.family) →
      (operator ∈ [.div, .mod] → left.freeNames ++ right.freeNames ≠ []) →
      OperandsFit env context left → OperandsFit env context right →
      OperandsFit env context (.binary left operator right)
  | equality {left right : String} {operator : Operator} :
      operator ∈ [.eq, .neq] → env.declared? left = env.declared? right →
      OperandsFit env context (.binary (.var left) operator (.var right))
  | adjacent {left right : String} {length : Int} :
      env.find? left = some (.known (.listOf .int)) →
      env.find? right = some (.known (.listOf .int)) →
      (context.lengths.find? (·.1 = left)).map Prod.snd = some (.int length) →
      OperandsFit env context (.binary (.var left) .adjacent (.var right))
  | element {site : Site} {name : String} {index : Term} {touched : Bool}
      {after : Option TypeEnv} :
      context.log.writesAt site = [] →
      Gives index.resolveType (some env) (.known .int, touched) after →
      OperandsFit env context index →
      OperandsFit env context (.subscript site (.var name) index)

/-- The encoding of a term succeeds with the table of an environment, and gives an
operand of a sort.  An integer that speaks of a name is no plain value. -/
def EncodesTo (written? : Site → String → Option (Encoding Operand))
    (context : EncodingContext) (env : TypeEnv) (term : Term) (sort : SolverSort) : Prop :=
  ∃ operand, (∀ lines, Gives ((term.encodeWith written?).run context)
      ⟨.ofEnv false env, lines⟩ operand ⟨.ofEnv false env, lines⟩) ∧
    operand.HasSort sort ∧ (sort = .int → term.freeNames ≠ [] → operand.isSymbolic = true)

section Encoding

variable {written? : Site → String → Option (Encoding Operand)} {context : EncodingContext}
  {env : TypeEnv} {left right operand : Term} {operator : Operator}

theorem EncodesTo.unary {type : Ty} {sort : SolverSort}
    (hoperator : unaryType? operator = some type) (hsort : type.solverSort? = some sort)
    (hoperand : operand.EncodesTo written? context env sort) :
    (Term.unary operator operand).EncodesTo written? context env sort := by
  obtain ⟨encoded, hencoded, hencodedSort, hsymbolic⟩ := hoperand
  obtain ⟨result, hresult, hresultSort, hkept⟩ :
      (Encoding.unary operator encoded).Makes context sort _ :=
    makes_unary hoperator hsort hencodedSort
  refine ⟨result, fun lines => ?_, hresultSort, fun hint hnames => ?_⟩
  · simp only [encodeWith, ReaderT.run_bind, gives_bind]
    exact ⟨encoded, _, hencoded lines, hresult _⟩
  · exact hkept (by simp [hint, hsymbolic hint hnames])

theorem EncodesTo.binary (hoperator : operator ∉ [.abs, .not, .adjacent])
    (hleft : left.EncodesTo written? context env operator.family.inner)
    (hright : right.EncodesTo written? context env operator.family.inner)
    (hnames : operator ∈ [.div, .mod] → left.freeNames ++ right.freeNames ≠ []) :
    (Term.binary left operator right).EncodesTo written? context env operator.family.outer := by
  obtain ⟨first, hfirst, hfirstSort, hfirstSymbolic⟩ := hleft
  obtain ⟨second, hsecond, hsecondSort, hsecondSymbolic⟩ := hright
  have hopen : operator.family = .arithmetic → left.freeNames ++ right.freeNames ≠ [] →
      first.isSymbolic || second.isSymbolic := by
    intro hfamily hnames
    rw [hfamily] at hfirstSymbolic hsecondSymbolic
    rw [ne_eq, List.append_eq_nil_iff, not_and_or] at hnames
    rw [Bool.or_eq_true]
    exact hnames.imp (hfirstSymbolic rfl) (hsecondSymbolic rfl)
  have hfamily : operator ∈ [.div, .mod] → operator.family = .arithmetic := by
    cases operator <;> simp [Operator.family]
  have houter : operator.family.outer = .int → operator.family = .arithmetic := by
    cases operator.family <;> simp [Operator.Family.outer]
  obtain ⟨result, hresult, hresultSort, hsymbolic⟩ :
      (Encoding.binary operator first second).Makes context operator.family.outer _ :=
    makes_binary hoperator hfirstSort hsecondSort
      fun hdivides => hopen (hfamily hdivides) (hnames hdivides)
  refine ⟨result, fun lines => ?_, hresultSort, fun hint hnames => hsymbolic ?_⟩
  · simp only [encodeWith, ReaderT.run_bind, gives_bind]
    exact ⟨first, _, hfirst lines, second, _, hsecond lines, hresult _⟩
  · simp [houter hint, hopen (houter hint) hnames]

/-- A binary operation on two variables that gives a truth value. -/
theorem EncodesTo.variables {firstOperand secondOperand : Operand}
    (hfirst : ∀ lines, Gives ((constant first).run context)
      ⟨.ofEnv false env, lines⟩ firstOperand ⟨.ofEnv false env, lines⟩)
    (hsecond : ∀ lines, Gives ((constant second).run context)
      ⟨.ofEnv false env, lines⟩ secondOperand ⟨.ofEnv false env, lines⟩)
    (hmakes : (Encoding.binary operator firstOperand secondOperand).Makes context .bool false) :
    (Term.binary (.var first) operator (.var second)).EncodesTo written? context env .bool := by
  obtain ⟨result, hresult, hsort, -⟩ := hmakes
  refine ⟨result, fun lines => ?_, hsort, by simp⟩
  simp only [encodeWith, ReaderT.run_bind, gives_bind]
  exact ⟨_, _, hfirst lines, _, _, hsecond lines, hresult _⟩

theorem EncodesTo.element (henv : env.IsSorted) (hunwritten : ∀ key, written? site key = none)
    (hname : env.find? name = some (.known (.listOf .int)))
    (hindex : index.EncodesTo written? context env .int) :
    (Term.subscript site (.var name) index).EncodesTo written? context env .int := by
  obtain ⟨operand, hoperand, hsort, -⟩ := hindex
  obtain ⟨result, hresult, hresultSort, hsymbolic⟩ :
      ∃ result, Operand.select (.symbolic (.const name .array)) operand = .ok result ∧ _ :=
    hsort.select
  refine ⟨result, fun lines => ?_, hresultSort, fun _ _ => hsymbolic⟩
  simp only [encodeWith, ReaderT.run_bind, gives_bind]
  refine ⟨context, _, gives_pure.mpr ⟨rfl, rfl⟩, ?_⟩
  rw [hunwritten]
  simp only [ReaderT.run_bind, gives_bind]
  exact ⟨_, _, gives_array (find?_ofEnv_eq_some henv hname rfl), operand, _,
    hoperand lines, gives_ofExcept.mpr ⟨hresult, rfl⟩⟩

/-- What an operator works on is of the sort of its family. -/
theorem solverSort?_operandType (family : Operator.Family) :
    (operandType family).solverSort? = some family.inner := by
  cases family <;> rfl

/-- An operand that fits has the type that its operator works on. -/
theorem VariableHas.eq_type {expected : TypeEntry} {touched : Bool}
    (hvariable : term.VariableHas env expected) (hplain : term.name? = none → type = expected)
    (hgives : Gives term.resolveType (some env) (type, touched) after) : type = expected := by
  cases term with
  | var name =>
    obtain ⟨hdeclared, -, -⟩ := gives_resolveType_var.mp hgives
    exact Option.some.inj (hdeclared.symm.trans (hvariable name rfl))
  | _ => exact hplain rfl

theorem known_of_sorted (hsort : type.solverSort? = some sort) : type ≠ .unknown := by
  rintro rfl
  cases hsort

theorem known_of_encodes (hencodes : after = some env ∧ ∃ sort, type.solverSort? = some sort ∧
      term.EncodesTo written? context env sort) : type ≠ .unknown ∧ after = some env := by
  obtain ⟨hafter, _, hsort, -⟩ := hencodes
  exact ⟨known_of_sorted hsort, hafter⟩

/-- Two variables under a binary operator pass with any types. -/
theorem of_gives_resolveType_variables (henv : env.IsSorted)
    (hgives : Gives (resolveType (.binary (.var first) operator (.var second))) (some env)
      result after) : ∃ firstType secondType, env.declared? first = some firstType ∧
      env.declared? second = some secondType ∧
      result.1 = (if operator.family = .comparison then .known .bool else secondType) ∧
      after = some env := by
  have hknown : ∀ {name result after}, Gives (resolveType (.var name)) (some env) result after →
      result.1 ≠ .unknown ∧ after = some env := by
    intro name result after hgives
    obtain ⟨hdeclared, -, rfl⟩ := gives_resolveType_var.mp hgives
    obtain ⟨_, hsort⟩ := henv.of_declared? hdeclared
    exact ⟨known_of_sorted hsort, rfl⟩
  obtain ⟨firstType, secondType, _, _, hfirst, hsecond, -, -, htype, hafter⟩ :=
    of_gives_resolveType_binary hknown hknown hgives
  exact ⟨firstType, secondType, (gives_resolveType_var.mp hfirst).1,
    (gives_resolveType_var.mp hsecond).1, htype, hafter⟩

theorem element?_of_sorted {element : TypeEntry} (hsort : type.solverSort? = some sort)
    (helement : type.element? = some element) :
    type = .known (.listOf .int) ∧ element = .known .int := by
  cases type with
  | unknown | written => cases hsort
  | known type =>
    cases type with
    | listOf inner =>
      cases inner with
      | int =>
        cases helement
        exact ⟨rfl, rfl⟩
      | _ => cases hsort
    | _ => cases helement

/-- An array read resolves only if the array is one, whatever its index. -/
theorem of_gives_resolveType_subscript (henv : env.IsSorted)
    (hgives : Gives (resolveType (.subscript site (.var name) index)) (some env) result after) :
    env.find? name = some (.known (.listOf .int)) ∧ result.1 = .known .int ∧ after = some env := by
  simp only [resolveType, name?, Typing.ofOption, pure_bind, Typing.entry, gives_bind,
    gives_find?] at hgives
  obtain ⟨_, _, ⟨_, _, ⟨rfl, rfl⟩, htype⟩, _, _, helement, hresult⟩ := hgives
  cases hfind : env.find? name with
  | none => simp [hfind] at htype
  | some entry =>
    rw [hfind] at htype
    obtain ⟨rfl, rfl⟩ := gives_pure.mp htype
    obtain ⟨_, hsort⟩ := henv.of_find? hfind
    cases hinner : entry.element? with
    | none => simp [hinner] at helement
    | some =>
      rw [hinner] at helement
      obtain ⟨rfl, rfl⟩ := gives_pure.mp helement
      obtain ⟨rfl, rfl⟩ := gives_pure.mp hresult
      obtain ⟨rfl, rfl⟩ := element?_of_sorted hsort hinner
      exact ⟨rfl, rfl, rfl⟩

/-- Type resolution of a claim whose operands fit leaves the environment as it is,
and the claim is encoded as an operand of the sort of its type. -/
theorem OperandsFit.encodes (hfit : OperandsFit env context term) (henv : env.IsSorted)
    (hunwritten : ∀ site key, context.log.writesAt site = [] → written? site key = none)
    (hgives : Gives term.resolveType (some env) result after) :
    after = some env ∧ ∃ sort, result.1.solverSort? = some sort ∧
      term.EncodesTo written? context env sort := by
  induction hfit generalizing result after with
  | @literal value =>
    cases value with
    | int =>
      obtain ⟨rfl, rfl⟩ := gives_pure.mp hgives
      exact ⟨rfl, .int, rfl, _, fun _ => gives_pure.mpr ⟨rfl, rfl⟩, .int, by simp [freeNames]⟩
    | bool =>
      obtain ⟨rfl, rfl⟩ := gives_pure.mp hgives
      exact ⟨rfl, .bool, rfl, _, fun _ => gives_pure.mpr ⟨rfl, rfl⟩, .bool, by simp⟩
    | general | bare => cases hgives
  | var =>
    obtain ⟨hdeclared, -, rfl⟩ := gives_resolveType_var.mp hgives
    obtain ⟨sort, hsort⟩ := henv.of_declared? hdeclared
    obtain ⟨_, hbase⟩ := gives_constant_ofEnv henv hdeclared hsort
    exact ⟨rfl, sort, hsort, _, hbase, .symbolic rfl, fun _ _ => rfl⟩
  | @unary operator _ _ ih =>
    simp only [resolveType] at hgives
    cases hexpected : unaryType? operator with
    | none => simp [hexpected] at hgives
    | some =>
      simp only [hexpected, gives_bind, gives_pure] at hgives
      obtain ⟨⟨_, _⟩, _, hactual, ⟨_, _⟩, _, hcheck, rfl, rfl⟩ := hgives
      obtain ⟨rfl, sort, hsort, hencodes⟩ := ih hactual
      obtain ⟨hsame, hresult, rfl⟩ := (gives_checkType (known_of_sorted hsort)).mp hcheck
      cases hresult
      obtain rfl := hsame.resolve_right (by simp)
      exact ⟨rfl, sort, hsort, hencodes.unary hexpected hsort⟩
  | @binary _ _ operator hoperator hleft hright hnames _ _ ihleft ihright =>
    obtain ⟨leftType, rightType, _, _, hleftGives, hrightGives, hleftPlain, hrightPlain,
      htype, rfl⟩ := of_gives_resolveType_binary (fun hgives => known_of_encodes (ihleft hgives))
        (fun hgives => known_of_encodes (ihright hgives)) hgives
    obtain rfl := hleft.eq_type hleftPlain hleftGives
    obtain rfl := hright.eq_type hrightPlain hrightGives
    obtain ⟨-, _, hsort, hleftEncodes⟩ := ihleft hleftGives
    obtain ⟨-, _, hotherSort, hrightEncodes⟩ := ihright hrightGives
    rw [solverSort?_operandType, Option.some.injEq] at hsort hotherSort
    subst hsort hotherSort
    refine ⟨rfl, operator.family.outer, ?_, hleftEncodes.binary hoperator hrightEncodes hnames⟩
    rw [htype]
    cases operator.family <;> rfl
  | @equality _ _ operator hoperator hsame =>
    obtain ⟨leftType, rightType, hleft, hright, htype, rfl⟩ :=
      of_gives_resolveType_variables henv hgives
    obtain rfl : leftType = rightType := by
      rw [hleft, hright] at hsame
      exact Option.some.inj hsame
    obtain ⟨_, hsort⟩ := henv.of_declared? hleft
    obtain ⟨_, hfirst⟩ := gives_constant_ofEnv henv hleft hsort
    obtain ⟨_, hsecond⟩ := gives_constant_ofEnv henv hright hsort
    have hfamily : operator.family = .comparison := by
      revert hoperator
      cases operator <;> simp [Operator.family]
    refine ⟨rfl, .bool, by rw [htype, if_pos hfamily]; rfl, ?_⟩
    exact .variables hfirst hsecond (makes_equality hoperator (.symbolic rfl) (.symbolic rfl))
  | adjacent hleft hright hlength =>
    obtain ⟨_, _, -, -, htype, rfl⟩ := of_gives_resolveType_variables henv hgives
    have hfirst := find?_ofEnv_eq_some henv hleft rfl
    have hsecond := find?_ofEnv_eq_some henv hright rfl
    refine ⟨rfl, .bool, by rw [htype]; rfl, ?_⟩
    exact .variables (fun _ => gives_constant hfirst) (fun _ => gives_constant hsecond)
      (makes_adjacent hlength)
  | @element site _ _ _ _ hsite hindex _ ih =>
    obtain ⟨-, _, hsort, hencodes⟩ := ih hindex
    cases hsort
    obtain ⟨hname, hresult, rfl⟩ := of_gives_resolveType_subscript henv hgives
    exact ⟨rfl, .int, by rw [hresult]; rfl,
      hencodes.element henv (fun key => hunwritten site key hsite) hname⟩

end Encoding

end Term

/-- A quantifier-free claim that resolves to a truth value, and whose operands fit
where type resolution does not look, has a formula of truth values or is computed
to a truth value. -/
theorem resolved_claim_encodes {env : TypeEnv} {context : EncodingContext} {claim : Term}
    {touched : Bool} {after : Option TypeEnv} (henv : env.IsSorted)
    (hfit : claim.OperandsFit env context)
    (hgives : Gives claim.resolveType (some env) (.known .bool, touched) after) (lines : Nat) :
    ∃ operand, Gives (claim.encode.run context) ⟨.ofEnv false env, lines⟩ operand
        ⟨.ofEnv false env, lines⟩ ∧ operand.HasSort .bool := by
  have hunwritten : ∀ site key, context.log.writesAt site = [] →
      Term.encodeWritten context.log (context.log.sites.size + 1) site key = none := by
    intro site key hsite
    rw [Term.encodeWritten, hsite]
    rfl
  obtain ⟨-, sort, hsort, operand, hoperand, hoperandSort, -⟩ :=
    hfit.encodes henv hunwritten hgives
  cases hsort
  refine ⟨operand, ?_, hoperandSort⟩
  simp only [Term.encode, ReaderT.run_bind, gives_bind]
  exact ⟨context, _, gives_pure.mpr ⟨rfl, rfl⟩, hoperand lines⟩

/-- Adjacent arrays, two truth values, a copy of a variable, and an array read under a
division: `A ~ B ==> (b == c <==> A[x#1 % 2] / x <= |3 - 5| && not b)`. -/
theorem resolved_claim_encodes_adjacent :
    let env : TypeEnv := [("A", .known (.listOf .int)), ("B", .known (.listOf .int)),
      ("x", .known .int), ("b", .known .bool), ("c", .known .bool)]
    let context : EncodingContext := ⟨.empty, [("A", .int 2)]⟩
    let read := Term.subscript 0 (.var "A") (.binary (.var "x#1") .mod (.literal (.int 2)))
    let bound := Term.unary .abs (.binary (.literal (.int 3)) .minus (.literal (.int 5)))
    let claim := Term.binary (.binary (.var "A") .adjacent (.var "B")) .implies
      (.binary (.binary (.var "b") .eq (.var "c")) .iff
        (.binary (.binary (.binary read .div (.var "x")) .le bound) .and (.unary .not (.var "b"))))
    Gives claim.resolveType (some env) (.known .bool, false) (some env) ∧
      ∃ operand, Gives (claim.encode.run context) ⟨.ofEnv false env, 0⟩ operand
        ⟨.ofEnv false env, 0⟩ ∧ operand.HasSort .bool := by
  intro env context read bound claim
  have henv : env.IsSorted := ⟨by decide, by simp [env, TypeEntry.solverSort?, Ty.solverSort?]⟩
  have hother : ∀ {type : TypeEntry} {term : Term}, term.name? = none →
      term.VariableHas env type := by
    rintro type term hname name rfl
    cases hname
  have hvariable : ∀ {type : TypeEntry} {name : String}, env.declared? name = some type →
      (Term.var name).VariableHas env type := by
    rintro type name hdeclared _ ⟨⟩
    exact hdeclared
  have hindex : Gives (Term.binary (.var "x#1") .mod (.literal (.int 2))).resolveType
      (some env) (.known .int, false) (some env) := by
    unfold Gives
    decide +kernel
  have hread : read.OperandsFit env context :=
    .element rfl hindex (.binary (by decide) (hvariable (by decide +kernel)) (hother rfl)
      (by decide) .var .literal)
  have hbound : bound.OperandsFit env context :=
    .unary (.binary (by decide) (hother rfl) (hother rfl) (by decide) .literal .literal)
  have hquotient : (Term.binary read .div (.var "x")).OperandsFit env context :=
    .binary (by decide) (hother rfl) (hvariable rfl) (by decide) hread .var
  have hfit : claim.OperandsFit env context :=
    .binary (by decide) (hother rfl) (hother rfl) (by decide) (.adjacent rfl rfl rfl)
      (.binary (by decide) (hother rfl) (hother rfl) (by decide) (.equality (by decide) rfl)
        (.binary (by decide) (hother rfl) (hother rfl) (by decide)
          (.binary (by decide) (hother rfl) (hother rfl) (by decide) hquotient hbound)
          (.unary .var)))
  have hresolves : Gives claim.resolveType (some env) (.known .bool, false) (some env) := by
    unfold Gives
    decide +kernel
  exact ⟨hresolves, resolved_claim_encodes henv hfit hresolves 0⟩

/-- Type resolution takes a comparison of two truth values for a truth value,
although it has no formula. -/
theorem resolved_claim_unencodable : let env : TypeEnv := [("b", .known .bool), ("c", .known .bool)]
    let claim := Term.binary (.var "b") .lt (.var "c")
    env.IsSorted ∧ Gives claim.resolveType (some env) (.known .bool, false) (some env) ∧
      outcomeOn (claim.encode.run ⟨.empty, []⟩) ⟨.ofEnv false env, 0⟩ =
        (.error .wrongKind, ⟨.ofEnv false env, 0⟩) := by
  intro env claim
  exact ⟨⟨by decide, by simp [env, TypeEntry.solverSort?, Ty.solverSort?]⟩, rfl, rfl⟩

end HoareCheck
