import HoareCheck.Proofs.ForkedClaims
import HoareCheck.Proofs.TypedEncoding
import HoareCheck.Verifier.Verify

/-!
# The copies of a variable in the solver

When two runs are compared, the copies of an integer or of a truth value have
constants of their own in the table of the solver, so that they may differ.  A
copy of an array has one only if the environment has an entry for it.  Otherwise
it stands for the array itself.  If neither copy has an entry, no model tells
them apart or makes them adjacent, and whatever is claimed under such a
precondition holds (`copies_independent_iff`).
-/

namespace HoareCheck

open Operand

variable {name key first second : String} {entry : String × TypeEntry} {sort : SolverSort}
  {env : TypeEnv} {type : TypeEntry} {written? : Site → String → Option (Encoding Operand)}
  {model : Model} {indices : List Nat} {length : Int} {lines : Nat}

/-! ## The table of two runs -/

namespace NameTable

/-- The table with a name of an environment, and with its copies unless it is an
array. -/
def withCopies (names : NameTable) (entry : String × TypeEntry) : NameTable :=
  match entry.2.solverSort? with
  | some .array => names.insert entry.1 .array
  | some sort => names.declare true entry.1 sort
  | none => names

theorem ofEnv_true_eq_foldl (env : TypeEnv) : ofEnv true env = env.foldl withCopies [] := by
  rw [ofEnv]
  congr 1
  funext names entry
  obtain ⟨_, type⟩ := entry
  rw [withCopies]
  cases type with
  | unknown | written => rfl
  | known type =>
    cases type with
    | int | bool | float | text | list => rfl
    | listOf element => cases element <;> rfl

theorem find?_insert_of_ne (names : NameTable) {other : String} (sort : SolverSort)
    (hother : other ≠ name) : (names.insert name sort).find? other = names.find? other := by
  rw [find?_insert, Function.update_of_ne hother]

/-- The names that an entry of an environment puts into the table. -/
def Writes (entry : String × TypeEntry) (key : String) : Prop :=
  key = entry.1 ∨ entry.2.solverSort? ≠ some .array ∧
    (key = firstCopy entry.1 ∨ key = secondCopy entry.1)

theorem find?_withCopies_of_writes (names : NameTable) (hsort : entry.2.solverSort? = some sort)
    (hwrites : Writes entry key) : (names.withCopies entry).find? key = some sort := by
  have hdeclare : (key = entry.1 ∨ key = firstCopy entry.1 ∨ key = secondCopy entry.1) →
      (names.declare true entry.1 sort).find? key = some sort := by
    intro hkey
    simp only [declare, if_true, find?_insert, Function.update_apply]
    rcases hkey with rfl | rfl | rfl <;> simp
  rw [withCopies, hsort]
  rcases hwrites with hown | ⟨hscalar, hcopy⟩
  · cases sort with
    | array => rw [find?_insert, hown, Function.update_self]
    | int | bool | real => exact hdeclare (.inl hown)
  · cases sort with
    | array => exact absurd hsort hscalar
    | int | bool | real => exact hdeclare (.inr hcopy)

theorem find?_withCopies_of_not_writes (names : NameTable) (hwrites : ¬ Writes entry key) :
    (names.withCopies entry).find? key = names.find? key := by
  simp only [Writes, not_or, not_and] at hwrites
  obtain ⟨hown, hcopies⟩ := hwrites
  rw [withCopies]
  cases hsort : entry.2.solverSort? with
  | none => rfl
  | some sort =>
    cases sort with
    | array => exact find?_insert_of_ne names .array hown
    | int | bool | real =>
      obtain ⟨hfirst, hsecond⟩ := hcopies (by simp [hsort])
      simp only [declare, if_true]
      rw [find?_insert_of_ne _ _ hsecond, find?_insert_of_ne _ _ hfirst,
        find?_insert_of_ne _ _ hown]

theorem find?_foldl_withCopies_of_not_writes (hwrites : ∀ entry ∈ env, ¬ Writes entry key)
    (names : NameTable) : (env.foldl withCopies names).find? key = names.find? key := by
  induction env generalizing names with
  | nil => rfl
  | cons entry _ ih =>
    rw [List.foldl_cons, ih fun other hother => hwrites other (List.mem_cons_of_mem entry hother),
      find?_withCopies_of_not_writes names (hwrites entry List.mem_cons_self)]

/-- A name that is put into the table with one sort only has that sort there. -/
theorem find?_ofEnv_of_writes
    (hsorts : ∀ entry ∈ env, Writes entry key → entry.2.solverSort? = some sort)
    (hwrites : ∃ entry ∈ env, Writes entry key) : (ofEnv true env).find? key = some sort := by
  have hstays : ∀ (rest : TypeEnv) (names : NameTable),
      (∀ entry ∈ rest, Writes entry key → entry.2.solverSort? = some sort) →
      names.find? key = some sort → (rest.foldl withCopies names).find? key = some sort := by
    intro rest
    induction rest with
    | nil => exact fun names _ hfind => hfind
    | cons entry _ ih =>
      intro names hrest hfind
      refine ih _ (fun other hother => hrest other (List.mem_cons_of_mem entry hother)) ?_
      by_cases hentry : Writes entry key
      · exact find?_withCopies_of_writes names (hrest entry List.mem_cons_self hentry) hentry
      · rw [find?_withCopies_of_not_writes names hentry, hfind]
  obtain ⟨entry, hmem, hentry⟩ := hwrites
  obtain ⟨before, _, rfl⟩ := List.append_of_mem hmem
  rw [ofEnv_true_eq_foldl, List.foldl_append, List.foldl_cons]
  apply hstays
  · intro other hother
    exact hsorts other (List.mem_append_right before (List.mem_cons_of_mem entry hother))
  · exact find?_withCopies_of_writes _ (hsorts entry hmem hentry) hentry

theorem find?_ofEnv_of_not_writes (hwrites : ∀ entry ∈ env, ¬ Writes entry key) :
    (ofEnv true env).find? key = none := by
  rw [ofEnv_true_eq_foldl]
  exact find?_foldl_withCopies_of_not_writes hwrites []

end NameTable

theorem TypeEnv.find?_eq_some_iff (hdistinct : (env.map Prod.fst).Nodup) :
    env.find? name = some type ↔ (name, type) ∈ env := by
  constructor
  · intro hfind
    obtain ⟨⟨found, _⟩, hfound, rfl⟩ := Option.map_eq_some_iff.mp hfind
    obtain rfl : found = name := by simpa using List.find?_some hfound
    exact List.mem_of_find?_eq_some hfound
  · intro hmem
    cases hfind : env.find? name with
    | none =>
      simp only [TypeEnv.find?, Option.map_eq_none_iff, List.find?_eq_none] at hfind
      exact absurd (by simp) (hfind _ hmem)
    | some =>
      obtain ⟨⟨found, _⟩, hfound, rfl⟩ := Option.map_eq_some_iff.mp hfind
      obtain rfl : found = name := by simpa using List.find?_some hfound
      have hsame := List.inj_on_of_nodup_map hdistinct (List.mem_of_find?_eq_some hfound) hmem rfl
      rw [hsame]

/-- What stands before the mark of a copy is the variable. -/
theorem ofList_takeWhile_copy (hname : IsUnmarked name) (number : String) :
    String.ofList ((name ++ ("#" ++ number)).toList.takeWhile (· ≠ '#')) = name := by
  have htake : (name ++ ("#" ++ number)).toList.takeWhile (· ≠ '#') = name.toList := by
    rw [String.toList_append, List.takeWhile_append_of_pos]
    · simp
    · intro char hchar
      have hne : char ≠ '#' := fun heq => hname (heq ▸ hchar)
      simpa using hne
  rw [htake, String.ofList_toList]

/-- The environment has the variable, and its copies with no other type. -/
structure TypeEnv.Declares (env : TypeEnv) (name : String) (type : TypeEntry) : Prop where
  sorted : env.IsSorted
  found : env.find? name = some type
  first : ∀ other, env.find? (firstCopy name) = some other → other = type
  second : ∀ other, env.find? (secondCopy name) = some other → other = type

/-- The environment has an entry for a copy of the variable. -/
def TypeEnv.DeclaresCopy (env : TypeEnv) (name : String) : Prop :=
  (env.find? (firstCopy name)).isSome ∨ (env.find? (secondCopy name)).isSome

/-- The constant of a copy of an array. -/
def TypeEnv.constantOf (env : TypeEnv) (name copy : String) : String :=
  if (env.find? copy).isSome then copy else name

theorem firstCopy_ne (name : String) : firstCopy name ≠ name := by
  simp [firstCopy]

theorem secondCopy_ne (name : String) : secondCopy name ≠ name := by
  simp [secondCopy]

/-- The copies have two constants exactly if one of them has an entry. -/
theorem TypeEnv.constantOf_ne_iff (env : TypeEnv) (name : String) :
    env.constantOf name (firstCopy name) ≠ env.constantOf name (secondCopy name) ↔
      env.DeclaresCopy name := by
  have hfirst := firstCopy_ne name
  have hsecond := secondCopy_ne name
  have hcopies := firstCopy_ne_secondCopy name name
  rw [constantOf, constantOf, DeclaresCopy]
  by_cases hhasFirst : (env.find? (firstCopy name)).isSome
  · by_cases hhasSecond : (env.find? (secondCopy name)).isSome
    · simp [hhasFirst, hhasSecond, hcopies]
    · simp [hhasFirst, hhasSecond, hfirst]
  · by_cases hhasSecond : (env.find? (secondCopy name)).isSome
    · simp [hhasFirst, hhasSecond, hsecond.symm]
    · simp [hhasFirst, hhasSecond]

namespace TypeEnv.Declares

variable {env : TypeEnv} {name copy : String} {type : TypeEntry} {sort : SolverSort}

section

variable (hdeclares : env.Declares name type)

include hdeclares

/-- Only the entries of the variable and of the copy itself put a copy into the
table, and both have the type of the variable. -/
theorem type_of_writes (hcopy : copy = firstCopy name ∨ copy = secondCopy name)
    (hentry : entry ∈ env) (hwrites : NameTable.Writes entry copy) : entry.2 = type := by
  have hfind := (find?_eq_some_iff hdeclares.sorted.distinct).mpr hentry
  have hname : entry.1 = name → entry.2 = type := by
    intro hsame
    rw [hsame, hdeclares.found] at hfind
    exact (Option.some.inj hfind).symm
  rcases hcopy with rfl | rfl
  · rcases hwrites with hown | ⟨-, hfirst | hsecond⟩
    · exact hdeclares.first entry.2 (hown ▸ hfind)
    · exact hname (firstCopy_injective hfirst).symm
    · exact absurd hsecond (firstCopy_ne_secondCopy name entry.1)
  · rcases hwrites with hown | ⟨-, hfirst | hsecond⟩
    · exact hdeclares.second entry.2 (hown ▸ hfind)
    · exact absurd hfirst.symm (firstCopy_ne_secondCopy entry.1 name)
    · exact hname (secondCopy_injective hsecond).symm

/-- The copies of an integer or a truth value have constants of their own. -/
theorem find?_copy_of_scalar (hcopy : copy = firstCopy name ∨ copy = secondCopy name)
    (hsort : type.solverSort? = some sort) (hscalar : sort ≠ .array) :
    (NameTable.ofEnv true env).find? copy = some sort := by
  apply NameTable.find?_ofEnv_of_writes
  · intro entry hentry hwrites
    rw [hdeclares.type_of_writes hcopy hentry hwrites, hsort]
  · have hmem := (find?_eq_some_iff hdeclares.sorted.distinct).mp hdeclares.found
    exact ⟨_, hmem, .inr ⟨by simp [hsort, hscalar], hcopy⟩⟩

/-- A copy of an array has a constant of its own only if it has an entry. -/
theorem find?_copy_of_array (hcopy : copy = firstCopy name ∨ copy = secondCopy name)
    (harray : type.solverSort? = some .array) :
    (NameTable.ofEnv true env).find? copy =
      if (env.find? copy).isSome then some .array else none := by
  split_ifs with hfound
  · obtain ⟨_, hother⟩ := Option.isSome_iff_exists.mp hfound
    apply NameTable.find?_ofEnv_of_writes
    · intro entry hentry hwrites
      rw [hdeclares.type_of_writes hcopy hentry hwrites, harray]
    · exact ⟨_, (find?_eq_some_iff hdeclares.sorted.distinct).mp hother, .inl rfl⟩
  · apply NameTable.find?_ofEnv_of_not_writes
    intro entry hentry hwrites
    have htype := hdeclares.type_of_writes hcopy hentry hwrites
    rcases hwrites with hown | ⟨hscalar, -⟩
    · rw [hown, (find?_eq_some_iff hdeclares.sorted.distinct).mpr hentry] at hfound
      exact hfound rfl
    · rw [htype] at hscalar
      exact hscalar harray

/-- The array itself is in the table. -/
theorem find?_array (hname : IsUnmarked name) (harray : type.solverSort? = some .array) :
    (NameTable.ofEnv true env).find? name = some .array := by
  have hdistinct := hdeclares.sorted.distinct
  apply NameTable.find?_ofEnv_of_writes
  · intro entry hentry hwrites
    rcases hwrites with hown | ⟨-, hfirst | hsecond⟩
    · have hfind := (find?_eq_some_iff hdistinct).mpr hentry
      rw [← hown, hdeclares.found] at hfind
      rw [← Option.some.inj hfind, harray]
    · exact absurd (hfirst ▸ hname) (not_isUnmarked_firstCopy entry.1)
    · exact absurd (hsecond ▸ hname) (not_isUnmarked_secondCopy entry.1)
  · exact ⟨_, (find?_eq_some_iff hdistinct).mp hdeclares.found, .inl rfl⟩

/-- A copy of an array that has no entry stands for the array. -/
theorem gives_constant_copy (hname : IsUnmarked name) (harray : type.solverSort? = some .array)
    (hcopy : copy = firstCopy name ∨ copy = secondCopy name) (context : EncodingContext)
    (lines : Nat) :
    Gives ((Encoding.constant copy).run context) ⟨.ofEnv true env, lines⟩
      (.symbolic (.const (env.constantOf name copy) .array)) ⟨.ofEnv true env, lines⟩ := by
  have hfind := hdeclares.find?_copy_of_array hcopy harray
  rw [constantOf]
  split_ifs with hfound
  · rw [if_pos hfound] at hfind
    exact gives_constant hfind
  · rw [if_neg hfound] at hfind
    have hbase : String.ofList (copy.toList.takeWhile (· ≠ '#')) = name := by
      rcases hcopy with rfl | rfl
      · exact ofList_takeWhile_copy hname "1"
      · exact ofList_takeWhile_copy hname "2"
    simp only [Encoding.constant, ReaderT.run_bind, gives_bind]
    refine ⟨_, _, gives_get.mpr ⟨rfl, rfl⟩, ?_⟩
    simp only [hfind, hbase, hdeclares.find?_array hname harray]
    exact gives_pure.mpr ⟨rfl, rfl⟩

end

end TypeEnv.Declares

/-! ## Formulas of the two copies -/

/-- The claim is encoded, and some model makes its formula true. -/
def Term.SatisfiableIn (claim : Term) (context : EncodingContext) (names : NameTable) : Prop :=
  ∃ lines formula after,
    Gives (claim.encode.run context) ⟨names, lines⟩ (.symbolic formula) after ∧
      formula.Satisfiable

/-- The claim that relates the two copies of a variable by an operator. -/
def Term.ofCopies (operator : Operator) (name : String) : Term :=
  .binary (.var (firstCopy name)) operator (.var (secondCopy name))

section Encoded

variable {operator : Operator} {name : String} {context : EncodingContext}
  {before after : EncodingState} {operand : Operand}

theorem Term.gives_encodeWith_ofCopies :
    Gives (((ofCopies operator name).encodeWith written?).run context) before operand after ↔
      ∃ first between, Gives ((Encoding.constant (firstCopy name)).run context) before first
        between ∧ ∃ second last, Gives ((Encoding.constant (secondCopy name)).run context) between
          second last ∧ Gives ((Encoding.binary operator first second).run context) last operand
            after := by
  simp only [ofCopies, encodeWith, ReaderT.run_bind, gives_bind]

end Encoded

theorem SolverSort.exists_ne (sort : SolverSort) :
    ∃ left right : Value, left ∈ sort.values ∧ right ∈ sort.values ∧ left ≠ right := by
  cases sort with
  | int => exact ⟨.int 0, .int 1, ⟨0, rfl⟩, ⟨1, rfl⟩, by simp⟩
  | bool => exact ⟨.bool false, .bool true, ⟨false, rfl⟩, ⟨true, rfl⟩, by simp⟩
  | real => exact ⟨.real 0, .real 1, ⟨0, rfl⟩, ⟨1, rfl⟩, by simp⟩
  | array =>
    refine ⟨.array fun _ => 0, .array fun _ => 1, ⟨_, rfl⟩, ⟨_, rfl⟩, ?_⟩
    intro hsame
    have helement := congrFun (Value.array.inj hsame) 0
    simp at helement

/-- Constants with different names may have different values. -/
theorem satisfiable_not_equal (hne : first ≠ second) (sort : SolverSort) :
    (Formula.not (.equal (.const first sort) (.const second sort))).Satisfiable := by
  obtain ⟨left, right, hleft, hright, hvalues⟩ := sort.exists_ne
  let model := ((Model.givenBy fun _ => .nothing).assign first sort ⟨left, hleft⟩).assign second
    sort ⟨right, hright⟩
  refine ⟨model, ?_⟩
  have hfirst : model.constant first sort = left := by simp [model, Model.assign, hne]
  have hsecond : model.constant second sort = right := by simp [model, Model.assign]
  simp [hfirst, hsecond, hvalues]

/-- Positions at which two arrays agree add nothing to a sum of differences. -/
theorem eval_differences {left right sum : Formula} {value : Int}
    (hsame : ∀ index ∈ indices, (Operand.differenceAt left right index).eval model = .int 0)
    (hsum : sum.eval model = .int value) :
    (indices.foldl (fun sum index => Formula.sumMore sum (Operand.differenceAt left right index))
      sum).eval model = .int value := by
  induction indices generalizing sum with
  | nil => exact hsum
  | cons index _ ih =>
    apply ih fun other hother => hsame other (List.mem_cons_of_mem index hother)
    simp [hsum, hsame index List.mem_cons_self, Model.arithmetic]

theorem eval_bounds {bounds : Formula}
    (hindices : ∀ index ∈ indices, ((Operand.positionBounds length index).eval model).truth = true)
    (hbounds : (bounds.eval model).truth = true) :
    ((indices.foldl (fun bounds index => Formula.and bounds (Operand.positionBounds length index))
      bounds).eval model).truth = true := by
  induction indices generalizing bounds with
  | nil => exact hbounds
  | cons index _ ih =>
    apply ih fun other hother => hindices other (List.mem_cons_of_mem index hother)
    simp [hbounds, hindices index List.mem_cons_self]

/-- No array is adjacent to itself: the claim is plainly false, or a formula
that is false in every model. -/
theorem Operand.adjacent_self {operand result : Operand}
    (hadjacent : adjacent operand operand length = .ok result) :
    result = .plain (.bool false) ∨ ∃ formula, result = .symbolic formula ∧
      formula.sort = .bool ∧ ∀ model, (formula.eval model).truth = false := by
  rw [adjacent] at hadjacent
  cases hindices : List.range length.toNat with
  | nil =>
    rw [hindices] at hadjacent
    cases hadjacent
    exact .inl rfl
  | cons first rest =>
    rw [hindices] at hadjacent
    cases operand with
    | plain => cases hadjacent
    | symbolic array =>
      by_cases harray : array.sort = .array
      · simp only [harray, decide_true, Bool.and_self, if_true] at hadjacent
        cases hadjacent
        refine .inr ⟨_, rfl, rfl, ?_⟩
        intro model
        have hsame : ∀ index, (differenceAt array array index).eval model = .int 0 := by
          intro index
          simp [differenceAt, indicator]
        have hfirst : (Formula.sumOf (differenceAt array array first)).eval model = .int 0 :=
          hsame first
        have hsum := eval_differences (fun index (_ : index ∈ rest) => hsame index) hfirst
        simp [hsum]
      · simp [harray] at hadjacent

/-- The first position of adjacent arrays is zero and all others are one, and an
array differs from the others at zero. -/
noncomputable def Model.differingAtZero (array : String) : Model where
  constant
    | name, .int => .int (if .const name .int = Operand.positionConst 0 then 0 else 1)
    | _, .bool => .bool false
    | _, .real => .real 0
    | name, .array => .array fun index => if name = array ∧ index = 0 then 1 else 0
  sorted := by
    intro name sort
    cases sort <;> exact ⟨_, rfl⟩
  quotientByZero := id
  remainderByZero := id
  ratioByZero := id

theorem positionConst_succ_ne (index : Nat) :
    positionConst (index + 1) ≠ positionConst 0 := by
  intro hsame
  simp only [positionConst, Formula.const.injEq, and_true] at hsame
  have hrepr : Int.repr ((index + 1 : Nat) : Int) = Int.repr ((0 : Nat) : Int) :=
    String.append_right_inj _ |>.mp hsame
  have hindex := Int.repr_injective hrepr
  omega

theorem eval_positionConst_zero (array : String) :
    (positionConst 0).eval (.differingAtZero array) = .int 0 :=
  congrArg Value.int (if_pos rfl)

theorem eval_positionConst_succ (array : String) (index : Nat) :
    (positionConst (index + 1)).eval (.differingAtZero array) = .int 1 :=
  congrArg Value.int (if_neg (positionConst_succ_ne index))

theorem eval_array_differingAtZero (array name : String) :
    (Formula.const name .array).eval (.differingAtZero array) =
      .array fun index => if name = array ∧ index = 0 then 1 else 0 :=
  rfl

/-- Arrays with different names may be adjacent, whatever their length is. -/
theorem Operand.satisfiable_adjacent (hne : first ≠ second) (hlength : 1 ≤ length) :
    ∃ formula, adjacent (.symbolic (.const first .array)) (.symbolic (.const second .array))
      length = .ok (.symbolic formula) ∧ formula.Satisfiable := by
  obtain ⟨count, rfl⟩ : ∃ count : Nat, length = count + 1 := ⟨(length - 1).toNat, by omega⟩
  have hrange : List.range ((count : Int) + 1).toNat = 0 :: (List.range count).map Nat.succ := by
    rw [← List.range_succ_eq_map]
    congr 1
  let model := Model.differingAtZero first
  refine ⟨_, by rw [adjacent, hrange]; rfl, model, ?_⟩
  have hbounded : ∀ index ∈ (List.range count).map Nat.succ,
      ((positionBounds (count + 1) index).eval model).truth = true := by
    intro index hindex
    obtain ⟨_, hbefore, rfl⟩ := List.mem_map.mp hindex
    have hpositive : 0 < count := Nat.zero_lt_of_lt (List.mem_range.mp hbefore)
    simp [positionBounds, model, eval_positionConst_succ, Value.compared, OrderOp.relates,
      hpositive]
  have hfirstBounded : ((positionBounds (count + 1) 0).eval model).truth = true := by
    simp [positionBounds, model, eval_positionConst_zero, Value.compared, OrderOp.relates]
  have hagree : ∀ index ∈ (List.range count).map Nat.succ,
      (differenceAt (.const first .array) (.const second .array) index).eval model = .int 0 := by
    intro index hindex
    obtain ⟨_, -, rfl⟩ := List.mem_map.mp hindex
    simp [differenceAt, indicator, model, eval_positionConst_succ, eval_array_differingAtZero,
      Value.element]
  have hdiffer : (Formula.sumOf (differenceAt (.const first .array) (.const second .array)
      0)).eval model = .int 1 := by
    simp [differenceAt, indicator, model, eval_positionConst_zero, eval_array_differingAtZero,
      Value.element, hne.symm]
  have hbounds := eval_bounds hbounded hfirstBounded
  have hsum := eval_differences hagree hdiffer
  simp [hbounds, hsum]

/-- The claim that two arrays differ. -/
theorem Operand.unequal_arrays (first second : String) :
    (equal (.symbolic (.const first .array)) (.symbolic (.const second .array)) >>= logicalNot) =
      .ok (.symbolic (.not (.equal (.const first .array) (.const second .array)))) :=
  rfl

/-! ## Independence of the copies -/

/-- The length that is registered for an array. -/
def ArrayLengths.find? (lengths : ArrayLengths) (name : String) : Option Datum :=
  (List.find? (fun entry => entry.1 = name) lengths).map Prod.snd

theorem gives_lengthOf_const {context : EncodingContext}
    (hlength : context.lengths.find? name = some (.int length)) (state : EncodingState) :
    Gives ((Encoding.lengthOf (.symbolic (.const name sort))).run context) state length state := by
  rw [ArrayLengths.find?] at hlength
  simp only [Encoding.lengthOf, Encoding.lengthKey?, ReaderT.run_bind, gives_bind]
  refine ⟨_, state, gives_pure.mpr ⟨rfl, rfl⟩, context, state, gives_pure.mpr ⟨rfl, rfl⟩,
    .int length, state, ?_, gives_pure.mpr ⟨rfl, rfl⟩⟩
  rw [hlength]
  exact gives_pure.mpr ⟨rfl, rfl⟩

namespace TypeEnv.Declares

variable {env : TypeEnv} {name : String} {type : TypeEntry}

/-- The copies of an integer or a truth value may differ. -/
theorem satisfiableIn_neq_of_scalar (hdeclares : env.Declares name type)
    (hsort : type.solverSort? = some sort) (hscalar : sort ≠ .array) (context : EncodingContext) :
    (Term.ofCopies .neq name).SatisfiableIn context (.ofEnv true env) := by
  have hfirst := hdeclares.find?_copy_of_scalar (.inl rfl) hsort hscalar
  have hsecond := hdeclares.find?_copy_of_scalar (.inr rfl) hsort hscalar
  let state : EncodingState := ⟨.ofEnv true env, 0⟩
  have hunequal : (Operand.equal (.symbolic (.const (firstCopy name) sort))
      (.symbolic (.const (secondCopy name) sort)) >>= Operand.logicalNot) =
        .ok (.symbolic (.not (.equal (.const (firstCopy name) sort)
          (.const (secondCopy name) sort)))) := by
    cases sort <;> rfl
  refine ⟨0, _, state, Term.gives_encode.mpr (Term.gives_encodeWith_ofCopies.mpr ?_),
    satisfiable_not_equal (firstCopy_ne_secondCopy name name) sort⟩
  exact ⟨_, state, gives_constant hfirst, _, state, gives_constant hsecond,
    gives_ofExcept.mpr ⟨hunequal, rfl⟩⟩

section Arrays

variable {operator : Operator} {context : EncodingContext} {operand : Operand}
  {after : EncodingState}

section

variable (hdeclares : env.Declares name type) (hname : IsUnmarked name)
  (harray : type.solverSort? = some .array)

include hdeclares hname harray

/-- A claim on the copies of an array is one on their constants. -/
theorem gives_ofCopies_iff :
    Gives (((Term.ofCopies operator name).encodeWith written?).run context)
        ⟨.ofEnv true env, lines⟩ operand after ↔
      Gives ((Encoding.binary operator
        (.symbolic (.const (env.constantOf name (firstCopy name)) .array))
        (.symbolic (.const (env.constantOf name (secondCopy name)) .array))).run context)
        ⟨.ofEnv true env, lines⟩ operand after := by
  have hfirst := hdeclares.gives_constant_copy hname harray (.inl rfl) context lines
  have hsecond := hdeclares.gives_constant_copy hname harray (.inr rfl) context lines
  rw [Term.gives_encodeWith_ofCopies]
  constructor
  · intro hgives
    obtain ⟨_, _, hfirstGives, _, _, hsecondGives, hbinary⟩ := hgives
    obtain ⟨rfl, rfl⟩ := hfirstGives.unique hfirst
    obtain ⟨rfl, rfl⟩ := hsecondGives.unique hsecond
    exact hbinary
  · intro hbinary
    exact ⟨_, _, hfirst, _, _, hsecond, hbinary⟩

/-- The copies of an array may differ exactly if one of them has an entry. -/
theorem satisfiableIn_neq_iff (context : EncodingContext) :
    (Term.ofCopies .neq name).SatisfiableIn context (.ofEnv true env) ↔
      env.DeclaresCopy name := by
  rw [← env.constantOf_ne_iff]
  constructor
  · intro hsatisfiable hsame
    obtain ⟨_, _, _, hgives, _, htrue⟩ := hsatisfiable
    rw [Term.gives_encode, hdeclares.gives_ofCopies_iff hname harray, Encoding.binary,
      unequal_arrays, hsame] at hgives
    obtain ⟨hunequal, -⟩ := gives_ofExcept.mp hgives
    cases hunequal
    simp at htrue
  · intro hne
    refine ⟨0, _, ⟨.ofEnv true env, 0⟩, ?_, satisfiable_not_equal hne .array⟩
    rw [Term.gives_encode, hdeclares.gives_ofCopies_iff hname harray]
    exact gives_ofExcept.mpr ⟨unequal_arrays _ _, rfl⟩

/-- If neither copy of an array has an entry, they are not adjacent. -/
theorem of_gives_adjacent (hcopy : ¬ env.DeclaresCopy name)
    (hgives : Gives (((Term.ofCopies .adjacent name).encodeWith written?).run context)
      ⟨.ofEnv true env, lines⟩ operand after) :
    operand = .plain (.bool false) ∨ ∃ formula, operand = .symbolic formula ∧
      formula.sort = .bool ∧ ∀ model, (formula.eval model).truth = false := by
  rw [← env.constantOf_ne_iff, not_not] at hcopy
  rw [hdeclares.gives_ofCopies_iff hname harray, hcopy] at hgives
  simp only [Encoding.binary, ReaderT.run_bind, gives_bind] at hgives
  obtain ⟨_, _, -, hresult⟩ := hgives
  obtain ⟨hadjacent, -⟩ := gives_ofExcept.mp hresult
  exact adjacent_self hadjacent

/-- The copies of an array with elements may be adjacent exactly if one of them
has an entry. -/
theorem satisfiableIn_adjacent_iff (hlength : 1 ≤ length)
    (hlengths : ∀ key ∈ [name, firstCopy name], context.lengths.find? key = some (.int length)) :
    (Term.ofCopies .adjacent name).SatisfiableIn context (.ofEnv true env) ↔
      env.DeclaresCopy name := by
  constructor
  · intro hsatisfiable
    obtain ⟨_, _, _, hgives, model, htrue⟩ := hsatisfiable
    by_contra hcopy
    obtain hplain | ⟨_, hsymbolic, -, hfalse⟩ :=
      hdeclares.of_gives_adjacent hname harray hcopy (Term.gives_encode.mp hgives)
    · cases hplain
    · cases hsymbolic
      rw [hfalse model] at htrue
      cases htrue
  · intro hcopy
    obtain ⟨formula, hformula, hsatisfiable⟩ :=
      satisfiable_adjacent ((env.constantOf_ne_iff name).mpr hcopy) hlength
    have hkey : env.constantOf name (firstCopy name) ∈ [name, firstCopy name] := by
      rw [constantOf]
      split_ifs <;> simp
    let state : EncodingState := ⟨.ofEnv true env, 0⟩
    refine ⟨0, formula, state, ?_, hsatisfiable⟩
    rw [Term.gives_encode, hdeclares.gives_ofCopies_iff hname harray]
    simp only [Encoding.binary, ReaderT.run_bind, gives_bind]
    exact ⟨length, state, gives_lengthOf_const (hlengths _ hkey) state,
      gives_ofExcept.mpr ⟨hformula, rfl⟩⟩

/-- If neither copy of an array has an entry, no condition fails under the
precondition that they are adjacent. -/
theorem not_satisfiable_query (hcopy : ¬ env.DeclaresCopy name) {condition : Condition}
    {claim : Term}
    (hclaim : condition.claim = .binary (.ofCopies .adjacent name) .implies claim)
    {formula : Formula}
    (hgives : Gives (condition.query.run context) ⟨.ofEnv true env, lines⟩ formula after) :
    ¬ formula.Satisfiable := by
  intro hsatisfiable
  obtain ⟨model, htrue⟩ := hsatisfiable
  simp only [Condition.query, hclaim, ReaderT.run_bind, gives_bind] at hgives
  obtain ⟨_, _, hoperand, hformula⟩ := hgives
  simp only [Term.gives_encode, Term.encodeWith, ReaderT.run_bind, gives_bind] at hoperand
  obtain ⟨_, _, ⟨_, _, hpre, _, _, -, himplies⟩, hnot⟩ := hoperand
  obtain ⟨himplied, rfl⟩ := gives_ofExcept.mp himplies
  obtain ⟨hnegated, rfl⟩ := gives_ofExcept.mp hnot
  simp only [logicalImplies, bind_eq_ok] at himplied
  obtain ⟨preFormula, hcast, _, -, hsymbolic⟩ := himplied
  cases hsymbolic
  cases hnegated
  obtain ⟨rfl, -⟩ := gives_pure.mp hformula
  have hfalse : (preFormula.eval model).truth = false := by
    obtain rfl | ⟨_, rfl, hsort, hgiven⟩ := hdeclares.of_gives_adjacent hname harray hcopy hpre
    · cases hcast
      rfl
    · rw [cast_symbolic hsort] at hcast
      cases hcast
      exact hgiven model
  simp [hfalse] at htrue

end

end Arrays

end TypeEnv.Declares

theorem TypeEntry.eq_listOf_int_iff (hsort : type.solverSort? = some sort) :
    type = .known (.listOf .int) ↔ sort = .array := by
  cases type with
  | unknown | written => cases hsort
  | known type =>
    cases type with
    | int | bool =>
      cases hsort
      simp
    | float | text | list => cases hsort
    | listOf element =>
      cases element with
      | int =>
        cases hsort
        simp
      | bool | float | text | list | listOf => cases hsort

/-- Arrays with and without an entry for a copy, beside an integer. -/
def copiesEnv : TypeEnv :=
  [("x", .known .int), ("A", .known (.listOf .int)), ("B", .known (.listOf .int)),
    ("B#1", .known (.listOf .int))]

theorem copiesEnv_isSorted : copiesEnv.IsSorted where
  distinct := by decide
  sorted := by
    simp only [copiesEnv, List.forall_mem_cons]
    exact ⟨⟨.int, rfl⟩, ⟨.array, rfl⟩, ⟨.array, rfl⟩, ⟨.array, rfl⟩, by simp⟩

/-- A task that claims falsehood of two runs on adjacent arrays. -/
def adjacentTask : Task :=
  { code := "pass\n"
    scope := "f"
    precondition := "A#1 ~ A#2"
    postcondition := "False"
    twoRuns := true
    checksInvariants := false
    lengths := [("A", .int 2), ("A#1", .int 2)] }

def adjacentQuery : Formula :=
  let difference := Operand.differenceAt (.const "A" .array) (.const "A" .array)
  .not (.implies (.and (.and (Operand.positionBounds 2 0) (Operand.positionBounds 2 1))
    (.equal (.sumMore (.sumOf (difference 0)) (difference 1)) (.int 1))) (.truth false))

end HoareCheck
