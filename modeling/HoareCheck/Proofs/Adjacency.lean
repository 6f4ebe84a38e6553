import HoareCheck.Proofs.TypedEncoding
import Mathlib

/-!
# Adjacent arrays

The formula for `a ~ b` speaks of as many positions as the arrays are long.  The positions are
constants of their own: each lies within the length, and at exactly one of them the arrays differ.
Nothing keeps the positions apart, so they need not be all the indices of the arrays.  The formula
can be solved for the positions as soon as the arrays differ at some index and agree at another;
only arrays of length one need not agree anywhere.
-/

namespace HoareCheck

open Operand

variable {left right : Int → Int} {length : Nat}

/-! ## Positions in a model -/

/-- The name of the constant for a position. -/
def positionName (index : Nat) : String :=
  "@i_" ++ toString index

theorem positionName_injective : Function.Injective positionName := by
  intro first second hname
  have hdigits : (toString first).toList = (toString second).toList := by
    simpa [positionName] using congrArg String.toList hname
  exact Nat.repr_injective (String.toList_inj.mp hdigits)

namespace Model

open scoped Classical in
/-- A model in which the positions have given values. -/
noncomputable def withPositions (model : Model) (positions : Nat → Int) : Model where
  constant name sort :=
    if sort = .int then
      Function.extend positionName (fun index => .int (positions index))
        (fun other => model.constant other .int) name
    else
      model.constant name sort
  sorted name sort := by
    split_ifs with hsort
    · subst hsort
      by_cases hname : ∃ index, positionName index = name
      · obtain ⟨index, rfl⟩ := hname
        rw [positionName_injective.extend_apply]
        exact ⟨positions index, rfl⟩
      · rw [Function.extend_apply' _ _ _ hname]
        exact model.sorted name .int
    · exact model.sorted name sort
  quotientByZero := model.quotientByZero
  remainderByZero := model.remainderByZero
  ratioByZero := model.ratioByZero

theorem withPositions_array (model : Model) (positions : Nat → Int) (name : String) :
    (model.withPositions positions).constant name .array = model.constant name .array := by
  simp [withPositions]

theorem eval_positionConst (model : Model) (positions : Nat → Int) (index : Nat) :
    (positionConst index).eval (model.withPositions positions) =
      .int (positions index) := by
  change (model.withPositions positions).constant (positionName index) .int = _
  simp [withPositions, positionName_injective.extend_apply]

end Model

/-- The formula is true in the model for some values of the positions. -/
def Formula.SolvableIn (formula : Formula) (model : Model) : Prop :=
  ∃ positions, (formula.eval (model.withPositions positions)).truth = true

/-! ## The formula for adjacency -/

section Formula

variable {model : Model} {positions : Nat → Int} {first second : String} {left right : Int → Int}

/-- One where two arrays differ, zero where they agree. -/
def differenceOf (left right : Int → Int) (index : Int) : Int :=
  if left index = right index then 0 else 1

theorem eval_differenceAt (positions : Nat → Int)
    (hleft : model.constant first .array = .array left)
    (hright : model.constant second .array = .array right) (index : Nat) :
    (differenceAt (.const first .array) (.const second .array) index).eval
        (model.withPositions positions) = .int (differenceOf left right (positions index)) := by
  by_cases hsame : left (positions index) = right (positions index) <;>
    simp [differenceAt, indicator, Model.eval_positionConst,
      Model.withPositions_array, hleft, hright, Value.element, differenceOf, hsame]

theorem truth_positionBounds (length : Int) (index : Nat) :
    ((positionBounds length index).eval (model.withPositions positions)).truth = true ↔
      0 ≤ positions index ∧ positions index < length := by
  simp only [positionBounds, Formula.eval, Model.eval_positionConst, Value.compared,
    Value.truth_bool, Bool.and_eq_true, decide_eq_true_eq]
  rfl

/-- A sum adds up its terms. -/
theorem eval_foldl_sumMore {term : Nat → Formula} {value : Nat → Int}
    (hterm : ∀ index, (term index).eval model = .int (value index)) (indices : List Nat)
    {sum : Formula} {total : Int} (hsum : sum.eval model = .int total) :
    (indices.foldl (fun sum index => Formula.sumMore sum (term index)) sum).eval model =
      .int (total + (indices.map value).sum) := by
  induction indices generalizing sum total with
  | nil => simpa using hsum
  | cons index _ ih =>
    have hmore : (Formula.sumMore sum (term index)).eval model = .int (total + value index) := by
      simp [hsum, hterm, Model.arithmetic]
    rw [List.foldl_cons, ih hmore, List.map_cons, List.sum_cons, add_assoc]

theorem truth_foldl_and {part : Nat → Formula} (indices : List Nat) {formula : Formula} :
    ((indices.foldl (fun formula index => Formula.and formula (part index)) formula).eval
        model).truth = true ↔ (formula.eval model).truth = true ∧
        ∀ index ∈ indices, ((part index).eval model).truth = true := by
  induction indices generalizing formula with
  | nil => simp
  | cons _ _ ih => simp [ih, and_assoc]

end Formula

/-! ## Solutions -/

/-- The number of indices below a length at which two arrays differ. -/
def differences (left right : Int → Int) (length : Nat) : Nat :=
  ((Finset.range length).filter fun index : Nat => left index ≠ right index).card

theorem sum_differenceOf (left right : Int → Int) (positions : Nat → Int) (length : Nat) :
    ((List.range length).map fun index => differenceOf left right (positions index)).sum =
      ((Finset.range length).filter fun index =>
        left (positions index) ≠ right (positions index)).card := by
  rw [Finset.card_filter, Nat.cast_sum]
  change _ = ((List.range length).map _).sum
  congr 2
  funext index
  by_cases hsame : left (positions index) = right (positions index) <;>
    simp [differenceOf, hsame]

/-- Two arrays have a formula for their adjacency.  It is true where every position lies in the
arrays and the arrays differ at exactly one position. -/
theorem exists_adjacent (first second : String) (hlength : 1 ≤ length) :
    ∃ formula, adjacent (.symbolic (.const first .array))
        (.symbolic (.const second .array)) length = .ok (.symbolic formula) ∧
      ∀ (model : Model) (left right : Int → Int) (positions : Nat → Int),
        model.constant first .array = .array left → model.constant second .array = .array right →
        ((formula.eval (model.withPositions positions)).truth = true ↔
          (∀ index < length, 0 ≤ positions index ∧ positions index < length) ∧
          ((Finset.range length).filter fun index =>
            left (positions index) ≠ right (positions index)).card = 1) := by
  obtain ⟨head, rest, hrange⟩ : ∃ head rest, List.range length = head :: rest :=
    List.exists_cons_of_ne_nil (by simpa using Nat.ne_of_gt hlength)
  refine ⟨_, by simp only [adjacent, Int.toNat_natCast, hrange]; rfl, ?_⟩
  intro model left right positions hleft hright
  have hterm := eval_differenceAt positions hleft hright
  have hhead : (Formula.sumOf (differenceAt (.const first .array) (.const second .array)
      head)).eval (model.withPositions positions) =
        .int (differenceOf left right (positions head)) := hterm head
  have hbounds : (∀ index < length, 0 ≤ positions index ∧ positions index < length) ↔
      ∀ index ∈ head :: rest, 0 ≤ positions index ∧ positions index < length := by
    simp [← hrange]
  have hcount := sum_differenceOf left right positions length
  rw [hrange, List.map_cons, List.sum_cons] at hcount
  rw [Formula.eval, Value.truth_bool, Bool.and_eq_true, truth_foldl_and, Formula.eval,
    eval_foldl_sumMore hterm rest hhead, hcount, hbounds]
  simp [truth_positionBounds]

theorem differences_pos_iff :
    0 < differences left right length ↔ ∃ index < length, left (index : Nat) ≠ right index := by
  simp [differences, Finset.card_pos, Finset.filter_nonempty_iff]

theorem differences_lt_iff :
    differences left right length < length ↔
      ∃ index < length, left (index : Nat) = right index := by
  have htotal : differences left right length +
      ((Finset.range length).filter fun index : Nat => left index = right index).card =
        length := by
    simpa [differences, add_comm] using
      Finset.card_filter_add_card_filter_not (s := Finset.range length)
        (fun index : Nat => left index = right index)
  have hagree : 0 < ((Finset.range length).filter fun index : Nat =>
      left index = right index).card ↔ ∃ index < length, left (index : Nat) = right index := by
    simp [Finset.card_pos, Finset.filter_nonempty_iff]
  rw [← hagree]
  omega

/-- Positions of which one finds a difference, and all others none, need an index where the
arrays differ and, if there are others, an index where they agree. -/
theorem exists_positions_iff (hlength : 1 ≤ length) :
    (∃ positions : Nat → Int, (∀ index < length, 0 ≤ positions index ∧ positions index < length) ∧
      ((Finset.range length).filter fun index =>
        left (positions index) ≠ right (positions index)).card = 1) ↔
      0 < differences left right length ∧
        (differences left right length < length ∨ length = 1) := by
  rw [differences_pos_iff, differences_lt_iff]
  constructor
  · rintro ⟨positions, hbounds, hcount⟩
    -- Every position is an index of the arrays.
    have hindex : ∀ index < length, ∃ target : Nat, target < length ∧ positions index = target := by
      intro index hindex
      have hbound := hbounds index hindex
      exact ⟨(positions index).toNat, by omega, by omega⟩
    obtain ⟨finder, hfinder⟩ := Finset.card_eq_one.mp hcount
    have hmem : ∀ index, index < length ∧ left (positions index) ≠ right (positions index) ↔
        index = finder := by
      intro index
      simpa using Finset.ext_iff.mp hfinder index
    obtain ⟨hfinderLt, hdiffers⟩ := (hmem finder).mpr rfl
    obtain ⟨target, htarget, hposition⟩ := hindex finder hfinderLt
    refine ⟨⟨target, htarget, hposition ▸ hdiffers⟩, ?_⟩
    by_cases hone : length = 1
    · exact .inr hone
    · obtain ⟨other, hother, hne⟩ : ∃ other < length, other ≠ finder :=
        ⟨if finder = 0 then 1 else 0, by split_ifs <;> omega, by split_ifs <;> omega⟩
      obtain ⟨agreed, hagreed, hposition⟩ := hindex other hother
      refine .inl ⟨agreed, hagreed, ?_⟩
      by_contra hdiffers
      exact hne ((hmem other).mp ⟨hother, hposition ▸ hdiffers⟩)
  · rintro ⟨⟨target, htarget, hdiffers⟩, hrest⟩
    -- The first position finds the difference; the others agree, if there are any.
    have hagreed : ∃ agreed : Nat, agreed < length ∧
        (length = 1 ∨ left (agreed : Nat) = right agreed) := by
      rcases hrest with ⟨agreed, hagreed, hsame⟩ | hone
      · exact ⟨agreed, hagreed, .inr hsame⟩
      · exact ⟨target, htarget, .inl hone⟩
    obtain ⟨agreed, hagreedLt, hagreed⟩ := hagreed
    refine ⟨fun index => if index = 0 then target else agreed, ?_, ?_⟩
    · intro index _
      by_cases hzero : index = 0
      · simpa [hzero] using htarget
      · simpa [hzero] using hagreedLt
    · refine Finset.card_eq_one.mpr ⟨0, Finset.ext fun index => ?_⟩
      rw [Finset.mem_filter, Finset.mem_range, Finset.mem_singleton]
      by_cases hzero : index = 0
      · simp [hzero, hdiffers, Nat.lt_of_succ_le hlength]
      · rcases hagreed with hone | hsame
        · omega
        · simp [hzero, hsame]

section Encoding

variable {first second : String} {length : Nat} {context : EncodingContext}
  {state : EncodingState}

/-- Adjacency has a formula, which can be solved exactly if the arrays differ somewhere and,
unless they have a single element, agree somewhere. -/
theorem gives_encode_adjacent (hlength : 1 ≤ length)
    (hregistered : (context.lengths.find? (·.1 = first)).map Prod.snd = some (.int length))
    (hfirst : state.names.find? first = some .array)
    (hsecond : state.names.find? second = some .array) : ∃ formula,
      Gives ((Term.binary (.var first) .adjacent (.var second)).encode.run context) state
        (.symbolic formula) state ∧
      ∀ (model : Model) (left right : Int → Int), model.constant first .array = .array left →
        model.constant second .array = .array right →
        (formula.SolvableIn model ↔ 0 < differences left right length ∧
          (differences left right length < length ∨ length = 1)) := by
  obtain ⟨formula, hformula, htruth⟩ := exists_adjacent first second hlength
  refine ⟨formula, ?_, fun model left right hleft hright => ?_⟩
  · rw [Term.gives_encode]
    simp only [Term.encodeWith, ReaderT.run_bind, gives_bind]
    exact ⟨_, state, gives_constant hfirst, _, state, gives_constant hsecond,
      gives_adjacent hregistered hformula state⟩
  · simp only [Formula.SolvableIn, htruth model left right _ hleft hright]
    exact exists_positions_iff hlength

/-- The formula for adjacency can be solved for the positions exactly if the arrays differ at
some index and, unless they have a single element, agree at some index.  So it says that the
arrays differ at exactly one index, except of arrays that differ at several indices but not at
all of them. -/
theorem adjacent_solvable_iff (hlength : 1 ≤ length)
    (hregistered : (context.lengths.find? (·.1 = first)).map Prod.snd = some (.int length))
    (hfirst : state.names.find? first = some .array)
    (hsecond : state.names.find? second = some .array) : ∃ formula,
      Gives ((Term.binary (.var first) .adjacent (.var second)).encode.run context) state
        (.symbolic formula) state ∧
      ∀ (model : Model) (left right : Int → Int), model.constant first .array = .array left →
        model.constant second .array = .array right →
        (formula.SolvableIn model ↔ 0 < differences left right length ∧
          (differences left right length < length ∨ length = 1)) ∧
        ((formula.SolvableIn model ↔ differences left right length = 1) ↔
          ¬ (2 ≤ differences left right length ∧ differences left right length < length)) := by
  obtain ⟨formula, hgives, hsolvable⟩ :=
    gives_encode_adjacent hlength hregistered hfirst hsecond
  refine ⟨formula, hgives, fun model left right hleft hright => ?_⟩
  have hiff := hsolvable model left right hleft hright
  have hle : differences left right length ≤ length := by
    simpa [differences] using Finset.card_filter_le (Finset.range length) _
  refine ⟨hiff, ?_⟩
  rw [hiff]
  omega

end Encoding

/-- A store in which `b` holds an array, and every other name the array of zeros. -/
def besideZeros (right : Int → Int) : Store :=
  Function.update (fun _ => .array fun _ => 0) "b" (.array right)

theorem besideZeros_fits (right : Int → Int) : (besideZeros right).Fits fun _ => some .array := by
  rintro name _ ⟨⟩
  by_cases hname : name = "b"
  · exact ⟨right, by simp [besideZeros, hname]⟩
  · exact ⟨fun _ => 0, by simp [besideZeros, hname]⟩

/-- Arrays of four elements that differ at one index. -/
theorem adjacent_solvable_iff_four :
    let right : Int → Int := fun index => if index = 2 then 7 else 0
    let state : EncodingState := ⟨[("a", .array), ("b", .array)], 0⟩
    differences (fun _ => 0) right 4 = 1 ∧ ∃ formula,
      Gives ((Term.binary (.var "a") .adjacent (.var "b")).encode.run
        ⟨.empty, [("a", .int 4)]⟩) state (.symbolic formula) state ∧
      formula.SolvableIn (.givenBy (besideZeros right)) := by
  intro right state
  have hone : differences (fun _ => 0) right 4 = 1 := by decide
  have hreads := Model.givenBy_reads (besideZeros_fits right)
  obtain ⟨formula, hgives, hsolvable⟩ :=
    @adjacent_solvable_iff "a" "b" 4 ⟨.empty, [("a", .int 4)]⟩ state (by decide) rfl rfl rfl
  have hiff := (hsolvable _ _ _ (hreads "a" .array rfl) (hreads "b" .array rfl)).1
  exact ⟨hone, formula, hgives, hiff.mpr (by rw [hone]; decide)⟩

/-- Arrays of three elements that differ at two indices count as adjacent. -/
theorem adjacent_with_two_differences :
    let right : Int → Int := fun index => if index = 2 then 0 else 1
    let state : EncodingState := ⟨[("a", .array), ("b", .array)], 0⟩
    differences (fun _ => 0) right 3 = 2 ∧ ∃ formula,
      Gives ((Term.binary (.var "a") .adjacent (.var "b")).encode.run
        ⟨.empty, [("a", .int 3)]⟩) state (.symbolic formula) state ∧
      formula.SolvableIn (.givenBy (besideZeros right)) := by
  intro right state
  have htwo : differences (fun _ => 0) right 3 = 2 := by decide
  have hreads := Model.givenBy_reads (besideZeros_fits right)
  obtain ⟨formula, hgives, hsolvable⟩ :=
    @gives_encode_adjacent "a" "b" 3 ⟨.empty, [("a", .int 3)]⟩ state (by decide) rfl rfl rfl
  have hiff := hsolvable _ _ _ (hreads "a" .array rfl) (hreads "b" .array rfl)
  exact ⟨htwo, formula, hgives, hiff.mpr (by rw [htwo]; decide)⟩

end HoareCheck
