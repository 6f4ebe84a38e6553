import HoareCheck.Claim.Fault

/-!
# Outcomes of computations

Every computation of the library that may fail passes a state along and keeps
what it changed before a failure.  `Gives` says that one succeeds, with which
value and in which state.  Its laws open a computation step by step, so that
proofs never look at how the steps are wired together.
-/

namespace HoareCheck

variable {σ α β : Type}

/-- A sequence of two computations without a state succeeds if both do. -/
theorem bind_eq_ok {first : Except Fault α} {next : α → Except Fault β} {result : β} :
    first >>= next = .ok result ↔ ∃ value, first = .ok value ∧ next value = .ok result := by
  cases first with
  | error => simp [bind, Except.bind]
  | ok => simp [bind, Except.bind]

/-- Two lists are joined if both are computed. -/
theorem append_eq_ok {first second : Except Fault (List α)} {items : List α}
    (hitems : (do return (← first) ++ (← second)) = .ok items) :
    ∃ left right, first = .ok left ∧ second = .ok right ∧ items = left ++ right := by
  simp only [bind_eq_ok] at hitems
  obtain ⟨left, hleft, right, hright, ⟨⟩⟩ := hitems
  exact ⟨left, right, hleft, hright, rfl⟩

/-- The result of a computation on a state, and the state it leaves behind. -/
def outcomeOn (computation : ExceptT Fault (StateM σ) α) (before : σ) : Except Fault α × σ :=
  computation.run before

/-- The computation succeeds with `value` and turns the state `before` into
`after`. -/
def Gives (computation : ExceptT Fault (StateM σ) α) (before : σ) (value : α) (after : σ) : Prop :=
  outcomeOn computation before = (.ok value, after)

@[simp]
theorem gives_pure {value result : α} {before after : σ} : Gives (pure value) before result after ↔
      value = result ∧ before = after := by
  change ((Except.ok value, before) : Except Fault α × σ) = _ ↔ _
  simp

@[simp]
theorem not_gives_throw {fault : Fault} {result : α} {before after : σ} :
    ¬ Gives (throw fault) before result after := by
  intro hgives
  cases hgives

/-- A sequence of two computations succeeds if both do. -/
@[simp]
theorem gives_bind {first : ExceptT Fault (StateM σ) α}
    {next : α → ExceptT Fault (StateM σ) β} {before after : σ} {result : β} :
    Gives (first >>= next) before result after ↔ ∃ value between, Gives first before value between ∧
        Gives (next value) between result after := by
  have hrun : outcomeOn (first >>= next) before =
      match outcomeOn first before with
      | (.ok value, between) => outcomeOn (next value) between
      | (.error fault, between) => (.error fault, between) := by
    change (match outcomeOn first before with
      | (outcome, between) => ExceptT.bindCont next outcome between) = _
    rcases outcomeOn first before with ⟨outcome, between⟩
    cases outcome <;> rfl
  simp only [Gives, hrun]
  rcases outcomeOn first before with ⟨outcome, between⟩
  cases outcome with
  | error => simp
  | ok => simp [and_assoc]

@[simp]
theorem gives_map {computation : ExceptT Fault (StateM σ) α} {change : α → β}
    {before after : σ} {result : β} : Gives (change <$> computation) before result after ↔
      ∃ value, change value = result ∧ Gives computation before value after := by
  rw [map_eq_pure_bind, gives_bind]
  constructor
  · rintro ⟨value, _, hvalue, hresult⟩
    obtain ⟨rfl, rfl⟩ := gives_pure.mp hresult
    exact ⟨value, rfl, hvalue⟩
  · rintro ⟨value, rfl, hvalue⟩
    exact ⟨value, after, hvalue, gives_pure.mpr ⟨rfl, rfl⟩⟩

@[simp]
theorem gives_get {before result after : σ} :
    Gives get before result after ↔ before = result ∧ before = after := by
  change ((Except.ok before, before) : Except Fault σ × σ) = _ ↔ _
  simp

@[simp]
theorem gives_set {before state after : σ} {result : PUnit} :
    Gives (set state) before result after ↔ state = after := by
  change ((Except.ok PUnit.unit, state) : Except Fault PUnit × σ) = _ ↔ _
  simp

@[simp]
theorem gives_modify {change : σ → σ} {before after : σ} {result : PUnit} :
    Gives (modify change) before result after ↔ change before = after := by
  change ((Except.ok PUnit.unit, change before) : Except Fault PUnit × σ) = _ ↔ _
  simp

theorem gives_place {term placed : Term} {before after : WriteLog} :
    Gives (Logged.place term) before placed after ↔
      (term.place before).1 = placed ∧ (term.place before).2 = after := by
  simp [Logged.place]

/-- A computation has one outcome. -/
theorem Gives.unique {computation : ExceptT Fault (StateM σ) α}
    {before left right : σ} {first second : α} (hfirst : Gives computation before first left)
    (hsecond : Gives computation before second right) : first = second ∧ left = right := by
  have heq := hfirst.symm.trans hsecond
  simpa using heq

end HoareCheck
