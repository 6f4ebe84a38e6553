import HoareCheck.Proofs.Gives

/-!
# Failures of computations

`Fails` is the counterpart of `Gives`: it says with which fault a computation
ends, and in which state.  A sequence fails where its first part does, or after
it.  `FailsOnly` bounds the faults of a computation in all states.
-/

namespace HoareCheck

variable {fault : Fault}

variable {σ α β : Type}

/-- The computation fails with `fault` and turns the state `before` into
`after`. -/
def Fails (computation : ExceptT Fault (StateM σ) α) (before : σ) (fault : Fault)
    (after : σ) : Prop :=
  outcomeOn computation before = (.error fault, after)

theorem gives_or_fails (computation : ExceptT Fault (StateM σ) α) (before : σ) :
    (∃ value after, Gives computation before value after) ∨
      ∃ fault after, Fails computation before fault after := by
  rcases hrun : outcomeOn computation before with ⟨fault | value, after⟩
  · exact .inr ⟨fault, after, hrun⟩
  · exact .inl ⟨value, after, hrun⟩

theorem Gives.not_fails {computation : ExceptT Fault (StateM σ) α} {before after other : σ}
    {value : α} (hgives : Gives computation before value after) :
    ¬ Fails computation before fault other := by
  intro hfails
  have heq := hgives.symm.trans hfails
  simp at heq

@[simp]
theorem not_fails_pure {value : α} {before after : σ} :
    ¬ Fails (pure value) before fault after := by
  intro hfails
  cases hfails

@[simp]
theorem fails_throw {other : Fault} {before after : σ} :
    Fails (throw fault : ExceptT Fault (StateM σ) α) before other after ↔
      fault = other ∧ before = after := by
  change ((Except.error fault, before) : Except Fault α × σ) = _ ↔ _
  simp

@[simp]
theorem fails_bind {first : ExceptT Fault (StateM σ) α} {next : α → ExceptT Fault (StateM σ) β}
    {before after : σ} :
    Fails (first >>= next) before fault after ↔
      Fails first before fault after ∨ ∃ value between, Gives first before value between ∧
        Fails (next value) between fault after := by
  have hrun : outcomeOn (first >>= next) before =
      ExceptT.bindCont next (outcomeOn first before).1 (outcomeOn first before).2 := rfl
  simp only [Fails, Gives, hrun]
  rcases outcomeOn first before with ⟨raised | value, between⟩
  · change ((Except.error raised, between) : Except Fault β × σ) = _ ↔ _
    simp
  · change outcomeOn (next value) between = _ ↔ _
    simp [and_assoc]

/-- After a first part that succeeds, a sequence ends as the rest does. -/
theorem Gives.outcomeOn_bind {first : ExceptT Fault (StateM σ) α}
    {next : α → ExceptT Fault (StateM σ) β} {before between : σ} {value : α}
    (hfirst : Gives first before value between) :
    outcomeOn (first >>= next) before = outcomeOn (next value) between := by
  have hrun : outcomeOn (first >>= next) before =
      ExceptT.bindCont next (outcomeOn first before).1 (outcomeOn first before).2 := rfl
  rw [hrun, show outcomeOn first before = _ from hfirst]
  rfl

/-- After a first part that fails, a sequence ends as that part does. -/
theorem Fails.outcomeOn_bind {first : ExceptT Fault (StateM σ) α}
    {next : α → ExceptT Fault (StateM σ) β} {before after : σ}
    (hfirst : Fails first before fault after) :
    outcomeOn (first >>= next) before = (.error fault, after) :=
  fails_bind.mpr (.inl hfirst)

@[simp]
theorem not_fails_get {before after : σ} :
    ¬ Fails (get : ExceptT Fault (StateM σ) σ) before fault after := by
  intro hfails
  cases hfails

@[simp]
theorem not_fails_set {state : σ} {before after : σ} :
    ¬ Fails (set state : ExceptT Fault (StateM σ) PUnit) before fault after := by
  intro hfails
  cases hfails

/-- The computation fails, if it does, with a fault of a kind. -/
def FailsOnly (kind : Fault → Prop) (computation : ExceptT Fault (StateM σ) α) : Prop :=
  ∀ before fault after, Fails computation before fault after → kind fault

section FailsOnly

variable {kind larger : Fault → Prop}

theorem FailsOnly.mono {computation : ExceptT Fault (StateM σ) α}
    (hfails : FailsOnly kind computation) (hlarger : ∀ fault, kind fault → larger fault) :
    FailsOnly larger computation :=
  fun before fault after hfault => hlarger fault (hfails before fault after hfault)

@[grind ←]
theorem failsOnly_pure (value : α) : FailsOnly kind (pure value : ExceptT Fault (StateM σ) α) :=
  fun _ _ _ hfails => absurd hfails not_fails_pure

@[grind ←]
theorem failsOnly_throw (hfault : kind fault) :
    FailsOnly kind (throw fault : ExceptT Fault (StateM σ) α) := by
  intro before other after hfails
  exact (fails_throw.mp hfails).1 ▸ hfault

@[grind ←]
theorem failsOnly_bind {first : ExceptT Fault (StateM σ) α}
    {next : α → ExceptT Fault (StateM σ) β} (hfirst : FailsOnly kind first)
    (hnext : ∀ value, FailsOnly kind (next value)) : FailsOnly kind (first >>= next) := by
  intro before fault after hfails
  rcases fails_bind.mp hfails with hfails | ⟨value, between, -, hfails⟩
  · exact hfirst _ _ _ hfails
  · exact hnext value _ _ _ hfails

@[grind ←]
theorem failsOnly_get : FailsOnly kind (get : ExceptT Fault (StateM σ) σ) :=
  fun _ _ _ hfails => absurd hfails not_fails_get

@[grind ←]
theorem failsOnly_set (state : σ) : FailsOnly kind (set state : ExceptT Fault (StateM σ) PUnit) :=
  fun _ _ _ hfails => absurd hfails not_fails_set

@[grind ←]
theorem failsOnly_modify (change : σ → σ) :
    FailsOnly kind (modify change : ExceptT Fault (StateM σ) PUnit) := by
  intro before fault after hfails
  cases hfails

theorem failsOnly_forM {action : α → ExceptT Fault (StateM σ) PUnit}
    (haction : ∀ value, FailsOnly kind (action value)) (values : List α) :
    FailsOnly kind (values.forM action) := by
  induction values with
  | nil => exact failsOnly_pure _
  | cons value _ ih => exact failsOnly_bind (haction value) fun _ => ih

end FailsOnly

end HoareCheck
