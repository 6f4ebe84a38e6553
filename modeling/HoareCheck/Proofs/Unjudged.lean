import HoareCheck.Proofs.Gives

/-!
# Faults that only the solver finds

A run may end because the solver found a state in which a condition fails.  A
computation is unjudged if it never ends with such a fault.  The laws go through
the steps of a computation, whatever state it passes along and whatever context
it reads.
-/

namespace HoareCheck

/-- The faults that stand for a verdict of the solver. -/
def Fault.IsVerdict (fault : Fault) : Prop :=
  fault = .invalidInvariant ∨ fault = .violatedCondition

instance (fault : Fault) : Decidable fault.IsVerdict :=
  inferInstanceAs (Decidable (_ ∨ _))

attribute [grind] Fault.IsVerdict

/-- The outcome is no fault of a verdict. -/
def Spared {α : Type} (outcome : Except Fault α) : Prop :=
  ∀ fault, outcome = .error fault → ¬ fault.IsVerdict

/-- The computation never ends with a fault of a verdict. -/
def Unjudged {σ α : Type} (computation : ExceptT Fault (StateM σ) α) : Prop :=
  ∀ before, Spared (outcomeOn computation before).1

section Laws

variable {σ ρ α β : Type}

@[grind ←]
theorem spared_pure (value : α) : Spared (pure value : Except Fault α) :=
  nofun

@[grind ←]
theorem spared_throw {fault : Fault} (hfault : ¬ fault.IsVerdict) :
    Spared (throw fault : Except Fault α) := by
  intro other hother
  cases hother
  exact hfault

@[grind ←]
theorem spared_bind {first : Except Fault α} {next : α → Except Fault β} (hfirst : Spared first)
    (hnext : ∀ value, Spared (next value)) : Spared (first >>= next) := by
  cases first with
  | error fault => exact spared_throw (hfirst fault rfl)
  | ok value => exact hnext value

@[grind ←]
theorem unjudged_pure (value : α) : Unjudged (pure value : ExceptT Fault (StateM σ) α) :=
  fun _ => nofun

@[grind ←]
theorem unjudged_throw {fault : Fault} (hfault : ¬ fault.IsVerdict) :
    Unjudged (throw fault : ExceptT Fault (StateM σ) α) :=
  fun _ => spared_throw hfault

theorem unjudged_bind_of_gives {first : ExceptT Fault (StateM σ) α}
    {next : α → ExceptT Fault (StateM σ) β} (hfirst : Unjudged first)
    (hnext : ∀ before value after, Gives first before value after → Unjudged (next value)) :
    Unjudged (first >>= next) := by
  intro before
  have hrun : outcomeOn (first >>= next) before =
      ExceptT.bindCont next (outcomeOn first before).1 (outcomeOn first before).2 := rfl
  have houtcome := hfirst before
  rw [hrun]
  cases hresult : (outcomeOn first before).1 with
  | error fault => exact spared_throw (houtcome fault hresult)
  | ok value => exact hnext before value _ (Prod.ext hresult rfl) _

@[grind ←]
theorem unjudged_bind {first : ExceptT Fault (StateM σ) α}
    {next : α → ExceptT Fault (StateM σ) β} (hfirst : Unjudged first)
    (hnext : ∀ value, Unjudged (next value)) : Unjudged (first >>= next) :=
  unjudged_bind_of_gives hfirst fun _ value _ _ => hnext value

@[grind ←]
theorem unjudged_get : Unjudged (get : ExceptT Fault (StateM σ) σ) :=
  fun _ => nofun

@[grind ←]
theorem unjudged_set (state : σ) : Unjudged (set state : ExceptT Fault (StateM σ) PUnit) :=
  fun _ => nofun

@[grind ←]
theorem unjudged_modify (change : σ → σ) :
    Unjudged (modify change : ExceptT Fault (StateM σ) PUnit) :=
  fun _ => nofun

end Laws

/-- A computation that reads a context never ends with a fault of a verdict. -/
def UnjudgedIn {ρ σ α : Type} (computation : ReaderT ρ (ExceptT Fault (StateM σ)) α) : Prop :=
  ∀ context, Unjudged (computation.run context)

section ContextLaws

variable {ρ σ α β : Type}

@[grind ←]
theorem unjudgedIn_pure (value : α) :
    UnjudgedIn (pure value : ReaderT ρ (ExceptT Fault (StateM σ)) α) :=
  fun _ => unjudged_pure value

@[grind ←]
theorem unjudgedIn_throw {fault : Fault} (hfault : ¬ fault.IsVerdict) :
    UnjudgedIn (throw fault : ReaderT ρ (ExceptT Fault (StateM σ)) α) :=
  fun _ => unjudged_throw hfault

@[grind ←]
theorem unjudgedIn_bind {first : ReaderT ρ (ExceptT Fault (StateM σ)) α}
    {next : α → ReaderT ρ (ExceptT Fault (StateM σ)) β} (hfirst : UnjudgedIn first)
    (hnext : ∀ value, UnjudgedIn (next value)) : UnjudgedIn (first >>= next) :=
  fun context => unjudged_bind (hfirst context) fun value => hnext value context

@[grind ←]
theorem unjudgedIn_read : UnjudgedIn (read : ReaderT ρ (ExceptT Fault (StateM σ)) ρ) :=
  fun context => unjudged_pure context

@[grind ←]
theorem unjudgedIn_get : UnjudgedIn (get : ReaderT ρ (ExceptT Fault (StateM σ)) σ) :=
  fun _ => unjudged_get

@[grind ←]
theorem unjudgedIn_set (state : σ) :
    UnjudgedIn (set state : ReaderT ρ (ExceptT Fault (StateM σ)) PUnit) :=
  fun _ => unjudged_set state

@[grind ←]
theorem unjudgedIn_modify (change : σ → σ) :
    UnjudgedIn (modify change : ReaderT ρ (ExceptT Fault (StateM σ)) PUnit) :=
  fun _ => unjudged_modify change

end ContextLaws

end HoareCheck
