import HoareCheck.Proofs.EncodingExtension

/-!
# What checking invariants adds

To check the invariants of a program asks formulas of the cut program first.
After them come the formulas that are asked without the check, all of them and
nothing else (`checked_invariants_add_queries`).
-/

namespace HoareCheck

namespace Task

variable {verifier : Verifier} {task : Task}

/-- With its invariants checked a task has further conditions in front.  The
conditions of the program are the same, and their log has more sites. -/
theorem exists_added_conditions {program conditions : List Condition} {skipped checked : RunState}
    (hskips : Gives { task with checksInvariants := false }.conditions
      { log := .empty, verifier } program skipped)
    (hchecks : Gives { task with checksInvariants := true }.conditions
      { log := .empty, verifier } conditions checked) :
    ∃ ofInvariants, conditions = ofInvariants ++ program ∧ ofInvariants ≠ [] ∧
      (∀ condition ∈ ofInvariants, condition.aboutInvariant = true) ∧
      checked.verifier.scopes = skipped.verifier.scopes ∧
      ∃ bound, WriteLog.Extends bound skipped.log checked.log ∧
        skipped.log.InFrame (.below bound) ∧ checked.log.InFrame (.above 0) ∧
        (∀ condition ∈ program, condition.claim.InFrame (.below bound)) ∧
        ∀ condition ∈ ofInvariants, condition.claim.InFrame (.above 0) := by
  obtain ⟨⟨_, _, _⟩, _, _, _, _, hprepared, hnone, hprogram, rfl⟩ := of_gives_conditions hskips
  obtain ⟨rfl, rfl⟩ := gives_pure.mp hnone
  obtain ⟨_, reached, ofInvariants, next, _, hsame, hinvariants, hagain, rfl⟩ :=
    of_gives_conditions hchecks
  obtain ⟨rfl, rfl⟩ := hsame.unique hprepared
  have hfits := fits_of_gives_prepared hprepared
  obtain ⟨hnonempty, habout, hapart⟩ := hfits.apart hinvariants
  have hextends : WriteLog.Extends reached.log.sites.size reached.log next.log :=
    ⟨rfl, hapart.size_le, hapart.writesAt⟩
  obtain ⟨hlog, hclaims⟩ := hfits.inFrame_conditions hprogram
  obtain ⟨_, hfollows, hagrees, hkept⟩ := hfits.exists_conditions hprogram hapart.scopes hextends
  obtain ⟨rfl, rfl⟩ := hfollows.unique hagain
  obtain ⟨_, _, _, _, _, _, _, rfl⟩ := gives_conditionsOf.mp hprogram
  refine ⟨ofInvariants, rfl, hnonempty, habout, hapart.scopes, _, hagrees, hlog, ?_, hclaims,
    hapart.claims⟩
  intro site _ entry hentry
  by_cases hsite : site < reached.log.sites.size
  · rw [hagrees.writesAt_eq site hsite] at hentry
    exact (hlog site hsite entry hentry).mono Frame.below_allows_above fun site _ =>
      Nat.zero_le site
  · have habove := Nat.le_of_not_lt hsite
    rw [hkept site habove] at hentry
    exact (hapart.log site habove entry hentry).mono Frame.above_allows_above fun site _ =>
      Nat.zero_le site

end Task

end HoareCheck
