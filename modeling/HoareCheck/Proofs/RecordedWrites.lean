import HoareCheck.Proofs.BlankLogs

/-!
# Which reads get writes recorded

The precondition of an assignment to an array element is the postcondition
itself, with the write recorded against its reads of that array.  Reads are
shared between a claim and the claims computed from it, so what is recorded
shows in the postcondition, in the invariants of the program and in the other
branch of a conditional.  `inputs_kept_iff` says when nothing is recorded:
no assignment to an element meets a read of its array in the claim computed for
what follows it (`Records`).
-/

namespace HoareCheck

variable {term result : Term} {before after : WriteLog} {read : Site × Term}

namespace Term

/-- The reads of a term that substitution comes to, with their arrays.  What
stands inside a read is never looked at. -/
def reads : Term → List (Site × Term)
  | .subscript site array _ => [(site, array)]
  | .unary _ operand => operand.reads
  | .binary left _ right => left.reads ++ right.reads
  | .quantified _ _ _ _ body _ => body.reads
  | .assign target value _ => target.reads ++ value.reads
  | .ifElse condition thenBranch elseBranch =>
    condition.reads ++ thenBranch.reads ++ elseBranch.reads
  | .seq first second => first.reads ++ second.reads
  | .assume claim | .assert claim => claim.reads
  | .loop invariant condition body => invariant.reads ++ condition.reads ++ body.reads
  | _ => []

/-- A term is an element of the array with the name of another. -/
def Hits (target array : Term) : Prop :=
  ∃ site own index name, target = .subscript site own index ∧
    own.name? = some name ∧ array.name? = some name

/-- Every read of the term has its place in the log, with nothing recorded. -/
def Fresh (log : WriteLog) (term : Term) : Prop :=
  ∀ read ∈ term.reads, read.1 < log.sites.size ∧ log.writesAt read.1 = []

end Term

/-! ## Computations that keep a log -/

section Laws

variable {α β : Type}

/-- The computation changes nothing in the log. -/
def Inert (log : WriteLog) (computation : Logged α) : Prop :=
  ∀ value after, Gives computation log value after → after = log

/-- The computation takes no last write from a site. -/
def Retains (computation : Logged α) : Prop :=
  ∀ before value after, Gives computation before value after →
    ∀ site, after.writesAt site = [] → before.writesAt site = []

/-- The computation leaves a write at the site. -/
def Marks (site : Site) (computation : Logged α) : Prop :=
  ∀ before value after, site < before.sites.size → Gives computation before value after →
    after.writesAt site ≠ []

variable {log : WriteLog} {site : Site}

@[grind ←]
theorem inert_pure (value : α) : Inert log (pure value) := by
  intro result after hgives
  exact (gives_pure.mp hgives).2.symm

@[grind ←]
theorem inert_throw (fault : Fault) : Inert log (throw fault : Logged α) :=
  fun _ _ hgives => absurd hgives not_gives_throw

@[grind ←]
theorem inert_bind {first : Logged α} {next : α → Logged β} (hfirst : Inert log first)
    (hnext : ∀ value, Inert log (next value)) : Inert log (first >>= next) := by
  intro result after hgives
  obtain ⟨value, between, hvalue, hresult⟩ := gives_bind.mp hgives
  cases hfirst value between hvalue
  exact hnext value result after hresult

@[grind ←]
theorem retains_pure (value : α) : Retains (pure value) := by
  intro before result after hgives other hother
  rwa [(gives_pure.mp hgives).2]

@[grind ←]
theorem retains_throw (fault : Fault) : Retains (throw fault : Logged α) :=
  fun _ _ _ hgives => absurd hgives not_gives_throw

@[grind ←]
theorem retains_bind {first : Logged α} {next : α → Logged β} (hfirst : Retains first)
    (hnext : ∀ value, Retains (next value)) : Retains (first >>= next) := by
  intro before result after hgives other hother
  obtain ⟨value, _, hvalue, hresult⟩ := gives_bind.mp hgives
  exact hfirst _ _ _ hvalue other (hnext value _ _ _ hresult other hother)

theorem retains_get : Retains (get : Logged WriteLog) := by
  intro before result after hgives other hother
  rwa [(gives_get.mp hgives).2]

/-- What is left at a site stays there. -/
theorem marks_first {first : Logged α} {next : α → Logged β} (hfirst : Marks site first)
    (hnext : ∀ value, Retains (next value)) : Marks site (first >>= next) := by
  intro before result after hsite hgives hother
  obtain ⟨value, _, hvalue, hresult⟩ := gives_bind.mp hgives
  exact hfirst _ _ _ hsite hvalue (hnext value _ _ _ hresult site hother)

theorem marks_next {first : Logged α} {next : α → Logged β} (hfirst : Steady first)
    (hnext : ∀ value, Marks site (next value)) : Marks site (first >>= next) := by
  intro before result after hsite hgives
  obtain ⟨value, _, hvalue, hresult⟩ := gives_bind.mp hgives
  exact hnext value _ _ _ (Nat.lt_of_lt_of_eq hsite (hfirst _ _ _ hvalue).symm) hresult

end Laws

/-! ## Substitution -/

namespace Term

theorem record_ne_nil (writes : Writes) (key : String) (new : Term) :
    writes.record key new ≠ [] := by
  fun_cases Writes.record writes key new <;> simp

variable {log : WriteLog} {site : Site}

theorem retains_record (key : String) (new : Term) :
    Retains (modify fun log : WriteLog => log.set site ((log.writesAt site).record key new) :
      Logged PUnit) := by
  intro before _ after hgives other hother
  rw [gives_modify] at hgives
  subst hgives
  by_cases hsame : other = site
  · subst hsame
    by_cases hsite : other < before.sites.size
    · rw [WriteLog.writesAt_set hsite, if_pos rfl] at hother
      exact absurd hother (record_ne_nil _ _ _)
    · exact WriteLog.writesAt_of_le (Nat.le_of_not_lt hsite)
  · rwa [before.writesAt_set_of_ne hsame] at hother

/-- Substitution takes no last write from a site. -/
def retaining : Substituting where
  Holds computation := Retains computation
  Allows _ := True
  pure := retains_pure
  throw fault _ := retains_throw fault
  bind _ _ := retains_bind
  get := retains_get
  record _ := retains_record
  noSuchPart := trivial
  nestedTooDeeply := trivial

theorem marks_record (key : String) (new : Term) :
    Marks site (modify fun log : WriteLog => log.set site ((log.writesAt site).record key new) :
      Logged PUnit) := by
  intro before _ after hsite hgives
  rw [gives_modify] at hgives
  rw [← hgives, WriteLog.writesAt_set hsite, if_pos rfl]
  exact record_ne_nil _ _ _

/-- A key is given to the reads that the term hits. -/
theorem writeKey?_of_gives {old array : Term} {key : Option String}
    (hgives : Gives (old.writeKey? array) before key after) :
    after = before ∧ (key.isSome = true ↔ old.Hits array) := by
  cases old with
  | subscript _ oldArray =>
    simp only [writeKey?, arrayName, gives_bind] at hgives
    obtain ⟨_, _, hname, _, _, holdName, hkey⟩ := hgives
    cases harray : array.name? with
    | none => simp [harray, Logged.ofOption] at hname
    | some found =>
      cases hold : oldArray.name? with
      | none => simp [hold, Logged.ofOption] at holdName
      | some other =>
        simp only [harray, hold, Logged.ofOption, gives_pure] at hname holdName
        obtain ⟨rfl, rfl⟩ := hname
        obtain ⟨rfl, rfl⟩ := holdName
        by_cases hsame : found = other
        · simp only [hsame, if_true, gives_bind, gives_get, gives_pure] at hkey
          obtain ⟨_, _, ⟨rfl, rfl⟩, rfl, rfl⟩ := hkey
          exact ⟨rfl, iff_of_true rfl ⟨_, _, _, other, rfl, hold, hsame ▸ harray⟩⟩
        · simp only [hsame, if_false, gives_pure] at hkey
          obtain ⟨rfl, rfl⟩ := hkey
          refine ⟨rfl, iff_of_false (by simp) ?_⟩
          rintro ⟨_, _, _, _, heq, hown, hread⟩
          cases heq
          rw [hold] at hown
          rw [harray] at hread
          exact hsame ((Option.some.inj hread).trans (Option.some.inj hown).symm)
  | _ =>
    obtain ⟨rfl, rfl⟩ := gives_pure.mp hgives
    refine ⟨rfl, iff_of_false (by simp) ?_⟩
    rintro ⟨_, _, _, _, heq, _⟩
    cases heq

section AtReads

variable {atRead : Site → Term → Logged Unit} {old new : Term}

/-- Where nothing happens at the reads, nothing happens. -/
theorem inert_substituteWith (hread : ∀ read ∈ term.reads, Inert log (atRead read.1 read.2)) :
    Inert log (substituteWith atRead old new term) := by
  induction term with
  | missing => exact inert_throw _
  | var => cases old <;> exact inert_pure _
  | literal | slice | skip | havoc => exact inert_pure _
  | subscript site array =>
    exact inert_bind (hread (site, array) (by simp [reads])) fun _ => inert_pure _
  | unary _ _ ih | quantified _ _ _ _ _ _ _ _ ih | assume _ ih | assert _ ih =>
    exact inert_bind (ih hread) fun _ => inert_pure _
  | binary _ _ _ ihfirst ihsecond | assign _ _ _ ihfirst ihsecond | seq _ _ ihfirst ihsecond =>
    simp only [reads, List.forall_mem_append] at hread
    exact inert_bind (ihfirst hread.1) fun _ => inert_bind (ihsecond hread.2) fun _ => inert_pure _
  | ifElse _ _ _ ihfirst ihsecond ihthird | loop _ _ _ ihfirst ihsecond ihthird =>
    simp only [reads, List.forall_mem_append] at hread
    exact inert_bind (ihfirst hread.1.1) fun _ => inert_bind (ihsecond hread.1.2) fun _ =>
      inert_bind (ihthird hread.2) fun _ => inert_pure _

/-- A mark left at a read is there in the end. -/
theorem marks_substituteWith (hmem : read ∈ term.reads)
    (hsteady : ∀ site array, Steady (atRead site array))
    (hretains : ∀ site array, Retains (atRead site array))
    (hmarks : Marks read.1 (atRead read.1 read.2)) :
    Marks read.1 (substituteWith atRead old new term) := by
  have hparts (part : Term) : Steady (substituteWith atRead old new part) ∧
      Retains (substituteWith atRead old new part) :=
    ⟨steady_substituteWith hsteady part, retaining.substituteWith hretains old new part⟩
  have hbuilt (first : Term) (build : Term → Term) :
      Retains (do return build (← substituteWith atRead old new first) : Logged Term) :=
    retains_bind (hparts first).2 fun _ => retains_pure _
  induction term with
  | missing | var | literal | slice | skip | havoc => exact absurd hmem List.not_mem_nil
  | subscript =>
    cases List.mem_singleton.mp hmem
    exact marks_first hmarks fun _ => retains_pure _
  | unary _ _ ih | quantified _ _ _ _ _ _ _ _ ih | assume _ ih | assert _ ih =>
    exact marks_first (ih hmem) fun _ => retains_pure _
  | binary _ _ second ihfirst ihsecond | assign _ second _ ihfirst ihsecond
  | seq _ second ihfirst ihsecond =>
    rcases List.mem_append.mp hmem with hmem | hmem
    · exact marks_first (ihfirst hmem) fun _ => hbuilt second _
    · exact marks_next (hparts _).1 fun _ => marks_first (ihsecond hmem) fun _ => retains_pure _
  | ifElse _ second third ihfirst ihsecond ihthird
  | loop _ second third ihfirst ihsecond ihthird =>
    simp only [reads, List.mem_append] at hmem
    rcases hmem with (hmem | hmem) | hmem
    · exact marks_first (ihfirst hmem) fun _ =>
        retains_bind (hparts second).2 fun _ => hbuilt third _
    · exact marks_next (hparts _).1 fun _ => marks_first (ihsecond hmem) fun _ => hbuilt third _
    · exact marks_next (hparts _).1 fun _ => marks_next (hparts second).1 fun _ =>
        marks_first (ihthird hmem) fun _ => retains_pure _

/-- A substitution brings in no reads but those of the new term. -/
theorem reads_of_gives_substituteWith
    (hgives : Gives (substituteWith atRead old new term) before result after) :
    result.reads ⊆ term.reads ++ new.reads := by
  have hskip (part : Term) : part.orSkip.reads = part.reads := by cases part <;> rfl
  induction term generalizing before result after with
  | missing => exact absurd hgives not_gives_throw
  | var name =>
    cases old with
    | var oldName =>
      obtain ⟨rfl, -⟩ := gives_pure.mp hgives
      by_cases hname : name = oldName
      · simp [hname]
      · simp [hname, reads]
    | _ =>
      obtain ⟨rfl, -⟩ := gives_pure.mp hgives
      simp
  | literal | slice | skip | havoc =>
    obtain ⟨rfl, -⟩ := gives_pure.mp hgives
    simp [reads]
  | subscript =>
    simp only [substituteWith, gives_bind, gives_pure] at hgives
    obtain ⟨_, _, _, rfl, -⟩ := hgives
    simp
  | unary _ _ ih | quantified _ _ _ _ _ _ _ _ ih | assume _ ih | assert _ ih =>
    simp only [substituteWith, gives_bind, gives_pure] at hgives
    obtain ⟨_, _, hpart, rfl, -⟩ := hgives
    simpa only [reads] using ih hpart
  | binary _ _ _ ihfirst ihsecond | assign _ _ _ ihfirst ihsecond | seq _ _ ihfirst ihsecond =>
    simp only [substituteWith, gives_bind, gives_pure] at hgives
    obtain ⟨_, _, hfirst, _, _, hsecond, rfl, -⟩ := hgives
    have hfirst := ihfirst hfirst
    have hsecond := ihsecond hsecond
    intro read hmem
    simp only [andThen, reads, hskip, List.mem_append] at hmem ⊢
    have := @hfirst read
    have := @hsecond read
    simp only [List.mem_append] at *
    tauto
  | ifElse _ _ _ ihfirst ihsecond ihthird | loop _ _ _ ihfirst ihsecond ihthird =>
    simp only [substituteWith, gives_bind, gives_pure] at hgives
    obtain ⟨_, _, hfirst, _, _, hsecond, _, _, hthird, rfl, -⟩ := hgives
    have hfirst := ihfirst hfirst
    have hsecond := ihsecond hsecond
    have hthird := ihthird hthird
    intro read hmem
    simp only [branch, repeatWhile, reads, hskip, List.mem_append] at hmem ⊢
    have := @hfirst read
    have := @hsecond read
    have := @hthird read
    simp only [List.mem_append] at *
    tauto

end AtReads

section AtSites

variable {old new array : Term}

/-- A read that is not hit and has no writes stays as it is. -/
theorem inert_substituteAt (hmiss : ¬ old.Hits array) (hblank : log.writesAt site = [])
    (new : Term) (steps : Nat) : Inert log (substituteAt old new (steps + 1) site array) := by
  intro value after hgives
  simp only [substituteAt, gives_bind] at hgives
  obtain ⟨key, _, hkey, hrest⟩ := hgives
  obtain ⟨rfl, hhits⟩ := writeKey?_of_gives hkey
  cases key with
  | some => exact absurd (hhits.mp rfl) hmiss
  | none =>
    obtain ⟨_, _, hget, hwrites⟩ := gives_bind.mp hrest
    obtain ⟨rfl, rfl⟩ := gives_get.mp hget
    rw [hblank] at hwrites
    exact (gives_pure.mp hwrites).2.symm

theorem marks_substituteAt (hhits : old.Hits array) (new : Term) (steps : Nat) :
    Marks site (substituteAt old new (steps + 1) site array) := by
  intro before value after hsite hgives
  simp only [substituteAt, gives_bind] at hgives
  obtain ⟨key, _, hkey, hrest⟩ := hgives
  obtain ⟨rfl, hsome⟩ := writeKey?_of_gives hkey
  cases key with
  | some key => exact marks_record key new _ _ _ hsite hrest
  | none => exact absurd (hsome.mpr hhits) Bool.false_ne_true

end AtSites

section Substitute

variable {old new term : Term}

theorem inert_substitute (hblank : ∀ read ∈ term.reads, log.writesAt read.1 = [])
    (hmiss : ∀ read ∈ term.reads, ¬ old.Hits read.2) (new : Term) :
    Inert log (term.substitute old new) := by
  intro value after hgives
  obtain ⟨_, _, hget, hrest⟩ := gives_bind.mp hgives
  obtain ⟨rfl, rfl⟩ := gives_get.mp hget
  exact inert_substituteWith (fun read hread =>
    inert_substituteAt (hmiss read hread) (hblank read hread) new _) value after hrest

theorem marks_substitute (hmem : read ∈ term.reads) (hhits : old.Hits read.2) (new : Term) :
    Marks read.1 (term.substitute old new) :=
  marks_next steady_get fun log =>
    marks_substituteWith hmem (Substituting.steady.substituteAt old new (log.sites.size + 1))
      (retaining.substituteAt old new (log.sites.size + 1)) (marks_substituteAt hhits new _)

theorem reads_of_gives_substitute (hgives : Gives (term.substitute old new) before result after) :
    result.reads ⊆ term.reads ++ new.reads := by
  obtain ⟨_, _, -, hrest⟩ := gives_bind.mp hgives
  exact reads_of_gives_substituteWith hrest

end Substitute

theorem reads_invariantOrTrue (invariant : Term) :
    invariant.invariantOrTrue.reads = invariant.reads := by
  cases invariant <;> rfl

/-- The reads of a precondition are reads of the statement or the postcondition. -/
theorem reads_of_gives_obligations {env : Option TypeEnv} {statement post : Term}
    {computed : Obligations} (hgives : Gives
    (statement.obligations env post) before computed after) :
    computed.precondition.reads ⊆ statement.reads ++ post.reads := by
  induction statement generalizing post computed before after with
  | skip | assume | assert =>
    simp only [obligations, gives_pure] at hgives
    obtain ⟨rfl, -⟩ := hgives
    simp [reads]
  | assign =>
    simp only [obligations, gives_bind, gives_pure] at hgives
    obtain ⟨_, _, hsubstitute, rfl, -⟩ := hgives
    intro read hmem
    have hread := reads_of_gives_substitute hsubstitute hmem
    simp only [reads, List.mem_append] at hread ⊢
    tauto
  | seq _ _ ihfirst ihsecond =>
    simp only [obligations, gives_bind, gives_pure] at hgives
    obtain ⟨rest, _, hrest, _, _, hwhole, rfl, -⟩ := hgives
    intro read hmem
    have hread := ihfirst hwhole hmem
    have hlater : read ∈ rest.precondition.reads → _ := fun hmem => ihsecond hrest hmem
    simp only [reads, List.mem_append] at hread hlater ⊢
    tauto
  | ifElse _ _ _ _ ihthen ihelse =>
    simp only [obligations, gives_bind, gives_pure] at hgives
    obtain ⟨whenTrue, _, htrue, whenFalse, _, hfalse, rfl, -⟩ := hgives
    intro read hmem
    have hthen : read ∈ whenTrue.precondition.reads → _ := fun hmem => ihthen htrue hmem
    have helse : read ∈ whenFalse.precondition.reads → _ := fun hmem => ihelse hfalse hmem
    simp only [reads, List.mem_append] at hmem hthen helse ⊢
    tauto
  | loop =>
    simp only [obligations, gives_bind, gives_pure] at hgives
    obtain ⟨_, _, -, rfl, -⟩ := hgives
    simp only [reads_invariantOrTrue, reads, List.append_assoc]
    exact List.subset_append_left _ _
  | havoc =>
    simp only [obligations, gives_bind, gives_pure] at hgives
    obtain ⟨_, _, hsubstitute, _, _, -, rfl, -⟩ := hgives
    simpa only [reads, List.append_nil, List.nil_append] using
      reads_of_gives_substitute hsubstitute
  | _ => simp [obligations] at hgives

end Term

/-! ## Inputs -/

/-- An assignment to an array element of the statement comes, in the claim
computed for what follows it, to a read of its array. -/
inductive Records (env : Option TypeEnv) (log : WriteLog) : Term → Term → Prop
  | here {target value post : Term} {charge : Bool} {read : Site × Term} :
      read ∈ post.reads → target.Hits read.2 →
      Records env log (.assign target value charge) post
  | first {first second post : Term} {rest : Obligations} :
      Gives (second.obligations env post) log rest log →
      Records env log first rest.precondition →
      Records env log (.seq first second) post
  | second {first second post : Term} :
      Records env log second post → Records env log (.seq first second) post
  | thenBranch {condition thenBranch elseBranch post : Term} :
      Records env log thenBranch post →
      Records env log (.ifElse condition thenBranch elseBranch) post
  | elseBranch {condition thenBranch elseBranch post : Term} :
      Records env log elseBranch post →
      Records env log (.ifElse condition thenBranch elseBranch) post
  | body {invariant condition body post : Term} :
      Records env log body invariant.invariantOrTrue →
      Records env log (.loop invariant condition body) post

section Inputs

variable {env : Option TypeEnv} {statement post : Term} {computed : Obligations}
  {before after : WriteLog}

theorem Term.Fresh.parts {whole part claim : Term}
    (hfresh : whole.Fresh before ∧ post.Fresh before)
    (hreads : part.reads ++ claim.reads ⊆ whole.reads ++ post.reads) :
    part.Fresh before ∧ claim.Fresh before := by
  have hall : ∀ read ∈ whole.reads ++ post.reads,
      read.1 < before.sites.size ∧ before.writesAt read.1 = [] :=
    List.forall_mem_append.mpr hfresh
  exact ⟨fun read hread => hall read (hreads (List.mem_append_left _ hread)),
    fun read hread => hall read (hreads (List.mem_append_right _ hread))⟩

theorem reads_second (first second post : Term) :
    second.reads ++ post.reads ⊆ (Term.seq first second).reads ++ post.reads := by
  simp [Term.reads]

theorem reads_first {first second : Term} {rest : Obligations}
    (hrest : Gives (second.obligations env post) before rest after) :
    first.reads ++ rest.precondition.reads ⊆ (Term.seq first second).reads ++ post.reads := by
  intro read hread
  have hlater : read ∈ rest.precondition.reads → _ := fun hmem =>
    Term.reads_of_gives_obligations hrest hmem
  simp only [Term.reads, List.mem_append] at hread hlater ⊢
  tauto

theorem reads_branches (condition thenBranch elseBranch post : Term) :
    thenBranch.reads ++ post.reads ⊆
        (Term.ifElse condition thenBranch elseBranch).reads ++ post.reads ∧
      elseBranch.reads ++ post.reads ⊆
        (Term.ifElse condition thenBranch elseBranch).reads ++ post.reads := by
  constructor <;>
  · intro read hread
    simp only [Term.reads, List.mem_append] at hread ⊢
    tauto

theorem reads_body (invariant condition body post : Term) :
    body.reads ++ invariant.invariantOrTrue.reads ⊆
      (Term.loop invariant condition body).reads ++ post.reads := by
  intro read hread
  simp only [Term.reads_invariantOrTrue, Term.reads, List.mem_append] at hread ⊢
  tauto

/-- Where no write is recorded, the log stays as it is. -/
theorem eq_of_not_records (hfresh : statement.Fresh before ∧ post.Fresh before)
    (hgives : Gives (statement.obligations env post) before computed after)
    (hkeeps : ¬ Records env before statement post) : after = before := by
  induction statement generalizing post computed after with
  | skip | assume | assert =>
    exact (gives_pure.mp hgives).2.symm
  | assign _ value =>
    simp only [Term.obligations, gives_bind, gives_pure] at hgives
    obtain ⟨_, _, hsubstitute, -, rfl⟩ := hgives
    exact Term.inert_substitute (fun read hread => (hfresh.2 read hread).2)
      (fun read hread hhits => hkeeps (.here hread hhits)) value _ _ hsubstitute
  | seq first second ihfirst ihsecond =>
    simp only [Term.obligations, gives_bind, gives_pure] at hgives
    obtain ⟨_, _, hrest, _, _, hwhole, -, rfl⟩ := hgives
    cases ihsecond (Term.Fresh.parts hfresh (reads_second first second post)) hrest
      fun hsecond => hkeeps (.second hsecond)
    exact ihfirst (Term.Fresh.parts hfresh (reads_first hrest)) hwhole
      fun hfirst => hkeeps (.first hrest hfirst)
  | ifElse condition thenBranch elseBranch _ ihthen ihelse =>
    simp only [Term.obligations, gives_bind, gives_pure] at hgives
    obtain ⟨_, _, htrue, _, _, hfalse, -, rfl⟩ := hgives
    have hreads := reads_branches condition thenBranch elseBranch post
    cases ihthen (Term.Fresh.parts hfresh hreads.1) htrue fun hthen => hkeeps (.thenBranch hthen)
    exact ihelse (Term.Fresh.parts hfresh hreads.2) hfalse fun helse => hkeeps (.elseBranch helse)
  | loop invariant condition body _ _ ihbody =>
    simp only [Term.obligations, gives_bind, gives_pure] at hgives
    obtain ⟨_, _, hbody, -, rfl⟩ := hgives
    exact ihbody (Term.Fresh.parts hfresh (reads_body invariant condition body post)) hbody
      fun hrecords => hkeeps (.body hrecords)
  | havoc name =>
    simp only [Term.obligations, gives_bind, gives_pure] at hgives
    obtain ⟨_, _, hsubstitute, _, _, htype, -, rfl⟩ := hgives
    have hmiss : ∀ read ∈ post.reads, ¬ (Term.var name).Hits read.2 := by
      rintro _ - ⟨_, _, _, _, heq, -⟩
      cases heq
    cases Term.inert_substitute (fun read hread => (hfresh.2 read hread).2) hmiss _ _ _ hsubstitute
    exact (Term.gives_havocType.mp htype).2.symm
  | _ => simp [Term.obligations] at hgives

/-- A write that is recorded stays with a read of the inputs. -/
theorem Records.exists_write (hrecords : Records env before statement post)
    (hfresh : statement.Fresh before ∧ post.Fresh before)
    (hgives : Gives (statement.obligations env post) before computed after) :
    ∃ read ∈ statement.reads ++ post.reads, after.writesAt read.1 ≠ [] := by
  induction statement generalizing post computed after with
  | assign _ value =>
    simp only [Term.obligations, gives_bind, gives_pure] at hgives
    obtain ⟨_, _, hsubstitute, -, rfl⟩ := hgives
    cases hrecords with
    | here hread hhits =>
      exact ⟨_, List.mem_append_right _ hread,
        Term.marks_substitute hread hhits value _ _ _ (hfresh.2 _ hread).1 hsubstitute⟩
  | seq first second ihfirst ihsecond =>
    simp only [Term.obligations, gives_bind, gives_pure] at hgives
    obtain ⟨rest, _, hrest, _, _, hwhole, -, rfl⟩ := hgives
    have hreads := reads_second first second post
    by_cases hsecond : Records env before second post
    · obtain ⟨read, hread, hwrite⟩ := ihsecond hsecond (Term.Fresh.parts hfresh hreads) hrest
      refine ⟨read, hreads hread, fun hnone => hwrite ?_⟩
      exact Term.retaining.obligations (fun _ => trivial) env first _ _ _ _ hwhole read.1 hnone
    · cases eq_of_not_records (Term.Fresh.parts hfresh hreads) hrest hsecond
      have hfirst : Records env before first rest.precondition := by
        cases hrecords with
        | first hother hfirst =>
          obtain ⟨rfl, -⟩ := hrest.unique hother
          exact hfirst
        | second hother => exact absurd hother hsecond
      have hreads : first.reads ++ _ ⊆ _ := reads_first hrest
      obtain ⟨read, hread, hwrite⟩ := ihfirst hfirst (Term.Fresh.parts hfresh hreads) hwhole
      exact ⟨read, hreads hread, hwrite⟩
  | ifElse condition thenBranch elseBranch _ ihthen ihelse =>
    simp only [Term.obligations, gives_bind, gives_pure] at hgives
    obtain ⟨_, _, htrue, _, _, hfalse, -, rfl⟩ := hgives
    have hreads := reads_branches condition thenBranch elseBranch post
    by_cases hthen : Records env before thenBranch post
    · obtain ⟨read, hread, hwrite⟩ := ihthen hthen (Term.Fresh.parts hfresh hreads.1) htrue
      refine ⟨read, hreads.1 hread, fun hnone => hwrite ?_⟩
      exact Term.retaining.obligations (fun _ => trivial) env elseBranch _ _ _ _ hfalse read.1 hnone
    · cases eq_of_not_records (Term.Fresh.parts hfresh hreads.1) htrue hthen
      have helse : Records env before elseBranch post := by
        cases hrecords with
        | thenBranch hother => exact absurd hother hthen
        | elseBranch helse => exact helse
      obtain ⟨read, hread, hwrite⟩ := ihelse helse (Term.Fresh.parts hfresh hreads.2) hfalse
      exact ⟨read, hreads.2 hread, hwrite⟩
  | loop invariant condition body _ _ ihbody =>
    simp only [Term.obligations, gives_bind, gives_pure] at hgives
    obtain ⟨_, _, hkept, -, rfl⟩ := hgives
    have hreads := reads_body invariant condition body post
    cases hrecords with
    | body hbody =>
      obtain ⟨read, hread, hwrite⟩ := ihbody hbody (Term.Fresh.parts hfresh hreads) hkept
      exact ⟨read, hreads hread, hwrite⟩
  | _ => cases hrecords

end Inputs

/-- Inputs without recorded writes are kept exactly if no assignment to an array
element comes to a read of its array in the claim computed for what follows it.
Then the whole log is kept, so the part of a conditional's precondition that
comes from one branch is what it is without the other branch. -/
theorem inputs_kept_iff {env : Option TypeEnv} {statement post : Term} {computed : Obligations}
    {before after : WriteLog} (hstatement : statement.Fresh before) (hpost : post.Fresh before)
    (hgives : Gives (statement.obligations env post) before computed after) :
    ((∀ read ∈ statement.reads ++ post.reads,
        after.writesAt read.1 = before.writesAt read.1) ↔
      ¬ Records env before statement post) ∧
    (¬ Records env before statement post → after = before ∧
      ∀ condition thenBranch elseBranch,
        statement = .ifElse condition thenBranch elseBranch →
        ∃ whenTrue whenFalse,
          Gives (thenBranch.obligations env post) before whenTrue before ∧
          Gives (elseBranch.obligations env post) before whenFalse before ∧
          computed.precondition =
            .binary (.binary condition .implies whenTrue.precondition) .and
              (.binary (.unary .not condition) .implies whenFalse.precondition)) := by
  have hfresh := And.intro hstatement hpost
  refine ⟨⟨fun hkept hrecords => ?_, fun hkeeps read _ => ?_⟩, fun hkeeps => ⟨?_, ?_⟩⟩
  · obtain ⟨read, hread, hwrite⟩ := hrecords.exists_write hfresh hgives
    have hnone := (List.forall_mem_append.mpr hfresh read hread).2
    exact hwrite ((hkept read hread).trans hnone)
  · rw [eq_of_not_records hfresh hgives hkeeps]
  · exact eq_of_not_records hfresh hgives hkeeps
  · rintro condition thenBranch elseBranch rfl
    simp only [Term.obligations, gives_bind, gives_pure] at hgives
    obtain ⟨whenTrue, _, htrue, whenFalse, _, hfalse, rfl, rfl⟩ := hgives
    have hreads := reads_branches condition thenBranch elseBranch post
    cases eq_of_not_records (Term.Fresh.parts hfresh hreads.1) htrue
      fun hthen => hkeeps (.thenBranch hthen)
    cases eq_of_not_records (Term.Fresh.parts hfresh hreads.2) hfalse
      fun helse => hkeeps (.elseBranch helse)
    exact ⟨whenTrue, whenFalse, htrue, hfalse, rfl⟩

/-- A log with places for reads and no writes. -/
def places (count : Nat) : WriteLog :=
  ⟨Array.replicate count []⟩

theorem isBlank_places (count : Nat) : (places count).IsBlank := by
  intro site
  by_cases hsite : site < count <;> simp [places, WriteLog.writesAt, hsite]

/-- The claim that the first element of an array has a value. -/
def firstIs (site : Site) (array : String) (value : Term) : Term :=
  .binary (.subscript site (.var array) (.int 0)) .eq value

/-- The statement that gives the first element of an array a value. -/
def setFirst (site : Site) (array : String) (value : Term) : Term :=
  .assign (.subscript site (.var array) (.int 0)) value false

/-- One branch reads the array of the postcondition, the other writes a
different one: neither records anything. -/
theorem inputs_kept_iff_otherArray :
    let post := firstIs 1 "A" (.var "x")
    let statement := Term.ifElse (.var "b")
      (.assign (.var "x") (.subscript 2 (.var "A") (.int 0)) false) (setFirst 3 "B" (.int 1))
    statement.Fresh (places 4) ∧ post.Fresh (places 4) ∧
      ¬ Records none (places 4) statement post := by
  intro post statement
  have hstatement : statement.Fresh (places 4) := by unfold Term.Fresh; decide
  have hpost : post.Fresh (places 4) := by unfold Term.Fresh; decide
  have hgives : Gives (statement.obligations none post) (places 4)
      ⟨.binary (.binary (.var "b") .implies (firstIs 1 "A" (.subscript 2 (.var "A") (.int 0)))) .and
        (.binary (.unary .not (.var "b")) .implies post), []⟩ (places 4) := rfl
  exact ⟨hstatement, hpost, (inputs_kept_iff hstatement hpost hgives).1.mp fun _ _ => rfl⟩

/-- A write in one branch of a conditional is recorded against the
postcondition, which is also the precondition of the other branch. -/
theorem branch_write_alters_postcondition :
    let post := firstIs 1 "A" (.int 1)
    let statement := Term.ifElse (.var "b") .skip (setFirst 2 "A" (.int 1))
    statement.Fresh (places 3) ∧ post.Fresh (places 3) ∧
      ∃ after, Gives (statement.obligations none post) (places 3)
          ⟨.binary (.binary (.var "b") .implies post) .and
            (.binary (.unary .not (.var "b")) .implies post), []⟩ after ∧
        after.writesAt 1 = [("(Literal IntValue 0)", .int 1)] := by
  intro post statement
  exact ⟨by unfold Term.Fresh; decide, by unfold Term.Fresh; decide, _, rfl, rfl⟩

end HoareCheck
