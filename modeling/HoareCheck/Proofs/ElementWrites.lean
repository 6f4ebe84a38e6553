import HoareCheck.Proofs.EncodingPreservation
import HoareCheck.Proofs.RecordedWrites

/-!
# Assignments to the elements of an array

A row of assignments to the elements of one array leaves the postcondition as
it is and records the writes against its reads of the array, last write first.
A later record under the same index text takes the place of an earlier one, so
of the writes with one index text the first in the program remains.  The
formula then has, for a read whose index has that text, the value of this write
(`Term.seen`).
-/

namespace HoareCheck

variable {term statement post : Term} {name : String} {writes : List ElementWrite}
  {marks : List Site} {site : Site} {log : WriteLog} {env : Option TypeEnv} {sorts : Sorts}
  {sort : SolverSort} {store : Store}

/-- The index and the value of an assignment to an array element. -/
structure ElementWrite where
  index : Term
  value : Term

namespace Term

/-- The writes of a row of assignments to the elements of one array. -/
def elementWrites? (name : String) : Term → Option (List ElementWrite)
  | .skip => some []
  | .assign (.subscript _ (.var array) index) value _ =>
    if array = name then some [⟨index, value⟩] else none
  | .seq first second => do
      return (← first.elementWrites? name) ++ (← second.elementWrites? name)
  | _ => none

theorem of_elementWrites?_assign {target value : Term} {charge : Bool}
    (hwrites : (Term.assign target value charge).elementWrites? name = some writes) :
    ∃ own index, target = .subscript own (.var name) index ∧ writes = [⟨index, value⟩] := by
  cases target with
  | subscript own array index =>
    cases array with
    | var array =>
      by_cases harray : array = name
      · simp only [elementWrites?, harray, if_true, Option.some.injEq] at hwrites
        exact ⟨own, index, by rw [harray], hwrites.symm⟩
      · simp [elementWrites?, harray] at hwrites
    | _ => simp [elementWrites?] at hwrites
  | _ => simp [elementWrites?] at hwrites

theorem of_elementWrites?_seq {first second : Term}
    (hwrites : (Term.seq first second).elementWrites? name = some writes) :
    ∃ before after, first.elementWrites? name = some before ∧
      second.elementWrites? name = some after ∧ writes = before ++ after := by
  simp only [elementWrites?, Option.bind_eq_bind, Option.bind_eq_some_iff, Option.pure_def,
    Option.some.injEq] at hwrites
  obtain ⟨before, hbefore, after, hafter, rfl⟩ := hwrites
  exact ⟨before, after, hbefore, hafter, rfl⟩

/-- A claim without quantifiers, over variables, literals and array elements. -/
def isQuantifierFree : Term → Bool
  | .var _ | .literal _ => true
  | .unary _ operand => operand.isQuantifierFree
  | .binary left _ right => left.isQuantifierFree && right.isQuantifierFree
  | .subscript _ (.var _) index => index.isQuantifierFree
  | _ => false

/-- The sites of all reads of such a claim, also of those inside an index. -/
def sites : Term → List Site
  | .unary _ operand => operand.sites
  | .binary left _ right => left.sites ++ right.sites
  | .subscript site _ index => site :: index.sites
  | _ => []

/-- The sites of the reads of an array, other than those inside an index. -/
def sitesOf (name : String) : Term → List Site
  | .unary _ operand => operand.sitesOf name
  | .binary left _ right => left.sitesOf name ++ right.sitesOf name
  | .subscript site (.var array) _ => if array = name then [site] else []
  | _ => []

/-- Of the reads of a claim, those of an array that stand in no index, and no
others, have one of the given sites. -/
def MarkedBy (name : String) (marks : List Site) : Term → Prop
  | .unary _ operand => operand.MarkedBy name marks
  | .binary left _ right => left.MarkedBy name marks ∧ right.MarkedBy name marks
  | .subscript site (.var array) index =>
    (site ∈ marks ↔ array = name) ∧ ∀ inner ∈ index.sites, inner ∉ marks
  | _ => True

theorem sitesOf_sublist_sites (name : String) (term : Term) :
    (term.sitesOf name).Sublist term.sites := by
  induction term with
  | unary _ _ ih => exact ih
  | binary _ _ _ ihleft ihright => exact ihleft.append ihright
  | subscript _ array =>
    cases array with
    | var array => by_cases harray : array = name <;> simp [sitesOf, sites, harray]
    | _ => simp [sitesOf]
  | _ => simp [sitesOf]

theorem sitesOf_subset_sites (name : String) (term : Term) : term.sitesOf name ⊆ term.sites :=
  (term.sitesOf_sublist_sites name).subset

/-- Where every read has a site of its own, sites tell the reads apart. -/
theorem markedBy_of_nodup (hnodup : term.sites.Nodup)
    (hmarks : ∀ site ∈ term.sites, site ∈ marks ↔ site ∈ term.sitesOf name) :
    term.MarkedBy name marks := by
  induction term with
  | unary _ _ ih => exact ih hnodup hmarks
  | binary left _ right ihleft ihright =>
    simp only [sites, sitesOf, List.mem_append] at hnodup hmarks
    have hdisjoint := List.disjoint_of_nodup_append hnodup
    refine ⟨ihleft hnodup.of_append_left fun site hsite => ?_,
      ihright hnodup.of_append_right fun site hsite => ?_⟩
    · rw [hmarks site (.inl hsite)]
      exact or_iff_left fun hright => hdisjoint hsite (right.sitesOf_subset_sites name hright)
    · rw [hmarks site (.inr hsite)]
      exact or_iff_right fun hleft => hdisjoint (left.sitesOf_subset_sites name hleft) hsite
  | subscript site array =>
    cases array with
    | var array =>
      simp only [sites, List.nodup_cons] at hnodup
      constructor
      · rw [hmarks site (by simp [sites])]
        by_cases harray : array = name <;> simp [sitesOf, harray]
      · intro inner hinner
        rw [hmarks inner (by simp [sites, hinner])]
        have hother : inner ≠ site := fun hsame => hnodup.1 (hsame ▸ hinner)
        by_cases harray : array = name <;> simp [sitesOf, harray, hother]
    | _ => trivial
  | _ => trivial

end Term

/-! ## Records -/

theorem Writes.find?_record (writes : Writes) (key : String) (term : Term) (other : String) :
    (writes.record key term).find? other =
      if other = key then some term else writes.find? other := by
  induction writes with
  | nil =>
    by_cases hother : other = key
    · simp [record, find?, hother]
    · simp [record, find?, hother, Ne.symm hother]
  | cons entry _ ih =>
    simp only [find?] at ih
    by_cases hentry : entry.1 = key
    · by_cases hother : other = key
      · simp [record, find?, hentry, hother]
      · simp [record, find?, hentry, hother, Ne.symm hother]
    · by_cases hsame : entry.1 = other
      · have hother : other ≠ key := fun hkey => hentry (hsame.trans hkey)
        simp [record, find?, hsame, hother]
      · simp [record, find?, hentry, hsame, ih]

namespace WriteLog

/-- Records a term under a key against each of some sites. -/
def recordAt (log : WriteLog) (sites : List Site) (key : String) (new : Term) : WriteLog :=
  sites.foldl (fun log site => log.set site ((log.writesAt site).record key new)) log

/-- Records writes against some sites, the last one first. -/
def recordWrites (log : WriteLog) (sites : List Site) (writes : List ElementWrite) : WriteLog :=
  writes.foldr (fun write log => log.recordAt sites write.index.text write.value) log

variable {log : WriteLog} {sites : List Site} {key : String} {new : Term}

theorem size_recordAt (log : WriteLog) (sites : List Site) (key : String) (new : Term) :
    (log.recordAt sites key new).sites.size = log.sites.size := by
  induction sites generalizing log with
  | nil => rfl
  | cons _ _ ih => rw [recordAt, List.foldl_cons, ← recordAt, ih, size_set]

theorem writesAt_recordAt_of_not_mem (hsite : site ∉ sites) :
    (log.recordAt sites key new).writesAt site = log.writesAt site := by
  induction sites generalizing log with
  | nil => rfl
  | cons _ _ ih =>
    rw [List.mem_cons, not_or] at hsite
    rw [recordAt, List.foldl_cons, ← recordAt, ih hsite.2, log.writesAt_set_of_ne hsite.1]

theorem writesAt_recordAt_of_mem (hnodup : sites.Nodup) (hsite : site ∈ sites)
    (hplaced : site < log.sites.size) :
    (log.recordAt sites key new).writesAt site = (log.writesAt site).record key new := by
  induction sites generalizing log with
  | nil => exact absurd hsite List.not_mem_nil
  | cons other rest ih =>
    rw [List.nodup_cons] at hnodup
    rw [recordAt, List.foldl_cons, ← recordAt]
    by_cases hsame : site = other
    · subst hsame
      rw [writesAt_recordAt_of_not_mem hnodup.1, writesAt_set hplaced, if_pos rfl]
    · have hrest : site ∈ rest := (List.mem_cons.mp hsite).resolve_left hsame
      rw [ih hnodup.2 hrest (by rwa [size_set]), log.writesAt_set_of_ne hsame]

theorem recordAt_append (log : WriteLog) (first second : List Site) (key : String) (new : Term) :
    log.recordAt (first ++ second) key new =
      (log.recordAt first key new).recordAt second key new :=
  List.foldl_append

theorem size_recordWrites (log : WriteLog) (sites : List Site) (writes : List ElementWrite) :
    (log.recordWrites sites writes).sites.size = log.sites.size := by
  induction writes with
  | nil => rfl
  | cons _ _ ih => rw [recordWrites, List.foldr_cons, ← recordWrites, size_recordAt, ih]

/-- Of the writes with one index text, the first remains. -/
theorem find?_recordWrites (hnodup : sites.Nodup) (hsite : site ∈ sites)
    (hplaced : site < log.sites.size) (hblank : log.writesAt site = []) (writes : List ElementWrite)
    (key : String) :
    ((log.recordWrites sites writes).writesAt site).find? key =
      (writes.find? fun write => write.index.text = key).map ElementWrite.value := by
  induction writes with
  | nil =>
    rw [recordWrites, List.foldr_nil, hblank]
    rfl
  | cons write _ ih =>
    rw [recordWrites, List.foldr_cons, ← recordWrites,
      writesAt_recordAt_of_mem hnodup hsite (by rwa [size_recordWrites]),
      Writes.find?_record, ih, List.find?_cons]
    by_cases hkey : write.index.text = key
    · simp [hkey]
    · simp [hkey, Ne.symm hkey]

end WriteLog

/-! ## The precondition -/

namespace Term

/-- A claim prints as its text where nothing is recorded against its reads. -/
theorem print_eq_text (hfree : term.isQuantifierFree = true)
    (hblank : ∀ site ∈ term.sites, log.writesAt site = []) : log.print term = term.text := by
  rw [WriteLog.print, text]
  induction term with
  | var | literal => rfl
  | unary _ _ ih =>
    change _ ++ _ = _ ++ _
    rw [ih hfree hblank]
  | binary _ _ _ ihleft ihright =>
    simp only [isQuantifierFree, Bool.and_eq_true] at hfree
    simp only [sites, List.forall_mem_append] at hblank
    change _ ++ _ = _ ++ _
    rw [ihleft hfree.1 hblank.1, ihright hfree.2 hblank.2]
  | subscript site array _ _ ih =>
    cases array with
    | var =>
      simp only [sites, List.forall_mem_cons] at hblank
      have hnote : log.note (log.sites.size + 1) [] site = "" := by
        rw [WriteLog.note, hblank.1]
      change _ ++ _ = _ ++ _
      rw [ih hfree hblank.2, hnote]
      rfl
    | _ => simp [isQuantifierFree] at hfree
  | _ => simp [isQuantifierFree] at hfree

section Substitution

variable {name : String} {marks : List Site} {own : Site} {index new : Term} {log : WriteLog}

/-- A read of the array gets the write recorded. -/
theorem gives_substituteAt_same (hindex : index.isQuantifierFree = true)
    (hapart : ∀ site ∈ index.sites, site ∉ marks)
    (hblank : ∀ site ∉ marks, log.writesAt site = []) (steps : Nat) (site : Site) :
    Gives (substituteAt (.subscript own (.var name) index) new (steps + 1) site (.var name)) log ()
      (log.set site ((log.writesAt site).record index.text new)) := by
  have hprint := print_eq_text hindex fun site hsite => hblank site (hapart site hsite)
  simp only [substituteAt, writeKey?, arrayName, name?, Logged.ofOption, pure_bind, if_true,
    gives_bind, gives_get, gives_pure]
  refine ⟨some index.text, log, ⟨log, log, ⟨rfl, rfl⟩, by rw [hprint], rfl⟩, ?_⟩
  exact gives_modify.mpr rfl

/-- A read of another array stays as it is. -/
theorem gives_substituteAt_other {array : String} (harray : array ≠ name)
    (hblank : log.writesAt site = []) (steps : Nat) :
    Gives (substituteAt (.subscript own (.var name) index) new (steps + 1) site (.var array)) log ()
      log := by
  simp only [substituteAt, writeKey?, arrayName, name?, Logged.ofOption, pure_bind, harray,
    if_false, gives_bind, gives_get]
  refine ⟨log, log, ⟨rfl, rfl⟩, ?_⟩
  rw [hblank]
  exact gives_pure.mpr ⟨rfl, rfl⟩

/-- Substitution for an element leaves a claim as it is and records the new term
against its reads of the array. -/
theorem gives_substituteWith_element (hfree : term.isQuantifierFree = true)
    (hmarked : term.MarkedBy name marks) (hindex : index.isQuantifierFree = true)
    (hapart : ∀ site ∈ index.sites, site ∉ marks) (hblank : ∀ site ∉ marks, log.writesAt site = [])
    (steps : Nat) :
    Gives (substituteWith (substituteAt (.subscript own (.var name) index) new (steps + 1))
        (.subscript own (.var name) index) new term) log term
        (log.recordAt (term.sitesOf name) index.text new) ∧
      ∀ site ∉ marks, (log.recordAt (term.sitesOf name) index.text new).writesAt site = [] := by
  induction term generalizing log with
  | var | literal => exact ⟨gives_pure.mpr ⟨rfl, rfl⟩, hblank⟩
  | unary _ operand ih =>
    obtain ⟨hgives, hafter⟩ := ih hfree hmarked hblank
    refine ⟨?_, hafter⟩
    simp only [substituteWith, gives_bind, gives_pure]
    exact ⟨operand, _, hgives, rfl, rfl⟩
  | binary left _ right ihleft ihright =>
    simp only [isQuantifierFree, Bool.and_eq_true] at hfree
    obtain ⟨hleft, hbetween⟩ := ihleft hfree.1 hmarked.1 hblank
    obtain ⟨hright, hafter⟩ := ihright hfree.2 hmarked.2 hbetween
    rw [sitesOf, WriteLog.recordAt_append]
    refine ⟨?_, hafter⟩
    simp only [substituteWith, gives_bind, gives_pure]
    exact ⟨left, _, hleft, right, _, hright, rfl, rfl⟩
  | subscript site array =>
    cases array with
    | var array =>
      by_cases harray : array = name
      · subst harray
        have hmark : site ∈ marks := hmarked.1.mpr rfl
        simp only [sitesOf, if_true, WriteLog.recordAt, List.foldl_cons, List.foldl_nil]
        constructor
        · simp only [substituteWith, gives_bind, gives_pure]
          exact ⟨(), _, gives_substituteAt_same hindex hapart hblank steps site, trivial, rfl⟩
        · intro other hother
          have hne : other ≠ site := fun hsame => hother (hsame ▸ hmark)
          rw [log.writesAt_set_of_ne hne, hblank other hother]
      · have hsite : log.writesAt site = [] := hblank site fun hmark => harray (hmarked.1.mp hmark)
        simp only [sitesOf, harray, if_false, WriteLog.recordAt, List.foldl_nil]
        refine ⟨?_, hblank⟩
        simp only [substituteWith, gives_bind, gives_pure]
        exact ⟨(), _, gives_substituteAt_other harray hsite steps, trivial, rfl⟩
    | _ => simp [isQuantifierFree] at hfree
  | _ => simp [isQuantifierFree] at hfree

theorem gives_substitute_element (hfree : term.isQuantifierFree = true)
    (hmarked : term.MarkedBy name marks) (hindex : index.isQuantifierFree = true)
    (hapart : ∀ site ∈ index.sites, site ∉ marks)
    (hblank : ∀ site ∉ marks, log.writesAt site = []) :
    Gives (term.substitute (.subscript own (.var name) index) new) log term
        (log.recordAt (term.sitesOf name) index.text new) ∧
      ∀ site ∉ marks, (log.recordAt (term.sitesOf name) index.text new).writesAt site = [] := by
  obtain ⟨hgives, hafter⟩ :=
    gives_substituteWith_element hfree hmarked hindex hapart hblank log.sites.size
  refine ⟨?_, hafter⟩
  simp only [substitute, gives_bind, gives_get]
  exact ⟨log, log, ⟨rfl, rfl⟩, hgives⟩

end Substitution

/-- The precondition of a row of writes is the postcondition, with the writes
recorded against its reads. -/
theorem gives_obligations_writes (hwrites : statement.elementWrites? name = some writes)
    (hfree : post.isQuantifierFree = true) (hmarked : post.MarkedBy name marks)
    (hindices : ∀ write ∈ writes, write.index.isQuantifierFree = true ∧
      ∀ site ∈ write.index.sites, site ∉ marks) (hblank : ∀ site ∉ marks, log.writesAt site = []) :
    Gives (statement.obligations env post) log ⟨post, []⟩
        (log.recordWrites (post.sitesOf name) writes) ∧
      ∀ site ∉ marks, (log.recordWrites (post.sitesOf name) writes).writesAt site = [] := by
  induction statement generalizing writes log with
  | skip =>
    cases hwrites
    exact ⟨gives_pure.mpr ⟨rfl, rfl⟩, hblank⟩
  | assign _ value =>
    obtain ⟨_, index, rfl, rfl⟩ := of_elementWrites?_assign hwrites
    obtain ⟨hindex, hapart⟩ := hindices ⟨index, value⟩ List.mem_cons_self
    obtain ⟨hgives, hafter⟩ := gives_substitute_element hfree hmarked hindex hapart hblank
    refine ⟨?_, hafter⟩
    simp only [obligations, gives_bind, gives_pure]
    exact ⟨post, _, hgives, rfl, rfl⟩
  | seq _ _ ihfirst ihsecond =>
    obtain ⟨_, _, hbefore, hafter, rfl⟩ := of_elementWrites?_seq hwrites
    rw [List.forall_mem_append] at hindices
    obtain ⟨hrest, hbetween⟩ := ihsecond hafter hindices.2 hblank
    obtain ⟨hwhole, hblankAfter⟩ := ihfirst hbefore hindices.1 hbetween
    rw [WriteLog.recordWrites, List.foldr_append]
    refine ⟨?_, hblankAfter⟩
    simp only [obligations, gives_bind, gives_pure]
    exact ⟨_, _, hrest, _, _, hwhole, rfl, rfl⟩
  | _ => simp [elementWrites?] at hwrites

end Term

/-! ## The formula -/

/-- Against the marked sites the first write of each index text is recorded, and
against others nothing. -/
structure WriteLog.Holds (marks : List Site) (writes : List ElementWrite) (log : WriteLog) :
    Prop where
  marked : ∀ site ∈ marks, ∀ key, (log.writesAt site).find? key =
    (writes.find? fun write => write.index.text = key).map ElementWrite.value
  others : ∀ site ∉ marks, log.writesAt site = []

namespace Term

/-- The claim as its formula has it: a read of the array whose index has the
text of a written one is replaced by the value of the first such write.  Reads
inside an index stay. -/
def seen (name : String) (writes : List ElementWrite) : Term → Term
  | .unary operator operand => .unary operator (operand.seen name writes)
  | .binary left operator right =>
    .binary (left.seen name writes) operator (right.seen name writes)
  | .subscript site (.var array) index =>
    if array = name then
      ((writes.find? fun write => write.index.text = index.text).map ElementWrite.value).getD
        (.subscript site (.var array) index)
    else
      .subscript site (.var array) index
  | term => term

theorem boundNames_eq_nil (hfree : term.isQuantifierFree = true) : term.boundNames = [] := by
  induction term with
  | var | literal => rfl
  | unary _ _ ih => exact ih hfree
  | binary _ _ _ ihleft ihright =>
    simp only [isQuantifierFree, Bool.and_eq_true] at hfree
    simp [ihleft hfree.1, ihright hfree.2]
  | subscript _ array _ _ ih =>
    cases array with
    | var => simp [ih hfree]
    | _ => simp [isQuantifierFree] at hfree
  | _ => simp [isQuantifierFree] at hfree

theorem WellTyped.atLog (htyped : term.WellTyped .empty sorts sort)
    (hfree : term.isQuantifierFree = true) (hblank : ∀ site ∈ term.sites, log.writesAt site = []) :
    term.WellTyped log sorts sort := by
  induction htyped with
  | var hname => exact .var hname
  | int => exact .int
  | bool => exact .bool
  | number hoperator _ ih => exact .number hoperator (ih hfree hblank)
  | not _ ih => exact .not (ih hfree hblank)
  | binary htakes _ _ ihleft ihright =>
    simp only [isQuantifierFree, Bool.and_eq_true] at hfree
    simp only [sites, List.forall_mem_append] at hblank
    exact .binary htakes (ihleft hfree.1 hblank.1) (ihright hfree.2 hblank.2)
  | element _ hname _ ih =>
    simp only [sites, List.forall_mem_cons] at hblank
    exact .element hblank.1 hname (ih hfree hblank.2)
  | all => simp [isQuantifierFree] at hfree

section Encoding

variable {log : WriteLog} {lengths : ArrayLengths} {model : Model} {store : Store} {sorts : Sorts}
  {before : EncodingState} {name : String} {marks : List Site} {writes : List ElementWrite}

/-- A claim against whose reads nothing is recorded stands for its value. -/
theorem encodesAs_eval {context : EncodingContext} (htyped : term.WellTyped .empty sorts sort)
    (hfree : term.isQuantifierFree = true) (hblank : ∀ site ∈ term.sites, log.writesAt site = [])
    (hreads : model.Reads sorts store) (hknows : before.Knows sorts) (steps : Nat) :
    term.EncodesAs (encodeWritten log (steps + 1)) context model sort
      (term.eval .standard store) before := by
  have hunwritten : ∀ site key, log.writesAt site = [] →
      encodeWritten log (steps + 1) site key = none := by
    intro site key hsite
    rw [encodeWritten, hsite]
    rfl
  have hbound := boundNames_eq_nil hfree
  exact (htyped.atLog hfree hblank).encodes hunwritten (by simp [hbound]) (by simp [hbound])
    hreads hknows

/-- A read with a recorded write stands for what is written. -/
theorem EncodesAs.written {written? inner? : Site → String → Option (Encoding Operand)}
    {context : EncodingContext} {site : Site} {array index term : Term} {sort : SolverSort}
    {value : Value}
    (hwritten : written? site (context.log.print index) = some (term.encodeWith inner?))
    (hbound : term.boundNames = [])
    (hterm : term.EncodesAs inner? context model sort value
      { before with lines := before.lines + 1 }) :
    (Term.subscript site array index).EncodesAs written? context model sort value before := by
  obtain ⟨operand, after, hgives, hkept, hvalue, hmeans⟩ := hterm
  refine ⟨operand, after, ?_, fun other _ => hkept other (by simp [hbound]), hvalue, hmeans⟩
  simp only [encodeWith, ReaderT.run_bind, gives_bind]
  refine ⟨context, before, gives_pure.mpr ⟨rfl, rfl⟩, ?_⟩
  rw [hwritten]
  simp only [ReaderT.run_bind, gives_bind]
  exact ⟨(), _, gives_modify.mpr rfl, hgives⟩

/-- The formula of a claim stands for the value of the claim as it is seen. -/
theorem encodesAs_seen (hlog : log.Holds marks writes)
    (hplaced : ∀ site ∈ marks, site < log.sites.size)
    (hwrites : ∀ write ∈ writes, write.value.WellTyped .empty sorts .int ∧
      write.value.isQuantifierFree = true ∧ ∀ site ∈ write.value.sites, site ∉ marks)
    (htyped : term.WellTyped .empty sorts sort) (hfree : term.isQuantifierFree = true)
    (hmarked : term.MarkedBy name marks) (hreads : model.Reads sorts store)
    (hknows : before.Knows sorts) :
    term.EncodesAs (encodeWritten log (log.sites.size + 1)) ⟨log, lengths⟩ model sort
      ((term.seen name writes).eval .standard store) before := by
  induction term generalizing sort before with
  | var | literal => exact encodesAs_eval htyped hfree (by simp [sites]) hreads hknows _
  | unary _ _ ih =>
    cases htyped with
    | number hoperator htyped =>
      apply EncodesAs.unary (ih htyped hfree hmarked hknows)
      rintro _ ⟨_, hvalue⟩ hmeans
      rw [← hvalue] at hmeans ⊢
      exact computes_number hoperator hmeans
    | not htyped =>
      apply EncodesAs.unary (ih htyped hfree hmarked hknows)
      exact fun encoded _ hmeans => computes_not hmeans
  | binary _ _ _ ihleft ihright =>
    simp only [isQuantifierFree, Bool.and_eq_true] at hfree
    cases htyped with
    | binary htakes hleft hright =>
      apply EncodesAs.binary htakes (ihleft hleft hfree.1 hmarked.1 hknows)
      intro between hkept
      apply ihright hright hfree.2 hmarked.2
      exact hknows.kept hkept (by simp [boundNames_eq_nil hfree.1])
  | subscript site array index =>
    cases htyped with
    | @element _ _ array _ _ harray hindex =>
      have hblank : ∀ inner ∈ index.sites, log.writesAt inner = [] :=
        fun inner hinner => hlog.others inner (hmarked.2 inner hinner)
      have hprint : log.print index = index.text := print_eq_text hfree hblank
      have hposition : index.EncodesAs (encodeWritten log (log.sites.size + 1)) ⟨log, lengths⟩
          model .int (index.eval .standard store) before :=
        encodesAs_eval hindex hfree hblank hreads hknows _
      -- A read that sees no write is one of the array as it was.
      have hplain (hnone : encodeWritten log (log.sites.size + 1) site index.text = none) :
          (Term.subscript site (.var array) index).EncodesAs
            (encodeWritten log (log.sites.size + 1)) ⟨log, lengths⟩ model .int
            ((Term.subscript site (.var array) index).eval .standard store) before :=
        EncodesAs.element (by rw [hprint, hnone]) hreads hknows harray hposition
      by_cases hname : array = name
      · have hmark : site ∈ marks := hmarked.1.mpr hname
        have hfind := hlog.marked site hmark index.text
        simp only [seen, hname, if_true, ← hfind]
        rw [hname] at hplain
        cases hwrite : (log.writesAt site).find? index.text with
        | none => exact hplain (by rw [encodeWritten, hwrite]; rfl)
        | some =>
          rw [hwrite] at hfind
          obtain ⟨write, hmem, rfl⟩ := Option.map_eq_some_iff.mp hfind.symm
          obtain ⟨hvalue, hvalueFree, hapart⟩ := hwrites write (List.mem_of_find?_eq_some hmem)
          have hwritten : encodeWritten log (log.sites.size + 1) site (log.print index) =
              some (write.value.encodeWith (encodeWritten log log.sites.size)) := by
            rw [hprint, encodeWritten, hwrite]
            rfl
          obtain ⟨size, hpred⟩ :=
            Nat.exists_eq_succ_of_ne_zero (Nat.zero_lt_of_lt (hplaced site hmark)).ne'
          rw [hpred] at hwritten ⊢
          have hlater : EncodingState.Knows { before with lines := before.lines + 1 } sorts :=
            hknows
          exact EncodesAs.written hwritten (boundNames_eq_nil hvalueFree)
            (encodesAs_eval hvalue hvalueFree
              (fun inner hinner => hlog.others inner (hapart inner hinner)) hreads hlater
              size)
      · have hsite := hlog.others site fun hmark => hname (hmarked.1.mp hmark)
        simp only [seen, hname, if_false]
        exact hplain (by rw [encodeWritten, hsite]; rfl)
  | _ => simp [isQuantifierFree] at hfree

end Encoding

/-- The claim has its reads to itself: each has its own place in the log, which
no read of the writes has. -/
structure OwnsReads (log : WriteLog) (writes : List ElementWrite) (claim : Term) : Prop where
  nodup : claim.sites.Nodup
  placed : ∀ site ∈ claim.sites, site < log.sites.size
  apart : ∀ write ∈ writes, ∀ site ∈ write.index.sites ++ write.value.sites, site ∉ claim.sites

end Term

/-- A write of an integer at an integer index, neither with quantifiers. -/
structure ElementWrite.IsTyped (sorts : Sorts) (write : ElementWrite) : Prop where
  index : write.index.WellTyped .empty sorts .int
  value : write.value.WellTyped .empty sorts .int
  indexFree : write.index.isQuantifierFree = true
  valueFree : write.value.isQuantifierFree = true

/-- The precondition of a row of writes is computed and has a formula, and the
formula has the value of the postcondition as it is seen. -/
theorem exists_formula_seen {names : NameTable} {lines : Nat} {lengths : ArrayLengths}
    {before : WriteLog} (hwrites : statement.elementWrites? name = some writes)
    (htyped : ∀ write ∈ writes, write.IsTyped names.find?)
    (hpost : post.WellTyped .empty names.find? .bool) (hfree : post.isQuantifierFree = true)
    (hblank : before.IsBlank) (howns : post.OwnsReads before writes) :
    ∃ after operand final,
      Gives (statement.obligations env post) before ⟨post, []⟩ after ∧
      Gives (post.encode.run ⟨after, lengths⟩) ⟨names, lines⟩ operand final ∧
      ∀ store : Store, store.Fits names.find? → operand.Means (.givenBy store) .bool
        ((post.seen name writes).eval .standard store) := by
  have hmarked : post.MarkedBy name (post.sitesOf name) :=
    Term.markedBy_of_nodup howns.nodup fun _ _ => Iff.rfl
  have hsub := post.sitesOf_subset_sites name
  have hnodup : (post.sitesOf name).Nodup := howns.nodup.sublist (post.sitesOf_sublist_sites name)
  have hapart : ∀ write ∈ writes, ∀ site ∈ write.index.sites ++ write.value.sites,
      site ∉ post.sitesOf name :=
    fun write hwrite site hsite hmark => howns.apart write hwrite site hsite (hsub hmark)
  obtain ⟨hgives, hothers⟩ := Term.gives_obligations_writes hwrites hfree hmarked
    (fun write hwrite => ⟨(htyped write hwrite).indexFree, fun site hsite =>
      hapart write hwrite site (List.mem_append_left _ hsite)⟩) (fun site _ => hblank site)
  have hlog : (before.recordWrites (post.sitesOf name) writes).Holds (post.sitesOf name) writes :=
    ⟨fun site hsite key => WriteLog.find?_recordWrites hnodup hsite
      (howns.placed site (hsub hsite)) (hblank site) writes key, hothers⟩
  have hencodes : ∀ store : Store, store.Fits names.find? →
      post.EncodesAs _ ⟨_, lengths⟩ (.givenBy store) .bool
        ((post.seen name writes).eval .standard store) ⟨names, lines⟩ :=
    fun store hfits => Term.encodesAs_seen hlog
      (fun site hsite => by
        rw [WriteLog.size_recordWrites]
        exact howns.placed site (hsub hsite))
      (fun write hwrite => ⟨(htyped write hwrite).value, (htyped write hwrite).valueFree,
        fun site hsite => hapart write hwrite site (List.mem_append_right _ hsite)⟩)
      hpost hfree hmarked (Model.givenBy_reads hfits) fun _ _ hname => hname
  -- The encoding does not look at stores, so any that fits gives the operand.
  obtain ⟨operand, final, hoperand, -⟩ := hencodes _ (Store.default_fits names.find?)
  refine ⟨_, operand, final, hgives, ?_, fun store hfits => ?_⟩
  · simp only [Term.encode, ReaderT.run_bind, gives_bind]
    exact ⟨_, _, gives_pure.mpr ⟨rfl, rfl⟩, hoperand⟩
  · obtain ⟨_, _, hother, -, -, hmeans⟩ := hencodes store hfits
    obtain ⟨rfl, -⟩ := hoperand.unique hother
    exact hmeans

/-! ## Values -/

theorem Operator.Takes.inner_ne_array {operator : Operator} {inner outer : SolverSort}
    (htakes : operator.Takes inner outer) : inner ≠ .array := by
  cases htakes <;> simp

namespace Term

/-- A claim that has a sort has a value of the sort. -/
theorem WellTyped.eval_mem (htyped : term.WellTyped log sorts sort) (hfits : store.Fits sorts) :
    term.eval .standard store ∈ sort.values := by
  induction htyped generalizing store with
  | var hname => exact hfits _ _ hname
  | int | bool | not | all => exact ⟨_, rfl⟩
  | number hoperator _ ih =>
    obtain ⟨_, hvalue⟩ := ih hfits
    rw [eval_unary, ← hvalue]
    rcases hoperator with rfl | rfl <;> exact ⟨_, rfl⟩
  | binary htakes _ _ ihleft ihright =>
    rw [eval_binary]
    cases htakes with
    | arithmetic hoperator | comparison hoperator | connective hoperator =>
      obtain ⟨_, hfirst⟩ := ihleft hfits
      obtain ⟨_, hsecond⟩ := ihright hfits
      rw [← hfirst, ← hsecond]
      fin_cases hoperator <;> exact ⟨_, rfl⟩
  | element _ hname _ ih =>
    obtain ⟨_, helements⟩ := hfits _ _ hname
    obtain ⟨_, hposition⟩ := ih hfits
    rw [eval, eval_var, ← helements, ← hposition]
    exact ⟨_, rfl⟩

/-- The array reads of a claim that stand in no index. -/
def outerReads : Term → List Term
  | .unary _ operand => operand.outerReads
  | .binary left _ right => left.outerReads ++ right.outerReads
  | .subscript site array index => [.subscript site array index]
  | _ => []

theorem exists_of_mem_outerReads {read : Term} (hfree : term.isQuantifierFree = true)
    (hread : read ∈ term.outerReads) :
    ∃ site array index, read = .subscript site (.var array) index := by
  induction term with
  | unary _ _ ih => exact ih hfree hread
  | binary _ _ _ ihleft ihright =>
    simp only [isQuantifierFree, Bool.and_eq_true] at hfree
    exact (List.mem_append.mp hread).elim (ihleft hfree.1) (ihright hfree.2)
  | subscript site array index =>
    cases array with
    | var array => exact ⟨site, array, index, List.mem_singleton.mp hread⟩
    | _ => simp [isQuantifierFree] at hfree
  | _ => simp [outerReads] at hread

theorem seen_of_not_mem (hname : name ∉ term.freeNames) (writes : List ElementWrite) :
    term.seen name writes = term := by
  induction term with
  | unary _ _ ih => simp only [seen, ih hname]
  | binary _ _ _ ihleft ihright =>
    simp only [freeNames, List.mem_append, not_or] at hname
    simp only [seen, ihleft hname.1, ihright hname.2]
  | subscript _ array =>
    cases array with
    | var array =>
      have harray : array ≠ name := fun hsame => hname (by simp [hsame])
      simp only [seen, harray, if_false]
    | _ => rfl
  | _ => rfl

/-- A claim is seen in one store as it is in another if its reads are. -/
theorem eval_seen {left right : Store} (htyped : term.WellTyped .empty sorts sort)
    (hfree : term.isQuantifierFree = true) (hsort : sort ≠ .array)
    (hname : sorts name = some .array) (hothers : ∀ other ≠ name, left other = right other)
    (hreads : ∀ read ∈ term.outerReads, name ∈ read.freeNames →
      (read.seen name writes).eval .standard left = read.eval .standard right) :
    (term.seen name writes).eval .standard left = term.eval .standard right := by
  induction htyped with
  | @var _ other _ hother =>
    refine hothers other fun hsame => hsort ?_
    rw [hsame, hname] at hother
    exact (Option.some.inj hother).symm
  | int | bool => rfl
  | number _ _ ih | not _ ih =>
    simp only [seen, eval_unary]
    rw [ih hfree (by simp) hname hreads]
  | binary htakes _ _ ihleft ihright =>
    simp only [isQuantifierFree, Bool.and_eq_true] at hfree
    simp only [outerReads, List.forall_mem_append] at hreads
    have hinner := htakes.inner_ne_array
    simp only [seen, eval_binary]
    rw [ihleft hfree.1 hinner hname hreads.1, ihright hfree.2 hinner hname hreads.2]
  | @element _ site array index =>
    by_cases hmem : name ∈ (Term.subscript site (.var array) index).freeNames
    · exact hreads _ List.mem_cons_self hmem
    · rw [seen_of_not_mem hmem]
      exact eval_congr _ _ fun other hother => hothers other fun hsame => hmem (hsame ▸ hother)
  | all => simp [isQuantifierFree] at hfree

/-- The claim that an element of an array is a number. -/
def elementIs (site : Site) (name : String) (index : Term) (number : Int) : Term :=
  .binary (.subscript site (.var name) index) .eq (.int number)

theorem holds_eq_int {value number : Int} (hterm : term.eval .standard store = .int value) :
    (Term.binary term .eq (.int number)).Holds .standard store ↔ value = number := by
  have hvalue : (Term.binary term .eq (.int number)).eval .standard store =
      .bool (value = number) := by
    rw [eval_binary, hterm]
    rfl
  rw [Holds, hvalue, Value.truth_bool, decide_eq_true_iff]

theorem holds_elementIs {index : Term} {elements : Int → Int} {position number : Int}
    (hname : store name = .array elements) (hindex : index.eval .standard store = .int position) :
    (elementIs site name index number).Holds .standard store ↔ elements position = number := by
  exact holds_eq_int (by rw [eval, eval_var, hname, hindex]; rfl)

/-- What is seen of a claim has the sort of the claim. -/
theorem WellTyped.seen {name : String} {writes : List ElementWrite} {sorts : Sorts} {term : Term}
    {sort : SolverSort} (htyped : term.WellTyped .empty sorts sort)
    (hwrites : ∀ write ∈ writes, write.value.WellTyped .empty sorts .int) :
    (term.seen name writes).WellTyped .empty sorts sort := by
  induction htyped with
  | var hname => exact .var hname
  | int => exact .int
  | bool => exact .bool
  | number hoperator _ ih => exact .number hoperator (ih hwrites)
  | not _ ih => exact .not (ih hwrites)
  | binary htakes _ _ ihleft ihright => exact .binary htakes (ihleft hwrites) (ihright hwrites)
  | @element _ _ array index hsite harray hindex =>
    have hplain := WellTyped.element hsite harray hindex
    by_cases hname : array = name
    · simp only [Term.seen, hname, if_true]
      cases hfind : writes.find? fun write => write.index.text = index.text with
      | none => exact hname ▸ hplain
      | some write => exact hwrites write (List.mem_of_find?_eq_some hfind)
    · simpa only [Term.seen, hname, if_false] using hplain
  | all hsort hbody => exact .all hsort hbody

theorem seen_nil (name : String) (term : Term) : term.seen name [] = term := by
  induction term with
  | unary _ _ ih => simp only [seen, ih]
  | binary _ _ _ ihleft ihright => simp only [seen, ihleft, ihright]
  | subscript _ array => cases array <;> simp [seen]
  | _ => rfl

end Term

/-! ## Runs -/

/-- The store after a write to an element of an array. -/
noncomputable def Store.written (name : String) (store : Store) (write : ElementWrite) : Store :=
  Function.update store name ((store name).withElement (write.index.eval .standard store)
    (write.value.eval .standard store))

section Written

variable {name : String} {sorts : Sorts} {store : Store} {write : ElementWrite}

theorem Store.written_of_ne {other : String} (hother : other ≠ name) :
    store.written name write other = store other :=
  Function.update_of_ne hother _ _

theorem Store.written_eq (hfits : store.Fits sorts) (hname : sorts name = some .array)
    (htyped : write.IsTyped sorts) :
    ∃ elements index value, store name = .array elements ∧
      write.index.eval .standard store = .int index ∧
      write.value.eval .standard store = .int value ∧
      store.written name write name = .array (Function.update elements index value) := by
  obtain ⟨elements, helements⟩ := hfits _ _ hname
  obtain ⟨index, hindex⟩ := htyped.index.eval_mem hfits
  obtain ⟨value, hvalue⟩ := htyped.value.eval_mem hfits
  refine ⟨elements, index, value, helements.symm, hindex.symm, hvalue.symm, ?_⟩
  rw [Store.written, Function.update_self, ← helements, ← hindex, ← hvalue]
  rfl

theorem Store.element_written_self (hfits : store.Fits sorts) (hname : sorts name = some .array)
    (htyped : write.IsTyped sorts) :
    (store.written name write name).element (write.index.eval .standard store) =
      write.value.eval .standard store := by
  obtain ⟨_, _, _, -, hindex, hvalue, hwritten⟩ := Store.written_eq hfits hname htyped
  simp [hindex, hvalue, hwritten, Value.element]

theorem Store.element_written_of_ne (hfits : store.Fits sorts) (hname : sorts name = some .array)
    (htyped : write.IsTyped sorts) {position : Value}
    (hother : position ≠ write.index.eval .standard store) :
    (store.written name write name).element position = (store name).element position := by
  obtain ⟨_, index, _, helements, hindex, -, hwritten⟩ := Store.written_eq hfits hname htyped
  rw [hindex] at hother
  cases position with
  | int position =>
    have hne : position ≠ index := fun hsame => hother (congrArg Value.int hsame)
    simp [hwritten, helements, Value.element, hne]
  | _ => simp [hwritten, helements, Value.element]

theorem Store.Fits.written (hfits : store.Fits sorts) (hname : sorts name = some .array)
    (htyped : write.IsTyped sorts) : (store.written name write).Fits sorts := by
  intro other sort hother
  by_cases hsame : other = name
  · subst hsame
    rw [hname] at hother
    cases hother
    obtain ⟨_, _, _, -, -, -, hwritten⟩ := Store.written_eq hfits hname htyped
    exact ⟨_, hwritten.symm⟩
  · rw [Store.written_of_ne hsame]
    exact hfits other sort hother

end Written

/-- A row of writes is run from the first to the last. -/
theorem exec_elementWrites {havoc : HavocRule}
    (hwrites : statement.elementWrites? name = some writes) {after : Store} :
    Exec .standard havoc statement store (.done after) ↔
      after = writes.foldl (Store.written name) store := by
  induction statement generalizing writes store after with
  | skip =>
    cases hwrites
    exact exec_skip_iff.trans eq_comm
  | assign =>
    obtain ⟨_, _, rfl, rfl⟩ := Term.of_elementWrites?_assign hwrites
    constructor
    · intro hexec
      cases hexec
      rfl
    · rintro rfl
      exact .assignElement
  | seq _ _ ihfirst ihsecond =>
    obtain ⟨_, _, hleft, hright, rfl⟩ := Term.of_elementWrites?_seq hwrites
    simp only [exec_seq_iff, ihfirst hleft, ihsecond hright, List.foldl_append, exists_eq_left]
  | _ => simp [Term.elementWrites?] at hwrites

end HoareCheck
