import HoareCheck.Proofs.IndexText

/-!
# The order of assignments to array elements

After a row of assignments to cells of an array, which are given by literal
indices, the formula of a claim speaks of the store in which each cell has the
value of the first assignment to it, as computed before all of them
(`Store.firstWritten`).  The row ends in that store if no assignment writes or
reads a cell that an earlier one has written.
-/

namespace HoareCheck

open Term Function

namespace Term

/-- Different numbers have different texts. -/
theorem text_int_inj {left right : Int} :
    (Term.int left).text = (Term.int right).text ↔ left = right := by
  have hkey (value : Int) : (Term.int value).IsKey .empty := rfl
  exact (print_eq_print_iff (hkey left) (hkey right)).trans (by simp [Term.int, tree])

/-- Where a claim speaks of an array, it reads one of its cells. -/
def ReadsCells (name : String) (term : Term) : Prop :=
  ∀ read ∈ term.outerReads, name ∈ read.freeNames →
    ∃ site position, read = .subscript site (.var name) (.int position)

end Term

namespace ElementWrite

/-- A write to a cell. -/
structure IsCell (sorts : Sorts) (write : ElementWrite) : Prop extends write.IsTyped sorts where
  literal : ∃ position, write.index = .int position

/-- A write that is not to the cell of an earlier one and whose value does not
read that cell. -/
def Independent (name : String) (earlier later : ElementWrite) : Prop :=
  earlier.index ≠ later.index ∧
    ∀ read ∈ later.value.outerReads, name ∈ read.freeNames →
      ∃ site position, read = .subscript site (.var name) (.int position) ∧
        earlier.index ≠ .int position

end ElementWrite

namespace Store

/-- The store in which of the writes to each cell the first counts, with the
value that it has before all of them. -/
noncomputable def firstWritten (name : String) (store : Store) (writes : List ElementWrite) :
    Store :=
  writes.foldr (fun write later => Function.update later name
    ((later name).withElement (write.index.eval .standard store)
      (write.value.eval .standard store))) store

section Cells

variable {name : String} {sorts : Sorts} {store left right : Store} {writes : List ElementWrite}

theorem firstWritten_cons (write : ElementWrite) :
    store.firstWritten name (write :: writes) =
      Function.update (store.firstWritten name writes) name
        ((store.firstWritten name writes name).withElement (write.index.eval .standard store)
          (write.value.eval .standard store)) := rfl

theorem firstWritten_of_ne {other : String} (hother : other ≠ name) :
    store.firstWritten name writes other = store other := by
  induction writes with
  | nil => rfl
  | cons _ _ ih => rw [firstWritten_cons, update_of_ne hother, ih]

/-- Stores with the same other variables and the same cells are the same. -/
theorem eq_of_cells (hleft : left.Fits sorts) (hright : right.Fits sorts)
    (hname : sorts name = some .array) (hothers : ∀ other ≠ name, left other = right other)
    (hcells : ∀ position : Int,
      (left name).element (.int position) = (right name).element (.int position)) :
    left = right := by
  obtain ⟨_, hfirst⟩ := hleft _ _ hname
  obtain ⟨_, hsecond⟩ := hright _ _ hname
  funext other
  by_cases hother : other = name
  · rw [hother, ← hfirst, ← hsecond]
    congr 1
    funext position
    have hcell := hcells position
    rw [← hfirst, ← hsecond] at hcell
    exact Value.int.inj hcell
  · exact hothers other hother

theorem Fits.firstWritten (hfits : store.Fits sorts) (hname : sorts name = some .array)
    (hcells : ∀ write ∈ writes, write.IsCell sorts) :
    (store.firstWritten name writes).Fits sorts := by
  induction writes with
  | nil => exact hfits
  | cons _ _ ih =>
    rw [List.forall_mem_cons] at hcells
    intro other sort hother
    by_cases hsame : other = name
    · subst hsame
      rw [hname] at hother
      cases hother
      obtain ⟨_, helements⟩ := ih hcells.2 _ _ hname
      obtain ⟨_, hindex⟩ := hcells.1.index.eval_mem hfits
      obtain ⟨_, hvalue⟩ := hcells.1.value.eval_mem hfits
      rw [firstWritten_cons, update_self, ← helements, ← hindex, ← hvalue]
      exact ⟨_, rfl⟩
    · rw [firstWritten_of_ne hsame]
      exact hfits other sort hother

/-- A cell of that store has the value with which a read of it is seen. -/
theorem element_firstWritten (hfits : store.Fits sorts) (hname : sorts name = some .array)
    (hcells : ∀ write ∈ writes, write.IsCell sorts) (site : Site) (position : Int) :
    ((Term.subscript site (.var name) (.int position)).seen name writes).eval .standard store =
      (store.firstWritten name writes name).element (.int position) := by
  induction writes with
  | nil => rw [seen_nil]; rfl
  | cons _ _ ih =>
    rw [List.forall_mem_cons] at hcells
    obtain ⟨cell, hcell⟩ := hcells.1.literal
    obtain ⟨_, helements⟩ := hfits.firstWritten hname hcells.2 _ _ hname
    obtain ⟨_, hvalue⟩ := hcells.1.value.eval_mem hfits
    specialize ih hcells.2
    rw [firstWritten_cons, update_self, ← hvalue, hcell, eval_int]
    rw [← helements] at ih ⊢
    simp only [Term.seen, if_true, List.find?_cons, hcell, Term.text_int_inj] at ih ⊢
    by_cases hsame : cell = position
    · simp [hsame, Value.withElement, Value.element, ← hvalue]
    · simp [hsame, Ne.symm hsame, Value.withElement, Value.element, ih]

/-- A claim over cells is seen as it is in that store. -/
theorem eval_firstWritten (hfits : store.Fits sorts) (hname : sorts name = some .array)
    (hcells : ∀ write ∈ writes, write.IsCell sorts) {term : Term} {sort : SolverSort}
    (htyped : term.WellTyped .empty sorts sort) (hfree : term.isQuantifierFree = true)
    (hsort : sort ≠ .array) (hreads : term.ReadsCells name) :
    (term.seen name writes).eval .standard store =
      term.eval .standard (store.firstWritten name writes) := by
  apply eval_seen htyped hfree hsort hname fun other hother => (firstWritten_of_ne hother).symm
  intro read hread hmem
  obtain ⟨site, position, rfl⟩ := hreads read hread hmem
  exact element_firstWritten hfits hname hcells site position

end Cells

/-! ## Independent writes -/

section Independence

variable {name : String} {sorts : Sorts} {store : Store} {write : ElementWrite}
  {writes : List ElementWrite}

section

variable (hfits : store.Fits sorts) (hname : sorts name = some .array)

include hfits hname

/-- An earlier write does not change the value of a later one. -/
theorem eval_written_of_independent {later : ElementWrite} (hwrite : write.IsCell sorts)
    (hlater : later.IsCell sorts) (hindependent : write.Independent name later) :
    later.value.eval .standard (store.written name write) = later.value.eval .standard store := by
  have hseen : (later.value.seen name []).eval .standard store =
      later.value.eval .standard (store.written name write) := by
    apply eval_seen hlater.value hlater.valueFree (by simp) hname
      fun other hother => (written_of_ne hother).symm
    intro read hread hmem
    obtain ⟨_, position, rfl, hposition⟩ := hindependent.2 read hread hmem
    obtain ⟨_, hcell⟩ := hwrite.literal
    have hother : Value.int position ≠ write.index.eval .standard store := by
      rw [hcell] at hposition ⊢
      exact fun hsame => hposition (congrArg int (Value.int.inj hsame).symm)
    rw [seen_nil]
    exact (element_written_of_ne hfits hname hwrite.toIsTyped hother).symm
  rw [← hseen, seen_nil]

/-- A write may as well come after the later ones that are independent of it. -/
theorem firstWritten_written (hwrite : write.IsCell sorts)
    (hcells : ∀ later ∈ writes, later.IsCell sorts)
    (hindependent : ∀ later ∈ writes, write.Independent name later) :
    (store.written name write).firstWritten name writes =
      store.firstWritten name (write :: writes) := by
  induction writes with
  | nil => rfl
  | cons _ _ ih =>
    rw [List.forall_mem_cons] at hcells hindependent
    obtain ⟨position, hposition⟩ := hwrite.literal
    obtain ⟨other, hother⟩ := hcells.1.literal
    obtain ⟨_, helements⟩ := hfits.firstWritten hname hcells.2 _ _ hname
    obtain ⟨_, hvalue⟩ := hwrite.value.eval_mem hfits
    obtain ⟨_, hlaterValue⟩ := hcells.1.value.eval_mem hfits
    have hne : position ≠ other := by
      intro hsame
      exact hindependent.1.1 (by rw [hposition, hother, hsame])
    rw [firstWritten_cons, ih hcells.2 hindependent.2,
      eval_written_of_independent hfits hname hwrite hcells.1 hindependent.1]
    simp only [firstWritten_cons, update_self, update_idem, hposition, hother,
      eval_int, ← hvalue, ← hlaterValue, ← helements, Value.withElement]
    rw [update_comm hne]

/-- Independent writes end in the store that formulas speak of. -/
theorem foldl_written_eq_firstWritten (hcells : ∀ write ∈ writes, write.IsCell sorts)
    (hindependent : writes.Pairwise (ElementWrite.Independent name)) :
    writes.foldl (Store.written name) store = store.firstWritten name writes := by
  induction writes generalizing store with
  | nil => rfl
  | cons _ _ ih =>
    rw [List.forall_mem_cons] at hcells
    rw [List.pairwise_cons] at hindependent
    rw [List.foldl_cons,
      ih (hfits.written hname hcells.1.toIsTyped) hcells.2 hindependent.2,
      firstWritten_written hfits hname hcells.1 hcells.2 hindependent.1]

theorem Fits.foldl_written (hcells : ∀ write ∈ writes, write.IsCell sorts) :
    (writes.foldl (Store.written name) store).Fits sorts := by
  induction writes generalizing store with
  | nil => exact hfits
  | cons _ _ ih =>
    rw [List.forall_mem_cons] at hcells
    exact ih (hfits.written hname hcells.1.toIsTyped) hcells.2

end

theorem foldl_written_of_ne {other : String} (hother : other ≠ name) :
    writes.foldl (Store.written name) store other = store other := by
  induction writes generalizing store with
  | nil => rfl
  | cons _ _ ih => rw [List.foldl_cons, ih, written_of_ne hother]

end Independence

/-- Stores that the claims over cells do not tell apart are the same. -/
theorem eq_of_claims {name : String} {sorts : Sorts} {left right : Store}
    (hleft : left.Fits sorts) (hright : right.Fits sorts) (hname : sorts name = some .array)
    (hothers : ∀ other ≠ name, left other = right other)
    (hclaims : ∀ claim : Term, claim.WellTyped .empty sorts .bool →
      claim.isQuantifierFree = true → claim.ReadsCells name →
      claim.Holds .standard left → claim.Holds .standard right) :
    left = right := by
  apply eq_of_cells hleft hright hname hothers
  intro position
  obtain ⟨first, hfirst⟩ := hleft _ _ hname
  obtain ⟨_, hsecond⟩ := hright _ _ hname
  -- The claim that the cell has the value that it has in the first store.
  have hcell := hclaims (.elementIs 0 name (.int position) (first position))
    (.binary (.comparison (by simp)) (.element rfl hname .int) .int) rfl
    (by
      intro read hread _
      simp only [elementIs, outerReads, int, List.append_nil, List.mem_singleton] at hread
      exact ⟨0, position, hread⟩)
    ((holds_elementIs hfirst.symm (eval_int ..)).mpr rfl)
  rw [holds_elementIs hsecond.symm (eval_int ..)] at hcell
  simp only [← hfirst, ← hsecond, Value.element, hcell]

end Store

/-- The formula of a claim after a row of writes to cells is computed and has the
value of the claim as it is seen; a claim that reads cells of the array is seen
as it is in the store in which the first write to each cell counts.  In a store,
this is right for all such claims exactly if the row ends in that store, and it
does so if its writes are independent. -/
theorem formula_sees_first_writes {env : Option TypeEnv} {names : NameTable} {lines : Nat}
    {lengths : ArrayLengths} {name : String} {statement post : Term}
    {writes : List ElementWrite} {before : WriteLog}
    (hwrites : statement.elementWrites? name = some writes)
    (hcells : ∀ write ∈ writes, write.IsCell names.find?)
    (hname : names.find? name = some .array)
    (hpost : post.WellTyped .empty names.find? .bool) (hfree : post.isQuantifierFree = true)
    (hblank : before.IsBlank) (howns : post.OwnsReads before writes) :
    ∃ after operand final,
      Gives (statement.obligations env post) before ⟨post, []⟩ after ∧
      Gives (post.encode.run ⟨after, lengths⟩) ⟨names, lines⟩ operand final ∧
      ∀ (havoc : HavocRule) (store : Store), store.Fits names.find? →
        operand.Means (.givenBy store) .bool ((post.seen name writes).eval .standard store) ∧
        (post.ReadsCells name → (post.seen name writes).eval .standard store =
          post.eval .standard (store.firstWritten name writes)) ∧
        ((∀ claim : Term, claim.WellTyped .empty names.find? .bool →
            claim.isQuantifierFree = true → claim.ReadsCells name →
            (claim.Holds .standard (store.firstWritten name writes) ↔
              ∀ last, Exec .standard havoc statement store (.done last) →
                claim.Holds .standard last)) ↔
          Exec .standard havoc statement store (.done (store.firstWritten name writes))) ∧
        (writes.Pairwise (ElementWrite.Independent name) →
          Exec .standard havoc statement store (.done (store.firstWritten name writes))) := by
  obtain ⟨after, operand, final, hgives, hencode, hmeans⟩ := exists_formula_seen hwrites
    (fun write hwrite => (hcells write hwrite).toIsTyped) hpost hfree hblank howns
  refine ⟨after, operand, final, hgives, hencode, fun havoc store hfits => ⟨hmeans store hfits,
    Store.eval_firstWritten hfits hname hcells hpost hfree (by simp), ?_, ?_⟩⟩
  · simp only [exec_elementWrites hwrites, forall_eq]
    constructor
    · intro hclaims
      exact Store.eq_of_claims (hfits.firstWritten hname hcells) (hfits.foldl_written hname hcells)
        hname (fun other hother => by
          rw [Store.firstWritten_of_ne hother, Store.foldl_written_of_ne hother])
        fun claim htyped hquantifiers hreads => (hclaims claim htyped hquantifiers hreads).mp
    · intro hlast claim _ _ _
      rw [hlast]
  · intro hindependent
    rw [exec_elementWrites hwrites]
    exact (Store.foldl_written_eq_firstWritten hfits hname hcells hindependent).symm

/-- `A[0] = x; A[1] = A[0] + 1; A[0] = A[1]` ends in `A[0] + A[1] = 2 * x + 2`,
and the formula of that claim is `x + (A[0] + 1) = 2 * x + 2`. -/
theorem formula_sees_first_writes_exchange :
    let names : NameTable := [("A", .array), ("x", .int)]
    let cell (site : Site) (position : Int) := Term.subscript site (.var "A") (.int position)
    let statement := Term.seq (.assign (cell 3 0) (.var "x") false)
      (.seq (.assign (cell 4 1) (.binary (cell 5 0) .add (.int 1)) false)
        (.assign (cell 6 0) (cell 7 1) false))
    let bound := Term.binary (.binary (.int 2) .mult (.var "x")) .add (.int 2)
    let post := Term.binary (.binary (cell 1 0) .add (cell 2 1)) .eq bound
    let writes : List ElementWrite := [⟨.int 0, .var "x"⟩,
      ⟨.int 1, .binary (cell 5 0) .add (.int 1)⟩, ⟨.int 0, cell 7 1⟩]
    statement.elementWrites? "A" = some writes ∧ post.OwnsReads (places 8) writes ∧
    ∃ after operand final, Gives (statement.obligations none post) (places 8) ⟨post, []⟩ after ∧
      Gives (post.encode.run ⟨after, []⟩) ⟨names, 0⟩ operand final ∧
      ∀ store : Store, store.Fits names.find? → operand.Means (.givenBy store) .bool
        ((Term.binary (.binary (.var "x") .add (.binary (cell 5 0) .add (.int 1))) .eq
          bound).eval .standard store) := by
  intro names cell statement bound post writes
  have hcell : ∀ site position, (cell site position).WellTyped .empty names.find? .int :=
    fun site _ => .element (WriteLog.isBlank_empty site) rfl .int
  have hsum : ∀ {left right : Term}, left.WellTyped .empty names.find? .int →
      right.WellTyped .empty names.find? .int →
      (Term.binary left .add right).WellTyped .empty names.find? .int :=
    .binary (.arithmetic (by decide))
  have hbound : bound.WellTyped .empty names.find? .int :=
    hsum (.binary (.arithmetic (by decide)) .int (.var rfl)) .int
  have hcells : ∀ write ∈ writes, write.IsCell names.find? := by
    simp only [writes, List.forall_mem_cons]
    exact ⟨⟨⟨.int, .var rfl, rfl, rfl⟩, 0, rfl⟩, ⟨⟨.int, hsum (hcell 5 0) .int, rfl, rfl⟩, 1, rfl⟩,
      ⟨⟨.int, hcell 7 1, rfl, rfl⟩, 0, rfl⟩, List.forall_mem_nil _⟩
  have howns : post.OwnsReads (places 8) writes := ⟨by decide, by decide, by decide⟩
  have hwrites : statement.elementWrites? "A" = some writes := rfl
  obtain ⟨after, operand, final, hgives, hencode, hmeans⟩ := formula_sees_first_writes hwrites
    hcells rfl (.binary (.comparison (by decide)) (hsum (hcell 1 0) (hcell 2 1)) hbound) rfl
    (isBlank_places 8) howns
  exact ⟨hwrites, howns, after, operand, final, hgives, hencode,
    fun store hfits => (hmeans (fun _ _ _ _ => True) store hfits).1⟩

/-- Of two writes to one cell the formula sees the first, so it is false where
the claim is true of every end. -/
theorem second_write_unseen :
    let statement := Term.seq (setFirst 2 "A" (.int 1)) (setFirst 3 "A" (.int 2))
    let post := firstIs 1 "A" (.int 2)
    ∃ after final, Gives (statement.obligations none post) (places 4) ⟨post, []⟩ after ∧
      Gives (post.encode.run ⟨after, []⟩) ⟨[("A", .array)], 0⟩ (.plain (.bool false)) final ∧
      ∀ (havoc : HavocRule) (store : Store), store "A" ∈ SolverSort.array.values →
        ∃ last, Exec .standard havoc statement store (.done last) ∧ post.Holds .standard last := by
  intro statement post
  refine ⟨_, _, rfl, rfl, ?_⟩
  rintro havoc store ⟨elements, helements⟩
  have hlast : ((store.written "A" ⟨.int 0, .int 1⟩).written "A" ⟨.int 0, .int 2⟩) "A" =
      .array (Function.update (Function.update elements 0 1) 0 2) := by
    simp only [Store.written, Function.update_self, ← helements]
    rfl
  exact ⟨_, .seq .assignElement .assignElement,
    (Term.holds_elementIs hlast (Term.eval_int ..)).mpr (Function.update_self ..)⟩

end HoareCheck
