import HoareCheck.Proofs.ElementWrites

/-!
# Indices that are equal in value

After an assignment to an array element, the formula of a claim takes a read to
be of the written element if its index has the text of the written index.  This
is right where the texts are equal exactly if the values are, and where the
element had the new value before.
-/

namespace HoareCheck

open Term Store

section Reads

variable {name : String} {sorts : Sorts} {store : Store} {write : ElementWrite}

/-- The texts of two indices tell whether they are equal, or it does not
matter. -/
def ElementWrite.TellsApart (name : String) (store : Store) (write : ElementWrite)
    (position : Term) : Prop :=
  (position.text = write.index.text ↔
      position.eval .standard store = write.index.eval .standard store) ∨
    (store name).element (position.eval .standard store) = write.value.eval .standard store

/-- A read whose index is not affected by the write is seen as it is after the
write exactly if the texts of the indices tell them apart. -/
theorem eval_seen_eq_written_iff (hfits : store.Fits sorts) (hname : sorts name = some .array)
    (htyped : write.IsTyped sorts) (site : Site) {position : Term}
    (hkept : position.eval .standard (store.written name write) = position.eval .standard store) :
    ((Term.subscript site (.var name) position).seen name [write]).eval .standard store =
        (Term.subscript site (.var name) position).eval .standard (store.written name write) ↔
      write.TellsApart name store position := by
  have hafter : (Term.subscript site (.var name) position).eval .standard
      (store.written name write) =
      (store.written name write name).element (position.eval .standard store) := by
    rw [Term.eval, hkept, eval_var]
  rw [hafter, ElementWrite.TellsApart]
  simp only [Term.seen, if_true, List.find?_cons, List.find?_nil]
  by_cases htext : position.text = write.index.text
  · have hfound : (write.index.text = position.text) := htext.symm
    simp only [hfound, decide_true, Option.map_some, Option.getD_some, true_iff]
    by_cases hvalue : position.eval .standard store = write.index.eval .standard store
    · simp only [hvalue, element_written_self hfits hname htyped, true_or]
    · simp only [element_written_of_ne hfits hname htyped hvalue, hvalue, false_or]
      exact eq_comm
  · have hfound : ¬ (write.index.text = position.text) := fun hsame => htext hsame.symm
    simp only [hfound, htext, decide_false, Option.map_none, Option.getD_none, false_iff]
    rw [Term.eval, eval_var]
    by_cases hvalue : position.eval .standard store = write.index.eval .standard store
    · simp only [hvalue, element_written_self hfits hname htyped, not_true, false_or]
    · simp only [element_written_of_ne hfits hname htyped hvalue, hvalue, not_false_eq_true,
        true_or]

/-- A claim is seen as it is after the write if each of its reads has an index
that the write does not affect, told apart from the written one by its text. -/
theorem eval_seen_eq_written (hfits : store.Fits sorts) (hname : sorts name = some .array)
    (htyped : write.IsTyped sorts) {claim : Term} {sort : SolverSort}
    (hclaim : claim.WellTyped .empty sorts sort) (hfree : claim.isQuantifierFree = true)
    (hsort : sort ≠ .array)
    (hreads : ∀ site array position, Term.subscript site (.var array) position ∈ claim.outerReads →
      position.eval .standard (store.written name write) = position.eval .standard store ∧
      (array = name → write.TellsApart name store position)) :
    (claim.seen name [write]).eval .standard store =
      claim.eval .standard (store.written name write) := by
  have hothers : ∀ other ≠ name, store other = store.written name write other :=
    fun other hother => (written_of_ne hother).symm
  apply eval_seen hclaim hfree hsort hname hothers
  intro read hread _
  obtain ⟨site, array, position, rfl⟩ := exists_of_mem_outerReads hfree hread
  obtain ⟨hkept, htells⟩ := hreads site array position hread
  by_cases harray : array = name
  · subst harray
    exact (eval_seen_eq_written_iff hfits hname htyped site hkept).mpr (htells rfl)
  · simp only [Term.seen, harray, if_false, Term.eval, hkept, hothers array harray]

/-- For an index that does not speak of the array, the claims on the element that
it gives are all seen as they are after the write exactly if the texts of the
indices tell them apart. -/
theorem claims_seen_iff (hfits : store.Fits sorts) (hname : sorts name = some .array)
    (htyped : write.IsTyped sorts) (site : Site) {position : Term}
    (hposition : position.WellTyped .empty sorts .int) (hnot : name ∉ position.freeNames) :
    (∀ number, ((elementIs site name position number).seen name [write]).Holds .standard
          store ↔
        (elementIs site name position number).Holds .standard (store.written name write)) ↔
      write.TellsApart name store position := by
  have hkept : position.eval .standard (store.written name write) =
      position.eval .standard store :=
    eval_congr _ _ fun other hother => written_of_ne fun hsame => hnot (hsame ▸ hother)
  have hread : (Term.subscript site (.var name) position).WellTyped .empty sorts .int :=
    .element (WriteLog.isBlank_empty site) hname hposition
  have hseen : ((Term.subscript site (.var name) position).seen name [write]).WellTyped .empty
      sorts .int :=
    hread.seen fun other hother => List.mem_singleton.mp hother ▸ htyped.value
  obtain ⟨first, hfirst⟩ := hseen.eval_mem hfits
  obtain ⟨second, hsecond⟩ := hread.eval_mem (hfits.written hname htyped)
  rw [← eval_seen_eq_written_iff hfits hname htyped site hkept, ← hfirst, ← hsecond,
    Value.int.injEq]
  have hholds : ∀ number,
      (((elementIs site name position number).seen name [write]).Holds .standard store ↔
        first = number) ∧
      ((elementIs site name position number).Holds .standard (store.written name write) ↔
        second = number) :=
    fun number => ⟨holds_eq_int hfirst.symm, holds_eq_int hsecond.symm⟩
  simp only [hholds]
  exact ⟨fun hsame => (hsame second).mpr rfl, fun hsame number => by rw [hsame]⟩

end Reads

/-- The formula of a claim after an assignment to an array element is computed
and has the value of the claim as it is seen.  The assignment ends in one store,
and the claim is seen as it is there if each of its reads has an index that the
assignment does not affect, told apart from the written index by its text.  For
an index that does not speak of the array, the claims on the element that it
gives are all seen right exactly if it is so told apart. -/
theorem formula_matches_index_text {env : Option TypeEnv} {names : NameTable} {lines : Nat}
    {lengths : ArrayLengths} {name : String} {index value post : Term} {before : WriteLog}
    (own : Site) (charge : Bool)
    (htyped : ElementWrite.IsTyped names.find? ⟨index, value⟩)
    (hname : names.find? name = some .array)
    (hpost : post.WellTyped .empty names.find? .bool) (hfree : post.isQuantifierFree = true)
    (hblank : before.IsBlank) (howns : post.OwnsReads before [⟨index, value⟩]) :
    let statement := Term.assign (.subscript own (.var name) index) value charge
    let write : ElementWrite := ⟨index, value⟩
    ∃ after operand final,
      Gives (statement.obligations env post) before ⟨post, []⟩ after ∧
      Gives (post.encode.run ⟨after, lengths⟩) ⟨names, lines⟩ operand final ∧
      ∀ (havoc : HavocRule) (store : Store), store.Fits names.find? →
        operand.Means (.givenBy store) .bool ((post.seen name [write]).eval .standard store) ∧
        ∃ last, (∀ other, Exec .standard havoc statement store (.done other) ↔ other = last) ∧
          ((∀ site array position,
              Term.subscript site (.var array) position ∈ post.outerReads →
              position.eval .standard last = position.eval .standard store ∧
              (array = name → write.TellsApart name store position)) →
            (post.seen name [write]).eval .standard store = post.eval .standard last) ∧
          ∀ site position, position.WellTyped .empty names.find? .int →
            name ∉ position.freeNames →
            ((∀ number, ((Term.elementIs site name position number).seen name [write]).Holds
                  .standard store ↔
                (Term.elementIs site name position number).Holds .standard last) ↔
              write.TellsApart name store position) := by
  intro statement write
  have hwrites : statement.elementWrites? name = some [write] := if_pos rfl
  obtain ⟨after, operand, final, hgives, hencode, hmeans⟩ := exists_formula_seen hwrites
    (fun other hother => List.mem_singleton.mp hother ▸ htyped) hpost hfree hblank howns
  refine ⟨after, operand, final, hgives, hencode, fun havoc store hfits => ⟨hmeans store hfits,
    store.written name write, fun other => exec_elementWrites hwrites, ?_, ?_⟩⟩
  · exact eval_seen_eq_written hfits hname htyped hpost hfree (by simp)
  · exact fun site position => claims_seen_iff hfits hname htyped site

/-- `A[i + 1] = x` with a claim that reads the written element and an element of
another array: the formula is right in every store. -/
theorem formula_matches_index_text_successor :
    let names : NameTable := [("A", .array), ("B", .array), ("i", .int), ("x", .int)]
    let successor := Term.binary (.var "i") .add (.int 1)
    let statement := Term.assign (.subscript 3 (.var "A") successor) (.var "x") false
    let post := Term.binary (.subscript 1 (.var "A") successor) .le (.subscript 2 (.var "B") (.var "i"))
    post.OwnsReads (places 4) [⟨successor, .var "x"⟩] ∧
    ∃ after operand final, Gives (statement.obligations none post) (places 4) ⟨post, []⟩ after ∧
      Gives (post.encode.run ⟨after, []⟩) ⟨names, 0⟩ operand final ∧
      ∀ (havoc : HavocRule) (store : Store), store.Fits names.find? →
        ∃ last, Exec .standard havoc statement store (.done last) ∧
          operand.Means (.givenBy store) .bool (post.eval .standard last) := by
  intro names successor statement post
  have hsuccessor : successor.WellTyped .empty names.find? .int :=
    .binary (.arithmetic (by decide)) (.var rfl) .int
  have hpost : post.WellTyped .empty names.find? .bool :=
    .binary (.comparison (by decide)) (.element rfl rfl hsuccessor) (.element rfl rfl (.var rfl))
  have howns : post.OwnsReads (places 4) [⟨successor, .var "x"⟩] :=
    ⟨by decide, by decide, by decide⟩
  have hname : names.find? "A" = some .array := rfl
  obtain ⟨after, operand, final, hgives, hencode, hmeans⟩ := formula_matches_index_text 3 false
    ⟨hsuccessor, .var rfl, rfl, rfl⟩ hname hpost rfl (isBlank_places 4) howns
  refine ⟨howns, after, operand, final, hgives, hencode, fun havoc store hfits => ?_⟩
  obtain ⟨hvalue, last, hlast, hreads, -⟩ := hmeans havoc store hfits
  obtain rfl := (hlast _).mp .assignElement
  refine ⟨_, .assignElement, ?_⟩
  rw [← hreads]
  · exact hvalue
  · intro site array position hread
    rcases List.mem_pair.mp hread with hread | hread
    · cases hread
      exact ⟨rfl, fun _ => .inl ⟨fun _ => rfl, fun _ => rfl⟩⟩
    · cases hread
      exact ⟨rfl, fun hother => absurd hother (by decide)⟩

/-- `A[1] = 5` makes `A[0 + 1] == 5` true, but where `A[1]` was another number
its formula is false. -/
theorem equal_index_unseen :
    let statement := Term.assign (.subscript 2 (.var "A") (.int 1)) (.int 5) false
    let post := Term.elementIs 1 "A" (.binary (.int 0) .add (.int 1)) 5
    ∃ after operand final, Gives (statement.obligations none post) (places 3) ⟨post, []⟩ after ∧
      Gives (post.encode.run ⟨after, []⟩) ⟨[("A", .array)], 0⟩ operand final ∧
      ∀ (havoc : HavocRule) (store : Store) (elements : Int → Int),
        store "A" = .array elements → elements 1 ≠ 5 →
        operand.Means (.givenBy store) .bool (.bool false) ∧
        ∃ last, Exec .standard havoc statement store (.done last) ∧ post.Holds .standard last := by
  intro statement post
  refine ⟨_, _, _, rfl, rfl, fun havoc store elements hstore hother => ?_⟩
  have hread : (Model.givenBy store).constant "A" .array = .array elements := by
    rw [← hstore]
    exact if_pos ⟨elements, hstore.symm⟩
  refine ⟨.symbolic rfl ?_, _, .assignElement, ?_⟩
  · simp [hread, Value.element, hother]
  · refine (Term.holds_elementIs (by rw [Function.update_self, hstore]; rfl) rfl).mpr ?_
    exact Function.update_self ..

end HoareCheck
