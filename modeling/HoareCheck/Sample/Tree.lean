import HoareCheck.Claim.Term

/-!
# Large sample terms

Expressions and programs of a given size.  Both are built from a list of leaves
by joining neighbours until one term is left, so that they are wide and not
deep.
-/

namespace HoareCheck.Sample

/-- Joins neighbours; a last one without a neighbour stays. -/
def joinNeighbours (join : Nat → Term → Term → Term) (count : Nat) : List Term → List Term
  | first :: second :: rest => join count first second :: joinNeighbours join (count + 1) rest
  | rest => rest

theorem length_joinNeighbours_le (join : Nat → Term → Term → Term) (count : Nat)
    (terms : List Term) : (joinNeighbours join count terms).length ≤ terms.length := by
  induction count, terms using joinNeighbours.induct with
  | case1 count first second rest ih =>
    simp only [joinNeighbours, List.length_cons]
    omega
  | case2 count rest hshort =>
    have hsame : joinNeighbours join count rest = rest := by
      rw [joinNeighbours]
      exact hshort
    exact Nat.le_of_eq (congrArg List.length hsame)

/-- Joins a list of terms to one.  `join` also gets the number of joins made
before. -/
def joinAll (join : Nat → Term → Term → Term) (count : Nat) (terms : List Term) : Term :=
  match terms with
  | [] => .skip
  | [term] => term
  | first :: second :: rest =>
    joinAll join (count + (rest.length + 2) / 2)
      (join count first second :: joinNeighbours join (count + 1) rest)
termination_by terms.length
decreasing_by
  have := length_joinNeighbours_le join (count + 1) rest
  simp only [List.length_cons]
  omega

/-- The operators of the joins, in turn. -/
def joinOperator (count : Nat) : Operator :=
  match count % 5 with
  | 0 => .add
  | 1 => .minus
  | 2 => .mult
  | 3 => .div
  | _ => .mod

def numbered (start : String) (index : Nat) : String := start ++ toString index

/-- An expression of `2 ^ depth` leaves, each of which adds a variable and a
negated number. -/
def bigExpression (depth : Nat) : Term :=
  joinAll (fun count left right => .binary left (joinOperator count) right) 0
    ((List.range (Nat.pow 2 depth)).map fun index =>
      .binary (.var (numbered "v" index)) .add (.unary .minus (.int index)))

/-- The statements on the variable of an index. -/
def statementsOn (index : Nat) : List Term :=
  let name := numbered "s" index
  [.assign (.var name) (.binary (.var name) .add (.int index)) false,
   .assert (.binary (.var name) .ge (.int 0)), .assume (.binary (.var name) .le (.int 99)),
   .havoc name 0]

/-- A loop and a branch on the first variable. -/
def lastStatements : List Term :=
  let first := Term.var "s0"
  let set (value : Int) : Term := .assign first (.int value) false
  [.skip, .loop (.bool true) (.binary first .gt (.int 0)) (.seq (set 0) .skip),
   .ifElse (.binary first .eq (.int 0)) (set 1) (set 2)]

/-- A program on `count` variables. -/
def bigStatement (count : Nat) : Term :=
  joinAll (fun _ first second => .seq first second) 0
    ((List.range count).flatMap statementsOn ++ lastStatements)

end HoareCheck.Sample
