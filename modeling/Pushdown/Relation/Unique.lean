import Pushdown.Relation.RemotePlan

/-!
# Uniqueness

`RemotePlan.isUniqueOn columns` answers whether no two rows of the result agree on all of the
columns.  It follows from declared keys, from operators that remove duplicates, and from constant
rows; where nothing shows it the answer is no.
-/

namespace Pushdown

/-- Whether the columns hold every column of a row of `width` fields. -/
def coversAll (columns : List Nat) (width : Nat) : Bool :=
  (List.range width).all (columns.contains ·)

/-- Whether two constant rows agree on a column; they agree on one that neither has. -/
def agreeAt (a b : List Literal) (column : Nat) : Bool :=
  match a[column]?, b[column]? with
  | some x, some y => x.sameValue y
  | none, none => true
  | _, _ => false

/-- Whether no two of the constant rows agree on all of the columns. -/
def tuplesUniqueOn (columns : List Nat) : List (List Literal) → Bool
  | [] => true
  | a :: rest => rest.all (fun b => columns.any (!agreeAt a b ·)) && tuplesUniqueOn columns rest

/-- The input columns behind those output columns that are input columns. -/
def sourceColumns (projects : List Expr) (columns : List Nat) : List Nat :=
  columns.filterMap fun column => projects[column]?.bind Expr.input?

/-- Whether no two rows of the plan agree on all of the columns, as far as can be told. -/
def RemotePlan.isUniqueOn : RemotePlan → List Nat → Bool
  | ⟨_, fields, op⟩, columns =>
    match op with
    | .scan table => table.uniqueKeys.any fun key => key.all (columns.contains ·)
    | .filter input _ | .sort input _ => input.isUniqueOn columns
    | .project input projects =>
      let mapped := sourceColumns projects columns
      !mapped.isEmpty && input.isUniqueOn mapped
    | .calculate input program =>
      match program.projectExprs with
      | .ok projects =>
        let mapped := sourceColumns projects columns
        !mapped.isEmpty && input.isUniqueOn mapped
      | .error _ => false
    | .aggregate _ groupSet _ _ => coversAll columns groupSet.length
    | .values tuples => tuplesUniqueOn columns tuples
    | .set .union _ true | .join .. | .modify .. => false
    | .set .. => coversAll columns fields.length

end Pushdown
