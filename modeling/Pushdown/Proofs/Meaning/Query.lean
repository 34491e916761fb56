import Pushdown.Proofs.Meaning.Algebra
import Pushdown.Sql.Node

/-!
# The rows of a query

What a SQL tree computes, as a relation with named columns.  The `FROM` clause gives a frame,
whose columns have the name of their source; a reference must match exactly one of them.  `WHERE`
keeps rows, `GROUP BY`, `HAVING` or an aggregate in the select list make groups of them, and the
select list makes a row of each row or group.  In a grouped query an expression is read over the
keys, as they are written, and aggregate calls.  `ORDER BY` has no effect on a bag.

A tree that breaks these rules has no meaning: the functions give `none`.
-/

namespace Pushdown.Sql

variable {V : Type}

/-- Rows under the names of their columns. -/
structure Relation (V : Type) where
  columns : List String
  rows : Bag V

/-- The rows that a query reads from, each column with the name of its source. -/
structure Frame (V : Type) where
  columns : List (String × String)
  rows : Bag V

/-- Whether a reference names the column: by the column's name, or with the source's in front. -/
def refMatches (ref : List String) (column : String × String) : Bool :=
  match ref with
  | [name] => column.2 == name
  | [source, name] => column.1 == source && column.2 == name
  | _ => false

/-- The position of the one column that a reference names. -/
def position? (columns : List (String × String)) (ref : List String) : Option Nat :=
  if columns.countP (refMatches ref) = 1 then columns.findIdx? (refMatches ref) else none

/-! ## Scalars -/

mutual

/-- An expression as a function of the rows of a frame. -/
def Node.scalar? (I : Interpretation V) (columns : List (String × String)) :
    Node → Option (Row V → V)
  | .identifier ref => (position? columns ref).map fun ordinal row => row.getD ordinal I.null
  | .literal value => some fun _ => I.literal value
  | .call (.scalar op) operands =>
    (Node.scalars? I columns operands).map fun values row => I.sqlCall op (values row)
  | _ => none

def Node.scalars? (I : Interpretation V) (columns : List (String × String)) :
    List Node → Option (Row V → List V)
  | [] => some fun _ => []
  | node :: rest => do
    let value ← node.scalar? I columns
    let values ← Node.scalars? I columns rest
    return fun row => value row :: values row

end

/-- A condition as a test of the rows of a frame; without one all rows pass. -/
def condition? (I : Interpretation V) (columns : List (String × String)) :
    Option Node → Option (Row V → Bool)
  | none => some fun _ => true
  | some condition => (condition.scalar? I columns).map fun value row => I.isTrue (value row)

/-! ## Groups -/

mutual

/-- Whether two expressions are written the same. -/
def Node.same : Node → Node → Bool
  | .identifier left, .identifier right => left == right
  | .literal left, .literal right => left == right
  | .call operator left, .call operator' right => operator == operator' && Node.sameAll left right
  | _, _ => false

def Node.sameAll : List Node → List Node → Bool
  | [], [] => true
  | left :: leftRest, right :: rightRest => left.same right && Node.sameAll leftRest rightRest
  | _, _ => false

end

mutual

/-- Whether an aggregate call occurs in the expression. -/
def Node.hasAggregate : Node → Bool
  | .call (.aggregate _ _) _ => true
  | .call (.scalar _) operands => Node.anyAggregate operands
  | _ => false

def Node.anyAggregate : List Node → Bool
  | [] => false
  | node :: rest => node.hasAggregate || Node.anyAggregate rest

end

/-- The value of the key that is written as the node, or else what `otherwise` says. -/
def keyOr (I : Interpretation V) (keys : List Node) (node : Node)
    (otherwise : Option (Row V → Bag V → V)) : Option (Row V → Bag V → V) :=
  match keys.findIdx? node.same with
  | some position => some fun key _ => key.getD position I.null
  | none => otherwise

mutual

/-- An expression of a grouped query as a function of the key and the rows of a group. -/
def Node.grouped? (I : Interpretation V) (columns : List (String × String)) (keys : List Node) :
    Node → Option (Row V → Bag V → V)
  | .identifier ref => keyOr I keys (.identifier ref) none
  | .literal value => keyOr I keys (.literal value) (some fun _ _ => I.literal value)
  | .call (.aggregate function distinct) operands =>
    keyOr I keys (.call (.aggregate function distinct) operands)
      ((Node.scalars? I columns operands).map fun values _ rows =>
        I.sqlAggregate function distinct (rows.map values))
  | .call (.scalar op) operands =>
    keyOr I keys (.call (.scalar op) operands)
      ((Node.groupeds? I columns keys operands).map fun values key rows =>
        I.sqlCall op (values key rows))
  | _ => none

def Node.groupeds? (I : Interpretation V) (columns : List (String × String)) (keys : List Node) :
    List Node → Option (Row V → Bag V → List V)
  | [] => some fun _ _ => []
  | node :: rest => do
    let value ← node.grouped? I columns keys
    let values ← Node.groupeds? I columns keys rest
    return fun key rows => value key rows :: values key rows

end

/-! ## Queries -/

variable [DecidableEq V]

/-- Relations combined by the operator. -/
def SetOperator.combine : SetOperator → List (Bag V) → Bag V
  | .union => SetKind.union.combine false
  | .unionAll => SetKind.union.combine true
  | .intersect => SetKind.intersect.combine false
  | .intersectAll => SetKind.intersect.combine true
  | .except => SetKind.minus.combine false
  | .exceptAll => SetKind.minus.combine true

/-- The groups of a query.  Without keys there is one, also of no rows; a literal is no key, as it
would name a column by its position. -/
def groups? (I : Interpretation V) (columns : List (String × String)) (keys : List Node)
    (rows : Bag V) : Option (Multiset (Row V × Bag V)) :=
  if keys.any Node.isLiteral then none
  else if keys.isEmpty then some {([], rows)}
  else (Node.scalars? I columns keys).map fun key => Bag.groups key rows

/-- The groups that satisfy the `HAVING` clause. -/
def having? (I : Interpretation V) (columns : List (String × String)) (keys : List Node)
    (groups : Multiset (Row V × Bag V)) : Option Node → Option (Multiset (Row V × Bag V))
  | none => some groups
  | some condition => (condition.grouped? I columns keys).map fun value =>
    groups.filter fun group => I.isTrue (value group.1 group.2)

/-- What a query makes of the rows that it reads from. -/
def result? (I : Interpretation V) (projection : Option (List Node)) (selection : Option Node)
    (groupBy : Option (List Node)) (having : Option Node) (frame : Frame V) :
    Option (Relation V) := do
  let keep ← condition? I frame.columns selection
  let kept := frame.rows.filter fun row => keep row
  match projection with
  | none =>
    if groupBy.isSome || having.isSome then none
    else return ⟨frame.columns.map Prod.snd, kept⟩
  | some items =>
    let columns ← items.mapM Node.outputName?
    let nodes := items.map Node.unnamed
    if groupBy.isSome || having.isSome || nodes.any Node.hasAggregate then
      let keys := groupBy.getD []
      let groups ← groups? I frame.columns keys kept
      let groups ← having? I frame.columns keys groups having
      let values ← Node.groupeds? I frame.columns keys nodes
      return ⟨columns, groups.map fun group => values group.1 group.2⟩
    else
      let values ← Node.scalars? I frame.columns nodes
      return ⟨columns, kept.map values⟩

mutual

/-- The relation of a query over a database, given the columns of the tables. -/
def Node.relation? (I : Interpretation V) (tables : List String → Fields)
    (db : List String → Bag V) : Node → Option (Relation V)
  | .select query => query.relation? I tables db
  | .setOp operator inputs =>
    match Node.relations? I tables db inputs with
    | some (first :: rest) =>
      if rest.all fun relation => relation.columns.length == first.columns.length then
        some ⟨first.columns, operator.combine ((first :: rest).map Relation.rows)⟩
      else none
    | _ => none
  | _ => none

/-- A query that reads from nothing reads one row without columns, and cannot select them all. -/
def Select.relation? (I : Interpretation V) (tables : List String → Fields)
    (db : List String → Bag V) : Select → Option (Relation V)
  | ⟨projection, source, selection, groupBy, having, _⟩ => do
    let frame ← Node.source? I tables db projection.isSome source
    result? I projection selection groupBy having frame

/-- The frame of a `FROM` clause. -/
def Node.frame? (I : Interpretation V) (tables : List String → Fields)
    (db : List String → Bag V) : Node → Option (Frame V)
  | .identifier parts => parts.getLast?.map fun name => ⟨(tables parts).map (name, ·), db parts⟩
  | .named expr name =>
    match expr with
    | .identifier parts => some ⟨(tables parts).map (name, ·), db parts⟩
    | query => (query.relation? I tables db).map fun relation =>
      ⟨relation.columns.map (name, ·), relation.rows⟩
  | .join ⟨left, kind, right, condition⟩ => do
    let left ← left.frame? I tables db
    let right ← right.frame? I tables db
    let columns := left.columns ++ right.columns
    let on ← condition? I columns condition
    return ⟨columns,
      left.rows.join I.null kind left.columns.length right.columns.length on right.rows⟩
  | _ => none

/-- What a query reads: one empty row where it lists constants without a `FROM` clause. -/
def Node.source? (I : Interpretation V) (tables : List String → Fields)
    (db : List String → Bag V) (listed : Bool) : Option Node → Option (Frame V)
  | none => if listed then some ⟨[], {[]}⟩ else none
  | some node => node.frame? I tables db

def Node.relations? (I : Interpretation V) (tables : List String → Fields)
    (db : List String → Bag V) : List Node → Option (List (Relation V))
  | [] => some []
  | node :: rest => do
    let relation ← node.relation? I tables db
    let relations ← Node.relations? I tables db rest
    return relation :: relations

end

end Pushdown.Sql
