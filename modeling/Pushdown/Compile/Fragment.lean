import Pushdown.Compile.Clause
import Pushdown.Compile.Scope

/-!
# Fragments

A fragment is the SQL for a part of a plan, together with what is needed to build on it: the
clauses it has used, the row sources it reads from, and the names of its fields.  It can serve as
a row source of another query, as a query to be extended, or as a statement.

An operator starts a `Draft` on the fragment of its input.  If the clauses that it needs are still
free the draft extends the fragment's query; otherwise it wraps the fragment as a derived table.
-/

namespace Pushdown

open Sql (Node Select OrderItem)

/-! ## Select lists -/

/-- An item of a select list, named as the field in its position unless it has that name. -/
def selectItem (fields : Fields) (position : Nat) (node : Node) : Node :=
  match fields[position]? with
  | some name => if node.outputName? = some name then node else .named node name
  | none => node

/-- The select list of the nodes under the names of the fields. -/
def selectList (fields : Fields) (nodes : List Node) : List Node :=
  nodes.mapIdx (selectItem fields)

/-- The query with its star written out, where the columns of the sources would not give the
names of the fields. -/
def expandStar (query : Select) (sources : List Source) (fields : Fields) : Select :=
  let columns := sources.flatMap (·.fields)
  if query.projection.isSome ∨ columns.length ≠ fields.length ∨ columns = fields then query
  else
    let scope := Scope.ofSources sources
    { query with
      projection := some (selectList fields ((List.range fields.length).filterMap scope.field?)) }

/-! ## Names -/

/-- Takes a name from those of the statement. -/
def reserveName (name : String) : StateM Aliases String := fun names => names.reserve name

/-- The chosen name if there is one, else one made from `base`. -/
def nameOr (chosen : Option String) (base : String) : StateM Aliases String :=
  match chosen with
  | some name => pure name
  | none => reserveName base

/-! ## Fragments -/

/-- The SQL for a part of a plan. -/
structure Fragment where
  node : Node
  clauses : ClauseSet
  sources : List Source
  fields : Fields
  /-- The name for it as a row source, where it has been chosen already. -/
  chosen : Option String := none

namespace Fragment

/-- The fragment under a name as a row source. -/
def derived (f : Fragment) (node : Node) : StateM Aliases (Node × List Source) := do
  let name ← nameOr f.chosen "t"
  return (.named node name, [⟨name, f.fields⟩])

/-- The fragment as an item of a `FROM` clause, with the sources that it offers. -/
def toSource (f : Fragment) : StateM Aliases (Node × List Source) :=
  match f.node with
  | .identifier parts => do
    let name ← nameOr f.chosen (parts.getLast?.getD "t")
    let node := .identifier parts
    return (if parts.getLast? = some name then node else .named node name, [⟨name, f.fields⟩])
  | .join join => return (.join join, f.sources)
  | .select query => f.derived (.select (expandStar query f.sources f.fields))
  | node => f.derived node

/-- The fragment as a query that can be extended, with its sources. -/
def toSelect (f : Fragment) : StateM Aliases (Select × List Source) :=
  match f.node with
  | .select query => return (query, f.sources)
  | _ => do
    let (source, sources) ← f.toSource
    return (.starFrom source, sources)

/-- The fragment as a complete query. -/
def toQuery (f : Fragment) : StateM Aliases Node := do
  let (query, sources) ← f.toSelect
  return .select (expandStar query sources f.fields)

/-- The fragment as the root of a statement. -/
def toStatement (f : Fragment) : StateM Aliases Node :=
  match f.node with
  | .setOp operator inputs => return .setOp operator inputs
  | _ => f.toQuery

end Fragment

/-! ## Drafts -/

/-- A query that an operator is writing. -/
structure Draft where
  query : Select
  clauses : ClauseSet
  sources : List Source
  scope : Scope

namespace Draft

/-- The finished query as a fragment with the given fields. -/
def finish (d : Draft) (fields : Fields) : Fragment :=
  { node := .select d.query, clauses := d.clauses, sources := d.sources, fields }

/-- The draft with this select list in place of its own. -/
def withProjection (d : Draft) (items : List Node) : Draft :=
  { d with query := { d.query with projection := some items } }

/-- The draft with this condition in place of any that it had. -/
def withSelection (d : Draft) (condition : Node) : Draft :=
  { d with query := { d.query with selection := some condition } }

/-- The draft grouped by these keys. -/
def withGroupBy (d : Draft) (keys : List Node) : Draft :=
  { d with query := { d.query with groupBy := some keys } }

/-- The draft ordered by these items. -/
def withOrderBy (d : Draft) (items : List OrderItem) : Draft :=
  { d with query := { d.query with orderBy := some items } }

end Draft

namespace Fragment

/-- A new query over the fragment as a derived table. -/
def wrap (f : Fragment) (requested : List Clause) : StateM Aliases Draft := do
  let (source, sources) ← f.toSource
  return {
    query := .starFrom source
    clauses := (ClauseSet.ofList [.source]).insertAll requested
    sources
    scope := .ofSources sources }

/-- The fragment's own query, with the requested clauses taken. -/
def extend (f : Fragment) (requested : List Clause) : StateM Aliases Draft := do
  let (query, sources) ← f.toSelect
  return {
    query
    clauses := f.clauses.insertAll requested
    sources
    scope :=
      match query.projection with
      | some items => .ofItems items
      | none => .ofSources sources }

/-- A draft that can take the requested clauses. -/
def draft (f : Fragment) (requested : List Clause) : StateM Aliases Draft :=
  if f.clauses.needsWrap requested then f.wrap requested else f.extend requested

/-- Whether the field is a constant of the select list. -/
def isConstant (f : Fragment) (ordinal : Nat) : Bool :=
  match f.node with
  | .select query =>
    match (query.projection.getD [])[ordinal]? with
    | some item => item.unnamed.isLiteral
    | none => false
  | _ => false

/-- A draft for a clause that repeats the fields at `keys`.  A constant cannot be repeated there,
as `GROUP BY 1` and `ORDER BY 1` name a column by its position, so it forces a new query. -/
def draftForKeys (f : Fragment) (requested : List Clause) (keys : List Nat) :
    StateM Aliases Draft :=
  if keys.any f.isConstant then f.wrap requested else f.draft requested

end Fragment

end Pushdown
