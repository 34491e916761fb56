import Pushdown.Relation.Plan
import Pushdown.Text.UpperCase

/-!
# Scopes

A scope tells what the fields of an operator's input are in the query being written: columns of
the row sources of its `FROM` clause, or items of its select list.  Expressions, aggregate calls
and sort keys of a plan become SQL within a scope.
-/

namespace Pushdown

open Sql (Node OrderItem NullsOrder)

/-- A row source of a `FROM` clause: its name and its columns. -/
structure Source where
  name : String
  fields : Fields
  deriving DecidableEq

/-- What the fields of an input are in the query being written. -/
inductive Scope where
  /-- Columns of the sources, one source after the other, with the source's name if qualified. -/
  | ofColumns (sources : List Source) (qualified : Bool)
  /-- Items of the select list. -/
  | ofItems (items : List Node)

/-- The SQL operator for an operator of a plan. -/
def PlanOp.toSql : PlanOp → Sql.Operator
  | .scalar op => .scalar op
  | .multiset op => .scalar (.function op.functionName)

/-- Where a sort key puts nulls, if it says so. -/
def NullPlacement.toSql : NullPlacement → Option NullsOrder
  | .unspecified => none
  | .first => some .first
  | .last => some .last

namespace Scope

/-- The scope of some sources; names need the source's only if there are several. -/
def ofSources (sources : List Source) : Scope := .ofColumns sources (decide (1 < sources.length))

/-- The number of fields in scope. -/
def width : Scope → Nat
  | .ofColumns sources _ => (sources.flatMap (·.fields)).length
  | .ofItems items => items.length

/-- The column at a position of the sources laid end to end. -/
def column? (qualified : Bool) : List Source → Nat → Option Node
  | [], _ => none
  | source :: rest, offset =>
    match source.fields[offset]? with
    | some name => some (.identifier (if qualified then [source.name, name] else [name]))
    | none => column? qualified rest (offset - source.fields.length)

/-- The field at a position, if there is one. -/
def field? : Scope → Nat → Option Node
  | .ofColumns sources qualified, ordinal => column? qualified sources ordinal
  | .ofItems items, ordinal => items[ordinal]?.map Node.unnamed

/-- The field at a position. -/
def field (scope : Scope) (ordinal : Nat) : Except Error Node :=
  match scope.field? ordinal with
  | some node => .ok node
  | none => .error (.fieldOutOfRange ordinal scope.width)

mutual

/-- An expression over the fields in scope.  References to shared expressions have to be expanded
before. -/
def expression (scope : Scope) : Expr → Except Error Node
  | .literal value => .ok (.literal value)
  | .input ordinal => scope.field ordinal
  | .shared index => .error (.unknownShared index)
  | .call op operands => do return .call op.toSql (← scope.expressions operands)

def expressions (scope : Scope) : List Expr → Except Error (List Node)
  | [] => .ok []
  | e :: rest => do return (← scope.expression e) :: (← scope.expressions rest)

end

/-- An expression of a program over the fields in scope. -/
def expressionIn (scope : Scope) (program : Program) (e : Expr) : Except Error Node := do
  scope.expression (← program.expand e)

/-- The fields at the given positions. -/
def fields (scope : Scope) (ordinals : List Nat) : Except Error (List Node) :=
  ordinals.mapM scope.field

/-- An aggregate call over the fields in scope; function names are written in upper case. -/
def aggregate (scope : Scope) (call : AggregateCall) : Except Error Node := do
  return .call (.aggregate (Text.upper call.function) call.distinct) (← scope.fields call.args)

/-- The aggregate calls over the fields in scope, or the first error among them. -/
def aggregates (scope : Scope) (calls : List AggregateCall) : Except Error (List Node) :=
  calls.mapM scope.aggregate

/-- The `ORDER BY` items of a sort key in a dialect. -/
def orderItems (scope : Scope) (dialect : Sql.Dialect) (key : SortKey) :
    Except Error (List OrderItem) := do
  return dialect.orderItems (← scope.field key.field) (key.direction == .descending)
    key.nulls.toSql

/-- The `ORDER BY` items of the keys of a sort. -/
def ordering (scope : Scope) (dialect : Sql.Dialect) (keys : List SortKey) :
    Except Error (List OrderItem) := do
  return (← keys.mapM (scope.orderItems dialect)).flatten

/-- The equality of a field in one scope with a field in another. -/
def equality (left right : Scope) (key : Nat × Nat) : Except Error Node := do
  return .scalarCall .eq [← left.field key.1, ← right.field key.2]

/-- The equalities of the keys of a join, one for each pair. -/
def equalities (left right : Scope) (keys : List (Nat × Nat)) : Except Error (List Node) :=
  keys.mapM (equality left right)

@[simp] theorem expressions_eq_mapM (scope : Scope) (es : List Expr) :
    scope.expressions es = es.mapM scope.expression := by
  induction es with
  | nil => simp [expressions]; rfl
  | cons e rest ih => simp [expressions, ih]

end Scope

end Pushdown
