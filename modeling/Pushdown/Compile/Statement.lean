import Pushdown.Compile.Fragment
import Pushdown.Relation.RemotePlan
import Pushdown.Sql.Printer

/-!
# Statements of remote plans

A remote plan is compiled from the leaves up: each operator turns the fragments of its inputs
into its own.  Names of row sources are distinct over a whole statement; those handed out stay
taken, also by a compilation that fails.
-/

namespace Pushdown

open Sql (Node Select)

/-- Compilation: it may fail, and it takes names. -/
abbrev CompileM := ExceptT Error (StateM Aliases)

/-- The SQL operator of a set operation. -/
def SetKind.toSql (kind : SetKind) (all : Bool) : Sql.SetOperator :=
  match kind, all with
  | .union, true => .unionAll
  | .union, false => .union
  | .intersect, true => .intersectAll
  | .intersect, false => .intersect
  | .minus, true => .exceptAll
  | .minus, false => .except

namespace Fragment

/-- A table under a name of its own. -/
def scan (table : Table) (fields : Fields) : CompileM Fragment := do
  let name ← reserveName table.baseName
  return {
    node := .identifier table.name
    clauses := .ofList [.source]
    sources := [⟨name, fields⟩]
    fields
    chosen := some name }

/-- Two row sources joined where the key fields are equal. -/
def join (fields : Fields) (kind : JoinKind) (keys : List (Nat × Nat)) (left right : Fragment) :
    CompileM Fragment := do
  let (leftNode, leftSources) ← left.toSource
  let (rightNode, rightSources) ← right.toSource
  let equalities ←
    Scope.equalities (.ofColumns leftSources true) (.ofColumns rightSources true) keys
  return {
    node := .join ⟨leftNode, kind, rightNode, Node.conjunction? equalities⟩
    clauses := .ofList [.source]
    sources := leftSources ++ rightSources
    fields }

/-- The rows that satisfy a condition. -/
def filter (fields : Fields) (condition : Expr) (input : Fragment) : CompileM Fragment := do
  let draft ← input.draft [.selection]
  return (draft.withSelection (← draft.scope.expression condition)).finish fields

/-- The rows of expressions over the input. -/
def project (fields : Fields) (projects : List Expr) (input : Fragment) : CompileM Fragment := do
  let draft ← input.draft [.select]
  let items ← draft.scope.expressions projects
  return (draft.withProjection (selectList fields items)).finish fields

/-- The rows that a program computes.  One that returns its input row keeps the select list. -/
def calculate (fields : Fields) (program : Program) (input : Fragment) : CompileM Fragment := do
  let draft ← input.draft (if program.condition.isSome then [.source, .selection] else [.source])
  let draft ←
    if program.isStar then pure draft
    else do
      let items ← draft.scope.expressions (← program.projectExprs)
      pure (draft.withProjection (selectList fields items))
  match ← program.conditionExpr with
  | none => return draft.finish fields
  | some condition =>
    return (draft.withSelection (← draft.scope.expression condition)).finish fields

/-- One row per group.  An aggregate call alone makes a query one group, so that an empty
`GROUP BY` is only written where there is none. -/
def aggregate (fields : Fields) (groupSet : List Nat) (calls : List AggregateCall)
    (input : Fragment) : CompileM Fragment := do
  let draft ← input.draftForKeys [.groupBy] groupSet
  let groups ← draft.scope.fields groupSet
  let aggregates ← draft.scope.aggregates calls
  let draft := draft.withProjection (selectList fields (groups ++ aggregates))
  return (if groups.isEmpty && !calls.isEmpty then draft
    else draft.withGroupBy groups).finish fields

/-- The rows in order. -/
def sort (dialect : Sql.Dialect) (fields : Fields) (keys : List SortKey) (input : Fragment) :
    CompileM Fragment := do
  let draft ← input.draftForKeys [.orderBy] (keys.map (·.field))
  let items ← draft.scope.ordering dialect keys
  return (draft.withOrderBy items).finish fields

/-- Queries combined by a set operation. -/
def ofQueries (fields : Fields) (operator : Sql.SetOperator) (queries : List Node) : Fragment :=
  { node := .setOp operator queries, clauses := .ofList [.setOp], sources := [], fields }

/-- The query for one constant row. -/
def tupleQuery (fields : Fields) (tuple : List Literal) : Node :=
  .select (.row (List.zipWith (fun literal name => Node.named (.literal literal) name)
    tuple fields))

/-- Constant rows: a query for each, all put together. -/
def values (fields : Fields) (tuples : List (List Literal)) : CompileM Fragment :=
  match tuples.map (tupleQuery fields) with
  | [] => throw .emptyValues
  | [query] => return { node := query, clauses := .ofList [.select], sources := [], fields }
  | queries => return ofQueries fields .unionAll queries

end Fragment

namespace RemotePlan

mutual

/-- The fragment of a remote plan.  A projection or a program that returns its input as it is
leaves no trace. -/
def compile (dialect : Sql.Dialect) : RemotePlan → CompileM Fragment
  | ⟨_, fields, op⟩ =>
    match op with
    | .scan table => Fragment.scan table fields
    | .join left right _ kind keys => do
      let left ← left.compile dialect
      let right ← right.compile dialect
      Fragment.join fields kind keys left right
    | .filter input condition => do
      Fragment.filter fields condition (← input.compile dialect)
    | .project input projects => do
      let child ← input.compile dialect
      if Expr.isIdentity projects input.fields.length && fields == input.fields then return child
      else Fragment.project fields projects child
    | .calculate input program => do
      let child ← input.compile dialect
      if program.isStar && program.condition.isNone then return child
      else Fragment.calculate fields program child
    | .aggregate input groupSet _ calls => do
      Fragment.aggregate fields groupSet calls (← input.compile dialect)
    | .sort input keys => do
      Fragment.sort dialect fields keys (← input.compile dialect)
    | .set kind inputs all => do
      return Fragment.ofQueries fields (kind.toSql all) (← compileAll dialect inputs)
    | .values tuples => Fragment.values fields tuples
    | .modify .. => throw (.unsupportedStatement .tableModify)

/-- The queries of remote plans, from left to right. -/
def compileAll (dialect : Sql.Dialect) : List RemotePlan → CompileM (List Node)
  | [] => return []
  | plan :: rest => do
    let query ← (← plan.compile dialect).toQuery
    return query :: (← compileAll dialect rest)

end

/-- The statement of a remote plan, as one of several that share their names. -/
def compileWith (dialect : Sql.Dialect) (p : RemotePlan) : CompileM Sql.Statement := do
  return ⟨← (← p.compile dialect).toStatement⟩

/-- The statement of a remote plan in the dialect of its convention. -/
def toSql (p : RemotePlan) : Except Error Sql.Statement :=
  ((p.compileWith p.convention.dialect).run.run {}).1

end RemotePlan

end Pushdown
