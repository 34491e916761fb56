import Pushdown.Relation.Kind
import Pushdown.Relation.Table
import Pushdown.Scalar.Program

/-!
# Plans

A plan is a tree of relational operators over tables and constant rows.  Its fields follow from
its operators: they are stated where an operator names them and computed everywhere else.
-/

namespace Pushdown

/-- The direction of a sort. -/
inductive Direction where
  | ascending
  | descending
  deriving DecidableEq

/-- Where a sort key puts nulls. -/
inductive NullPlacement where
  | unspecified
  | first
  | last
  deriving DecidableEq

/-- One key of a sort. -/
structure SortKey where
  field : Nat
  direction : Direction
  nulls : NullPlacement
  deriving DecidableEq

/-- An aggregate function over fields of the input; of no field, it counts rows. -/
structure AggregateCall where
  function : String
  distinct : Bool
  args : List Nat
  name : String
  deriving DecidableEq

/-- Ways to change a table. -/
inductive ModifyOperation where
  | insert
  | update
  | delete
  | merge
  deriving DecidableEq

/-- A plan, with what each operator says of itself. -/
inductive Plan where
  | scan (table : Table)
  | join (left right : Plan) (condition : Expr) (kind : JoinKind)
  | filter (input : Plan) (condition : Expr)
  | project (input : Plan) (projects : List Expr) (fields : Fields)
  | calculate (input : Plan) (program : Program)
  | aggregate (input : Plan) (groupSet : List Nat) (groupingSets : List (List Nat))
      (calls : List AggregateCall)
  | sort (input : Plan) (keys : List SortKey) (offset fetch : Option Expr)
  | set (kind : SetKind) (inputs : List Plan) (all : Bool)
  | values (fields : Fields) (tuples : List (List Literal))
  | modify (table : Table) (input : Plan) (operation : ModifyOperation)
      (updateColumns : Option (List String)) (flattened : Bool)

/-- The fields of an aggregate: the group columns under their names, then the calls. -/
def aggregateFields (input : Fields) (groupSet : List Nat) (calls : List AggregateCall) :
    Fields :=
  Naming.distinct
    (groupSet.map (fun column => input[column]?.getD ("$f" ++ toString column)) ++
      calls.map (·.name))

namespace Plan

instance : Inhabited Plan := ⟨.values [] []⟩

/-- An aggregate; without grouping sets, by the group set as a whole. -/
def aggregateBy (input : Plan) (groupSet : List Nat) (groupingSets : List (List Nat))
    (calls : List AggregateCall) : Plan :=
  .aggregate input groupSet (if groupingSets.isEmpty then [groupSet] else groupingSets) calls

def kind : Plan → RelKind
  | .scan .. => .tableScan
  | .join .. => .join
  | .filter .. => .filter
  | .project .. => .project
  | .calculate .. => .calculate
  | .aggregate .. => .aggregate
  | .sort .. => .sort
  | .set kind .. => .set kind
  | .values .. => .values
  | .modify .. => .tableModify

/-- The inputs, from left to right. -/
def inputs : Plan → List Plan
  | .scan _ | .values .. => []
  | .join left right .. => [left, right]
  | .filter input .. | .project input .. | .calculate input .. | .aggregate input ..
  | .sort input .. | .modify _ input .. => [input]
  | .set _ inputs _ => inputs

mutual

/-- The fields of the rows of a plan. -/
def fields : Plan → Fields
  | .scan table => table.fields
  | .join left right .. => left.fields.joined right.fields
  | .filter input _ => input.fields
  | .project _ _ fields => fields
  | .calculate _ program => program.output
  | .aggregate input groupSet _ calls => aggregateFields input.fields groupSet calls
  | .sort input .. => input.fields
  | .set _ inputs _ => firstFields inputs
  | .values fields _ => fields
  | .modify .. => .rowCount

/-- The fields of the first plan, or none. -/
def firstFields : List Plan → Fields
  | [] => []
  | input :: _ => input.fields

end

end Plan

end Pushdown
