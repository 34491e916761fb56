import Pushdown.Literal
import Pushdown.Operator

/-!
# SQL syntax trees

One tree type covers expressions, row sources and queries, as a statement may hold any of them
at its root.  `Select` has a slot for each clause; an empty slot means that the clause is absent,
and an absent projection stands for `*`.
-/

namespace Pushdown.Sql

/-- Operators of a SQL call. -/
inductive Operator where
  | scalar (op : ScalarOp)
  | aggregate (name : String) (distinct : Bool)
  deriving DecidableEq

namespace Operator

/-- How tightly the operator binds; an aggregate is written as a call. -/
def precedence : Operator → Nat
  | .scalar op => op.precedence
  | .aggregate _ _ => 255

/-- The symbol between the operands, where the operator has one. -/
def infixSymbol? : Operator → Option String
  | .scalar op => op.infixSymbol?
  | .aggregate _ _ => none

end Operator

/-- Operators between queries. -/
inductive SetOperator where
  | union
  | unionAll
  | intersect
  | intersectAll
  | except
  | exceptAll
  deriving DecidableEq

/-- Where nulls go in an ordering. -/
inductive NullsOrder where
  | first
  | last
  deriving DecidableEq

mutual

/-- A SQL syntax tree. -/
inductive Node where
  | identifier (parts : List String)
  | literal (value : Literal)
  | call (operator : Operator) (operands : List Node)
  | named (expr : Node) (name : String)
  | select (query : Select)
  | setOp (operator : SetOperator) (inputs : List Node)
  | join (join : Join)

/-- A `SELECT` with its clauses. -/
structure Select where
  projection : Option (List Node) := none
  source : Option Node := none
  selection : Option Node := none
  groupBy : Option (List Node) := none
  having : Option Node := none
  orderBy : Option (List OrderItem) := none

/-- A join of two row sources; without a condition it is a cross join. -/
structure Join where
  left : Node
  kind : JoinKind
  right : Node
  condition : Option Node

/-- A key of an `ORDER BY` clause. -/
structure OrderItem where
  expr : Node
  descending : Bool
  nulls : Option NullsOrder

end

instance : Inhabited Node := ⟨.identifier []⟩

/-- The query `SELECT * FROM source`. -/
def Select.starFrom (source : Node) : Select := { source := some source }

/-- The query that selects `items` from nothing. -/
def Select.row (items : List Node) : Select := { projection := some items }

namespace Node

/-- A call of an operator on scalars. -/
def scalarCall (op : ScalarOp) (operands : List Node) : Node := .call (.scalar op) operands

/-- The conjunction of the nodes, nested to the left; `none` for no node. -/
def conjunction? : List Node → Option Node
  | [] => none
  | first :: rest => some (rest.foldl (fun left right => scalarCall .and [left, right]) first)

/-- The name under which a select item appears when nothing else is said. -/
def outputName? : Node → Option String
  | .identifier parts => parts.getLast?
  | .named _ name => some name
  | _ => none

/-- The node without the name given to it, if any; one layer only. -/
def unnamed : Node → Node
  | .named expr _ => expr
  | node => node

/-- Whether the node is a query and needs brackets where a row source is expected. -/
def isQuery : Node → Bool
  | .select _ | .setOp _ _ => true
  | _ => false

def isLiteral : Node → Bool
  | .literal _ => true
  | _ => false

/-- Whether the text of the node opens with a minus sign when it has no brackets. -/
def opensWithMinus : Node → Bool
  | .literal value => value.opensWithMinus
  | .call (.scalar .negate) _ => true
  | _ => false

end Node

/-- A whole statement. -/
structure Statement where
  root : Node

end Pushdown.Sql
