import Pushdown.Json.Scalar
import Pushdown.Sql.Dialect

/-!
# The JSON form of SQL trees and dialects
-/

namespace Pushdown

/-- Every kind of join. -/
def JoinKind.all : List JoinKind := [.inner, .left, .right, .full]

/-- The name of a kind of join. -/
def JoinKind.key : JoinKind → String
  | .inner => "inner"
  | .left => "left"
  | .right => "right"
  | .full => "full"

end Pushdown

namespace Pushdown.Sql

open Json (Decoder)

/-! ## Operators and names -/

namespace Operator

/-- A scalar operator is written as in plans; an aggregate one is an object of its own. -/
def toJson : Operator → Json
  | .scalar op => op.toJson
  | .aggregate name distinct =>
    .object [("aggregate", .object [("name", .string name), ("distinct", .bool distinct)])]

/-- An operator of SQL.  The parts of an aggregate one lie a level below its name. -/
def ofJson? : Decoder Operator := fun levels j => do
  let (name, content) ← Json.alternative? levels j
  match name with
  | "aggregate" =>
    let [name, distinct] ←
      Json.required (Json.record? ["name", "distinct"] (levels - 1)) content | none
    return .aggregate (← Json.required Json.string? name) (← Json.required Json.bool? distinct)
  | name => .scalar <$> ScalarOp.ofAlternative? name content

end Operator

namespace SetOperator

/-- Every operator between queries, with and without `ALL`. -/
def all : List SetOperator := [.union, .unionAll, .intersect, .intersectAll, .except, .exceptAll]

/-- The name of a set operator, `ALL` included. -/
def key : SetOperator → String
  | .union => "union"
  | .unionAll => "union_all"
  | .intersect => "intersect"
  | .intersectAll => "intersect_all"
  | .except => "except"
  | .exceptAll => "except_all"

end SetOperator

namespace NullsOrder

/-- Both places for nulls. -/
def all : List NullsOrder := [.first, .last]

/-- The name of a place for nulls. -/
def key : NullsOrder → String
  | .first => "first"
  | .last => "last"

end NullsOrder

/-! ## Trees -/

mutual

/-- A node is written as an object of one member, named for its form. -/
def Node.toJson : Node → Json
  | .identifier parts => .object [("identifier", .ofStrings parts)]
  | .literal value => .object [("literal", value.toJson)]
  | .call operator operands =>
    .object [("call",
      .object [("operator", operator.toJson), ("operands", .array (toJsonAll operands))])]
  | .named expr name =>
    .object [("alias", .object [("expr", expr.toJson), ("alias", .string name)])]
  | .select query => .object [("select", query.toJson)]
  | .setOp operator inputs =>
    .object [("set_op",
      .object [("operator", .string operator.key), ("inputs", .array (toJsonAll inputs))])]
  | .join join => .object [("join", join.toJson)]

/-- A query is written with all its clauses; one that it does not have is null. -/
def Select.toJson : Select → Json
  | ⟨projection, source, selection, groupBy, having, orderBy⟩ =>
    .object
      [("projection", listToJson projection), ("from", optionToJson source),
       ("selection", optionToJson selection), ("group_by", listToJson groupBy),
       ("having", optionToJson having), ("order_by", orderToJson orderBy)]

/-- A join is written with both sides; without a condition, that is null. -/
def Join.toJson : Join → Json
  | ⟨left, kind, right, condition⟩ =>
    .object
      [("left", left.toJson), ("kind", .string kind.key), ("right", right.toJson),
       ("condition", optionToJson condition)]

/-- A key of an order is written with its direction and, if it has one, the place of nulls. -/
def OrderItem.toJson : OrderItem → Json
  | ⟨expr, descending, nulls⟩ =>
    .object
      [("expr", expr.toJson), ("descending", .bool descending),
       ("nulls", .ofOption (fun place => .string place.key) nulls)]

/-- The nodes of a list, each as it is written. -/
def toJsonAll : List Node → List Json
  | [] => []
  | node :: rest => node.toJson :: toJsonAll rest

/-- The keys of an order, each as it is written. -/
def orderToJsonAll : List OrderItem → List Json
  | [] => []
  | item :: rest => item.toJson :: orderToJsonAll rest

/-- A clause of one node. -/
def optionToJson : Option Node → Json
  | none => .null
  | some node => node.toJson

/-- A clause of several nodes. -/
def listToJson : Option (List Node) → Json
  | none => .null
  | some nodes => .array (toJsonAll nodes)

/-- The clause of the order. -/
def orderToJson : Option (List OrderItem) → Json
  | none => .null
  | some items => .array (orderToJsonAll items)

end

mutual

/-- A node: an object of one member, which tells the form. -/
def Node.ofJson? : Decoder Node
  | 0, _ => none
  | levels + 1, .object [(name, content)] =>
    match name with
    | "identifier" => .identifier <$> Json.list? Json.string? levels content
    | "literal" => .literal <$> Literal.ofJson? levels content
    | "call" => callOfJson? levels content
    | "alias" => namedOfJson? levels content
    | "select" => .select <$> Select.ofJson? levels content
    | "set_op" => setOpOfJson? levels content
    | "join" => .join <$> Join.ofJson? levels content
    | _ => none
  | _, _ => none

/-- What a call consists of: an operator and its operands. -/
def callOfJson? : Decoder Node
  | 0, _ => none
  | levels + 1, j => do
    let [operator, operands] ← Json.fields? ["operator", "operands"] false j | none
    return .call (← Json.required (Operator.ofJson? levels) operator)
      (← Json.required (nodesOfJson? levels) operands)

/-- What a named node consists of: the node and its name. -/
def namedOfJson? : Decoder Node
  | 0, _ => none
  | levels + 1, j => do
    let [expr, name] ← Json.fields? ["expr", "alias"] false j | none
    return .named (← Json.required (Node.ofJson? levels) expr)
      (← Json.required Json.string? name)

/-- What a set operation consists of: an operator and its inputs. -/
def setOpOfJson? : Decoder Node
  | 0, _ => none
  | levels + 1, j => do
    let [operator, inputs] ← Json.fields? ["operator", "inputs"] false j | none
    return .setOp
      (← Json.required (Json.choice? SetOperator.all SetOperator.key levels) operator)
      (← Json.required (nodesOfJson? levels) inputs)

/-- A query, each of whose clauses may be absent or null. -/
def Select.ofJson? : Decoder Select
  | 0, _ => none
  | levels + 1, j => do
    let [projection, source, selection, groupBy, having, orderBy] ←
      Json.fields? ["projection", "from", "selection", "group_by", "having", "order_by"] false j
      | none
    return {
      projection := ← Json.optional (nodesOfJson? levels) projection
      source := ← Json.optional (Node.ofJson? levels) source
      selection := ← Json.optional (Node.ofJson? levels) selection
      groupBy := ← Json.optional (nodesOfJson? levels) groupBy
      having := ← Json.optional (Node.ofJson? levels) having
      orderBy := ← Json.optional (orderItemsOfJson? levels) orderBy }

/-- A join, whose condition alone may be absent or null. -/
def Join.ofJson? : Decoder Join
  | 0, _ => none
  | levels + 1, j => do
    let [left, kind, right, condition] ←
      Json.fields? ["left", "kind", "right", "condition"] false j | none
    return {
      left := ← Json.required (Node.ofJson? levels) left
      kind := ← Json.required (Json.choice? JoinKind.all JoinKind.key levels) kind
      right := ← Json.required (Node.ofJson? levels) right
      condition := ← Json.optional (Node.ofJson? levels) condition }

/-- A key of an order, in which the place of nulls may be absent or null. -/
def OrderItem.ofJson? : Decoder OrderItem
  | 0, _ => none
  | levels + 1, j => do
    let [expr, descending, nulls] ← Json.fields? ["expr", "descending", "nulls"] false j | none
    return {
      expr := ← Json.required (Node.ofJson? levels) expr
      descending := ← Json.required Json.bool? descending
      nulls := ← Json.optional (Json.choice? NullsOrder.all NullsOrder.key levels) nulls }

/-- An array of nodes. -/
def nodesOfJson? : Decoder (List Node)
  | 0, _ => none
  | levels + 1, j => Json.items? (Node.ofJson? levels) j

/-- An array of keys of an order. -/
def orderItemsOfJson? : Decoder (List OrderItem)
  | 0, _ => none
  | levels + 1, j => Json.items? (OrderItem.ofJson? levels) j

end

@[simp] theorem toJsonAll_eq_map (nodes : List Node) :
    toJsonAll nodes = nodes.map Node.toJson := by
  induction nodes with
  | nil => simp [toJsonAll]
  | cons node rest ih => simp [toJsonAll, ih]

@[simp] theorem orderToJsonAll_eq_map (items : List OrderItem) :
    orderToJsonAll items = items.map OrderItem.toJson := by
  induction items with
  | nil => simp [orderToJsonAll]
  | cons item rest ih => simp [orderToJsonAll, ih]

namespace Statement

/-- A statement is written as its tree. -/
def toJson (s : Statement) : Json := .object [("root", s.root.toJson)]

/-- A statement: an object of its tree. -/
def ofJson? : Decoder Statement
  | 0, _ => none
  | levels + 1, j => do
    let [root] ← Json.fields? ["root"] false j | none
    return ⟨← Json.required (Node.ofJson? levels) root⟩

end Statement

/-! ## Dialects -/

namespace Product

/-- Every product with a dialect, and the unknown one. -/
def all : List Product :=
  [.ansi, .calcite, .postgres, .mySql, .mariaDb, .oracle, .sqlServer, .h2, .hsqldb, .sqlite, .db2,
   .unknown]

/-- The name of a product. -/
def key : Product → String
  | .ansi => "ansi"
  | .calcite => "calcite"
  | .postgres => "postgres"
  | .mySql => "mysql"
  | .mariaDb => "mariadb"
  | .oracle => "oracle"
  | .sqlServer => "sqlserver"
  | .h2 => "h2"
  | .hsqldb => "hsqldb"
  | .sqlite => "sqlite"
  | .db2 => "db2"
  | .unknown => "unknown"

/-- A product is written as its name. -/
def toJson (p : Product) : Json := .string p.key

/-- A product by its name. -/
def ofJson? : Decoder Product := Json.choice? all key

end Product

namespace NullOrdering

/-- Every way to place nulls. -/
def all : List NullOrdering := [.native, .isNullKey, .caseKey]

/-- The name of a way to place nulls. -/
def key : NullOrdering → String
  | .native => "native"
  | .isNullKey => "emulate_with_is_null"
  | .caseKey => "emulate_with_case"

/-- A way to place nulls is written as its name. -/
def toJson (o : NullOrdering) : Json := .string o.key

/-- A way to place nulls by its name. -/
def ofJson? : Decoder NullOrdering := Json.choice? all key

end NullOrdering

namespace QuoteStyle

/-- Every style of quoting, and none. -/
def all : List QuoteStyle := [.none, .doubleQuote, .backtick, .bracket]

/-- The name of a style of quoting. -/
def key : QuoteStyle → String
  | .none => "none"
  | .doubleQuote => "double_quote"
  | .backtick => "backtick"
  | .bracket => "bracket"

/-- A style of quoting is written as its name. -/
def toJson (s : QuoteStyle) : Json := .string s.key

/-- A style of quoting by its name. -/
def ofJson? : Decoder QuoteStyle := Json.choice? all key

end QuoteStyle

namespace Policy

/-- A policy is written as the two choices it makes. -/
def toJson (p : Policy) : Json :=
  .object
    [("null_ordering", p.nullOrdering.toJson), ("identifier_quote", p.quoteStyle.toJson)]

/-- A policy, both of whose choices are given. -/
def ofJson? : Decoder Policy
  | 0, _ => none
  | levels + 1, j => do
    let [nullOrdering, quoteStyle] ←
      Json.fields? ["null_ordering", "identifier_quote"] false j | none
    return {
      nullOrdering := ← Json.required (NullOrdering.ofJson? levels) nullOrdering
      quoteStyle := ← Json.required (QuoteStyle.ofJson? levels) quoteStyle }

end Policy

namespace Dialect

/-- A dialect is written as its product and its policy. -/
def toJson (d : Dialect) : Json :=
  .object [("product", d.product.toJson), ("policy", d.policy.toJson)]

/-- A dialect, with any policy: it need not be the one that goes with the product. -/
def ofJson? : Decoder Dialect
  | 0, _ => none
  | levels + 1, j => do
    let [product, policy] ← Json.fields? ["product", "policy"] false j | none
    return ⟨← Json.required (Product.ofJson? levels) product,
      ← Json.required (Policy.ofJson? levels) policy⟩

end Dialect

end Pushdown.Sql
