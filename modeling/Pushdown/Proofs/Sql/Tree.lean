import Pushdown.Sql.Node

/-!
# SQL trees: their nodes, their queries and the names in them

* `Node.parts` holds every node of a tree once, the root first, and `Node.selects` the `SELECT`s
  among them.  A property of all nodes is one of the root and of the trees right below it
  (`Node.forall_parts_iff`).
* `Node.fromItems` are the items of a `FROM` clause, with joins opened, and `Node.onConditions`
  the conditions of those joins.
* `Node.columnRefs` are the column identifiers of an expression.
* `Node.rowColumns` are the columns of a row source, given those of the tables: a derived table
  has the output names of its query.
-/

namespace Pushdown.Sql

mutual

/-- The nodes of a tree, the root first. -/
def Node.parts : Node → List Node
  | .identifier parts => [.identifier parts]
  | .literal value => [.literal value]
  | .call operator operands => .call operator operands :: Node.partsAll operands
  | .named expr name => .named expr name :: expr.parts
  | .select query => .select query :: query.parts
  | .setOp operator inputs => .setOp operator inputs :: Node.partsAll inputs
  | .join join => .join join :: join.parts

/-- The nodes below a `SELECT`, clause by clause. -/
def Select.parts : Select → List Node
  | ⟨projection, source, selection, groupBy, having, orderBy⟩ =>
    Node.partsAll? projection ++ Node.parts? source ++ Node.parts? selection ++
      Node.partsAll? groupBy ++ Node.parts? having ++ OrderItem.partsAll? orderBy

def Join.parts : Join → List Node
  | ⟨left, _, right, condition⟩ => left.parts ++ right.parts ++ Node.parts? condition

def OrderItem.parts : OrderItem → List Node
  | ⟨expr, _, _⟩ => expr.parts

def Node.partsAll : List Node → List Node
  | [] => []
  | node :: rest => node.parts ++ Node.partsAll rest

def Node.parts? : Option Node → List Node
  | none => []
  | some node => node.parts

def Node.partsAll? : Option (List Node) → List Node
  | none => []
  | some nodes => Node.partsAll nodes

def OrderItem.partsAll : List OrderItem → List Node
  | [] => []
  | item :: rest => item.parts ++ OrderItem.partsAll rest

def OrderItem.partsAll? : Option (List OrderItem) → List Node
  | none => []
  | some items => OrderItem.partsAll items

end

/-- The query of a node that is a `SELECT`. -/
def Node.query? : Node → Option Select
  | .select query => some query
  | _ => none

/-- The `SELECT`s of a tree. -/
def Node.selects (node : Node) : List Select := node.parts.filterMap Node.query?

mutual

/-- The column identifiers of an expression. -/
def Node.columnRefs : Node → List (List String)
  | .identifier parts => [parts]
  | .call _ operands => Node.columnRefsAll operands
  | .named expr _ => expr.columnRefs
  | _ => []

def Node.columnRefsAll : List Node → List (List String)
  | [] => []
  | node :: rest => node.columnRefs ++ Node.columnRefsAll rest

end

/-- The items of a `FROM` clause. -/
def Node.fromItems : Node → List Node
  | .join ⟨left, _, right, _⟩ => left.fromItems ++ right.fromItems
  | node => [node]

/-- The conditions of the joins of a `FROM` clause. -/
def Node.onConditions : Node → List Node
  | .join ⟨left, _, right, condition⟩ =>
    left.onConditions ++ right.onConditions ++ condition.toList
  | _ => []

mutual

/-- The columns of a row source. -/
def Node.rowColumns (tables : List String → List String) : Node → List String
  | .identifier parts => tables parts
  | .named expr _ =>
    match expr with
    | .identifier parts => tables parts
    | query => query.outputNames tables
  | .join ⟨left, _, right, _⟩ => left.rowColumns tables ++ right.rowColumns tables
  | _ => []

/-- The names of the columns that a query returns. -/
def Node.outputNames (tables : List String → List String) : Node → List String
  | .select query => query.outputNames tables
  | .setOp _ inputs => Node.firstNames tables inputs
  | _ => []

/-- The names in the select list, or those of the row source for a star. -/
def Select.outputNames (tables : List String → List String) : Select → List String
  | ⟨projection, source, _, _, _, _⟩ =>
    match projection with
    | some items => items.filterMap Node.outputName?
    | none => Node.rowColumns? tables source

/-- The names that the first of the queries of a set operation gives. -/
def Node.firstNames (tables : List String → List String) : List Node → List String
  | [] => []
  | query :: _ => query.outputNames tables

def Node.rowColumns? (tables : List String → List String) : Option Node → List String
  | none => []
  | some source => source.rowColumns tables

end

/-- Induction over an expression; a node of another kind stands for itself. -/
theorem Node.expression_induction {motive : Node → Prop}
    (identifier : ∀ parts, motive (.identifier parts))
    (literal : ∀ value, motive (.literal value))
    (call : ∀ operator operands, (∀ operand ∈ operands, motive operand) →
      motive (.call operator operands))
    (named : ∀ expr name, motive (.named expr name)) (select : ∀ query, motive (.select query))
    (setOp : ∀ operator inputs, motive (.setOp operator inputs))
    (join : ∀ join, motive (.join join)) (node : Node) : motive node :=
  @Node.rec motive (fun _ => True) (fun _ => True) (fun _ => True)
    (fun nodes => ∀ node ∈ nodes, motive node) (fun _ => True) (fun _ => True) (fun _ => True)
    (fun _ => True) identifier literal call (fun expr name _ => named expr name)
    (fun query _ => select query) (fun operator inputs _ => setOp operator inputs)
    (fun own _ => join own) (fun _ _ _ _ _ _ _ _ _ _ _ _ => trivial)
    (fun _ _ _ _ _ _ _ => trivial) (fun _ _ _ _ => trivial) (fun _ member => nomatch member)
    (fun _ _ head tail => List.forall_mem_cons.mpr ⟨head, tail⟩) trivial (fun _ _ => trivial)
    trivial (fun _ _ => trivial) trivial (fun _ _ => trivial) trivial
    (fun _ _ _ _ => trivial) node

/-! ## The list helpers are the list functions -/

section Helpers

attribute [local simp] Node.parts OrderItem.parts Node.partsAll Node.parts? Node.partsAll?
  OrderItem.partsAll OrderItem.partsAll? Node.columnRefsAll Node.rowColumns?

@[simp] theorem Node.partsAll_eq_flatMap (nodes : List Node) :
    Node.partsAll nodes = nodes.flatMap Node.parts := by
  induction nodes with
  | nil => simp
  | cons node rest ih => simp [ih]

@[simp] theorem Node.parts?_eq_flatMap (node : Option Node) :
    Node.parts? node = node.toList.flatMap Node.parts := by
  cases node <;> simp

@[simp] theorem Node.partsAll?_eq_flatMap (nodes : Option (List Node)) :
    Node.partsAll? nodes = (nodes.getD []).flatMap Node.parts := by
  cases nodes <;> simp

@[simp] theorem OrderItem.partsAll_eq_flatMap (items : List OrderItem) :
    OrderItem.partsAll items = (items.map OrderItem.expr).flatMap Node.parts := by
  induction items with
  | nil => simp
  | cons item rest ih =>
    rcases item with ⟨expr, descending, nulls⟩
    simp [ih]

@[simp] theorem OrderItem.partsAll?_eq_flatMap (items : Option (List OrderItem)) :
    OrderItem.partsAll? items = ((items.getD []).map OrderItem.expr).flatMap Node.parts := by
  cases items <;> simp

@[simp] theorem Node.columnRefsAll_eq_flatMap (nodes : List Node) :
    Node.columnRefsAll nodes = nodes.flatMap Node.columnRefs := by
  induction nodes with
  | nil => simp
  | cons node rest ih => simp [ih]

@[simp] theorem Node.rowColumns?_eq (tables : List String → List String) (source : Option Node) :
    Node.rowColumns? tables source = (source.map (Node.rowColumns tables)).getD [] := by
  cases source <;> simp

end Helpers

namespace Select

/-- The items of the `FROM` clause. -/
def fromItems (query : Select) : List Node := (query.source.map Node.fromItems).getD []

/-- The expressions of the query's own clauses. -/
def ownExpressions (query : Select) : List Node :=
  query.projection.getD [] ++ query.selection.toList ++ query.groupBy.getD [] ++
    query.having.toList ++ (query.orderBy.getD []).map OrderItem.expr

/-- A property of the query's own expressions is one of each clause. -/
theorem forall_ownExpressions_iff {P : Node → Prop} {query : Select} :
    (∀ e ∈ query.ownExpressions, P e) ↔
      (∀ e ∈ query.projection.getD [], P e) ∧ (∀ e ∈ query.selection, P e) ∧
      (∀ e ∈ query.groupBy.getD [], P e) ∧ (∀ e ∈ query.having, P e) ∧
      ∀ item ∈ query.orderBy.getD [], P item.expr := by
  simp only [ownExpressions, List.forall_mem_append, List.forall_mem_map, Option.mem_toList,
    Option.mem_def, and_assoc]

section Clauses

variable {P : Node → Prop} {query : Select}

theorem forall_withProjection (each : ∀ e ∈ query.ownExpressions, P e) {items : List Node}
    (listed : ∀ item ∈ items, P item) :
    ∀ e ∈ ({ query with projection := some items } : Select).ownExpressions, P e := by
  rcases forall_ownExpressions_iff.mp each with ⟨_, condition, groups, having, order⟩
  exact forall_ownExpressions_iff.mpr ⟨listed, condition, groups, having, order⟩

theorem forall_withSelection (each : ∀ e ∈ query.ownExpressions, P e) {condition : Node}
    (holds : P condition) :
    ∀ e ∈ ({ query with selection := some condition } : Select).ownExpressions, P e := by
  rcases forall_ownExpressions_iff.mp each with ⟨items, _, groups, having, order⟩
  refine forall_ownExpressions_iff.mpr ⟨items, ?_, groups, having, order⟩
  intro e present
  cases present
  exact holds

theorem forall_withGroupBy (each : ∀ e ∈ query.ownExpressions, P e) {keys : List Node}
    (hold : ∀ key ∈ keys, P key) :
    ∀ e ∈ ({ query with groupBy := some keys } : Select).ownExpressions, P e := by
  rcases forall_ownExpressions_iff.mp each with ⟨items, condition, _, having, order⟩
  exact forall_ownExpressions_iff.mpr ⟨items, condition, hold, having, order⟩

theorem forall_withOrderBy (each : ∀ e ∈ query.ownExpressions, P e) {items : List OrderItem}
    (hold : ∀ item ∈ items, P item.expr) :
    ∀ e ∈ ({ query with orderBy := some items } : Select).ownExpressions, P e := by
  rcases forall_ownExpressions_iff.mp each with ⟨listed, condition, groups, having, _⟩
  exact forall_ownExpressions_iff.mpr ⟨listed, condition, groups, having, hold⟩

theorem forall_starFrom (source : Node) : ∀ e ∈ (starFrom source).ownExpressions, P e := by
  simp [starFrom, ownExpressions]

end Clauses

/-- The expressions of the query's clauses, those of its joins included. -/
def expressions (query : Select) : List Node :=
  query.ownExpressions ++ (query.source.map Node.onConditions).getD []

/-- The column identifiers of the query's clauses. -/
def columnRefs (query : Select) : List (List String) := query.expressions.flatMap Node.columnRefs

end Select

/-! ## Trees by their children -/

/-- The nodes right below a node. -/
def Node.children : Node → List Node
  | .identifier _ | .literal _ => []
  | .call _ operands => operands
  | .named expr _ => [expr]
  | .select query => query.source.toList ++ query.ownExpressions
  | .setOp _ inputs => inputs
  | .join ⟨left, _, right, condition⟩ => left :: right :: condition.toList

/-- Induction over a tree by its children, whatever its kind. -/
theorem Node.children_induction {motive : Node → Prop}
    (step : ∀ node : Node, (∀ child ∈ node.children, motive child) → motive node) (node : Node) :
    motive node :=
  -- A clause stands for the trees in it; a slot without one stands for none.
  @Node.rec motive (fun query => ∀ child ∈ (Node.select query).children, motive child)
    (fun join => ∀ child ∈ (Node.join join).children, motive child) (fun item => motive item.expr)
    (fun nodes => ∀ node ∈ nodes, motive node)
    (fun clause => ∀ node ∈ clause.getD [], motive node)
    (fun slot => ∀ node ∈ slot.toList, motive node)
    (fun clause => ∀ item ∈ clause.getD [], motive (OrderItem.expr item))
    (fun items => ∀ item ∈ items, motive (OrderItem.expr item))
    (fun parts => step (.identifier parts) (by simp [children]))
    (fun value => step (.literal value) (by simp [children]))
    (fun operator operands each => step (.call operator operands) each)
    (fun expr name own => step (.named expr name) (List.forall_mem_singleton.mpr own))
    (fun query below => step (.select query) below)
    (fun operator inputs each => step (.setOp operator inputs) each)
    (fun join below => step (.join join) below)
    (fun _ _ _ _ _ _ items source condition groups having order => by
      simp only [children, Select.ownExpressions, List.forall_mem_append, List.forall_mem_map,
        and_assoc]
      exact ⟨source, items, condition, groups, having, order⟩)
    (fun _ _ _ _ left right condition =>
      List.forall_mem_cons.mpr ⟨left, List.forall_mem_cons.mpr ⟨right, condition⟩⟩)
    (fun _ _ _ own => own) (by simp) (fun _ _ head tail => List.forall_mem_cons.mpr ⟨head, tail⟩)
    (by simp) (fun _ each => each) (by simp) (fun _ own => List.forall_mem_singleton.mpr own)
    (by simp) (fun _ each => each) (by simp)
    (fun _ _ head tail => List.forall_mem_cons.mpr ⟨head, tail⟩) node

/-- The nodes of a tree are its root and the nodes of its children. -/
theorem Node.parts_perm (node : Node) :
    node.parts.Perm (node :: node.children.flatMap Node.parts) := by
  cases node with
  | select query =>
    rw [Node.parts]
    refine List.Perm.cons _ ?_
    rcases query with ⟨projection, source, selection, groupBy, having, orderBy⟩
    simp only [Select.parts, Node.partsAll?_eq_flatMap, Node.parts?_eq_flatMap,
      OrderItem.partsAll?_eq_flatMap, children, Select.ownExpressions, List.flatMap_append,
      List.append_assoc]
    exact List.perm_append_comm_assoc _ _ _
  | join join =>
    rcases join with ⟨left, kind, right, condition⟩
    simp [Node.parts, Join.parts, children]
  | _ => simp [Node.parts, children]

/-- A property of all nodes holds of the root and of all nodes of each child. -/
theorem Node.forall_parts_iff {P : Node → Prop} (node : Node) :
    (∀ part ∈ node.parts, P part) ↔
      P node ∧ ∀ child ∈ node.children, ∀ part ∈ child.parts, P part := by
  simp only [node.parts_perm.mem_iff, List.forall_mem_cons, List.mem_flatMap]
  constructor
  · rintro ⟨root, below⟩
    exact ⟨root, fun child member part mem => below part ⟨child, member, mem⟩⟩
  · rintro ⟨root, below⟩
    exact ⟨root, fun part ⟨child, member, mem⟩ => below child member part mem⟩

/-! ## Queries of a tree -/

section Selects

theorem Node.mem_selects_iff {node : Node} {query : Select} :
    query ∈ node.selects ↔ .select query ∈ node.parts := by
  rw [selects, List.mem_filterMap]
  constructor
  · rintro ⟨part, member, own⟩
    cases part with
    | select other => cases own; exact member
    | _ => cases own
  · intro member
    exact ⟨.select query, member, rfl⟩

@[simp] theorem Node.selects_identifier (parts : List String) :
    (Node.identifier parts).selects = [] := by
  simp [selects, Node.parts, query?]

@[simp] theorem Node.selects_literal (value : Literal) : (Node.literal value).selects = [] := by
  simp [selects, Node.parts, query?]

@[simp] theorem Node.selects_call (operator : Operator) (operands : List Node) :
    (Node.call operator operands).selects = operands.flatMap selects := by
  rw [selects, Node.parts, List.filterMap_cons_none rfl, Node.partsAll_eq_flatMap,
    List.filterMap_flatMap]
  rfl

@[simp] theorem Node.selects_named (expr : Node) (name : String) :
    (Node.named expr name).selects = expr.selects := by
  rw [selects, Node.parts, List.filterMap_cons_none rfl]
  rfl

@[simp] theorem Node.selects_setOp (operator : SetOperator) (inputs : List Node) :
    (Node.setOp operator inputs).selects = inputs.flatMap selects := by
  rw [selects, Node.parts, List.filterMap_cons_none rfl, Node.partsAll_eq_flatMap,
    List.filterMap_flatMap]
  rfl

@[simp] theorem Node.selects_join (left right : Node) (kind : JoinKind)
    (condition : Option Node) :
    (Node.join ⟨left, kind, right, condition⟩).selects =
      left.selects ++ right.selects ++ condition.toList.flatMap selects := by
  rw [selects, Node.parts, List.filterMap_cons_none rfl, Join.parts, Node.parts?_eq_flatMap,
    List.filterMap_append, List.filterMap_append, List.filterMap_flatMap]
  rfl

/-- The queries of a `SELECT` are itself and those of its clauses. -/
theorem Node.selects_select (query : Select) :
    (Node.select query).selects.Perm
      (query ::
        (query.source.toList.flatMap selects ++ query.ownExpressions.flatMap selects)) := by
  have own : query? (.select query) = some query := rfl
  refine ((Node.parts_perm (.select query)).filterMap query?).trans ?_
  rw [List.filterMap_cons_some own, List.filterMap_flatMap, children, List.flatMap_append]
  rfl

end Selects

end Pushdown.Sql
