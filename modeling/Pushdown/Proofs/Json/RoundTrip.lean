import Pushdown.Json.Sql
import Pushdown.Proofs.Json.Decoder
import Pushdown.Proofs.Scalar.Expr
import Pushdown.Proofs.Sql.Tree

/-!
# Decoding undoes encoding

The JSON form of an expression, a program or a SQL tree is read back as what it was, whatever its
depth, if its doubles are finite: any other double is written as null.  Ordinals are 64 bits wide.

Expressions go by induction over the tree.  The parts of SQL trees hold each other, so there the
induction is over the levels that a decoder may use: each kind of part is read if nodes are read
within fewer levels.
-/

namespace Pushdown

open Json (Reads)

/-! ## Literals and operators -/

/-- Whether the literal has a JSON form of its own. -/
def Literal.isFinite : Literal → Bool
  | .double x => x.isFinite
  | _ => true

theorem Literal.reads {value : Literal} (finite : value.isFinite = true) :
    Reads Literal.ofJson? value.toJson value := by
  intro levels fits
  -- Every literal is an object of its tag, and of its content if it has any.
  obtain ⟨below, rfl⟩ : ∃ below, levels = below + 1 := by
    cases value <;>
      · obtain ⟨below, same, _⟩ := Json.depth_object_le_iff.mp fits
        exact ⟨below, same⟩
  cases value with
  | integer n =>
    change Literal.integer <$> Json.int64? (.integer n.toInt) = some (.integer n)
    rw [Json.int64?_integer]
    rfl
  | double x =>
    change Literal.double <$> Json.double? (.ofDouble x) = some (.double x)
    rw [Json.double?_ofDouble finite]
    rfl
  | _ => rfl

theorem ScalarOp.reads (op : ScalarOp) {levels : Nat} (fits : op.toJson.depth ≤ levels) :
    ∃ content, Json.alternative? levels op.toJson = some (op.key, content) ∧
      ofAlternative? op.key content = some op := by
  cases op with
  | cast type =>
    obtain ⟨below, rfl, _⟩ := Json.depth_object_le_iff.mp fits
    exact ⟨some (.string type), rfl, rfl⟩
  | function name =>
    obtain ⟨below, rfl, _⟩ := Json.depth_object_le_iff.mp fits
    exact ⟨some (.string name), rfl, rfl⟩
  | _ => exact ⟨none, by cases levels <;> rfl, rfl⟩

theorem PlanOp.reads (op : PlanOp) : Reads PlanOp.ofJson? op.toJson op := by
  intro levels fits
  cases op with
  | scalar op =>
    obtain ⟨content, found, read⟩ := op.reads fits
    have apart : (MultisetOp.all.find? fun other => other.key == op.key) = none := by
      cases op <;> rfl
    simp only [ofJson?, toJson, found, Option.bind_eq_bind, Option.bind_some, apart, read]
    rfl
  | multiset op =>
    have found : (MultisetOp.all.find? fun other => other.key == op.key) = some op :=
      Json.find?_name (by decide) (by cases op <;> decide)
    simp only [ofJson?, toJson, Json.alternative?, Option.bind_eq_bind, Option.bind_some, found]
    rfl

theorem Sql.Operator.reads (operator : Sql.Operator) :
    Reads Sql.Operator.ofJson? operator.toJson operator := by
  intro levels fits
  cases operator with
  | scalar op =>
    obtain ⟨content, found, read⟩ := op.reads fits
    have apart : op.key ≠ "aggregate" := by cases op <;> simp [ScalarOp.key]
    simp only [ofJson?, toJson, found, Option.bind_eq_bind, Option.bind_some]
    -- The name is not that of an aggregate, by `apart`.
    simp only [read, Option.map_eq_map, Option.map_some]
  | aggregate name distinct =>
    obtain ⟨below, rfl, parts⟩ := Json.depth_object_le_iff.mp fits
    obtain ⟨within, rfl, _⟩ := Json.depth_object_le_iff.mp (parts _ (.head _))
    rfl

/-! ## Expressions and programs -/

mutual

/-- The doubles in the expression are finite, and its ordinals have 64 bits. -/
def Expr.isExact : Expr → Bool
  | .literal value => value.isFinite
  | .input ordinal => ordinal < UInt64.size
  | .shared index => index < UInt64.size
  | .call _ operands => Expr.allExact operands

def Expr.allExact : List Expr → Bool
  | [] => true
  | e :: rest => e.isExact && Expr.allExact rest

end

theorem Expr.allExact_eq_all (es : List Expr) : Expr.allExact es = es.all Expr.isExact := by
  induction es with
  | nil => simp [Expr.allExact]
  | cons e rest ih => simp [Expr.allExact, ih]

/-- A list of expressions is read if each of them is. -/
theorem Expr.reads_list {es : List Expr} (each : ∀ e ∈ es, Reads Expr.ofJson? e.toJson e) :
    Reads Expr.listOfJson? (.ofList Expr.toJson es) es := by
  intro levels fits
  obtain ⟨below, rfl, parts⟩ := Json.depth_array_le_iff.mp fits
  rw [listOfJson?]
  exact Json.items?_map fun e member => each e member below (parts _ (List.mem_map_of_mem member))

theorem Expr.reads {e : Expr} (carried : e.isExact = true) : Reads Expr.ofJson? e.toJson e := by
  induction e with
  | literal value =>
    intro levels fits
    rw [toJson] at fits ⊢
    obtain ⟨below, rfl, parts⟩ := Json.depth_object_le_iff.mp fits
    have read := Literal.reads carried below (parts _ (.head _))
    simp [ofJson?, read]
  | input ordinal =>
    intro levels fits
    rw [toJson] at fits ⊢
    obtain ⟨below, rfl, parts⟩ := Json.depth_object_le_iff.mp fits
    simp [ofJson?, Json.nat?_ofNat (of_decide_eq_true carried)]
  | shared index =>
    intro levels fits
    rw [toJson] at fits ⊢
    obtain ⟨below, rfl, parts⟩ := Json.depth_object_le_iff.mp fits
    simp [ofJson?, Json.nat?_ofNat (of_decide_eq_true carried)]
  | call op operands ih =>
    intro levels fits
    rw [isExact, allExact_eq_all, List.all_eq_true] at carried
    rw [toJson, toJsonAll_eq_map] at fits ⊢
    obtain ⟨below, rfl, parts⟩ := Json.depth_object_le_iff.mp fits
    obtain ⟨within, rfl, fields⟩ := Json.depth_object_le_iff.mp (parts _ (.head _))
    have operator := op.reads within (fields _ (.head _))
    have arguments : listOfJson? within (.array (operands.map toJson)) = some operands :=
      Expr.reads_list (fun e member => ih e member (carried e member)) within
        (fields _ (.tail _ (.head _)))
    simp [ofJson?, callOfJson?, Json.fields?_object, Json.required, operator, arguments]

/-- The doubles in the program are finite, and its ordinals have 64 bits. -/
def Program.isExact (p : Program) : Bool :=
  p.exprs.all Expr.isExact && p.projects.all (· < UInt64.size) &&
    p.condition.all (· < UInt64.size)

theorem Program.reads {p : Program} (carried : p.isExact = true) :
    Reads Program.ofJson? p.toJson p := by
  intro levels fits
  simp only [isExact, Bool.and_eq_true, List.all_eq_true, Option.all_eq_true, decide_eq_true_eq]
    at carried
  obtain ⟨⟨exprs, projects⟩, condition⟩ := carried
  obtain ⟨below, rfl, parts⟩ := Json.depth_object_le_iff.mp fits
  simp only [List.forall_mem_cons] at parts
  obtain ⟨inputFits, exprsFit, projectsFit, _, outputFits, _⟩ := parts
  have shared := Expr.reads_list (fun e member => Expr.reads (exprs e member)) below exprsFit
  have indices := Json.reads_nats projects below projectsFit
  have test : Json.optional Json.nat? (some (.ofOption .ofNat p.condition)) = some p.condition :=
    Json.optional_ofOption (fun _ _ => by simp [Json.ofNat])
      fun n member => Json.nat?_ofNat (condition n member)
  simp [ofJson?, toJson, Json.fields?_object, Json.required, shared, indices, test,
    Json.reads_strings p.input below inputFits, Json.reads_strings p.output below outputFits]

/-! ## SQL trees -/

namespace Sql

/-- Whether the node, if it is a double, is finite. -/
def Node.isFinite : Node → Bool
  | .literal value => value.isFinite
  | _ => true

/-- The doubles in the tree are finite. -/
def Node.Finite (node : Node) : Prop := ∀ part ∈ node.parts, part.isFinite = true

theorem Node.finite_iff (node : Node) :
    node.Finite ↔ node.isFinite = true ∧ ∀ child ∈ node.children, child.Finite :=
  node.forall_parts_iff

theorem Node.toJson_ne_null (node : Node) : node.toJson ≠ .null := by
  cases node <;> simp [Node.toJson]

theorem optionToJson_eq (node : Option Node) :
    optionToJson node = .ofOption Node.toJson node := by
  cases node <;> rw [optionToJson, Json.ofOption]

theorem listToJson_eq (nodes : Option (List Node)) :
    listToJson nodes = .ofOption (.ofList Node.toJson) nodes := by
  cases nodes <;> simp [listToJson, Json.ofOption, Json.ofList]

theorem orderToJson_eq (items : Option (List OrderItem)) :
    orderToJson items = .ofOption (.ofList OrderItem.toJson) items := by
  cases items <;> simp [orderToJson, Json.ofOption, Json.ofList]

/-- Nodes are read back within the levels. -/
def NodesRead (levels : Nat) : Prop :=
  ∀ node : Node, node.Finite → node.toJson.depth ≤ levels →
    Node.ofJson? levels node.toJson = some node

theorem NodesRead.optional {levels : Nat} (nodes : NodesRead levels) {node : Option Node}
    (finite : ∀ n ∈ node, n.Finite) (fits : (Json.ofOption Node.toJson node).depth ≤ levels) :
    Json.optional (Node.ofJson? levels) (some (.ofOption Node.toJson node)) = some node := by
  refine Json.optional_ofOption (fun n _ => n.toJson_ne_null) fun n member => ?_
  cases member
  exact nodes n (finite n rfl) fits

/-! ### One layer

What is read within some levels, when nodes are within fewer. -/

section Layer

variable {levels : Nat} (smaller : ∀ below < levels, NodesRead below)

include smaller

theorem nodes_read {nodes : List Node} (finite : ∀ node ∈ nodes, node.Finite)
    (fits : (Json.ofList Node.toJson nodes).depth ≤ levels) :
    nodesOfJson? levels (.ofList Node.toJson nodes) = some nodes := by
  obtain ⟨below, rfl, items⟩ := Json.depth_array_le_iff.mp fits
  rw [nodesOfJson?]
  refine Json.items?_map fun node member => ?_
  exact smaller below below.lt_succ_self node (finite node member)
    (items _ (List.mem_map_of_mem member))

theorem orderItem_read {item : OrderItem} (finite : item.expr.Finite)
    (fits : item.toJson.depth ≤ levels) : OrderItem.ofJson? levels item.toJson = some item := by
  obtain ⟨expr, descending, nulls⟩ := item
  rw [OrderItem.toJson] at fits ⊢
  obtain ⟨below, rfl, fields⟩ := Json.depth_object_le_iff.mp fits
  have key := smaller below below.lt_succ_self expr finite (fields _ (.head _))
  have place : Json.optional (Json.choice? NullsOrder.all NullsOrder.key below)
      (some (.ofOption (fun place => .string place.key) nulls)) = some nulls :=
    Json.optional_ofOption (fun _ _ => by simp) fun place _ =>
      Json.choice?_name (by decide) (by cases place <;> decide) below
  simp [OrderItem.ofJson?, Json.fields?_object, Json.required, key, place, Json.bool?]

theorem orderItems_read {items : List OrderItem} (finite : ∀ item ∈ items, item.expr.Finite)
    (fits : (Json.ofList OrderItem.toJson items).depth ≤ levels) :
    orderItemsOfJson? levels (.ofList OrderItem.toJson items) = some items := by
  obtain ⟨below, rfl, each⟩ := Json.depth_array_le_iff.mp fits
  rw [orderItemsOfJson?]
  refine Json.items?_map fun item member => ?_
  exact orderItem_read (fun k less => smaller k (by omega)) (finite item member)
    (each _ (List.mem_map_of_mem member))

theorem nodesClause_read {clause : Option (List Node)}
    (finite : ∀ node ∈ clause.getD [], node.Finite)
    (fits : (Json.ofOption (.ofList Node.toJson) clause).depth ≤ levels) :
    Json.optional (nodesOfJson? levels) (some (.ofOption (.ofList Node.toJson) clause)) =
      some clause := by
  refine Json.optional_ofOption (fun _ _ => by simp [Json.ofList]) fun nodes member => ?_
  cases member
  exact nodes_read smaller finite fits

theorem orderClause_read {clause : Option (List OrderItem)}
    (finite : ∀ item ∈ clause.getD [], item.expr.Finite)
    (fits : (Json.ofOption (.ofList OrderItem.toJson) clause).depth ≤ levels) :
    Json.optional (orderItemsOfJson? levels)
      (some (.ofOption (.ofList OrderItem.toJson) clause)) =
      some clause := by
  refine Json.optional_ofOption (fun _ _ => by simp [Json.ofList]) fun items member => ?_
  cases member
  exact orderItems_read smaller finite fits

theorem join_read {join : Join} (finite : (Node.join join).Finite)
    (fits : join.toJson.depth ≤ levels) : Join.ofJson? levels join.toJson = some join := by
  obtain ⟨left, kind, right, condition⟩ := join
  have children := ((Node.finite_iff _).mp finite).2
  simp only [Node.children, List.forall_mem_cons, Option.mem_toList] at children
  obtain ⟨leftFinite, rightFinite, conditionFinite⟩ := children
  rw [Join.toJson, optionToJson_eq] at fits ⊢
  obtain ⟨below, rfl, fields⟩ := Json.depth_object_le_iff.mp fits
  simp only [List.forall_mem_cons] at fields
  obtain ⟨leftFits, _, rightFits, conditionFits, _⟩ := fields
  have nodes := smaller below below.lt_succ_self
  have named : Json.choice? JoinKind.all JoinKind.key below (.string kind.key) = some kind :=
    Json.choice?_name (by decide) (by cases kind <;> decide) below
  simp [Join.ofJson?, Json.fields?_object, Json.required, nodes left leftFinite leftFits,
    nodes right rightFinite rightFits, nodes.optional conditionFinite conditionFits, named]

theorem select_read {query : Select} (finite : (Node.select query).Finite)
    (fits : query.toJson.depth ≤ levels) : Select.ofJson? levels query.toJson = some query := by
  have children := ((Node.finite_iff _).mp finite).2
  simp only [Node.children, List.forall_mem_append, Option.mem_toList] at children
  obtain ⟨sourceFinite, own⟩ := children
  obtain ⟨projectionFinite, selectionFinite, groupByFinite, havingFinite, orderByFinite⟩ :=
    Select.forall_ownExpressions_iff.mp own
  obtain ⟨projection, source, selection, groupBy, having, orderBy⟩ := query
  rw [Select.toJson, listToJson_eq, listToJson_eq, optionToJson_eq, optionToJson_eq,
    optionToJson_eq, orderToJson_eq] at fits ⊢
  obtain ⟨below, rfl, fields⟩ := Json.depth_object_le_iff.mp fits
  simp only [List.forall_mem_cons] at fields
  obtain ⟨projectionFits, sourceFits, selectionFits, groupByFits, havingFits, orderByFits, _⟩ :=
    fields
  have nodes := smaller below below.lt_succ_self
  have least : ∀ k < below, NodesRead k := fun k less => smaller k (by omega)
  simp [Select.ofJson?, Json.fields?_object,
    nodesClause_read least projectionFinite projectionFits,
    nodes.optional sourceFinite sourceFits, nodes.optional selectionFinite selectionFits,
    nodesClause_read least groupByFinite groupByFits, nodes.optional havingFinite havingFits,
    orderClause_read least orderByFinite orderByFits]

/-- A node is read within the levels. -/
theorem node_read : NodesRead levels := by
  intro node finite fits
  obtain ⟨own, children⟩ := node.finite_iff.mp finite
  rw [Node.toJson.eq_def] at fits ⊢
  cases node with
  | identifier parts =>
    obtain ⟨below, rfl, content⟩ := Json.depth_object_le_iff.mp fits
    simp [Node.ofJson?, Json.reads_strings parts below (content _ (.head _))]
  | literal value =>
    obtain ⟨below, rfl, content⟩ := Json.depth_object_le_iff.mp fits
    simp [Node.ofJson?, Literal.reads own below (content _ (.head _))]
  | select query =>
    obtain ⟨below, rfl, content⟩ := Json.depth_object_le_iff.mp fits
    have read := select_read (fun k less => smaller k (by omega)) finite (content _ (.head _))
    simp [Node.ofJson?, read]
  | join join =>
    obtain ⟨below, rfl, content⟩ := Json.depth_object_le_iff.mp fits
    have read := join_read (fun k less => smaller k (by omega)) finite (content _ (.head _))
    simp [Node.ofJson?, read]
  | named expr name =>
    obtain ⟨below, rfl, content⟩ := Json.depth_object_le_iff.mp fits
    obtain ⟨within, rfl, fields⟩ := Json.depth_object_le_iff.mp (content _ (.head _))
    have read := smaller within (by omega) expr (children expr (.head _)) (fields _ (.head _))
    simp [Node.ofJson?, namedOfJson?, Json.fields?_object, Json.required, read, Json.string?]
  | call operator operands =>
    simp only [toJsonAll_eq_map] at fits ⊢
    -- The fields are in an object of their own, two levels below the node.
    obtain ⟨below, rfl, content⟩ := Json.depth_object_le_iff.mp fits
    obtain ⟨within, rfl, fields⟩ := Json.depth_object_le_iff.mp (content _ (.head _))
    have named := operator.reads within (fields _ (.head _))
    have arguments : nodesOfJson? within (.array (operands.map Node.toJson)) = some operands :=
      nodes_read (fun k less => smaller k (by omega)) children (fields _ (.tail _ (.head _)))
    simp [Node.ofJson?, callOfJson?, Json.fields?_object, Json.required, named, arguments]
  | setOp operator inputs =>
    simp only [toJsonAll_eq_map] at fits ⊢
    obtain ⟨below, rfl, content⟩ := Json.depth_object_le_iff.mp fits
    obtain ⟨within, rfl, fields⟩ := Json.depth_object_le_iff.mp (content _ (.head _))
    have named : Json.choice? SetOperator.all SetOperator.key within (.string operator.key) =
        some operator :=
      Json.choice?_name (by decide) (by cases operator <;> decide) within
    have queries : nodesOfJson? within (.array (inputs.map Node.toJson)) = some inputs :=
      nodes_read (fun k less => smaller k (by omega)) children (fields _ (.tail _ (.head _)))
    simp [Node.ofJson?, setOpOfJson?, Json.fields?_object, Json.required, named, queries]

end Layer

theorem nodesRead (levels : Nat) : NodesRead levels := by
  induction levels using Nat.strongRecOn with
  | ind levels ih => exact node_read ih

theorem Statement.reads {s : Statement} (finite : s.root.Finite) :
    Reads Statement.ofJson? s.toJson s := by
  intro levels fits
  obtain ⟨below, rfl, fields⟩ := Json.depth_object_le_iff.mp fits
  have read := nodesRead below s.root finite (fields _ (.head _))
  simp [ofJson?, toJson, Json.fields?_object, Json.required, read]

end Sql

/-! ## All of them -/

/-- Whatever is written is read back, within any number of levels that is enough for its depth. -/
theorem Json.decode_toJson :
    (∀ node : Sql.Node, node.Finite → Reads Sql.Node.ofJson? node.toJson node) ∧
      (∀ query : Sql.Select, (Sql.Node.select query).Finite →
        Reads Sql.Select.ofJson? query.toJson query) ∧
      (∀ join : Sql.Join, (Sql.Node.join join).Finite →
        Reads Sql.Join.ofJson? join.toJson join) ∧
      (∀ item : Sql.OrderItem, item.expr.Finite →
        Reads Sql.OrderItem.ofJson? item.toJson item) ∧
      (∀ s : Sql.Statement, s.root.Finite → Reads Sql.Statement.ofJson? s.toJson s) ∧
      (∀ e : Expr, e.isExact = true → Reads Expr.ofJson? e.toJson e) ∧
      ∀ p : Program, p.isExact = true → Reads Program.ofJson? p.toJson p := by
  have nodes (levels : Nat) : ∀ below < levels, Sql.NodesRead below :=
    fun below _ => Sql.nodesRead below
  refine ⟨fun node finite levels => Sql.nodesRead levels node finite, ?_, ?_, ?_, ?_, ?_, ?_⟩
  · intro query finite levels fits
    exact Sql.select_read (nodes levels) finite fits
  · intro join finite levels fits
    exact Sql.join_read (nodes levels) finite fits
  · intro item finite levels fits
    exact Sql.orderItem_read (nodes levels) finite fits
  · intro s finite
    exact Sql.Statement.reads finite
  · intro e carried
    exact Expr.reads carried
  · intro p carried
    exact Program.reads carried

namespace Staff

open Sql (Node Select Join OrderItem Statement)

/-- Employees with their bosses, those without one last. -/
def bossJoin : Join :=
  { left := .identifier ["hr", "emp"]
    kind := .left
    right := .named (.identifier ["hr", "emp"]) "t0"
    condition := some (.scalarCall .eq [.identifier ["emp", "boss"], .identifier ["t0", "id"]]) }

def bossOrder : OrderItem := ⟨.identifier ["t0", "id"], true, some .last⟩

/-- The double is 1.5. -/
def bossQuery : Select :=
  { projection := some [.named (.call (.aggregate "COUNT" true) [.identifier ["t0", "id"]]) "n",
      .literal (.double ⟨0x3ff8000000000000⟩)]
    source := some (.join bossJoin)
    selection := some (.scalarCall (.function "ISNULL") [.literal .null])
    groupBy := some []
    orderBy := some [bossOrder] }

def bossReport : Statement :=
  ⟨.setOp .unionAll [.select bossQuery, .select (.starFrom (.identifier ["hr", "emp"]))]⟩

/-- The doubled pay of everybody above the least pay. -/
def doubledPay : Program :=
  { input := ["id", "pay"]
    exprs := [.input 1,
      .call (.scalar .times) [.shared 0, .literal (.double ⟨0x4000000000000000⟩)],
      .call (.multiset .cardinality) [.literal (.integer (-3))]]
    projects := [0, 1]
    condition := some 2
    output := ["pay", "doubled"] }

end Staff

open Staff in
theorem Json.decode_toJson_bossReport :
    (bossReport.root.Finite ∧ Reads Sql.Node.ofJson? bossReport.root.toJson bossReport.root) ∧
      ((Sql.Node.select bossQuery).Finite ∧ Reads Sql.Select.ofJson? bossQuery.toJson bossQuery) ∧
      ((Sql.Node.join bossJoin).Finite ∧ Reads Sql.Join.ofJson? bossJoin.toJson bossJoin) ∧
      (bossOrder.expr.Finite ∧ Reads Sql.OrderItem.ofJson? bossOrder.toJson bossOrder) ∧
      (bossReport.toJson.depth = 14 ∧
        Sql.Statement.ofJson? 14 bossReport.toJson = some bossReport) ∧
      (∀ e ∈ doubledPay.exprs, e.isExact = true ∧ Reads Expr.ofJson? e.toJson e) ∧
      (doubledPay.isExact = true ∧ Reads Program.ofJson? doubledPay.toJson doubledPay) := by
  obtain ⟨nodes, queries, joins, items, statements, exprs, programs⟩ := Json.decode_toJson
  have report : bossReport.root.Finite := by unfold Sql.Node.Finite; decide
  have query : (Sql.Node.select bossQuery).Finite := by unfold Sql.Node.Finite; decide
  have join : (Sql.Node.join bossJoin).Finite := by unfold Sql.Node.Finite; decide
  have item : bossOrder.expr.Finite := by unfold Sql.Node.Finite; decide
  have depth : bossReport.toJson.depth = 14 := by decide
  have parts : ∀ e ∈ doubledPay.exprs, e.isExact = true := by decide
  have program : doubledPay.isExact = true := by decide
  exact ⟨⟨report, nodes _ report⟩, ⟨query, queries _ query⟩, ⟨join, joins _ join⟩,
    ⟨item, items _ item⟩, ⟨depth, statements _ report 14 (Nat.le_of_eq depth)⟩,
    fun e member => ⟨parts e member, exprs e (parts e member)⟩, ⟨program, programs _ program⟩⟩

end Pushdown
