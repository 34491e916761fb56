import Pushdown.Sql.Lexeme

/-!
# Writing a statement

The layout of each construct is a function of the scripts of its parts; `Node.script` ties them
together by recursion over the tree.  What a node looks like depends on the `Place` it stands in:
a query is bare at the top and in brackets elsewhere, and a call is in brackets where an operator
that binds looser than the place allows would be misread.

The left operand of an infix operator stands at the operator's own precedence and the right one a
step above it, so that a chain of equal operators reads from the left.  Conjunctions and
disjunctions take any number of operands; any other infix operator with a number of operands
other than two is written like a function.
-/

namespace Pushdown.Sql

/-- Where a node stands. -/
inductive Place where
  /-- The root of a statement. -/
  | top
  /-- An operand, in brackets when it binds looser than `least`. -/
  | operand (least : Nat)
  /-- An item of a `FROM` clause. -/
  | source
  /-- An input of a set operator. -/
  | member
  deriving DecidableEq

/-- The least precedence that stands in the place without brackets. -/
def Place.least : Place → Nat
  | .operand least => least
  | .member => 255
  | .top | .source => 0

/-- An operand of a call, written at any precedence. -/
structure Operand where
  opensWithMinus : Bool
  write : Nat → Script

/-! ## Layout -/

/-- The keywords of a set operator. -/
def SetOperator.keywords : SetOperator → List String
  | .union => ["UNION"]
  | .unionAll => ["UNION", "ALL"]
  | .intersect => ["INTERSECT"]
  | .intersectAll => ["INTERSECT", "ALL"]
  | .except => ["EXCEPT"]
  | .exceptAll => ["EXCEPT", "ALL"]

/-- The keywords of a join. -/
def joinKeywords : JoinKind → List String
  | .inner => ["INNER", "JOIN"]
  | .left => ["LEFT", "JOIN"]
  | .right => ["RIGHT", "JOIN"]
  | .full => ["FULL", "JOIN"]

/-- The name given to a node, behind it. -/
def nameSuffix (name : String) : Script := .spaced ["AS"] ++ .ofList [.identifier [name]]

/-- Scripts with a separator between them. -/
def separated (separator : Script) : List Script → Script
  | [] => .empty
  | [only] => only
  | first :: rest => first ++ separator ++ separated separator rest

/-- Operands with commas between them. -/
def listed (operands : List Operand) : Script :=
  separated .comma (operands.map (·.write 0))

/-- The first operand; without one the writing stops. -/
def firstOperand (least : Nat) : List Operand → Script
  | operand :: _ => operand.write least
  | [] => .missing

/-- Operands of an associative operator, or `unit` for none. -/
def chain (op : ScalarOp) (symbol unit : String) : List Operand → Script
  | [] => .word unit
  | first :: rest =>
    separated (.spaced [symbol])
      (first.write op.precedence :: rest.map (·.write (op.precedence + 1)))

/-- The branches of a `CASE`, two operands each; an odd one at the end is the default. -/
def branches : List Operand → Script
  | condition :: result :: rest =>
    .spaced ["WHEN"] ++ condition.write 0 ++ .spaced ["THEN"] ++ result.write 0 ++ branches rest
  | [default] => .spaced ["ELSE"] ++ default.write 0
  | [] => .empty

/-- An infix operator between its two operands; with another number of them, like a function. -/
def infixCall (op : ScalarOp) (symbol : String) : List Operand → Script
  | [left, right] =>
    left.write op.precedence ++ .spaced [symbol] ++ right.write (op.precedence + 1)
  | operands => .word symbol ++ (listed operands).bracketed

/-- A negation; a second minus sign would open a comment and is kept apart by brackets. -/
def negation : List Operand → Script
  | operand :: _ =>
    .word "-" ++
      if operand.opensWithMinus then (operand.write 0).bracketed
      else operand.write ScalarOp.negate.precedence
  | [] => .word "-" ++ .missing

/-- The operand of a test for null. -/
def nullTest (op : ScalarOp) (keywords : List String) (operands : List Operand) : Script :=
  firstOperand (op.precedence + 1) operands ++ .blank ++ .words keywords

/-- A call of a scalar operator, without brackets around it. -/
def scalarCallScript (op : ScalarOp) (operands : List Operand) : Script :=
  match op with
  | .and => chain .and "AND" "TRUE" operands
  | .or => chain .or "OR" "FALSE" operands
  | .not => .word "NOT" ++ .blank ++ firstOperand ScalarOp.not.precedence operands
  | .negate => negation operands
  | .isNull => nullTest .isNull ["IS", "NULL"] operands
  | .isNotNull => nullTest .isNotNull ["IS", "NOT", "NULL"] operands
  | .caseWhen => .word "CASE" ++ branches operands ++ .blank ++ .word "END"
  | .cast type =>
    .word "CAST" ++
      (firstOperand 0 operands ++ .spaced ["AS"] ++ .ofList [.verbatim type]).bracketed
  | .function name => .ofList [.verbatim name] ++ (listed operands).bracketed
  | op => infixCall op (op.infixSymbol?.getD "?") operands

/-- A call, without brackets around it.  An aggregate of no operand counts rows. -/
def callScript (operator : Operator) (operands : List Operand) : Script :=
  match operator with
  | .scalar op => scalarCallScript op operands
  | .aggregate name distinct =>
    .ofList [.verbatim name] ++ Script.bracketed
      (if operands.isEmpty then .word "*"
      else (if distinct then .word "DISTINCT" ++ .blank else .empty) ++ listed operands)

/-- A clause of one part, if it is there. -/
def clause (keywords : List String) : Option Script → Script
  | some script => .spaced keywords ++ script
  | none => .empty

/-- A query, without brackets around it.  A list of nothing selects all. -/
def selectScript (projection : Option (List Script)) (source selection : Option Script)
    (groupBy : Option (List Script)) (having : Option Script) (orderBy : Option (List Script)) :
    Script :=
  .word "SELECT" ++ .blank ++
    (if (projection.getD []).isEmpty then .word "*" else separated .comma (projection.getD [])) ++
    clause ["FROM"] source ++
    clause ["WHERE"] selection ++
    clause ["GROUP", "BY"] (groupBy.map fun keys =>
      if keys.isEmpty then .word "(" ++ .word ")" else separated .comma keys) ++
    clause ["HAVING"] having ++
    clause ["ORDER", "BY"] (orderBy.map (separated .comma))

/-- What stands behind the expression of an `ORDER BY` key. -/
def orderSuffix (descending : Bool) (nulls : Option NullsOrder) : Script :=
  (if descending then .blank ++ .word "DESC" else .empty) ++
    match nulls with
    | some .first => .blank ++ .words ["NULLS", "FIRST"]
    | some .last => .blank ++ .words ["NULLS", "LAST"]
    | none => .empty

/-- A join; without a condition, one that always holds. -/
def joinScript (left : Script) (kind : JoinKind) (right : Script) (condition : Option Script) :
    Script :=
  left ++ .spaced (joinKeywords kind) ++ right ++ .spaced ["ON"] ++
    condition.getD (.word "TRUE")

def Node.isJoin : Node → Bool
  | .join _ => true
  | _ => false

/-! ## Trees -/

mutual

/-- The node as it is written in a place. -/
def Node.script (place : Place) : Node → Script
  | .identifier parts => .ofList [.identifier parts]
  | .literal value => .ofList (literalLexemes value)
  | .call operator operands =>
    let call := callScript operator (operandsOf operands)
    if operator.precedence < place.least then call.bracketed else call
  | .named expr name =>
    (if place = .source then
      if expr.isQuery then (expr.script .top).bracketed else expr.script .source
    else expr.script (.operand 0)) ++ nameSuffix name
  | .select query =>
    if place = .top ∨ place = .member then query.script else query.script.bracketed
  | .setOp operator inputs =>
    let inputs := separated (.spaced operator.keywords) (scriptsOf .member inputs)
    if place = .top then inputs else inputs.bracketed
  | .join join => join.script

/-- A query, clause by clause. -/
def Select.script : Select → Script
  | ⟨projection, source, selection, groupBy, having, orderBy⟩ =>
    selectScript (listScript? projection) (nodeScript? .source source)
      (nodeScript? (.operand 0) selection) (listScript? groupBy)
      (nodeScript? (.operand 0) having) (orderScript? orderBy)

/-- A join, with brackets around one on its right. -/
def Join.script : Join → Script
  | ⟨left, kind, right, condition⟩ =>
    joinScript (left.script .source) kind
      (if right.isJoin then (right.script .source).bracketed else right.script .source)
      (nodeScript? (.operand 0) condition)

/-- A key of an order, with its direction. -/
def OrderItem.script : OrderItem → Script
  | ⟨expr, descending, nulls⟩ => expr.script (.operand 0) ++ orderSuffix descending nulls

/-- The nodes as operands of a call. -/
def operandsOf : List Node → List Operand
  | [] => []
  | node :: rest =>
    ⟨node.opensWithMinus, fun least => node.script (.operand least)⟩ :: operandsOf rest

/-- The nodes as they are written in a place. -/
def scriptsOf (place : Place) : List Node → List Script
  | [] => []
  | node :: rest => node.script place :: scriptsOf place rest

def ordersOf : List OrderItem → List Script
  | [] => []
  | item :: rest => item.script :: ordersOf rest

def nodeScript? (place : Place) : Option Node → Option Script
  | none => none
  | some node => some (node.script place)

def listScript? : Option (List Node) → Option (List Script)
  | none => none
  | some nodes => some (scriptsOf (.operand 0) nodes)

def orderScript? : Option (List OrderItem) → Option (List Script)
  | none => none
  | some items => some (ordersOf items)

end

namespace Statement

/-- The lexemes of a statement. -/
def script (s : Statement) : Script := s.root.script .top

/-- The text of a statement in a quoting style. -/
def text (s : Statement) (style : QuoteStyle) : String := s.script.text style

/-- The text of a statement in a dialect. -/
def render (s : Statement) (dialect : Dialect) : String := s.text dialect.policy.quoteStyle

/-- The text of a statement with no identifier quoted. -/
def plainText (s : Statement) : String := s.text .none

end Statement

@[simp] theorem operandsOf_eq_map (nodes : List Node) :
    operandsOf nodes =
      nodes.map fun node => ⟨node.opensWithMinus, fun least => node.script (.operand least)⟩ := by
  induction nodes with
  | nil => simp [operandsOf]
  | cons node rest ih => simp [operandsOf, ih]

@[simp] theorem scriptsOf_eq_map (place : Place) (nodes : List Node) :
    scriptsOf place nodes = nodes.map (Node.script place) := by
  induction nodes with
  | nil => simp [scriptsOf]
  | cons node rest ih => simp [scriptsOf, ih]

@[simp] theorem ordersOf_eq_map (items : List OrderItem) :
    ordersOf items = items.map OrderItem.script := by
  induction items with
  | nil => simp [ordersOf]
  | cons item rest ih => simp [ordersOf, ih]

end Pushdown.Sql
