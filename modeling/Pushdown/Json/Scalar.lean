import Pushdown.Json.Decoder
import Pushdown.Scalar.Program

/-!
# The JSON form of literals, operators, expressions and programs
-/

namespace Pushdown

open Json (Decoder)

/-! ## Literals -/

namespace Literal

/-- The types of literals by name. -/
inductive Tag where
  | null
  | boolean
  | integer
  | decimal
  | double
  | string
  deriving DecidableEq

/-- Every type of literal, for a reader to choose from. -/
def Tag.all : List Tag := [.null, .boolean, .integer, .decimal, .double, .string]

/-- The name under which a literal gives its type. -/
def Tag.name : Tag → String
  | .null => "null"
  | .boolean => "boolean"
  | .integer => "integer"
  | .decimal => "decimal"
  | .double => "double"
  | .string => "string"

/-- A literal is written as its type and its value; null has a type alone. -/
def toJson : Literal → Json
  | .null => .object [("type", .string "null")]
  | .boolean value => .object [("type", .string "boolean"), ("value", .bool value)]
  | .integer value => .object [("type", .string "integer"), ("value", .integer value.toInt)]
  | .decimal text => .object [("type", .string "decimal"), ("value", .string text)]
  | .double value => .object [("type", .string "double"), ("value", .ofDouble value)]
  | .string text => .object [("type", .string "string"), ("value", .string text)]

/-- The literal of a type and its value; only the null literal may have none. -/
def ofParts? : Tag → Option Json → Option Literal
  | .null, value => if Json.isVoid value then some .null else none
  | .boolean, value => .boolean <$> Json.required Json.bool? value
  | .integer, value => .integer <$> Json.required Json.int64? value
  | .decimal, value => .decimal <$> Json.required Json.string? value
  | .double, value => .double <$> Json.required Json.double? value
  | .string, value => .string <$> Json.required Json.string? value

/-- A literal: an object of its type and value, in any order, or an array of both.  The type is a
choice in an object, but has to be given by its name alone in an array. -/
def ofJson? : Decoder Literal
  | 0, _ => none
  | _ + 1, .array [tag, value] => do ofParts? (← Json.named? Tag.all Tag.name tag) (some value)
  | levels + 1, .object members => do
    let [tag, value] ← Json.fields? ["type", "value"] false (.object members) | none
    ofParts? (← Json.required (Json.choice? Tag.all Tag.name levels) tag) value
  | _, _ => none

end Literal

/-! ## Operators -/

namespace ScalarOp

/-- The operators that need no name of a type or a function. -/
def plain : List ScalarOp :=
  [.eq, .notEq, .lt, .ltEq, .gt, .gtEq, .and, .or, .not, .plus, .minus, .times, .divide, .negate,
   .isNull, .isNotNull, .like, .caseWhen]

/-- The name of an operator; for casts and functions, that of the alternative. -/
def key : ScalarOp → String
  | .eq => "eq"
  | .notEq => "not_eq"
  | .lt => "lt"
  | .ltEq => "lt_eq"
  | .gt => "gt"
  | .gtEq => "gt_eq"
  | .and => "and"
  | .or => "or"
  | .not => "not"
  | .plus => "plus"
  | .minus => "minus"
  | .times => "times"
  | .divide => "divide"
  | .negate => "negate"
  | .isNull => "is_null"
  | .isNotNull => "is_not_null"
  | .like => "like"
  | .caseWhen => "case"
  | .cast _ => "cast"
  | .function _ => "function"

/-- An operator is written as its name.  A cast and a function carry one more name: that of the
target type, or of the function. -/
def toJson : ScalarOp → Json
  | .cast type => .object [("cast", .string type)]
  | .function name => .object [("function", .string name)]
  | op => .string op.key

/-- The operator of an alternative. -/
def ofAlternative? (name : String) (content : Option Json) : Option ScalarOp :=
  match name with
  | "cast" => .cast <$> Json.required Json.string? content
  | "function" => .function <$> Json.required Json.string? content
  | name => if Json.isVoid content then plain.find? fun op => op.key == name else none

end ScalarOp

namespace MultisetOp

/-- Every multiset operator. -/
def all : List MultisetOp :=
  [.collect, .union, .intersect, .except, .subset, .member, .cardinality, .element]

/-- The name of a multiset operator, which is the name of no scalar one. -/
def key : MultisetOp → String
  | .collect => "multiset"
  | .union => "multiset_union"
  | .intersect => "multiset_intersect"
  | .except => "multiset_except"
  | .subset => "submultiset"
  | .member => "member_of"
  | .cardinality => "cardinality"
  | .element => "element"

end MultisetOp

namespace PlanOp

/-- An operator of a plan is written as in its own family; nothing tells the family. -/
def toJson : PlanOp → Json
  | .scalar op => op.toJson
  | .multiset op => .string op.key

/-- A name is looked up among the multiset operators first. -/
def ofJson? : Decoder PlanOp := fun levels j => do
  let (name, content) ← Json.alternative? levels j
  match MultisetOp.all.find? fun op => op.key == name with
  | some op => if Json.isVoid content then some (.multiset op) else none
  | none => .scalar <$> ScalarOp.ofAlternative? name content

end PlanOp

/-! ## Expressions -/

namespace Expr

mutual

/-- An expression is written as an object of one member, named for its form. -/
def toJson : Expr → Json
  | .literal value => .object [("literal", value.toJson)]
  | .input ordinal => .object [("input_ref", .ofNat ordinal)]
  | .shared index => .object [("local_ref", .ofNat index)]
  | .call op operands =>
    .object [("call", .object [("op", op.toJson), ("operands", .array (toJsonAll operands))])]

/-- The expressions of a list, each as it is written. -/
def toJsonAll : List Expr → List Json
  | [] => []
  | e :: rest => e.toJson :: toJsonAll rest

end

mutual

/-- An expression: an object of one member, which tells the form. -/
def ofJson? : Decoder Expr
  | 0, _ => none
  | levels + 1, .object [(name, content)] =>
    match name with
    | "literal" => .literal <$> Literal.ofJson? levels content
    | "input_ref" => .input <$> Json.nat? content
    | "local_ref" => .shared <$> Json.nat? content
    | "call" => callOfJson? levels content
    | _ => none
  | _, _ => none

/-- What a call consists of: an operator and its operands. -/
def callOfJson? : Decoder Expr
  | 0, _ => none
  | levels + 1, j => do
    let [op, operands] ← Json.fields? ["op", "operands"] false j | none
    return .call (← Json.required (PlanOp.ofJson? levels) op)
      (← Json.required (listOfJson? levels) operands)

/-- An array of expressions. -/
def listOfJson? : Decoder (List Expr)
  | 0, _ => none
  | levels + 1, j => Json.items? (ofJson? levels) j

end

@[simp] theorem toJsonAll_eq_map (es : List Expr) : toJsonAll es = es.map toJson := by
  induction es with
  | nil => simp [toJsonAll]
  | cons e rest ih => simp [toJsonAll, ih]

end Expr

/-! ## Programs -/

namespace Program

/-- A program is written with the names of its rows on both sides. -/
def toJson (p : Program) : Json :=
  .object
    [("input", .ofStrings p.input),
     ("exprs", .ofList Expr.toJson p.exprs),
     ("projects", .ofNats p.projects),
     ("condition", .ofOption .ofNat p.condition),
     ("output", .ofStrings p.output)]

/-- A program as it is given, with nothing checked. -/
def ofJson? : Decoder Program
  | 0, _ => none
  | levels + 1, j => do
    let [input, exprs, projects, condition, output] ←
      Json.fields? ["input", "exprs", "projects", "condition", "output"] false j | none
    return {
      input := ← Json.required (Json.list? Json.string? levels) input
      exprs := ← Json.required (Expr.listOfJson? levels) exprs
      projects := ← Json.required (Json.list? Json.nat? levels) projects
      condition := ← Json.optional Json.nat? condition
      output := ← Json.required (Json.list? Json.string? levels) output }

end Program

end Pushdown
