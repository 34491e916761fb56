import Pushdown.Json.Parser
import Pushdown.Json.Sql
import Pushdown.Relation.Estimate
import Pushdown.Settings

/-!
# The JSON form of the parts of plans, and of settings
-/

namespace Pushdown

open Json (Decoder)

/-! ## Fields, kinds and keys -/

namespace Fields

/-- The fields of a row are written as an array of their names. -/
def toJson (fields : Fields) : Json := .ofStrings fields

/-- The fields of a row by their names, which may repeat. -/
def ofJson? : Decoder Fields := Json.list? Json.string?

end Fields

namespace RelKind

/-- The name of a kind of relation. -/
def key : RelKind → String
  | .tableScan => "table_scan"
  | .join => "join"
  | .filter => "filter"
  | .project => "project"
  | .calculate => "calc"
  | .aggregate => "aggregate"
  | .sort => "sort"
  | .set .union => "union"
  | .set .intersect => "intersect"
  | .set .minus => "minus"
  | .values => "values"
  | .tableModify => "table_modify"

/-- A kind of relation is written as its name. -/
def toJson (kind : RelKind) : Json := .string kind.key

/-- A kind of relation by its name. -/
def ofJson? : Decoder RelKind := Json.choice? all key

end RelKind

namespace Direction

/-- Both directions of a sort. -/
def all : List Direction := [.ascending, .descending]

/-- The name of a direction. -/
def key : Direction → String
  | .ascending => "ascending"
  | .descending => "descending"

end Direction

namespace NullPlacement

/-- Both places for nulls, and no request for either. -/
def all : List NullPlacement := [.unspecified, .first, .last]

/-- The name of a request for a place of nulls. -/
def key : NullPlacement → String
  | .unspecified => "unspecified"
  | .first => "first"
  | .last => "last"

end NullPlacement

namespace SortKey

/-- A sort key is written in full, also where it asks for no place of nulls. -/
def toJson (k : SortKey) : Json :=
  .object
    [("field", .ofNat k.field), ("direction", .string k.direction.key),
     ("nulls", .string k.nulls.key)]

/-- A sort key; nothing in it has a default. -/
def ofJson? : Decoder SortKey
  | 0, _ => none
  | levels + 1, j => do
    let [field, direction, nulls] ← Json.fields? ["field", "direction", "nulls"] false j | none
    return {
      field := ← Json.required Json.nat? field
      direction := ← Json.required (Json.choice? Direction.all Direction.key levels) direction
      nulls := ← Json.required (Json.choice? NullPlacement.all NullPlacement.key levels) nulls }

end SortKey

namespace AggregateCall

/-- A call of an aggregate is written with the positions of its arguments. -/
def toJson (c : AggregateCall) : Json :=
  .object
    [("function", .string c.function), ("distinct", .bool c.distinct), ("args", .ofNats c.args),
     ("name", .string c.name)]

/-- A call of an aggregate; nothing in it has a default. -/
def ofJson? : Decoder AggregateCall
  | 0, _ => none
  | levels + 1, j => do
    let [function, distinct, args, name] ←
      Json.fields? ["function", "distinct", "args", "name"] false j | none
    return {
      function := ← Json.required Json.string? function
      distinct := ← Json.required Json.bool? distinct
      args := ← Json.required (Json.list? Json.nat? levels) args
      name := ← Json.required Json.string? name }

end AggregateCall

namespace ModifyOperation

/-- Every way to change a table. -/
def all : List ModifyOperation := [.insert, .update, .delete, .merge]

/-- The name of a way to change a table. -/
def key : ModifyOperation → String
  | .insert => "insert"
  | .update => "update"
  | .delete => "delete"
  | .merge => "merge"

end ModifyOperation

/-! ## Costs -/

namespace Cost

/-- A cost is written as three numbers; one that is not finite is null. -/
def toJson (c : Cost) : Json :=
  .object
    [("rows", .ofDouble (.ofFloat c.rows)), ("cpu", .ofDouble (.ofFloat c.cpu)),
     ("io", .ofDouble (.ofFloat c.io))]

/-- A cost of three numbers. -/
def ofJson? : Decoder Cost
  | 0, _ => none
  | _ + 1, j => do
    let [rows, cpu, io] ← Json.fields? ["rows", "cpu", "io"] false j | none
    return ⟨(← Json.required Json.double? rows).toFloat,
      (← Json.required Json.double? cpu).toFloat,
      (← Json.required Json.double? io).toFloat⟩

end Cost

/-! ## Settings -/

namespace Settings

/-- Settings are written in full; an override that is not there is null. -/
def toJson (s : Settings) : Json :=
  .object
    [("convention", .string s.convention), ("product", s.product.toJson),
     ("null_ordering", .ofOption Sql.NullOrdering.toJson s.nullOrdering),
     ("identifier_quote", .ofOption Sql.QuoteStyle.toJson s.quoteStyle),
     ("disabled_rules", .ofStrings s.disabledRules)]

/-- A field that may be absent, and then has a default. -/
def orDefault {α : Type} (default : α) (decode : Json → Option α) : Option Json → Option α
  | none => some default
  | some j => decode j

/-- Settings in which every field may be left out. -/
def ofJson? : Decoder Settings
  | 0, _ => none
  | levels + 1, j => do
    let [convention, product, nullOrdering, quoteStyle, disabledRules] ←
      Json.fields?
        ["convention", "product", "null_ordering", "identifier_quote", "disabled_rules"] true j
      | none
    let standard : Settings := {}
    return {
      convention := ← orDefault standard.convention Json.string? convention
      product := ← orDefault standard.product (Sql.Product.ofJson? levels) product
      nullOrdering := ← Json.optional (Sql.NullOrdering.ofJson? levels) nullOrdering
      quoteStyle := ← Json.optional (Sql.QuoteStyle.ofJson? levels) quoteStyle
      disabledRules :=
        ← orDefault standard.disabledRules (Json.list? Json.string? levels) disabledRules }

/-- Settings given as JSON text, if they are in order. -/
def parse (text : String) : Except Error Settings :=
  match (Json.parse? text).bind (ofJson? Json.nestingLimit) with
  | none => .error .malformedSettings
  | some settings => do
    settings.validate
    return settings

end Settings

end Pushdown
