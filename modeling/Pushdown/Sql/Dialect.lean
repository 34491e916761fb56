import Pushdown.Sql.Node
import Pushdown.Text.Quoted

/-!
# Dialects

What a target database needs to be told apart for: how it quotes identifiers, and whether it
takes `NULLS FIRST` and `NULLS LAST` as written.  Where it does not, `Dialect.orderItems` puts a
key in front that is 1 for a null and 0 otherwise.
-/

namespace Pushdown.Sql

/-- Database products with a known dialect. -/
inductive Product where
  | ansi
  | calcite
  | postgres
  | mySql
  | mariaDb
  | oracle
  | sqlServer
  | h2
  | hsqldb
  | sqlite
  | db2
  | unknown
  deriving DecidableEq

/-- The name of a product in the text of a convention. -/
def Product.name : Product → String
  | .ansi => "Ansi"
  | .calcite => "Calcite"
  | .postgres => "Postgres"
  | .mySql => "MySql"
  | .mariaDb => "MariaDb"
  | .oracle => "Oracle"
  | .sqlServer => "SqlServer"
  | .h2 => "H2"
  | .hsqldb => "Hsqldb"
  | .sqlite => "Sqlite"
  | .db2 => "Db2"
  | .unknown => "Unknown"

/-- How a target expresses the place of nulls in an ordering. -/
inductive NullOrdering where
  /-- As written. -/
  | native
  /-- By a leading key `ISNULL(x)`. -/
  | isNullKey
  /-- By a leading key `CASE WHEN x IS NULL THEN 1 ELSE 0 END`. -/
  | caseKey
  deriving DecidableEq

/-- How identifiers are quoted. -/
inductive QuoteStyle where
  | none
  | doubleQuote
  | backtick
  | bracket
  deriving DecidableEq

namespace QuoteStyle

/-- The opening and the closing character of a style that has them. -/
def marks? : QuoteStyle → Option (Char × Char)
  | .none => Option.none
  | .doubleQuote => some ('"', '"')
  | .backtick => some ('\x60', '\x60')
  | .bracket => some ('[', ']')

/-- One part of an identifier in the style. -/
def quote (style : QuoteStyle) (part : String) : String :=
  match style.marks? with
  | some (opening, closing) => Text.quoted opening closing part
  | Option.none => part

/-- A whole identifier in the style: its parts with points between them. -/
def identifier (style : QuoteStyle) (parts : List String) : String :=
  ".".intercalate (parts.map style.quote)

end QuoteStyle

/-- What a dialect decides. -/
structure Policy where
  nullOrdering : NullOrdering := .native
  quoteStyle : QuoteStyle := .doubleQuote
  deriving DecidableEq

/-- The policy of a product; most follow the standard. -/
def Policy.ofProduct : Product → Policy
  | .mySql | .mariaDb => { nullOrdering := .isNullKey, quoteStyle := .backtick }
  | .sqlServer => { nullOrdering := .caseKey, quoteStyle := .bracket }
  | _ => {}

/-- A product together with the policy used for it. -/
structure Dialect where
  product : Product
  policy : Policy
  deriving DecidableEq

namespace Dialect

/-- The dialect of a product, with the policy that goes with it. -/
def ofProduct (product : Product) : Dialect := ⟨product, .ofProduct product⟩

/-- The dialect with those parts of its policy replaced that are given. -/
def override (d : Dialect) (nullOrdering : Option NullOrdering) (quoteStyle : Option QuoteStyle) :
    Dialect :=
  { d with
    policy :=
      { nullOrdering := nullOrdering.getD d.policy.nullOrdering
        quoteStyle := quoteStyle.getD d.policy.quoteStyle } }

/-- Whether the dialect has `NULLS FIRST` and `NULLS LAST`. -/
def supportsNullOrdering (d : Dialect) : Bool := d.policy.nullOrdering == .native

/-- The key that is 1 when `expr` is null and 0 otherwise, where the dialect needs one. -/
def nullKey? (d : Dialect) (expr : Node) : Option Node :=
  match d.policy.nullOrdering with
  | .native => none
  | .isNullKey => some (.scalarCall (.function "ISNULL") [expr])
  | .caseKey =>
    some (.scalarCall .caseWhen
      [.scalarCall .isNull [expr], .literal (.integer 1), .literal (.integer 0)])

/-- The keys that order by `expr` and put nulls where `nulls` says. -/
def orderItems (d : Dialect) (expr : Node) (descending : Bool) (nulls : Option NullsOrder) :
    List OrderItem :=
  match nulls with
  | none => [⟨expr, descending, none⟩]
  | some place =>
    match d.nullKey? expr with
    | none => [⟨expr, descending, some place⟩]
    | some key => [⟨key, place == .first, none⟩, ⟨expr, descending, none⟩]

end Dialect

end Pushdown.Sql
