import Pushdown.Number.Shortest

/-!
# Literals

Constants of a query.  Decimals are kept as their text, doubles as their bits.
-/

namespace Pushdown

/-- A constant with its type. -/
inductive Literal where
  | null
  | boolean (value : Bool)
  | integer (value : Int64)
  | decimal (text : String)
  | double (value : Binary64)
  | string (text : String)
  deriving DecidableEq

namespace Literal

/-- Agreement as values: doubles agree as numbers, all other literals when they are equal. -/
def sameValue : Literal → Literal → Bool
  | .double x, .double y => x.sameValue y
  | a, b => a == b

/-- Whether the literal has a minus sign in front.  That of a NaN is not written, but counts. -/
def opensWithMinus : Literal → Bool
  | .integer n => decide (n.toInt < 0)
  | .decimal text => text.toList.head? == some '-'
  | .double x => x.isNegative
  | _ => false

end Literal

end Pushdown
