import Pushdown.Sql.Dialect

/-!
# Conventions

A convention is one remote database, reached through one dialect.  Tables name the convention
that hosts them.
-/

namespace Pushdown

/-- A remote database by its name, and the dialect that it is spoken to in. -/
structure Convention where
  name : String
  dialect : Sql.Dialect
  deriving DecidableEq

/-- The text of a convention: its name and its product. -/
def Convention.text (c : Convention) : String := c.name ++ "(" ++ c.dialect.product.name ++ ")"

end Pushdown
