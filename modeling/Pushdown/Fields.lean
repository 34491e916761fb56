import Pushdown.Naming

/-!
# Fields of a row

A row type is the list of its field names, in order.
-/

namespace Pushdown

/-- The field names of a row, in order. -/
abbrev Fields := List String

namespace Fields

/-- The one field of a statement that changes a table: how many rows it changed. -/
def rowCount : Fields := ["ROWCOUNT"]

/-- The fields of a joined row, with clashes renamed. -/
def joined (left right : Fields) : Fields := Naming.distinct (left ++ right)

end Fields

end Pushdown
