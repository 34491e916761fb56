import Pushdown.Fields

/-!
# Tables

What is known of a table before it is queried.  A table belongs to the convention that it names,
if it names one; whether it may be changed and whether it offers an expression that reads it are
separate capabilities.
-/

namespace Pushdown

/-- A table, with what it can do and what is known of its rows. -/
structure Table where
  /-- The qualified name, outermost part first. -/
  name : List String
  fields : Fields
  rowCount : Option Float := none
  /-- Sets of columns on which no two rows agree. -/
  uniqueKeys : List (List Nat) := []
  host : Option String := none
  modifiable : Bool := false
  queryable : Bool := true

namespace Table

/-- The name in messages. -/
def displayName (t : Table) : String := ".".intercalate t.name

/-- The name that changes are sent to, if the table takes any. -/
def modifyTarget? (t : Table) : Option (List String) := if t.modifiable then some t.name else none

/-- The query that reads the table, if it has one. -/
def queryText? (t : Table) : Option String :=
  if t.queryable then some ("SELECT * FROM " ++ t.displayName) else none

/-- The name under which the table appears in a statement. -/
def baseName (t : Table) : String := t.name.getLast?.getD "t"

end Table

end Pushdown
