/-!
# Kinds of relational operators

The kind of an operator is what it is apart from its inputs and its attributes.  Conversion rules
are chosen by it, and messages name it.
-/

namespace Pushdown

/-- The operators of set algebra. -/
inductive SetKind where
  | union
  | intersect
  | minus
  deriving DecidableEq

/-- The kinds of operators that plans are built from. -/
inductive RelKind where
  | tableScan
  | join
  | filter
  | project
  | calculate
  | aggregate
  | sort
  | set (kind : SetKind)
  | values
  | tableModify
  deriving DecidableEq

namespace RelKind

/-- The name of a kind in messages. -/
def name : RelKind → String
  | .tableScan => "TableScan"
  | .join => "Join"
  | .filter => "Filter"
  | .project => "Project"
  | .calculate => "Calc"
  | .aggregate => "Aggregate"
  | .sort => "Sort"
  | .set .union => "Union"
  | .set .intersect => "Intersect"
  | .set .minus => "Minus"
  | .values => "Values"
  | .tableModify => "TableModify"

/-- All kinds, each once. -/
def all : List RelKind :=
  [.tableScan, .join, .filter, .project, .calculate, .aggregate, .sort, .set .union,
   .set .intersect, .set .minus, .values, .tableModify]

end RelKind

end Pushdown
